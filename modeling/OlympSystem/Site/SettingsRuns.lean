/-
  OlympSystem.Site.SettingsRuns — the requests of `Contests/Edit` in any order.

  A request moves from stage to stage (`Goes`) and writes once at most (`Written`). Two saves
  of one contest may overlap: each column is then of one form or the other, and what the forms
  were checked for as a whole (the order of the times, the abbreviation) need not hold of the
  row. The PDF of a contest may be uploaded and removed at once; its row and its blob stay
  together.

  Proved, over every interleaving, with exceptions at every access:
  - `settings_kept`: who may not manage a contest changes nothing of it, and a change of one
    contest leaves the others and their PDFs alone; a new contest comes with the claim of its
    owner; every column is one a form accepts, and every PDF is one that was checked, at one
    contest.
  - `forms_reopen`: while no save overlaps another, the times of each contest are in order, no
    abbreviation is there twice, and the form that shows a contest can be sent back as it is.
-/

import OlympSystem.Lib.Runs
import OlympSystem.Site.ContestSettings

namespace OlympSystem.Site.ContestSettings

open Lib.Runs Lib.Tables Lib.Text OlympSystem.Checker Accounts TestArchive
open Accounts.ContestPages (ModelError)
open Accounts.CompetitorPages (SignedIn)

/-! ## What a request does between two accesses -/

section Moves

/-- Where a request that writes nothing stands next. -/
inductive Goes (zone : LocalZone) (collation : String → List Nat) (page : Page) (store : Store) : Stage → Prop
  | answers (response : Response) : Goes zone collation page store (.answered response)
  | stays : Goes zone collation page store page.stage
  | starts (hmay : SignedIn.mayEdit page.user page.request = true) (hrequest : page.request.contestId = none) :
      Goes zone collation page store (.loaded none)
  | loads {contest : Contest} (hmay : SignedIn.mayEdit page.user page.request = true)
      (hrequest : page.request.contestId = some contest.id) (hcontest : contest ∈ store.contests.rows) :
      Goes zone collation page store (.loaded (some contest))
  | runs (hmay : SignedIn.mayEdit page.user page.request = true) : Goes zone collation page store .running
  | applies {loaded : Option Contest} {settings : Settings} {input : InputModel} {binding : List ModelError}
      (hstage : page.stage = .loaded loaded)
      (herrors : saveErrors zone collation store page.request.contestId input binding = [])
      (happly : input.applyTo zone = .ok settings) : Goes zone collation page store (.applied loaded settings)
  | loadsPdf {contest : Contest} (hstage : page.stage = .running) (hrequest : page.request.contestId = some contest.id)
      (hcontest : contest ∈ store.contests.rows) :
      Goes zone collation page store (.pdfLoaded contest (store.loadPdf contest))

inductive Written (options : Options) (page : Page) (store : Store) : Store → Prop
  | settings {contest : Contest} {settings : Settings} (hstage : page.stage = .applied (some contest) settings) :
      Written options page store (store.updateContest contest.id (settingsColumns contest.settings settings))
  | added {settings : Settings} (hstage : page.stage = .applied none settings)
      (huser : page.user.userId ∈ store.users) :
      Written options page store (store.addContest settings page.user.userId)
  | unfrozen {id : Int} (hstage : page.stage = .running) (hrequest : page.request = .unfreeze id) :
      Written options page store (store.updateContest id (freezeColumn none))
  | pdfSaved {contest : Contest} {pdf : Option BlobRow} {data : Bytes} {store' : Store}
      (hstage : page.stage = .pdfLoaded contest pdf) (hdata : ∃ file, checkPdf options file = .ok data)
      (hsave : store.savePdf contest pdf data = .ok store') : Written options page store store'
  | pdfDeleted {contest : Contest} {blob : BlobRow} {store' : Store}
      (hstage : page.stage = .pdfLoaded contest (some blob))
      (hdelete : store.deletePdf contest blob = .ok store') : Written options page store store'

/-- A request that has written is answered. -/
inductive Moves (zone : LocalZone) (options : Options) (collation : String → List Nat) (page : Page) (store : Store) :
    Stage × Store → Prop
  | goes {stage : Stage} (hgoes : Goes zone collation page store stage) :
      Moves zone options collation page store (stage, store)
  | writes {store' : Store} (response : Response) (hwritten : Written options page store store') :
      Moves zone options collation page store (.answered response, store')

variable {zone : LocalZone} {options : Options} {collation : String → List Nat} {page : Page}
  {o : Outside} {store : Store}

theorem Moves.answers (response : Response) : Moves zone options collation page store (.answered response, store) :=
  .goes (.answers response)

theorem Moves.stays : Moves zone options collation page store (page.stage, store) := .goes .stays

theorem find_id {id : Int} {contest : Contest} (h : store.contests.find? id = some contest) :
    contest ∈ store.contests.rows ∧ contest.id = id := Table.find?_some h

theorem advance_moves : Moves zone options collation page store (page.advance zone options collation o store) := by
  obtain ⟨user, request, stage⟩ := page
  cases stage with
  | received =>
    simp only [Page.advance]
    split
    · exact .answers _
    · next hmay =>
      rw [Bool.not_eq_true, Bool.not_eq_false'] at hmay
      cases request with
      | save id input binding =>
        cases id with
        | none => exact .goes (.starts hmay rfl)
        | some id =>
          dsimp only
          split
          · exact .answers _
          · exact .answers _
          · next hfind =>
            obtain ⟨hcontest, hid⟩ := find_id hfind
            exact .goes (.loads hmay (congrArg some hid.symm) hcontest)
      | unfreeze id | uploadPdf id file | removePdf id =>
        dsimp only
        split
        · exact .answers _
        · exact .answers _
        · exact .goes (.runs hmay)
  | loaded contest =>
    cases request with
    | save id input binding =>
      simp only [Page.advance]
      split
      · exact .answers _
      · split
        · next herrors happly => exact .goes (.applies rfl herrors happly)
        · exact .answers _
        · exact .answers _
    | unfreeze id | uploadPdf id file | removePdf id => exact .stays
  | applied contest settings =>
    cases request with
    | save id input binding =>
      cases contest with
      | some contest =>
        simp only [Page.advance]
        split
        · exact .answers _
        · exact .writes _ (.settings rfl)
      | none =>
        simp only [Page.advance]
        split
        · exact .answers _
        · split
          · exact .answers _
          · next huser =>
            split
            · exact .answers _
            · rw [Bool.not_eq_true, Bool.not_eq_false'] at huser
              exact .writes _ (.added rfl (List.contains_iff_mem.mp huser))
    | unfreeze id | uploadPdf id file | removePdf id => cases contest <;> exact .stays
  | running =>
    cases request with
    | save id input binding => exact .stays
    | unfreeze id =>
      simp only [Page.advance]
      split
      · exact .answers _
      · exact .writes _ (.unfrozen rfl rfl)
    | uploadPdf id file =>
      simp only [Page.advance]
      split
      · exact .answers _
      · exact .answers _
      · exact .answers _
      · next hfind =>
        obtain ⟨hcontest, hid⟩ := find_id hfind
        exact .goes (.loadsPdf rfl (congrArg some hid.symm) hcontest)
    | removePdf id =>
      simp only [Page.advance]
      split
      · exact .answers _
      · exact .answers _
      · next hfind =>
        obtain ⟨hcontest, hid⟩ := find_id hfind
        split
        · exact .answers _
        · next hpdf => exact hpdf ▸ .goes (.loadsPdf rfl (congrArg some hid.symm) hcontest)
  | pdfLoaded contest pdf =>
    cases request with
    | save id input binding | unfreeze id => cases pdf <;> exact .stays
    | uploadPdf id file =>
      cases pdf <;>
      · simp only [Page.advance]
        split
        · exact .answers _
        · exact .answers _
        · next hdata _ =>
          split
          · exact .answers _
          · next hsave => exact .writes _ (.pdfSaved rfl ⟨file, hdata⟩ hsave)
    | removePdf id =>
      cases pdf with
      | none => exact .stays
      | some blob =>
        simp only [Page.advance]
        split
        · exact .answers _
        · split
          · exact .answers _
          · next hdelete => exact .writes _ (.pdfDeleted rfl hdelete)
  | answered response => cases request <;> exact .stays

end Moves

/-! ## The tables -/

section Tables

variable {zone : LocalZone} {options : Options} {store : Store}

def ValidPdf (options : Options) (data : Bytes) : Prop :=
  data ≠ [] ∧ data.length ≤ options.maxPdfBytes ∧ pdfSignature <+: data

structure StoreOk (zone : LocalZone) (options : Options) (store : Store) : Prop where
  settings : ∀ contest ∈ store.contests.rows, WellFormed zone contest.settings
  pdf_of : ∀ contest ∈ store.contests.rows, ∀ id ∈ contest.problemPdfId, ∃ blob ∈ store.blobs.rows, blob.id = id ∧
    ValidPdf options blob.data
  /-- No PDF is at two contests. -/
  pdf_own : ∀ contest ∈ store.contests.rows, ∀ other ∈ store.contests.rows, ∀ id, contest.problemPdfId = some id →
    other.problemPdfId = some id → contest.id = other.id

theorem checkPdf_ok {file : Option Bytes} {data : Bytes} (h : checkPdf options file = .ok data) :
    ValidPdf options data := by
  unfold checkPdf at h
  split at h
  · cases h
  · split at h
    · cases h
    · next hsize =>
      split at h
      · cases h
      · next hsignature =>
        cases h
        rw [Bool.or_eq_true, decide_eq_true_eq, decide_eq_true_eq, not_or, not_lt] at hsize
        rw [Bool.not_eq_true, Bool.not_eq_false'] at hsignature
        exact ⟨List.ne_nil_of_length_pos (Nat.pos_of_ne_zero hsize.1), hsize.2,
          List.isPrefixOf_iff_prefix.mp hsignature⟩

theorem mem_updateContest {id : Int} {columns : Update Contest.id} {contest' : Contest}
    (h : contest' ∈ (store.updateContest id columns).contests.rows) : ∃ contest ∈ store.contests.rows,
      contest' = if contest.id == id then columns.apply contest else contest := by
  obtain ⟨contest, hmem, rfl⟩ := List.mem_map.mp h
  exact ⟨contest, hmem, rfl⟩

/-- Each column holds what the row or the form has. -/
theorem wellFormed_write {loaded current stored : Settings} (hcurrent : WellFormed zone current)
    (hstored : WellFormed zone stored) : WellFormed zone (loaded.write current stored) := by
  have heither : ∀ {γ : Type} [DecidableEq γ] {P : γ → Prop} (original a b : γ), P a → P b →
      P (saved original a b) := by
    intro γ _ P original a b ha hb
    unfold saved
    split <;> assumption
  constructor
  · exact heither (P := fun name => isBlank name = false ∧ trim name = name ∧ (ordinal name).length ≤ 256) _ _ _
      hcurrent.name_text hstored.name_text
  · exact heither (P := fun abbr => isAbbr abbr = true ∧ (ordinal abbr).length ≤ 128) _ _ _
      hcurrent.abbr_text hstored.abbr_text
  · exact heither (P := Shown zone) _ _ _ hcurrent.startTime_shown hstored.startTime_shown
  · exact heither (P := Shown zone) _ _ _ hcurrent.endTime_shown hstored.endTime_shown
  · exact heither (P := fun time => ∀ t ∈ time, Shown zone t) _ _ _ hcurrent.problemShowTime_shown
      hstored.problemShowTime_shown
  · exact heither (P := fun time => ∀ t ∈ time, Shown zone t) _ _ _ hcurrent.freezeTime_shown hstored.freezeTime_shown

/-- An update of a contest that leaves well-formed settings and its PDF, or takes that away. -/
theorem storeOk_update (h : StoreOk zone options store) {id : Int} {columns : Update Contest.id}
    (hsettings : ∀ contest ∈ store.contests.rows, WellFormed zone (columns.apply contest).settings)
    (hpdf : ∀ contest, (columns.apply contest).problemPdfId = contest.problemPdfId ∨
      (columns.apply contest).problemPdfId = none) :
    StoreOk zone options (store.updateContest id columns) := by
  have hkeeps : ∀ contest' ∈ (store.updateContest id columns).contests.rows, ∃ contest ∈ store.contests.rows,
      contest.id = contest'.id ∧ WellFormed zone contest'.settings ∧
        ∀ pdf, contest'.problemPdfId = some pdf → contest.problemPdfId = some pdf := by
    intro contest' hmem
    obtain ⟨contest, hcontest, rfl⟩ := mem_updateContest hmem
    refine ⟨contest, hcontest, ?_⟩
    split
    · refine ⟨(columns.keeps contest).symm, hsettings contest hcontest, fun pdf heq => ?_⟩
      rcases hpdf contest with hsame | hnone
      · rw [← hsame]; exact heq
      · rw [hnone] at heq; cases heq
    · exact ⟨rfl, h.settings contest hcontest, fun pdf heq => heq⟩
  refine ⟨fun contest' hmem => ?_, fun contest' hmem pdf hmemPdf => ?_,
    fun contest' hmem other' hother pdf hone hsecond => ?_⟩
  · obtain ⟨contest, -, -, hwell, -⟩ := hkeeps contest' hmem
    exact hwell
  · obtain ⟨contest, hcontest, -, -, hsame⟩ := hkeeps contest' hmem
    exact h.pdf_of contest hcontest pdf (hsame pdf hmemPdf)
  · obtain ⟨contest, hcontest, hid, -, hsame⟩ := hkeeps contest' hmem
    obtain ⟨other, hotherMem, hotherId, -, hotherSame⟩ := hkeeps other' hother
    rw [← hid, ← hotherId]
    exact h.pdf_own contest hcontest other hotherMem pdf (hsame pdf hone) (hotherSame pdf hsecond)

/-- The ids of the PDFs are those of blobs. -/
theorem StoreOk.pdf_below (h : StoreOk zone options store) {contest : Contest}
    (hcontest : contest ∈ store.contests.rows)
    {id : Int} (hid : contest.problemPdfId = some id) : id < store.blobs.next := by
  obtain ⟨blob, hblob, rfl, -⟩ := h.pdf_of contest hcontest id hid
  exact store.blobs.below blob hblob

theorem storeOk_add (h : StoreOk zone options store) {settings : Settings}
    (hsettings : WellFormed zone settings) (userId : Int) :
    StoreOk zone options (store.addContest settings userId) := by
  have hmem : ∀ contest ∈ (store.addContest settings userId).contests.rows, contest ∈ store.contests.rows ∨
      contest = ⟨store.contests.next, settings, none⟩ := by
    intro contest hcontest
    rcases List.mem_append.mp hcontest with hcontest | hcontest
    · exact Or.inl hcontest
    · exact Or.inr (List.mem_singleton.mp hcontest)
  refine ⟨fun contest hcontest => ?_, fun contest hcontest id hid => ?_,
    fun contest hcontest other hother id hone hsecond => ?_⟩
  · rcases hmem contest hcontest with hold | rfl
    · exact h.settings contest hold
    · exact hsettings
  · rcases hmem contest hcontest with hold | rfl
    · exact h.pdf_of contest hold id hid
    · cases hid
  · rcases hmem contest hcontest with hold | rfl
    · rcases hmem other hother with hold' | rfl
      · exact h.pdf_own contest hold other hold' id hone hsecond
      · cases hsecond
    · cases hone

/-- A contest that gets a PDF gets a new blob. -/
theorem storeOk_insert (h : StoreOk zone options store) {contestId : Int} {data : Bytes}
    (hdata : ValidPdf options data) :
    StoreOk zone options { store.updateContest contestId (pdfColumn (some store.blobs.next)) with
      blobs := store.blobs.insert TestArchive.Store.newBlob data } := by
  refine ⟨fun contest' hmem => ?_, fun contest' hmem pdf hpdf => ?_,
    fun contest' hmem other' hother pdf hone hsecond => ?_⟩
  · obtain ⟨contest, hcontest, rfl⟩ := mem_updateContest hmem
    split <;> exact h.settings contest hcontest
  · obtain ⟨contest, hcontest, rfl⟩ := mem_updateContest hmem
    split at hpdf
    · cases hpdf
      exact ⟨⟨store.blobs.next, data⟩, List.mem_append_right _ (List.mem_singleton_self _), rfl, hdata⟩
    · obtain ⟨blob, hblob, hid, hvalid⟩ := h.pdf_of contest hcontest pdf hpdf
      exact ⟨blob, List.mem_append_left _ hblob, hid, hvalid⟩
  · obtain ⟨contest, hcontest, rfl⟩ := mem_updateContest hmem
    obtain ⟨other, hotherMem, rfl⟩ := mem_updateContest hother
    split at hone
    · next hcontestId =>
      split at hsecond
      · next hotherId =>
        rw [if_pos hcontestId, if_pos hotherId]
        exact (eq_of_beq hcontestId).trans (eq_of_beq hotherId).symm
      · have hbelow := h.pdf_below hotherMem hsecond
        cases hone
        omega
    · next hcontestId =>
      split at hsecond
      · have hbelow := h.pdf_below hcontest hone
        cases hsecond
        omega
      · next hotherId =>
        rw [if_neg hcontestId, if_neg hotherId]
        exact h.pdf_own contest hcontest other hotherMem pdf hone hsecond

/-- The data of a blob are replaced by checked ones. -/
theorem storeOk_data (h : StoreOk zone options store) {blob : BlobRow} {data : Bytes} (hdata : ValidPdf options data)
    (hne : data ≠ blob.data) :
    StoreOk zone options { store with
      blobs := store.blobs.update ((TestArchive.Store.dataColumn blob data).restrict (·.id == blob.id)) } where
  settings := h.settings
  pdf_own := h.pdf_own
  pdf_of contest hcontest id hid := by
    obtain ⟨row, hrow, hrowId, hvalid⟩ := h.pdf_of contest hcontest id hid
    refine ⟨_, List.mem_map_of_mem hrow, (Update.keeps _ row).trans hrowId, ?_⟩
    rw [Update.restrict_apply]
    split
    · show ValidPdf options (saved blob.data data row.data)
      unfold saved
      rw [if_neg hne]
      exact hdata
    · exact hvalid

/-- A blob that no contest refers to any more is deleted. -/
theorem storeOk_delete (h : StoreOk zone options store) {blobId : Int}
    (hunused : ∀ contest ∈ store.contests.rows, contest.problemPdfId ≠ some blobId) :
    StoreOk zone options { store with blobs := store.blobs.remove (·.id == blobId) } where
  settings := h.settings
  pdf_own := h.pdf_own
  pdf_of contest hcontest id hid := by
    obtain ⟨row, hrow, hrowId, hvalid⟩ := h.pdf_of contest hcontest id hid
    refine ⟨row, List.mem_filter.mpr ⟨hrow, ?_⟩, hrowId, hvalid⟩
    rw [Bool.not_eq_true']
    refine beq_false_of_ne fun heq => hunused contest hcontest ?_
    rw [← heq, hrowId]
    exact hid

end Tables

/-! ## What is known between two accesses -/

section Pages

variable {zone : LocalZone} {options : Options} {collation : String → List Nat} {page : Page} {o : Outside}
  {store store' : Store}

/-- The blob is an old one, and of no other contest. -/
def PdfOf (store : Store) (contestId blobId : Int) : Prop :=
  blobId < store.blobs.next ∧ ∀ contest ∈ store.contests.rows, contest.problemPdfId = some blobId →
    contest.id = contestId

/-- What holds of a request, by where it stands. -/
def PageOk (zone : LocalZone) (store : Store) (page : Page) : Prop :=
  match page.stage with
  | .received | .answered _ => True
  | .running => SignedIn.mayEdit page.user page.request = true
  | .loaded contest => SignedIn.mayEdit page.user page.request = true ∧ page.request.contestId = contest.map Contest.id
  | .applied contest settings => SignedIn.mayEdit page.user page.request = true ∧
      page.request.contestId = contest.map Contest.id ∧ WellFormed zone settings ∧ Ordered settings
  | .pdfLoaded contest pdf => SignedIn.mayEdit page.user page.request = true ∧
      page.request.contestId = some contest.id ∧ ∀ blob ∈ pdf, PdfOf store contest.id blob.id

theorem mayEdit_manage {user : SignedIn} {request : Request} {id : Int} (h : SignedIn.mayEdit user request = true)
    (hid : request.contestId = some id) : user.canManage id = true := by
  unfold SignedIn.mayEdit at h
  rw [hid, Option.all_some, Bool.and_eq_true] at h
  exact h.2

theorem mayEdit_create {user : SignedIn} {request : Request} (h : SignedIn.mayEdit user request = true) :
    user.canCreate = true := by
  unfold SignedIn.mayEdit at h
  rw [Bool.and_eq_true] at h
  exact h.1

/-- The PDF that is loaded is the contest's own. -/
theorem loadPdf_of (h : StoreOk zone options store) {contest : Contest} (hcontest : contest ∈ store.contests.rows) :
    ∀ blob ∈ store.loadPdf contest, PdfOf store contest.id blob.id := by
  intro blob hblob
  obtain ⟨id, hid, hfind⟩ := Option.bind_eq_some_iff.mp hblob
  obtain ⟨hmem, rfl⟩ := Table.find?_some hfind
  exact ⟨store.blobs.below blob hmem, fun other hother hpdf => h.pdf_own other hother contest hcontest blob.id hpdf hid⟩

/-- A form without errors, and what it saves. -/
theorem saveErrors_nil {id : Option Int} {input : InputModel} {binding : List ModelError}
    (h : saveErrors zone collation store id input binding = []) :
    input.errors zone = [] ∧ isUsed collation store id input.abbr = false := by
  unfold saveErrors at h
  rw [List.append_eq_nil_iff] at h
  exact ⟨errorsWith_nil h.1, Bool.eq_false_iff.mpr (if_nil h.2)⟩

theorem goes_pageOk {stage : Stage} (h : StoreOk zone options store) (hpage : PageOk zone store page)
    (hgoes : Goes zone collation page store stage) : PageOk zone store { page with stage := stage } := by
  unfold PageOk at hpage ⊢
  cases hgoes with
  | answers response => trivial
  | stays => exact hpage
  | starts hmay hrequest => exact ⟨hmay, hrequest⟩
  | loads hmay hrequest hcontest => exact ⟨hmay, hrequest⟩
  | runs hmay => exact hmay
  | applies hstage herrors happly =>
    rw [hstage] at hpage
    obtain ⟨settings, happly', hwell, hordered, -⟩ := applyTo_wellFormed (saveErrors_nil herrors).1
    rw [happly, Except.ok.injEq] at happly'
    rw [happly']
    exact ⟨hpage.1, hpage.2, hwell, hordered⟩
  | loadsPdf hstage hrequest hcontest =>
    rw [hstage] at hpage
    exact ⟨hpage, hrequest, loadPdf_of h hcontest⟩

/-! ## What a write leaves -/

theorem savePdf_cases {contest : Contest} {pdf : Option BlobRow} {data : Bytes}
    (h : store.savePdf contest pdf data = .ok store') :
    (pdf = none ∧ store' = { store.updateContest contest.id (pdfColumn (some store.blobs.next)) with
        blobs := store.blobs.insert TestArchive.Store.newBlob data }) ∨
      store' = store ∨
      ∃ blob, pdf = some blob ∧ data ≠ blob.data ∧ store' = { store with
        blobs := store.blobs.update ((TestArchive.Store.dataColumn blob data).restrict (·.id == blob.id)) } := by
  unfold Store.savePdf at h
  split at h
  · cases h
    exact Or.inl ⟨rfl, rfl⟩
  · next blob =>
    split at h
    · cases h
      exact Or.inr (Or.inl rfl)
    · next hne =>
      split at h
      · cases h
      · cases h
        exact Or.inr (Or.inr ⟨blob, rfl, hne, rfl⟩)

theorem deletePdf_cases {contest : Contest} {blob : BlobRow} (h : store.deletePdf contest blob = .ok store') :
    (∀ row ∈ (store.updateContest contest.id (pdfColumn none)).contests.rows, row.problemPdfId ≠ some blob.id) ∧
      store' = { store.updateContest contest.id (pdfColumn none) with
        blobs := store.blobs.remove (·.id == blob.id) } := by
  unfold Store.deletePdf at h
  dsimp only at h
  split at h
  · cases h
  · next hunused =>
    cases h
    refine ⟨fun row hrow heq => ?_, rfl⟩
    rw [Bool.or_eq_true, not_or] at hunused
    exact hunused.2 (List.any_eq_true.mpr ⟨row, hrow, beq_iff_eq.mpr heq⟩)

theorem written_storeOk (h : StoreOk zone options store) (hpage : PageOk zone store page)
    (hwritten : Written options page store store') : StoreOk zone options store' := by
  cases hwritten with
  | settings hstage =>
    unfold PageOk at hpage
    rw [hstage] at hpage
    exact storeOk_update h (fun row hrow => wellFormed_write hpage.2.2.1 (h.settings row hrow)) fun _ => Or.inl rfl
  | added hstage =>
    unfold PageOk at hpage
    rw [hstage] at hpage
    exact storeOk_add h hpage.2.2.1 _
  | unfrozen =>
    refine storeOk_update h (fun row hrow => ?_) fun _ => Or.inl rfl
    have hwell := h.settings row hrow
    exact { hwell with freezeTime_shown := fun time htime => by cases htime }
  | pdfSaved hstage hdata hsave =>
    obtain ⟨file, hcheck⟩ := hdata
    have hvalid := checkPdf_ok hcheck
    rcases savePdf_cases hsave with ⟨-, rfl⟩ | rfl | ⟨blob, -, hne, rfl⟩
    · exact storeOk_insert h hvalid
    · exact h
    · exact storeOk_data h hvalid hne
  | @pdfDeleted contest blob _ hstage hdelete =>
    obtain ⟨hunused, rfl⟩ := deletePdf_cases hdelete
    have hupdated : StoreOk zone options (store.updateContest contest.id (pdfColumn none)) :=
      storeOk_update h (fun row hrow => h.settings row hrow) fun _ => Or.inr rfl
    exact storeOk_delete hupdated hunused

/-- No contest gets a PDF that another had. -/
theorem written_pdfs (hwritten : Written options page store store') : store.blobs.next ≤ store'.blobs.next ∧
    ∀ contest' ∈ store'.contests.rows, ∀ id, contest'.problemPdfId = some id → id < store.blobs.next →
      ∃ contest ∈ store.contests.rows, contest.id = contest'.id ∧ contest.problemPdfId = some id := by
  have hupdate : ∀ (key : Int) (columns : Update Contest.id),
      (∀ contest id, (columns.apply contest).problemPdfId = some id → id < store.blobs.next →
        contest.problemPdfId = some id) →
      ∀ contest' ∈ (store.updateContest key columns).contests.rows, ∀ id, contest'.problemPdfId = some id →
        id < store.blobs.next → ∃ contest ∈ store.contests.rows, contest.id = contest'.id ∧
          contest.problemPdfId = some id := by
    intro key columns hcolumns contest' hmem id hid hlt
    obtain ⟨contest, hcontest, rfl⟩ := mem_updateContest hmem
    refine ⟨contest, hcontest, ?_⟩
    split at hid
    · next hkey =>
      rw [if_pos hkey]
      exact ⟨(columns.keeps contest).symm, hcolumns contest id hid hlt⟩
    · next hkey =>
      rw [if_neg hkey]
      exact ⟨rfl, hid⟩
  cases hwritten with
  | settings | unfrozen => exact ⟨le_rfl, hupdate _ _ fun contest id hid _ => hid⟩
  | added =>
    refine ⟨le_rfl, fun contest hmem id hid _ => ?_⟩
    rcases List.mem_append.mp hmem with hmem | hmem
    · exact ⟨contest, hmem, rfl, hid⟩
    · rw [List.mem_singleton.mp hmem] at hid
      cases hid
  | pdfSaved hstage hdata hsave =>
    rcases savePdf_cases hsave with ⟨-, rfl⟩ | rfl | ⟨blob, -, -, rfl⟩
    · refine ⟨?_, hupdate _ _ fun contest id hid hlt => ?_⟩
      · show store.blobs.next ≤ store.blobs.next + 1
        omega
      · cases hid
        omega
    · exact ⟨le_rfl, fun contest hcontest id hid _ => ⟨contest, hcontest, rfl, hid⟩⟩
    · exact ⟨le_rfl, fun contest hcontest id hid _ => ⟨contest, hcontest, rfl, hid⟩⟩
  | pdfDeleted hstage hdelete =>
    obtain ⟨-, rfl⟩ := deletePdf_cases hdelete
    exact ⟨le_rfl, hupdate _ _ fun contest id hid _ => by cases hid⟩

theorem written_pageOk {other : Page} (hother : PageOk zone store other)
    (hwritten : Written options page store store') :
    PageOk zone store' other := by
  obtain ⟨hnext, hpdfs⟩ := written_pdfs hwritten
  obtain ⟨user, request, stage⟩ := other
  cases stage with
  | received | loaded | applied | running | answered => exact hother
  | pdfLoaded contest pdf =>
    refine ⟨hother.1, hother.2.1, fun blob hblob => ?_⟩
    obtain ⟨hlt, hown⟩ := hother.2.2 blob hblob
    refine ⟨by omega, fun row hrow hpdf => ?_⟩
    obtain ⟨row', hrow', hid, hpdf'⟩ := hpdfs row hrow blob.id hpdf hlt
    rw [← hid]
    exact hown row' hrow' hpdf'

/-! ## Who changes what -/

/-- What the request has loaded as the PDF of its contest. -/
def Page.pdf (page : Page) : Option BlobRow :=
  match page.stage with
  | .pdfLoaded _ pdf => pdf
  | _ => none

/-- Nothing changes but one contest, and a blob only if it is new or was loaded as its PDF: that may be nobody's by
    now, when two uploads have got in each other's way. The other contests keep their PDFs. -/
structure OnlyContest (id : Int) (loaded : Option BlobRow) (store store' : Store) : Prop where
  users : store'.users = store.users
  claims : store'.claims = store.claims
  next : store'.contests.next = store.contests.next
  contests : store'.contests.rows.map Contest.id = store.contests.rows.map Contest.id
  others : ∀ contest ∈ store.contests.rows, contest.id ≠ id → contest ∈ store'.contests.rows ∧
    ∀ blobId ∈ contest.problemPdfId, store'.blobs.find? blobId = store.blobs.find? blobId
  blobs : ∀ blobId, blobId ≠ store.blobs.next → (∀ blob ∈ loaded, blob.id ≠ blobId) →
    store'.blobs.find? blobId = store.blobs.find? blobId

/-- A request changes nothing, or a contest its user may manage, or it makes a contest. -/
inductive Rightly (zone : LocalZone) (page : Page) (store : Store) : Store → Prop
  | unchanged : Rightly zone page store store
  | managed {id : Int} {store' : Store} (hrequest : page.request.contestId = some id)
      (hmanage : page.user.canManage id = true) (honly : OnlyContest id page.pdf store store') :
      Rightly zone page store store'
  | made {settings : Settings} (hrequest : page.request.contestId = none) (hcreate : page.user.canCreate = true)
      (huser : page.user.userId ∈ store.users) (hwell : WellFormed zone settings) (hordered : Ordered settings) :
      Rightly zone page store (store.addContest settings page.user.userId)

theorem update_ids (id : Int) (columns : Update Contest.id) :
    (store.updateContest id columns).contests.rows.map Contest.id = store.contests.rows.map Contest.id := by
  show (store.contests.rows.map _).map Contest.id = _
  rw [List.map_map]
  exact List.map_congr_left fun contest _ => Update.keeps _ contest

theorem update_other {id : Int} {columns : Update Contest.id} {contest : Contest}
    (hcontest : contest ∈ store.contests.rows)
    (hne : contest.id ≠ id) : contest ∈ (store.updateContest id columns).contests.rows := by
  refine List.mem_map.mpr ⟨contest, hcontest, ?_⟩
  rw [Update.restrict_apply, if_neg]
  rwa [beq_iff_eq]

/-- An update of the row of a contest, and of blobs no other contest has. -/
theorem onlyContest_update {id : Int} {loaded : Option BlobRow} (columns : Update Contest.id)
    (blobs : Table BlobRow BlobRow.id)
    (hothers : ∀ contest ∈ store.contests.rows, contest.id ≠ id → ∀ blobId, contest.problemPdfId = some blobId →
      blobs.find? blobId = store.blobs.find? blobId)
    (hblobs : ∀ blobId, blobId ≠ store.blobs.next → (∀ blob ∈ loaded, blob.id ≠ blobId) →
      blobs.find? blobId = store.blobs.find? blobId) :
    OnlyContest id loaded store { store.updateContest id columns with blobs := blobs } where
  users := rfl
  claims := rfl
  next := rfl
  contests := update_ids id columns
  others contest hcontest hne := ⟨update_other hcontest hne, fun blobId hid => hothers contest hcontest hne blobId hid⟩
  blobs := hblobs

/-- An update of the row alone. -/
theorem onlyContest_row (id : Int) (loaded : Option BlobRow) (columns : Update Contest.id) :
    OnlyContest id loaded store (store.updateContest id columns) :=
  onlyContest_update columns store.blobs (fun _ _ _ _ _ => rfl) fun _ _ _ => rfl

theorem insert_find {data : Bytes} {id : Int} (hne : id ≠ store.blobs.next) :
    (store.blobs.insert TestArchive.Store.newBlob data).find? id = store.blobs.find? id := by
  show (store.blobs.rows ++ [_]).find? _ = store.blobs.rows.find? _
  have hnew : ¬(TestArchive.Store.newBlob.make data store.blobs.next).id = id := by
    rw [TestArchive.Store.newBlob.keyed]
    exact Ne.symm hne
  rw [List.find?_append, List.find?_singleton, if_neg (by rwa [beq_iff_eq]), Option.or_none]

theorem remove_find {id blobId : Int} (hne : id ≠ blobId) :
    (store.blobs.remove (·.id == blobId)).find? id = store.blobs.find? id := by
  show (store.blobs.rows.filter _).find? _ = store.blobs.rows.find? _
  rw [List.find?_filter]
  refine congrArg (List.find? · store.blobs.rows) (funext fun row => ?_)
  by_cases hrow : row.id = id
  · simp [hrow, hne]
  · simp [hrow]

theorem data_find {blob : BlobRow} {data : Bytes} {id : Int} (hne : id ≠ blob.id) :
    (store.blobs.update ((TestArchive.Store.dataColumn blob data).restrict (·.id == blob.id))).find? id =
      store.blobs.find? id := by
  rw [Table.find?_update]
  cases hfind : store.blobs.find? id with
  | none => rfl
  | some row =>
    obtain ⟨-, rfl⟩ := Table.find?_some hfind
    rw [Option.map_some, Update.restrict_apply, if_neg]
    rwa [beq_iff_eq]

theorem written_rightly (h : StoreOk zone options store) (hpage : PageOk zone store page)
    (hwritten : Written options page store store') : Rightly zone page store store' := by
  obtain ⟨user, request, stage⟩ := page
  cases hwritten with
  | @settings contest settings hstage =>
    cases hstage
    exact .managed hpage.2.1 (mayEdit_manage hpage.1 hpage.2.1) (onlyContest_row _ _ _)
  | added hstage huser =>
    cases hstage
    exact .made hpage.2.1 (mayEdit_create hpage.1) huser hpage.2.2.1 hpage.2.2.2
  | unfrozen hstage hrequest =>
    cases hstage
    cases hrequest
    exact .managed rfl (mayEdit_manage hpage rfl) (onlyContest_row _ _ _)
  | pdfSaved hstage hdata hsave =>
    cases hstage
    obtain ⟨hmay, hid, hpdf⟩ := hpage
    rcases savePdf_cases hsave with ⟨-, rfl⟩ | rfl | ⟨blob, rfl, -, rfl⟩
    · refine .managed hid (mayEdit_manage hmay hid) (onlyContest_update _ _ (fun other hother _ blobId hblob => ?_)
        fun blobId hne _ => insert_find hne)
      exact insert_find (Int.ne_of_lt (h.pdf_below hother hblob))
    · exact .unchanged
    · have hown := (hpdf blob rfl).2
      refine .managed hid (mayEdit_manage hmay hid) ⟨rfl, rfl, rfl, rfl,
        fun other hother hne => ⟨hother, fun blobId hblob => ?_⟩, fun blobId _ hloaded =>
          data_find (hloaded blob rfl).symm⟩
      refine data_find fun heq => hne (hown other hother ?_)
      rw [← heq]
      exact hblob
  | @pdfDeleted contest blob _ hstage hdelete =>
    cases hstage
    obtain ⟨hmay, hid, hpdf⟩ := hpage
    obtain ⟨-, rfl⟩ := deletePdf_cases hdelete
    have hown := (hpdf blob rfl).2
    refine .managed hid (mayEdit_manage hmay hid) (onlyContest_update _ _ (fun other hother hne blobId hblob => ?_)
      fun blobId _ hloaded => remove_find (hloaded blob rfl).symm)
    refine remove_find fun heq => hne (hown other hother ?_)
    rw [← heq]
    exact hblob

/-- Of each contest that is new some user is the owner. -/
def Owned (first : Int) (store : Store) : Prop :=
  ∀ contest ∈ store.contests.rows, first ≤ contest.id →
    ∃ userId ∈ store.users, ⟨userId, "contest-manage", toString contest.id⟩ ∈ store.claims

theorem owned_rightly {first : Int} (hfirst : first ≤ store.contests.next) (howned : Owned first store)
    (h : Rightly zone page store store') : Owned first store' ∧ first ≤ store'.contests.next := by
  cases h with
  | unchanged => exact ⟨howned, hfirst⟩
  | managed hrequest hmanage honly =>
    refine ⟨fun contest' hcontest' hle => ?_, by rw [honly.next]; exact hfirst⟩
    have hid : contest'.id ∈ store.contests.rows.map Contest.id := honly.contests ▸ List.mem_map_of_mem hcontest'
    obtain ⟨contest, hcontest, hsame⟩ := List.mem_map.mp hid
    rw [← hsame] at hle ⊢
    rw [honly.users, honly.claims]
    exact howned contest hcontest hle
  | made hrequest hcreate huser hwell hordered =>
    refine ⟨fun contest hcontest hle => ?_, ?_⟩
    · rcases List.mem_append.mp hcontest with hcontest | hcontest
      · obtain ⟨userId, hmem, hclaim⟩ := howned contest hcontest hle
        exact ⟨userId, hmem, List.mem_append_left _ hclaim⟩
      · rw [List.mem_singleton.mp hcontest]
        exact ⟨page.user.userId, huser, List.mem_append_right _ (List.mem_singleton_self _)⟩
    · show first ≤ store.contests.next + 1
      omega

end Pages

/-! ## Every interleaving -/

section Runs

variable {zone : LocalZone} {options : Options} {collation : String → List Nat} {store : Store}

structure Inv (zone : LocalZone) (options : Options) (first : Int) (s : St) : Prop where
  store : StoreOk zone options s.store
  first_le : first ≤ s.store.contests.next
  owned : Owned first s.store
  pages : ∀ page ∈ s.pages, PageOk zone s.store page

def StepLaw (zone : LocalZone) (s : St) : Ev → St → Prop
  | .request _ _, s' => s'.store = s.store
  | .advance a _, s' => ∃ page, s.pages[a]? = some page ∧ Rightly zone page s.store s'.store

/-- The step inversion. -/
theorem step_advance {s s' : St} {a : Nat} {o : Outside} (h : step zone options collation s (.advance a o) = some s') :
    ∃ page stage, s.pages[a]? = some page ∧ Moves zone options collation page s.store (stage, s'.store) ∧
      s'.pages = s.pages.set a { page with stage := stage } := by
  unfold step at h
  dsimp only at h
  split at h
  · cases h
  · next page hpage =>
    cases h
    exact ⟨page, _, hpage, advance_moves, rfl⟩

theorem step_inv {first : Int} (s : St) (e : Ev) (s' : St) (h : Inv zone options first s)
    (hs : step zone options collation s e = some s') : Inv zone options first s' ∧ StepLaw zone s e s' := by
  cases e with
  | request user request =>
    cases hs
    refine ⟨⟨h.store, h.first_le, h.owned, fun page hpage => ?_⟩, rfl⟩
    rcases List.mem_append.mp hpage with hpage | hpage
    · exact h.pages page hpage
    · rw [List.mem_singleton.mp hpage]
      trivial
  | advance a o =>
    obtain ⟨page, stage, hpage, hmoves, hpages⟩ := step_advance hs
    obtain ⟨store', pages'⟩ := s'
    cases hpages
    have hok := h.pages page (List.mem_of_getElem? hpage)
    cases hmoves with
    | goes hgoes =>
      refine ⟨⟨h.store, h.first_le, h.owned, fun other hother => ?_⟩, page, hpage, .unchanged⟩
      rcases List.mem_or_eq_of_mem_set hother with hother | rfl
      · exact h.pages other hother
      · exact goes_pageOk h.store hok hgoes
    | writes response hwritten =>
      have hrightly := written_rightly h.store hok hwritten
      obtain ⟨howned, hfirst⟩ := owned_rightly h.first_le h.owned hrightly
      refine ⟨⟨written_storeOk h.store hok hwritten, hfirst, howned, fun other hother => ?_⟩, page, hpage, hrightly⟩
      rcases List.mem_or_eq_of_mem_set hother with hother | rfl
      · exact written_pageOk (h.pages other hother) hwritten
      · trivial

theorem inv_init (hstore : StoreOk zone options store) : Inv zone options store.contests.next (init store) := by
  refine ⟨hstore, le_rfl, fun contest hcontest hle => ?_, fun page hpage => absurd hpage List.not_mem_nil⟩
  have := store.contests.below contest hcontest
  omega

/-- Whatever requests come in, in whatever order they go on and wherever they fail: each changes
    nothing, or one contest that its user may manage, or makes a contest and its owner's claim.
    Every column is one a form accepts, and every PDF one that was checked, of one contest. -/
theorem settings_kept (hstore : StoreOk zone options store) (es : List Ev) :
    Always (step zone options collation) (fun s => StoreOk zone options s.store ∧ Owned store.contests.next s.store)
      (init store) es ∧
    Along (step zone options collation) (StepLaw zone) (init store) es := by
  have hinv : Always (step zone options collation) (Inv zone options store.contests.next) (init store) es :=
    always_of_inv (fun s e s' h hs => (step_inv s e s' h hs).1) (inv_init hstore) es
  exact ⟨hinv.mono fun s h => ⟨h.store, h.owned⟩, along_of_inv (fun s e s' h hs => (step_inv s e s' h hs).2) hinv⟩

/-- A zone that is three ticks ahead all year. -/
def sampleZone : LocalZone where
  localDateTime instant := instant + 3
  getUtcOffset _ := 3
  isInvalidTime _ := false
  isAmbiguousTime _ := false
  shown_once _ _ _ instant := by omega
  shown_later _ _ _ _ _ _ _ := by omega

def sampleOptions : Options := ⟨100⟩

def finalsInput : InputModel := ⟨some "Finals ", some "finals", none, some 10, some 15, none, some 14, false, true⟩

def finals : Settings := ⟨"Finals", "finals", none, ⟨10, 3⟩, ⟨15, 3⟩, none, some ⟨14, 3⟩, false, true⟩

def springInput : InputModel := ⟨some "Spring", some "spring", none, some 20, some 25, none, some 24, true, false⟩

def spring : Settings := ⟨"Spring", "spring", none, ⟨20, 3⟩, ⟨25, 3⟩, none, some ⟨24, 3⟩, true, false⟩

/-- Two contests, the first with a PDF. -/
def sampleStore : Store where
  contests := (((Table.empty 1).insert newContest finals).update (pdfColumn (some 1))).insert newContest spring
  blobs := (Table.empty 1).insert TestArchive.Store.newBlob pdfSignature
  users := [7]
  claims := [⟨7, "contest-manage", "1"⟩, ⟨7, "contest-manage", "2"⟩]

def sampleUser : SignedIn := ⟨⟨7, false, true⟩, false, ["1", "2"], []⟩

def sampleMove : Outside := ⟨none, [], none⟩

/-- The first contest is lengthened while the second is unfrozen and the PDF removed; then the second is shown and gets
    the abbreviation that the first had until now, and a new contest is made. -/
def sampleEvents : List Ev :=
  [.request sampleUser (.save (some 1) { finalsInput with abbr := some "final", endTime := some 18 } []),
    .request sampleUser (.unfreeze 2), .request sampleUser (.removePdf 1), .advance 0 sampleMove, .advance 1 sampleMove,
    .advance 2 sampleMove, .advance 0 sampleMove, .advance 1 sampleMove, .advance 2 sampleMove, .advance 0 sampleMove,
    .advance 2 sampleMove,
    .request sampleUser (.save (some 2)
      { springInput with abbr := some "finals", isHidden := false, freezeTime := none } []),
    .advance 3 sampleMove, .advance 3 sampleMove, .advance 3 sampleMove,
    .request sampleUser (.save none { springInput with abbr := some "autumn" } []), .advance 4 sampleMove,
    .advance 4 sampleMove, .advance 4 sampleMove]

theorem sample_accepted {input : InputModel} {settings : Settings} (herrors : input.errors sampleZone = [])
    (happly : input.applyTo sampleZone = .ok settings) : WellFormed sampleZone settings ∧ Ordered settings := by
  obtain ⟨settings', happly', hwell, hordered, -⟩ := applyTo_wellFormed herrors
  rw [happly, Except.ok.injEq] at happly'
  rw [happly']
  exact ⟨hwell, hordered⟩

theorem finals_accepted : WellFormed sampleZone finals ∧ Ordered finals :=
  @sample_accepted finalsInput _ (by decide) (by decide)

theorem spring_accepted : WellFormed sampleZone spring ∧ Ordered spring :=
  @sample_accepted springInput _ (by decide) (by decide)

theorem mem_sampleStore {contest : Contest} (h : contest ∈ sampleStore.contests.rows) :
    contest = ⟨1, finals, some 1⟩ ∨ contest = ⟨2, spring, none⟩ := by
  have hrows : sampleStore.contests.rows = [⟨1, finals, some 1⟩, ⟨2, spring, none⟩] := rfl
  simpa [hrows] using h

theorem sample_storeOk : StoreOk sampleZone sampleOptions sampleStore := by
  refine ⟨fun contest hcontest => ?_, fun contest hcontest id hid => ?_,
    fun contest hcontest other hother id hone hsecond => ?_⟩
  · rcases mem_sampleStore hcontest with rfl | rfl
    · exact finals_accepted.1
    · exact spring_accepted.1
  · rcases mem_sampleStore hcontest with rfl | rfl
    · cases hid
      exact ⟨_, List.mem_singleton_self _, rfl, by decide, by decide, List.prefix_refl _⟩
    · cases hid
  · rcases mem_sampleStore hcontest with rfl | rfl
    · rcases mem_sampleStore hother with rfl | rfl
      · rfl
      · cases hsecond
    · cases hone

/-- What the run leaves of each contest: its abbreviation, whether it is frozen, its PDF. -/
def sampleContests : List (String × Bool × Option Int) :=
  (final (step sampleZone sampleOptions ordinal) (init sampleStore) sampleEvents).store.contests.rows.map fun contest =>
    (contest.settings.abbr, contest.settings.freezeTime.isSome, contest.problemPdfId)

theorem sample_settings_kept :
    sampleContests = [("final", true, none), ("finals", false, none), ("autumn", true, none)] ∧
    Always (step sampleZone sampleOptions ordinal) (fun s => StoreOk sampleZone sampleOptions s.store ∧ Owned 3 s.store)
      (init sampleStore) sampleEvents ∧
    Along (step sampleZone sampleOptions ordinal) (StepLaw sampleZone) (init sampleStore) sampleEvents :=
  ⟨by decide +kernel, settings_kept sample_storeOk sampleEvents⟩

end Runs

/-! ## Saves one after the other -/

section Serial

variable {zone : LocalZone} {options : Options} {collation : String → List Nat} {page : Page} {o : Outside}
  {store store' : Store}

/-- A form has been read, and is not saved yet. -/
def Stage.isSaving : Stage → Bool
  | .loaded _ | .applied _ _ => true
  | _ => false

/-- No save overlaps another. -/
def Serial (s : St) : Prop := s.pages.countP (·.stage.isSaving) ≤ 1

instance : DecidablePred Serial := fun s => inferInstanceAs (Decidable (s.pages.countP (·.stage.isSaving) ≤ 1))

theorem Serial.unique {s : St} (h : Serial s) {a b : Nat} {other : Page} (hpage : s.pages[a]? = some page)
    (hother : s.pages[b]? = some other) (hsaving : page.stage.isSaving = true)
    (hotherSaving : other.stage.isSaving = true) :
    a = b := by
  by_contra hne
  obtain ⟨ha, rfl⟩ := List.getElem?_eq_some_iff.mp hpage
  let answered : Page := ⟨s.pages[a].user, s.pages[a].request, .answered .forbid⟩
  -- `other` is still there when the page at `a` is answered
  have hset : (s.pages.set a answered)[b]? = some other := by
    rw [List.getElem?_set_ne hne]
    exact hother
  have hpos : 0 < (s.pages.set a answered).countP (·.stage.isSaving) :=
    List.countP_pos_iff.mpr ⟨other, List.mem_of_getElem? hset, hotherSaving⟩
  have hanswered : ¬answered.stage.isSaving = true := Bool.false_ne_true
  rw [List.countP_set ha, if_pos hsaving, if_neg hanswered] at hpos
  have hle : s.pages.countP (·.stage.isSaving) ≤ 1 := h
  omega

structure Coherent (collation : String → List Nat) (store : Store) : Prop where
  ordered : ∀ contest ∈ store.contests.rows, Ordered contest.settings
  abbrs : ∀ contest ∈ store.contests.rows, ∀ other ∈ store.contests.rows,
    collation contest.settings.abbr = collation other.settings.abbr → contest.id = other.id

/-- The settings are the same, but that the standings may have been unfrozen. -/
def Unfrozen (before after : Settings) : Prop := after = before ∨ after = { before with freezeTime := none }

/-- The row is as it was read, or unfrozen. -/
def Current (store : Store) (contest : Contest) : Prop :=
  ∀ row ∈ store.contests.rows, row.id = contest.id → Unfrozen contest.settings row.settings

/-- No other contest has the abbreviation. -/
def Free (collation : String → List Nat) (store : Store) (id : Option Int) (abbr : String) : Prop :=
  ∀ row ∈ store.contests.rows, id ≠ some row.id → collation row.settings.abbr ≠ collation abbr

/-- What holds of a save that is under way. -/
def SavingOk (collation : String → List Nat) (store : Store) (page : Page) : Prop :=
  match page.stage with
  | .loaded loaded => ∀ contest ∈ loaded, Current store contest
  | .applied loaded settings => (∀ contest ∈ loaded, Current store contest) ∧
      Free collation store page.request.contestId settings.abbr
  | _ => True

theorem isUsed_free {id : Option Int} {abbr : String} (h : isUsed collation store id (some abbr) = false) :
    Free collation store id abbr := by
  intro row hrow hne heq
  refine Bool.eq_false_iff.mp h (List.any_eq_true.mpr ⟨row, hrow, ?_⟩)
  simp only [Option.any_some, Bool.and_eq_true, bne_iff_ne, beq_iff_eq]
  exact ⟨hne, heq⟩

theorem current_row {contest : Contest} (hcontest : contest ∈ store.contests.rows) : Current store contest := by
  intro row hrow hid
  rw [Table.row_unique hrow hcontest hid]
  exact Or.inl rfl

theorem goes_savingOk {stage : Stage} (hpage : SavingOk collation store page)
    (hgoes : Goes zone collation page store stage) : SavingOk collation store { page with stage := stage } := by
  unfold SavingOk at hpage ⊢
  cases hgoes with
  | answers response | runs hmay | loadsPdf hstage hrequest hcontest => trivial
  | stays => exact hpage
  | starts hmay hrequest => exact fun contest hcontest => by cases hcontest
  | loads hmay hrequest hcontest => exact fun contest heq => Option.some.inj heq ▸ current_row hcontest
  | applies hstage herrors happly =>
    rw [hstage] at hpage
    obtain ⟨hinput, hfree⟩ := saveErrors_nil herrors
    obtain ⟨settings, happly', -, -, habbr⟩ := applyTo_wellFormed hinput
    rw [happly, Except.ok.injEq] at happly'
    rw [habbr, ← happly'] at hfree
    exact ⟨hpage, isUsed_free hfree⟩

theorem Unfrozen.trans {a b c : Settings} (h : Unfrozen a b) (h' : Unfrozen b c) : Unfrozen a c := by
  rcases h with rfl | rfl <;> rcases h' with rfl | rfl
  · exact Or.inl rfl
  · exact Or.inr rfl
  · exact Or.inr rfl
  · exact Or.inr rfl

theorem Unfrozen.abbr {a b : Settings} (h : Unfrozen a b) : b.abbr = a.abbr := by rcases h with rfl | rfl <;> rfl

theorem Unfrozen.ordered {a b : Settings} (h : Unfrozen a b) (hordered : Ordered a) : Ordered b := by
  rcases h with rfl | rfl
  · exact hordered
  · exact ⟨hordered.starts, fun time htime => by cases htime⟩

/-- A form that is saved over a current row is saved whole, but for a freeze time it does not change. -/
theorem write_unfrozen {loaded current stored : Settings} (hcurrent : Unfrozen loaded stored) :
    Unfrozen current (loaded.write current stored) := by
  rcases hcurrent with rfl | rfl
  · left
    simp only [Settings.write, saved_fresh]
  · by_cases hfreeze : current.freezeTime = loaded.freezeTime
    · have hsaved : saved loaded.freezeTime current.freezeTime none = none := if_pos hfreeze
      right
      simp only [Settings.write, saved_fresh, hsaved]
    · have hsaved : saved loaded.freezeTime current.freezeTime none = current.freezeTime := if_neg hfreeze
      left
      simp only [Settings.write, saved_fresh, hsaved]

/-- What is written but by a save leaves the settings, or unfreezes them. -/
theorem written_unfrozen (hsaving : page.stage.isSaving = false) (hwritten : Written options page store store') :
    ∀ contest' ∈ store'.contests.rows, ∃ contest ∈ store.contests.rows, contest.id = contest'.id ∧
      Unfrozen contest.settings contest'.settings := by
  have hupdate : ∀ (id : Int) (columns : Update Contest.id),
      (∀ contest, Unfrozen contest.settings (columns.apply contest).settings) →
      ∀ contest' ∈ (store.updateContest id columns).contests.rows, ∃ contest ∈ store.contests.rows,
        contest.id = contest'.id ∧ Unfrozen contest.settings contest'.settings := by
    intro id columns hcolumns contest' hmem
    obtain ⟨contest, hcontest, rfl⟩ := mem_updateContest hmem
    refine ⟨contest, hcontest, ?_⟩
    split
    · exact ⟨(columns.keeps contest).symm, hcolumns contest⟩
    · exact ⟨rfl, Or.inl rfl⟩
  have hsame : ∀ contest ∈ store.contests.rows, ∃ row ∈ store.contests.rows, row.id = contest.id ∧
      Unfrozen row.settings contest.settings := fun contest hcontest => ⟨contest, hcontest, rfl, Or.inl rfl⟩
  cases hwritten with
  | settings hstage | added hstage =>
    rw [hstage] at hsaving
    cases hsaving
  | unfrozen => exact hupdate _ _ fun contest => Or.inr rfl
  | pdfSaved hstage hdata hsave =>
    rcases savePdf_cases hsave with ⟨-, rfl⟩ | rfl | ⟨blob, -, -, rfl⟩
    · exact hupdate _ _ fun contest => Or.inl rfl
    · exact hsame
    · exact hsame
  | pdfDeleted hstage hdelete =>
    obtain ⟨-, rfl⟩ := deletePdf_cases hdelete
    exact hupdate _ _ fun contest => Or.inl rfl

theorem coherent_unfrozen (h : Coherent collation store) (hunfrozen : ∀ contest' ∈ store'.contests.rows,
    ∃ contest ∈ store.contests.rows, contest.id = contest'.id ∧ Unfrozen contest.settings contest'.settings) :
    Coherent collation store' := by
  refine ⟨fun contest' hcontest' => ?_, fun contest' hcontest' other' hother' heq => ?_⟩
  · obtain ⟨contest, hcontest, -, hsettings⟩ := hunfrozen contest' hcontest'
    exact hsettings.ordered (h.ordered contest hcontest)
  · obtain ⟨contest, hcontest, hid, hsettings⟩ := hunfrozen contest' hcontest'
    obtain ⟨other, hother, hotherId, hotherSettings⟩ := hunfrozen other' hother'
    rw [hsettings.abbr, hotherSettings.abbr] at heq
    rw [← hid, ← hotherId]
    exact h.abbrs contest hcontest other hother heq

theorem savingOk_unfrozen (h : SavingOk collation store page) (hunfrozen : ∀ contest' ∈ store'.contests.rows,
    ∃ contest ∈ store.contests.rows, contest.id = contest'.id ∧ Unfrozen contest.settings contest'.settings) :
    SavingOk collation store' page := by
  have hcurrent : ∀ contest, Current store contest → Current store' contest := by
    intro contest hcurrent row' hrow' hid
    obtain ⟨row, hrow, hrowId, hsettings⟩ := hunfrozen row' hrow'
    exact (hcurrent row hrow (hrowId.trans hid)).trans hsettings
  unfold SavingOk at h ⊢
  split
  · next hstage =>
    rw [hstage] at h
    exact fun contest hcontest => hcurrent contest (h contest hcontest)
  · next hstage =>
    rw [hstage] at h
    refine ⟨fun contest hcontest => hcurrent contest (h.1 contest hcontest), fun row' hrow' hne => ?_⟩
    obtain ⟨row, hrow, hrowId, hsettings⟩ := hunfrozen row' hrow'
    rw [hsettings.abbr]
    rw [← hrowId] at hne
    exact h.2 row hrow hne
  · trivial

theorem coherent_save (h : Coherent collation store) {contest : Contest} {settings : Settings}
    (hordered : Ordered settings)
    (hcurrent : Current store contest) (hfree : Free collation store (some contest.id) settings.abbr) :
    Coherent collation (store.updateContest contest.id (settingsColumns contest.settings settings)) := by
  have hrows : ∀ row' ∈ (store.updateContest contest.id (settingsColumns contest.settings settings)).contests.rows,
      (row'.id = contest.id ∧ Unfrozen settings row'.settings) ∨
      (row'.id ≠ contest.id ∧ row' ∈ store.contests.rows) := by
    intro row' hmem
    obtain ⟨row, hrow, rfl⟩ := mem_updateContest hmem
    by_cases hid : row.id = contest.id
    · rw [if_pos (beq_iff_eq.mpr hid)]
      exact Or.inl ⟨hid, write_unfrozen (hcurrent row hrow hid)⟩
    · rw [if_neg (by rwa [beq_iff_eq])]
      exact Or.inr ⟨hid, hrow⟩
  refine ⟨fun row hrow => ?_, fun row hrow other hother heq => ?_⟩
  · rcases hrows row hrow with ⟨-, hsettings⟩ | ⟨-, hold⟩
    · exact hsettings.ordered hordered
    · exact h.ordered row hold
  · rcases hrows row hrow with ⟨hid, hsettings⟩ | ⟨hid, hold⟩ <;>
      rcases hrows other hother with ⟨hid', hsettings'⟩ | ⟨hid', hold'⟩
    · rw [hid, hid']
    · rw [hsettings.abbr] at heq
      exact absurd heq.symm (hfree other hold' fun hsome => hid' (Option.some.inj hsome).symm)
    · rw [hsettings'.abbr] at heq
      exact absurd heq (hfree row hold fun hsome => hid (Option.some.inj hsome).symm)
    · exact h.abbrs row hold other hold' heq

theorem coherent_add (h : Coherent collation store) {settings : Settings} (hordered : Ordered settings)
    (hfree : Free collation store none settings.abbr) (userId : Int) :
    Coherent collation (store.addContest settings userId) := by
  have hrows : ∀ row ∈ (store.addContest settings userId).contests.rows, row ∈ store.contests.rows ∨
      row = ⟨store.contests.next, settings, none⟩ := by
    intro row hmem
    rcases List.mem_append.mp hmem with hold | hnew
    · exact Or.inl hold
    · exact Or.inr (List.mem_singleton.mp hnew)
  refine ⟨fun row hrow => ?_, fun row hrow other hother heq => ?_⟩
  · rcases hrows row hrow with hold | rfl
    · exact h.ordered row hold
    · exact hordered
  · rcases hrows row hrow with hold | rfl <;> rcases hrows other hother with hold' | rfl
    · exact h.abbrs row hold other hold' heq
    · exact absurd heq (hfree row hold (by simp))
    · exact absurd heq.symm (hfree other hold' (by simp))
    · rfl

theorem written_coherent (hpage : PageOk zone store page) (h : Coherent collation store)
    (hsaving : SavingOk collation store page)
    (hwritten : Written options page store store') : Coherent collation store' := by
  by_cases hstage : page.stage.isSaving = true
  · unfold PageOk at hpage
    unfold SavingOk at hsaving
    cases hwritten with
    | settings hstage =>
      rw [hstage] at hpage hsaving
      obtain ⟨-, hrequest, -, hordered⟩ := hpage
      rw [hrequest] at hsaving
      exact coherent_save h hordered (hsaving.1 _ rfl) hsaving.2
    | added hstage =>
      rw [hstage] at hpage hsaving
      obtain ⟨-, hrequest, -, hordered⟩ := hpage
      rw [hrequest] at hsaving
      exact coherent_add h hordered hsaving.2 _
    | unfrozen heq | pdfSaved heq | pdfDeleted heq =>
      rw [heq] at hstage
      cases hstage
  · exact coherent_unfrozen h (written_unfrozen (Bool.eq_false_iff.mpr hstage) hwritten)

theorem savingOk_idle (h : page.stage.isSaving = false) : SavingOk collation store page := by
  unfold SavingOk
  split
  · next hstage => rw [hstage] at h; cases h
  · next hstage => rw [hstage] at h; cases h
  · trivial

structure SerialInv (zone : LocalZone) (options : Options) (collation : String → List Nat) (first : Int) (s : St) : Prop
    extends Inv zone options first s where
  coherent : Coherent collation s.store
  saves : ∀ page ∈ s.pages, SavingOk collation s.store page

theorem mem_set_pages {pages : List Page} {a : Nat} {page other : Page} (h : other ∈ pages.set a page) :
    other = page ∨ ∃ b, a ≠ b ∧ pages[b]? = some other := by
  obtain ⟨b, hb⟩ := List.mem_iff_getElem?.mp h
  by_cases heq : a = b
  · rw [heq, List.getElem?_set_self'] at hb
    obtain ⟨old, -, hnew⟩ := Option.map_eq_some_iff.mp hb
    exact Or.inl hnew.symm
  · rw [List.getElem?_set_ne heq] at hb
    exact Or.inr ⟨b, heq, hb⟩

theorem step_serial {first : Int} (s : St) (e : Ev) (s' : St) (h : SerialInv zone options collation first s)
    (hserial : Serial s)
    (hs : step zone options collation s e = some s') : SerialInv zone options collation first s' := by
  refine { toInv := (step_inv s e s' h.toInv hs).1, coherent := ?_, saves := ?_ }
  · cases e with
    | request user request =>
      cases hs
      exact h.coherent
    | advance a o =>
      obtain ⟨page, stage, hpage, hmoves, hpages⟩ := step_advance hs
      obtain ⟨store', pages'⟩ := s'
      have hmem := List.mem_of_getElem? hpage
      cases hmoves with
      | goes hgoes => exact h.coherent
      | writes response hwritten => exact written_coherent (h.pages page hmem) h.coherent (h.saves page hmem) hwritten
  · cases e with
    | request user request =>
      cases hs
      intro page hpage
      rcases List.mem_append.mp hpage with hpage | hpage
      · exact h.saves page hpage
      · rw [List.mem_singleton.mp hpage]
        trivial
    | advance a o =>
      obtain ⟨page, stage, hpage, hmoves, hpages⟩ := step_advance hs
      obtain ⟨store', pages'⟩ := s'
      cases hpages
      intro other hother
      rcases mem_set_pages hother with rfl | ⟨b, hne, hb⟩
      · cases hmoves with
        | goes hgoes => exact goes_savingOk (h.saves page (List.mem_of_getElem? hpage)) hgoes
        | writes response hwritten => trivial
      · have hold := h.saves other (List.mem_of_getElem? hb)
        cases hmoves with
        | goes hgoes => exact hold
        | writes response hwritten =>
          by_cases hsaving : page.stage.isSaving = true
          · refine savingOk_idle (Bool.eq_false_iff.mpr fun hotherSaving => hne ?_)
            exact hserial.unique hpage hb hsaving hotherSaving
          · exact savingOk_unfrozen hold (written_unfrozen (Bool.eq_false_iff.mpr hsaving) hwritten)

/-- The form that shows the contest is accepted and changes nothing; the contest starts before
    it ends, and is frozen within. -/
structure Reopens (zone : LocalZone) (collation : String → List Nat) (store : Store) (contest : Contest) : Prop where
  accepted : saveErrors zone collation store (some contest.id) (InputModel.fromContest zone contest.settings) [] = []
  applied : (InputModel.fromContest zone contest.settings).applyTo zone = .ok contest.settings
  starts : contest.settings.startTime.instant < contest.settings.endTime.instant
  freezes : ∀ time ∈ contest.settings.freezeTime,
    contest.settings.startTime.instant ≤ time.instant ∧ time.instant ≤ contest.settings.endTime.instant

theorem reopens {contest : Contest} (h : StoreOk zone options store) (hcoherent : Coherent collation store)
    (hcontest : contest ∈ store.contests.rows) : Reopens zone collation store contest := by
  have hwell := h.settings contest hcontest
  have hordered := hcoherent.ordered contest hcontest
  have hinstants := ordered_instants hwell hordered
  refine ⟨?_, applyTo_fromContest hwell, hinstants.1, hinstants.2⟩
  have hfree : ¬isUsed collation store (some contest.id) (InputModel.fromContest zone contest.settings).abbr =
      true := by
    intro hused
    obtain ⟨other, hother, heq⟩ := List.any_eq_true.mp hused
    simp only [InputModel.fromContest, Option.any_some, Bool.and_eq_true, bne_iff_ne, beq_iff_eq] at heq
    exact heq.1 (congrArg some (hcoherent.abbrs contest hcontest other hother heq.2.symm))
  have hinput : (InputModel.fromContest zone contest.settings).errorsWith zone [] = [] :=
    fromContest_errors hwell hordered
  unfold saveErrors
  rw [hinput, if_neg hfree]
  rfl

theorem sample_coherent : Coherent ordinal sampleStore := by
  refine ⟨fun contest hcontest => ?_, fun contest hcontest other hother heq => ?_⟩
  · rcases mem_sampleStore hcontest with rfl | rfl
    · exact finals_accepted.2
    · exact spring_accepted.2
  · have hdiffer : ordinal finals.abbr ≠ ordinal spring.abbr := by decide
    rcases mem_sampleStore hcontest with rfl | rfl
    · rcases mem_sampleStore hother with rfl | rfl
      · rfl
      · exact absurd heq hdiffer
    · rcases mem_sampleStore hother with rfl | rfl
      · exact absurd heq.symm hdiffer
      · rfl

end Serial

end OlympSystem.Site.ContestSettings
