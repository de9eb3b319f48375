/-
  OlympSystem.Site.ContestSettings — the settings of a contest and their page
  (`Contests/Edit`): contests are created and edited, their standings unfrozen, the PDF with
  the problems uploaded and removed (`ContestProblemService.UploadPdfAsync`, `RemovePdfAsync`).

  A request goes from access to access, and others get in between. The contest is read when
  the form comes in; a save writes the columns that differ from what was read, to the row as
  it is then. A new contest and the claim of its owner are written in one transaction. The
  site deletes no contest.

  Times are ticks: those of a form on the clock of the server, those of a contest with the
  offset of that clock.

  Proved:
  - `fromContest_errors` / `applyTo_fromContest`: the form that shows settings of the form is
    accepted as it is and saves what is there.
  - `applyTo_wellFormed`: what a form that is accepted saves.
-/

import OlympSystem.Site.CompetitorPages
import OlympSystem.Site.TestArchive

namespace OlympSystem.Site.ContestSettings

open Lib.Tables Lib.Text OlympSystem.Checker Accounts TestArchive
open Accounts.ContestPages (ModelError required withBinding withBinding_nil)
open Accounts.CompetitorPages (SignedIn isLatin maxLength)

/-! ## Times -/

structure DateTimeOffset where
  /-- `DateTime`: what the clock shows. -/
  clock : Int
  offset : Int
  deriving DecidableEq, Repr

def DateTimeOffset.instant (time : DateTimeOffset) : Int := time.clock - time.offset

structure LocalZone where
  /-- `LocalDateTime` at an instant. -/
  localDateTime : Int → Int
  getUtcOffset : Int → Int
  isInvalidTime : Int → Bool
  isAmbiguousTime : Int → Bool
  /-- A time that is neither is shown at one instant. -/
  shown_once : ∀ time, isInvalidTime time = false → isAmbiguousTime time = false →
    ∀ instant, localDateTime instant = time ↔ instant = time - getUtcOffset time
  /-- Of two such times the later is shown later. -/
  shown_later : ∀ a b, isInvalidTime a = false → isAmbiguousTime a = false → isInvalidTime b = false →
    isAmbiguousTime b = false → a < b → a - getUtcOffset a < b - getUtcOffset b

namespace LocalZone

variable (zone : LocalZone)

def isPlain (time : Int) : Bool := !zone.isInvalidTime time && !zone.isAmbiguousTime time

def toOffset (time : Int) : DateTimeOffset := ⟨time, zone.getUtcOffset time⟩

def toLocal (time : DateTimeOffset) : Int := zone.localDateTime time.instant

variable {zone}

theorem toLocal_toOffset {time : Int} (h : zone.isPlain time = true) : zone.toLocal (zone.toOffset time) = time := by
  unfold isPlain at h
  rw [Bool.and_eq_true, Bool.not_eq_true', Bool.not_eq_true'] at h
  exact (zone.shown_once time h.1 h.2 _).mpr rfl

end LocalZone

/-! ## The form -/

structure Settings where
  name : String
  abbr : String
  description : Option String
  startTime : DateTimeOffset
  endTime : DateTimeOffset
  problemShowTime : Option DateTimeOffset
  freezeTime : Option DateTimeOffset
  isHidden : Bool
  isOpen : Bool
  deriving DecidableEq, Repr

structure InputModel where
  name : Option String
  abbr : Option String
  description : Option String
  startTime : Option Int
  endTime : Option Int
  problemShowTime : Option Int
  freezeTime : Option Int
  isHidden : Bool
  isOpen : Bool
  deriving DecidableEq, Repr

def abbrPattern : String := "[A-Za-z][A-Za-z0-9_-]*"

def isAbbrChar (c : Char) : Bool := isLatin c || ('0' ≤ c && c ≤ '9') || c == '_' || c == '-'

def isAbbr (text : String) : Bool :=
  match text.toList with
  | [] => false
  | c :: rest => isLatin c && rest.all isAbbrChar

/-- `[RegularExpression]`: null and the empty string pass. -/
def abbrMatches (text : Option String) : List ModelError :=
  if text.all fun text => text.isEmpty || isAbbr text then []
  else [⟨"Input.Abbr", "The field {0} must match the regular expression '{1}'.", ["Abbreviation", abbrPattern]⟩]

namespace InputModel

variable (zone : LocalZone) (input : InputModel)

def attributes : List ModelError :=
  required "Input.Name" "Name" (input.name.all isBlank) ++ maxLength "Input.Name" "Name" 256 input.name ++
    required "Input.Abbr" "Abbreviation" (input.abbr.all isBlank) ++
      maxLength "Input.Abbr" "Abbreviation" 128 input.abbr ++
    abbrMatches input.abbr ++
    required "Input.StartTime" "Start time" input.startTime.isNone ++
      required "Input.EndTime" "End time" input.endTime.isNone

/-- `time` is there, is `other`'s, and compares: an operator on nullable values. -/
def lifted (compares : Int → Int → Bool) (a b : Option Int) : Bool :=
  match a, b with
  | some a, some b => compares a b
  | _, _ => false

def unambiguous (field : String) (time : Option Int) : List ModelError :=
  if time.all zone.isPlain then [] else [⟨field, "Specify an unambiguous time in the server time zone.", []⟩]

def validate : List ModelError :=
  (if lifted (fun a b => decide (b ≤ a)) input.startTime input.endTime then
    [⟨"Input.EndTime", "Start time must be before end time.", []⟩] else []) ++
  (if lifted (fun a b => decide (a < b)) input.freezeTime input.startTime ||
      lifted (fun a b => decide (b < a)) input.freezeTime input.endTime then
    [⟨"Input.FreezeTime", "Freeze time must be within the contest.", []⟩] else []) ++
  unambiguous zone "Input.StartTime" input.startTime ++ unambiguous zone "Input.EndTime" input.endTime ++
  unambiguous zone "Input.ProblemShowTime" input.problemShowTime ++ unambiguous zone "Input.FreezeTime" input.freezeTime

/-- The whole is validated only if each field is valid. -/
def errors : List ModelError := if input.attributes.isEmpty then input.validate zone else input.attributes

/-- With values that did not convert: their fields are not validated, and neither is the whole. -/
def errorsWith (binding : List ModelError) : List ModelError :=
  if binding.isEmpty then input.errors zone
  else withBinding binding input.attributes

def valueOf {α : Type} (a : Option α) (e : Exn) : Except Exn α :=
  match a with
  | some a => .ok a
  | none => .error e

def applyTo : Except Exn Settings := do
  let name ← valueOf input.name .nullReference
  let abbr ← valueOf input.abbr .nullReference
  let startTime ← valueOf input.startTime (.invalidOperation "Nullable object must have a value.")
  let endTime ← valueOf input.endTime (.invalidOperation "Nullable object must have a value.")
  return {
    name := trim name
    abbr := trim abbr
    description := input.description
    startTime := zone.toOffset startTime
    endTime := zone.toOffset endTime
    problemShowTime := input.problemShowTime.map zone.toOffset
    freezeTime := input.freezeTime.map zone.toOffset
    isHidden := input.isHidden
    isOpen := input.isOpen }

def fromContest (settings : Settings) : InputModel where
  name := some settings.name
  abbr := some settings.abbr
  description := settings.description
  startTime := some (zone.toLocal settings.startTime)
  endTime := some (zone.toLocal settings.endTime)
  problemShowTime := settings.problemShowTime.map zone.toLocal
  freezeTime := settings.freezeTime.map zone.toLocal
  isHidden := settings.isHidden
  isOpen := settings.isOpen

end InputModel

/-! ## Settings that a form can show -/

section WellFormed

variable {zone : LocalZone}

/-- The time has the offset of the zone, and is neither invalid nor ambiguous there. -/
def Shown (zone : LocalZone) (time : DateTimeOffset) : Prop :=
  zone.isPlain time.clock = true ∧ time.offset = zone.getUtcOffset time.clock

theorem Shown.toOffset {time : Int} (h : zone.isPlain time = true) : Shown zone (zone.toOffset time) := ⟨h, rfl⟩

theorem Shown.toLocal {time : DateTimeOffset} (h : Shown zone time) : zone.toLocal time = time.clock ∧
    zone.toOffset (zone.toLocal time) = time := by
  obtain ⟨clock, offset⟩ := time
  obtain ⟨hplain, rfl⟩ : zone.isPlain clock = true ∧ offset = zone.getUtcOffset clock := h
  have hclock : zone.toLocal (zone.toOffset clock) = clock := LocalZone.toLocal_toOffset hplain
  exact ⟨hclock, congrArg zone.toOffset hclock⟩

/-- What holds of each column by itself. -/
structure WellFormed (zone : LocalZone) (settings : Settings) : Prop where
  name_text : isBlank settings.name = false ∧ trim settings.name = settings.name ∧ (ordinal settings.name).length ≤ 256
  abbr_text : isAbbr settings.abbr = true ∧ (ordinal settings.abbr).length ≤ 128
  startTime_shown : Shown zone settings.startTime
  endTime_shown : Shown zone settings.endTime
  problemShowTime_shown : ∀ time ∈ settings.problemShowTime, Shown zone time
  freezeTime_shown : ∀ time ∈ settings.freezeTime, Shown zone time

/-- The contest starts before it ends, and is frozen within. -/
structure Ordered (settings : Settings) : Prop where
  starts : settings.startTime.clock < settings.endTime.clock
  freezes : ∀ time ∈ settings.freezeTime, settings.startTime.clock ≤ time.clock ∧ time.clock ≤ settings.endTime.clock

theorem isAbbrChar_plain {c : Char} (h : isAbbrChar c = true) : isWhiteSpace c = false := by
  have hchars : ∀ n < 128, isAbbrChar (Char.ofNat n) = true → isWhiteSpace (Char.ofNat n) = false := by decide
  refine of_ascii (P := fun c => isAbbrChar c = true → isWhiteSpace c = false) hchars ?_ h
  simp only [isAbbrChar, isLatin, Bool.or_eq_true, Bool.and_eq_true, decide_eq_true_eq, beq_iff_eq] at h
  rcases h with (((⟨-, h⟩ | ⟨-, h⟩) | ⟨-, h⟩) | rfl) | rfl
  · have hle : c.toNat ≤ 90 := h
    omega
  · have hle : c.toNat ≤ 122 := h
    omega
  · have hle : c.toNat ≤ 57 := h
    omega
  · decide
  · decide

theorem isAbbr_plain {text : String} (h : isAbbr text = true) : isBlank text = false ∧ trim text = text := by
  unfold isAbbr at h
  split at h
  · cases h
  · next c rest hchars =>
    obtain ⟨hfirst, hrest⟩ := Bool.and_eq_true_iff.mp h
    have hall : ∀ d ∈ text.toList, isWhiteSpace d = false := by
      intro d hd
      rw [hchars] at hd
      rcases List.mem_cons.mp hd with rfl | hd
      · exact isAbbrChar_plain (by unfold isAbbrChar; rw [hfirst]; rfl)
      · exact isAbbrChar_plain (List.all_eq_true.mp hrest d hd)
    refine ⟨?_, trim_plain hall⟩
    have hmem : c ∈ text.toList := hchars ▸ List.mem_cons_self
    exact CompetitorPages.isBlank_false hmem (hall c hmem)

/-! ### What a form that is accepted saves -/

theorem required_nil {key name : String} {missing : Bool} (h : required key name missing = []) : missing = false := by
  unfold required at h
  split at h
  · cases h
  · next hne => exact Bool.eq_false_iff.mpr hne

theorem required_text {key name : String} {text : Option String} (h : required key name (text.all isBlank) = []) :
    ∃ t, text = some t ∧ isBlank t = false := by
  cases text with
  | none => cases required_nil h
  | some t => exact ⟨t, rfl, required_nil h⟩

theorem maxLength_nil {key name text : String} {maximum : Nat} (h : maxLength key name maximum (some text) = []) :
    (ordinal text).length ≤ maximum := by
  unfold maxLength at h
  split at h
  · next hle => exact of_decide_eq_true hle
  · cases h

theorem abbrMatches_nil {text : String} (hblank : isBlank text = false) (h : abbrMatches (some text) = []) :
    isAbbr text = true := by
  unfold abbrMatches at h
  split at h
  · next hmatch =>
    rw [Option.all_some, Bool.or_eq_true] at hmatch
    rcases hmatch with hempty | hmatch
    · have hnil : text = "" := by simpa using hempty
      rw [hnil] at hblank
      cases hblank
    · exact hmatch
  · cases h

theorem unambiguous_nil {field : String} {time : Option Int} (h : InputModel.unambiguous zone field time = []) :
    ∀ t ∈ time, zone.isPlain t = true := by
  unfold InputModel.unambiguous at h
  split at h
  · next hall =>
    intro t ht
    rw [Option.mem_def.mp ht] at hall
    exact hall
  · cases h

theorem errorsWith_nil {input : InputModel} {binding : List ModelError} (h : input.errorsWith zone binding = []) :
    input.errors zone = [] := by
  unfold InputModel.errorsWith at h
  split at h
  · exact h
  · next hsome =>
    rw [(withBinding_nil h).1] at hsome
    exact absurd rfl hsome

theorem if_nil {p : Prop} [Decidable p] {e : ModelError} (h : (if p then [e] else []) = []) : ¬p := by
  split at h
  · cases h
  · assumption

theorem applyTo_wellFormed {input : InputModel} (h : input.errors zone = []) :
    ∃ settings, input.applyTo zone = .ok settings ∧ WellFormed zone settings ∧ Ordered settings ∧
      input.abbr = some settings.abbr := by
  obtain ⟨name, abbr, description, startTime, endTime, problemShowTime, freezeTime, isHidden, isOpen⟩ := input
  unfold InputModel.errors at h
  split at h
  · next hattributes =>
    rw [List.isEmpty_iff] at hattributes
    simp only [InputModel.attributes, List.append_eq_nil_iff] at hattributes
    obtain ⟨⟨⟨⟨⟨⟨hname, hnameLength⟩, habbr⟩, habbrLength⟩, hmatches⟩, hstart⟩, hend⟩ := hattributes
    obtain ⟨name, rfl, hnameBlank⟩ := required_text hname
    obtain ⟨abbr, rfl, habbrBlank⟩ := required_text habbr
    obtain ⟨startTime, rfl⟩ := Option.isSome_iff_exists.mp (Option.isNone_eq_false_iff.mp (required_nil hstart))
    obtain ⟨endTime, rfl⟩ := Option.isSome_iff_exists.mp (Option.isNone_eq_false_iff.mp (required_nil hend))
    simp only [InputModel.validate, List.append_eq_nil_iff] at h
    obtain ⟨⟨⟨⟨⟨horder, hwithin⟩, hstartPlain⟩, hendPlain⟩, hshowPlain⟩, hfreezePlain⟩ := h
    have horder := if_nil horder
    have hwithin := if_nil hwithin
    have habbrText := abbrMatches_nil habbrBlank hmatches
    refine ⟨_, rfl, ⟨⟨?_, trim_trim name, ?_⟩, ⟨?_, ?_⟩, ?_, ?_, ?_, ?_⟩, ⟨?_, ?_⟩,
      congrArg some (isAbbr_plain habbrText).2.symm⟩
    · show isBlank (trim name) = false
      rw [isBlank_trim]; exact hnameBlank
    · exact le_trans (ordinal_trim_length name) (maxLength_nil hnameLength)
    · show isAbbr (trim abbr) = true
      rw [(isAbbr_plain habbrText).2]; exact habbrText
    · exact le_trans (ordinal_trim_length abbr) (maxLength_nil habbrLength)
    · exact Shown.toOffset (unambiguous_nil hstartPlain startTime rfl)
    · exact Shown.toOffset (unambiguous_nil hendPlain endTime rfl)
    · intro time htime
      obtain ⟨t, ht, rfl⟩ := Option.map_eq_some_iff.mp htime
      exact Shown.toOffset (unambiguous_nil hshowPlain t ht)
    · intro time htime
      obtain ⟨t, ht, rfl⟩ := Option.map_eq_some_iff.mp htime
      exact Shown.toOffset (unambiguous_nil hfreezePlain t ht)
    · simp only [InputModel.lifted, decide_eq_true_eq, not_le] at horder
      exact horder
    · intro time htime
      obtain ⟨t, rfl, rfl⟩ := Option.map_eq_some_iff.mp htime
      simp only [InputModel.lifted, Bool.or_eq_true, decide_eq_true_eq, not_or, not_lt] at hwithin
      exact hwithin
  · next hne =>
    rw [h] at hne
    exact absurd rfl hne

/-! ### What the form shows it accepts -/

theorem applyTo_fromContest {settings : Settings} (h : WellFormed zone settings) :
    (InputModel.fromContest zone settings).applyTo zone = .ok settings := by
  have hoption : ∀ time : Option DateTimeOffset, (∀ t ∈ time, Shown zone t) →
      (time.map zone.toLocal).map zone.toOffset = time := by
    intro time htime
    cases time with
    | none => rfl
    | some t => exact congrArg some (htime t rfl).toLocal.2
  show Except.ok _ = _
  simp only [Except.ok.injEq]
  rw [h.name_text.2.1, (isAbbr_plain h.abbr_text.1).2]
  obtain ⟨name, abbr, description, startTime, endTime, problemShowTime, freezeTime, isHidden, isOpen⟩ := settings
  have hstart := h.startTime_shown.toLocal.2
  have hend := h.endTime_shown.toLocal.2
  have hshow := hoption problemShowTime h.problemShowTime_shown
  have hfreeze := hoption freezeTime h.freezeTime_shown
  simp only [InputModel.fromContest] at *
  rw [hstart, hend, hshow, hfreeze]

theorem fromContest_errors {settings : Settings} (h : WellFormed zone settings) (hordered : Ordered settings) :
    (InputModel.fromContest zone settings).errors zone = [] := by
  have hattributes : (InputModel.fromContest zone settings).attributes = [] := by
    obtain ⟨hblank, -, hlength⟩ := h.name_text
    obtain ⟨habbr, habbrLength⟩ := h.abbr_text
    simp [InputModel.attributes, InputModel.fromContest, required, maxLength, abbrMatches, hblank, hlength, habbr,
      habbrLength, (isAbbr_plain habbr).1]
  have hplain : ∀ {time : DateTimeOffset}, Shown zone time → zone.isPlain (zone.toLocal time) = true := by
    intro time htime
    rw [htime.toLocal.1]
    exact htime.1
  have hoption : ∀ (field : String) (time : Option DateTimeOffset), (∀ t ∈ time, Shown zone t) →
      InputModel.unambiguous zone field (time.map zone.toLocal) = [] := by
    intro field time htime
    refine if_pos ?_
    cases time with
    | none => rfl
    | some t => exact hplain (htime t rfl)
  unfold InputModel.errors
  rw [hattributes, List.isEmpty_nil, if_pos rfl]
  have hstart := h.startTime_shown.toLocal.1
  have hend := h.endTime_shown.toLocal.1
  have hstarts := hordered.starts
  set input := InputModel.fromContest zone settings with hinput
  have horder : ¬InputModel.lifted (fun a b => decide (b ≤ a)) input.startTime input.endTime = true := by
    simp only [hinput, InputModel.fromContest, InputModel.lifted, hstart, hend, decide_eq_true_eq]
    omega
  have hwithin : ¬(InputModel.lifted (fun a b => decide (a < b)) input.freezeTime input.startTime ||
      InputModel.lifted (fun a b => decide (b < a)) input.freezeTime input.endTime) = true := by
    cases hfreeze : settings.freezeTime with
    | none => simp [hinput, InputModel.fromContest, InputModel.lifted, hfreeze]
    | some time =>
      have hclock := (h.freezeTime_shown time hfreeze).toLocal.1
      obtain ⟨hafter, hbefore⟩ := hordered.freezes time hfreeze
      simp only [hinput, InputModel.fromContest, hfreeze, Option.map_some, InputModel.lifted, hclock, hstart, hend,
        Bool.or_eq_true, decide_eq_true_eq]
      omega
  have hstartShown : ∀ t ∈ some settings.startTime, Shown zone t := fun t ht => Option.some.inj ht ▸ h.startTime_shown
  have hendShown : ∀ t ∈ some settings.endTime, Shown zone t := fun t ht => Option.some.inj ht ▸ h.endTime_shown
  simp only [InputModel.validate, if_neg horder, if_neg hwithin, List.nil_append, List.append_eq_nil_iff]
  exact ⟨⟨⟨hoption _ _ hstartShown, hoption _ _ hendShown⟩, hoption _ _ h.problemShowTime_shown⟩,
    hoption _ _ h.freezeTime_shown⟩

/-- The order of the clock is that of time. -/
theorem ordered_instants {settings : Settings} (h : WellFormed zone settings) (hordered : Ordered settings) :
    settings.startTime.instant < settings.endTime.instant ∧ ∀ time ∈ settings.freezeTime,
      settings.startTime.instant ≤ time.instant ∧ time.instant ≤ settings.endTime.instant := by
  have hlater : ∀ {a b : DateTimeOffset}, Shown zone a → Shown zone b → a.clock < b.clock → a.instant < b.instant := by
    intro a b ha hb hlt
    have haplain := ha.1
    have hbplain := hb.1
    unfold LocalZone.isPlain at haplain hbplain
    rw [Bool.and_eq_true, Bool.not_eq_true', Bool.not_eq_true'] at haplain hbplain
    unfold DateTimeOffset.instant
    rw [ha.2, hb.2]
    exact zone.shown_later _ _ haplain.1 haplain.2 hbplain.1 hbplain.2 hlt
  have hnotEarlier : ∀ {a b : DateTimeOffset}, Shown zone a → Shown zone b → a.clock ≤ b.clock →
      a.instant ≤ b.instant := by
    intro a b ha hb hle
    rcases Int.lt_or_eq_of_le hle with hlt | heq
    · exact Int.le_of_lt (hlater ha hb hlt)
    · unfold DateTimeOffset.instant
      rw [ha.2, hb.2, heq]
  refine ⟨hlater h.startTime_shown h.endTime_shown hordered.starts, fun time htime => ?_⟩
  obtain ⟨hafter, hbefore⟩ := hordered.freezes time htime
  have htimeShown := h.freezeTime_shown time htime
  exact ⟨hnotEarlier h.startTime_shown htimeShown hafter, hnotEarlier htimeShown h.endTime_shown hbefore⟩

end WellFormed

/-! ## The database -/

structure Contest where
  id : Int
  settings : Settings
  problemPdfId : Option Int
  deriving DecidableEq, Repr

/-- The exceptions: a `DbUpdateException` is one of them. -/
inductive Fault where
  | dbUpdate
  | other (e : Exn)

structure Store where
  contests : Table Contest Contest.id
  blobs : Table BlobRow BlobRow.id
  /-- The ids of the users. -/
  users : List Int
  claims : List UserClaim

/-- The columns that differ from what was read. -/
def Settings.write (loaded current stored : Settings) : Settings where
  name := saved loaded.name current.name stored.name
  abbr := saved loaded.abbr current.abbr stored.abbr
  description := saved loaded.description current.description stored.description
  startTime := saved loaded.startTime current.startTime stored.startTime
  endTime := saved loaded.endTime current.endTime stored.endTime
  problemShowTime := saved loaded.problemShowTime current.problemShowTime stored.problemShowTime
  freezeTime := saved loaded.freezeTime current.freezeTime stored.freezeTime
  isHidden := saved loaded.isHidden current.isHidden stored.isHidden
  isOpen := saved loaded.isOpen current.isOpen stored.isOpen

def settingsColumns (loaded current : Settings) : Update Contest.id where
  apply contest := { contest with settings := loaded.write current contest.settings }
  keeps _ := rfl

def freezeColumn (freezeTime : Option DateTimeOffset) : Update Contest.id where
  apply contest := { contest with settings := { contest.settings with freezeTime := freezeTime } }
  keeps _ := rfl

def pdfColumn (problemPdfId : Option Int) : Update Contest.id where
  apply contest := { contest with problemPdfId := problemPdfId }
  keeps _ := rfl

def newContest : Maker Settings Contest.id where
  make settings id := ⟨id, settings, none⟩
  keyed _ _ := rfl

namespace Store

variable (store : Store)

def updateContest (id : Int) (columns : Update Contest.id) : Store :=
  { store with contests := store.contests.update (columns.restrict (·.id == id)) }

/-- The contest, and the claim of who made it. -/
def addContest (settings : Settings) (userId : Int) : Store :=
  { store with
    contests := store.contests.insert newContest settings
    claims := store.claims ++ [⟨userId, "contest-manage", toString store.contests.next⟩] }

def loadPdf (contest : Contest) : Option BlobRow := contest.problemPdfId.bind store.blobs.find?

/-- The save of `UploadPdfAsync`: an update that finds no row is refused. -/
def savePdf (contest : Contest) (pdf : Option BlobRow) (data : Bytes) : Except Fault Store :=
  match pdf with
  | none => .ok { store.updateContest contest.id (pdfColumn (some store.blobs.next)) with
      blobs := store.blobs.insert TestArchive.Store.newBlob data }
  | some blob =>
    if data = blob.data then .ok store
    else if (store.blobs.find? blob.id).isNone then .error .dbUpdate
    else .ok { store with
      blobs := store.blobs.update ((TestArchive.Store.dataColumn blob data).restrict (·.id == blob.id)) }

/-- The save of `RemovePdfAsync`: a deletion that finds no row is refused, and so is that of a
    blob another contest refers to. -/
def deletePdf (contest : Contest) (blob : BlobRow) : Except Fault Store :=
  let updated := store.updateContest contest.id (pdfColumn none)
  if (store.blobs.find? blob.id).isNone ||
    updated.contests.rows.any (·.problemPdfId == some blob.id) then .error .dbUpdate
  else .ok { updated with blobs := store.blobs.remove (·.id == blob.id) }

end Store

/-! ## The page -/

structure Options where
  maxPdfBytes : Nat

inductive Request where
  /-- `binding` are the errors of the values that did not convert. -/
  | save (id : Option Int) (input : InputModel) (binding : List ModelError)
  | unfreeze (id : Int)
  | uploadPdf (id : Int) (file : Option Bytes)
  | removePdf (id : Int)

inductive Response where
  | forbid
  | notFound
  | page (errors : List ModelError)
  | redirectToPage (id : Int) (status : String)
  /-- Nothing handles the exception. -/
  | failed (fault : Fault)

inductive Stage where
  | received
  /-- `LoadAsync`, or a new contest. -/
  | loaded (contest : Option Contest)
  /-- The form is valid and applied. -/
  | applied (contest : Option Contest) (settings : Settings)
  /-- In the action of `RunAsync`. -/
  | running
  | pdfLoaded (contest : Contest) (pdf : Option BlobRow)
  | answered (response : Response)

structure Page where
  user : SignedIn
  request : Request
  stage : Stage

structure Outside where
  fault : Option Fault
  /-- What `AddClaimAsync` refuses the claim for. -/
  identityErrors : List String
  refreshFault : Option Exn

/-- What `RunAsync` makes of an exception. -/
def handle : Fault → Response
  | .dbUpdate => .page [⟨"", "Could not save the changes. Refresh the page and try again.", []⟩]
  | .other (.invalidData key args) => .page [⟨"", key, args⟩]
  | .other e => .failed (.other e)

def pdfSignature : Bytes := [0x25, 0x50, 0x44, 0x46, 0x2D]

section Page

variable (zone : LocalZone) (options : Options) (collation : String → List Nat)

def isUsed (store : Store) (id : Option Int) (abbr : Option String) : Bool :=
  store.contests.rows.any fun x => id != some x.id && abbr.any fun abbr => collation x.settings.abbr == collation abbr

/-- `ModelState`, when the abbreviation has been looked up. -/
def saveErrors (store : Store) (id : Option Int) (input : InputModel) (binding : List ModelError) : List ModelError :=
  input.errorsWith zone binding ++
    if isUsed collation store id input.abbr then [⟨"Input.Abbr", "This abbreviation is already in use.", []⟩] else []

def invalidSize : Fault :=
  .other (.invalidData "Invalid file size. Maximum: {0} MiB." [toString (options.maxPdfBytes / 1024 / 1024)])

def checkPdf (file : Option Bytes) : Except Fault Bytes :=
  match file with
  | none => .error (.other (.invalidData "Select a statements PDF." []))
  | some data =>
    if data.length = 0 || data.length > options.maxPdfBytes then .error (invalidSize options)
    else if !pdfSignature.isPrefixOf data then .error (.other (.invalidData "The file is not a PDF." []))
    else .ok data

def Request.contestId : Request → Option Int
  | .save id _ _ => id
  | .unfreeze id | .uploadPdf id _ | .removePdf id => some id

/-- The policy of the page, and `CanManage`. -/
def SignedIn.mayEdit (user : SignedIn) (request : Request) : Bool :=
  user.canCreate && request.contestId.all user.canManage

/-- What a request does between two accesses, the first included. -/
def Page.advance (page : Page) (o : Outside) (store : Store) : Stage × Store :=
  match page.stage, page.request with
  | .received, request =>
    if !SignedIn.mayEdit page.user request then (.answered .forbid, store)
    else
      match request with
      | .save none _ _ => (.loaded none, store)
      | .save (some id) _ _ =>
        match o.fault, store.contests.find? id with
        | some fault, _ => (.answered (.failed fault), store)
        | none, none => (.answered .notFound, store)
        | none, some contest => (.loaded (some contest), store)
      | .unfreeze id | .uploadPdf id _ | .removePdf id =>
        match o.fault, store.contests.find? id with
        | some fault, _ => (.answered (.failed fault), store)
        | none, none => (.answered .notFound, store)
        | none, some _ => (.running, store)
  | .loaded contest, .save id input binding =>
    match o.fault with
    | some fault => (.answered (.failed fault), store)
    | none =>
      match saveErrors zone collation store id input binding, input.applyTo zone with
      | [], .ok settings => (.applied contest settings, store)
      | [], .error e => (.answered (.failed (.other e)), store)
      | errors, _ => (.answered (.page errors), store)
  | .applied (some contest) settings, .save _ _ _ =>
    match o.fault with
    | some fault => (.answered (.failed fault), store)
    | none => (.answered (.redirectToPage contest.id "Settings saved."),
        store.updateContest contest.id (settingsColumns contest.settings settings))
  | .applied none settings, .save _ _ _ =>
    match o.fault with
    | some fault => (.answered (.failed fault), store)
    | none =>
      if !store.users.contains page.user.userId then (.answered .forbid, store)
      else if !o.identityErrors.isEmpty then
        (.answered (.page (o.identityErrors.map fun error => ⟨"", error, []⟩)), store)
      else
        (.answered (match o.refreshFault with
          | some e => .failed (.other e)
          | none => .redirectToPage store.contests.next "Settings saved."),
          store.addContest settings page.user.userId)
  | .running, .unfreeze id =>
    match o.fault with
    | some fault => (.answered (handle fault), store)
    | none => (.answered (.redirectToPage id "Standings unfrozen."), store.updateContest id (freezeColumn none))
  | .running, .uploadPdf id file =>
    match checkPdf options file, o.fault, store.contests.find? id with
    | .error fault, _, _ | .ok _, some fault, _ => (.answered (handle fault), store)
    | .ok _, none, none => (.answered (.failed (.other (.invalidOperation "Sequence contains no elements."))), store)
    | .ok _, none, some contest => (.pdfLoaded contest (store.loadPdf contest), store)
  | .running, .removePdf id =>
    match o.fault, store.contests.find? id with
    | some fault, _ => (.answered (handle fault), store)
    | none, none => (.answered (.failed (.other (.invalidOperation "Sequence contains no elements."))), store)
    | none, some contest =>
      match store.loadPdf contest with
      | none => (.answered (.redirectToPage id "Statements PDF removed."), store)
      | some pdf => (.pdfLoaded contest (some pdf), store)
  | .pdfLoaded contest pdf, .uploadPdf id file =>
    match checkPdf options file, o.fault with
    | .error fault, _ | .ok _, some fault => (.answered (handle fault), store)
    | .ok data, none =>
      match store.savePdf contest pdf data with
      | .error fault => (.answered (handle fault), store)
      | .ok store => (.answered (.redirectToPage id "Statements PDF uploaded."), store)
  | .pdfLoaded contest (some blob), .removePdf id =>
    match o.fault with
    | some fault => (.answered (handle fault), store)
    | none =>
      match store.deletePdf contest blob with
      | .error fault => (.answered (handle fault), store)
      | .ok store => (.answered (.redirectToPage id "Statements PDF removed."), store)
  | stage, _ => (stage, store)

end Page

/-! ## Requests in any order -/

structure St where
  store : Store
  pages : List Page

def init (store : Store) : St := ⟨store, []⟩

inductive Ev where
  | request (user : SignedIn) (request : Request)
  /-- The request goes on to the next place where others can get in. -/
  | advance (a : Nat) (o : Outside)

def step (zone : LocalZone) (options : Options) (collation : String → List Nat) (s : St) : Ev → Option St
  | .request user request => some { s with pages := s.pages ++ [⟨user, request, .received⟩] }
  | .advance a o =>
    match s.pages[a]? with
    | none => none
    | some page =>
      let (stage, store) := page.advance zone options collation o s.store
      some ⟨store, s.pages.set a { page with stage := stage }⟩

end OlympSystem.Site.ContestSettings
