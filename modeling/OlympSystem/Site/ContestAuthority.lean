/-
  OlympSystem.Site.ContestAuthority — who decides about the competitors of a contest.

  Nobody but those who can manage a contest: not the jury of another one, not a coach, not a
  contestant. Without them competitors come only by a registration, and without approval or
  login; they go only by the request of their coach or of their member; and no other column
  of one changes.

  A page checks what it has read, and the call it makes reads anew; others get in between.
  While nobody manages the contest nothing of what was checked changes but the time. The call
  that registers reads the clock itself. The call that deletes does not: its page found that
  the contest had not begun, and the deletion may come after the start.

  `Turn` names the steps that count: the one in which a page looks at the clock, the ones in
  which its call creates or deletes.

  Proved:
  - `second_ok`: the call that a page makes, with what the page has checked.
  - `request_ok`: while nobody manages the contest a request stays within what it may do.
  - `unmanaged_contest`: throughout every run, what has come and what has gone.
-/

import OlympSystem.Site.CompetitorPages

namespace OlympSystem.Site.Accounts.CompetitorPages

open Lib.Runs Lib.Text Lib.Transactions CompetitorManagement
open ContestPages (competitorsWith singleOrDefault)

variable {service : CompetitorManagementService} {o : Outside OperationExn} {db db' : Db}

/-! ## Pages -/

section Pages

variable (culture : Domain.Culture) (user : SignedIn)

theorem quiet_manage (id : Int) (post : ManagePost) : Quiet (Manage.onPostAsync user id post) := by
  unfold Manage.onPostAsync
  split
  · split
    · split
      · exact Quiet.pure _
      · exact (Quiet.query _).bind fun _ => Quiet.pure _
    · split <;> exact Quiet.pure _
  · exact Quiet.pure _
  · exact Quiet.pure _
  · split
    · exact Quiet.pure _
    · split <;> exact Quiet.pure _
  · split
    · exact Quiet.pure _
    · split <;> exact Quiet.pure _
  · exact Quiet.pure _
  · exact Quiet.pure _

theorem quiet_loadUser (contestId : Int) : Quiet (loadUserAsync user contestId) := Quiet.read _

theorem quiet_second (request : Request) (contest : Option Contest) : Quiet (request.second culture user contest) := by
  cases request with
  | manage id post => exact quiet_manage user id post
  | register id ooc =>
    show Quiet (Registration.onPostCreateAsync culture user id ooc contest)
    cases contest with
    | none => exact Quiet.pure _
    | some contest =>
      unfold Registration.onPostCreateAsync
      dsimp only
      split
      · exact Quiet.pure _
      · exact (quiet_loadUser user _).bind fun _ => Quiet.now.bind fun _ => Quiet.pure _
  | unregister id =>
    show Quiet (Registration.onPostDeleteAsync culture user id contest)
    cases contest with
    | none => exact Quiet.pure _
    | some contest =>
      unfold Registration.onPostDeleteAsync
      dsimp only
      split
      · exact Quiet.pure _
      · exact (quiet_loadUser user _).bind fun _ => Quiet.now.bind fun _ => Quiet.pure _
  | createTeam id orgId input binding =>
    refine (Quiet.query _).bind fun organization => ?_
    split
    · split
      · exact Quiet.pure _
      · split
        · exact Quiet.pure _
        · exact Quiet.now.bind fun _ => Quiet.pure _
    · exact Quiet.pure _
  | deleteTeam id teamId =>
    refine (Quiet.query _).bind fun team => ?_
    split
    · split
      · exact Quiet.pure _
      · refine Quiet.now.bind fun _ => ?_
        split
        · exact Quiet.pure _
        · exact (Quiet.lift _).bind fun _ => Quiet.pure _
    · exact Quiet.pure _

/-- The call that a page makes is for its contest. -/
theorem manage_call {id : Int} {post : ManagePost} {operation : Operation}
    (h : Returns o (Manage.onPostAsync user id post) db (.call operation) db') : operation.contestId = id := by
  unfold Manage.onPostAsync at h
  cases post with
  | action userId action =>
    dsimp only at h
    split at h
    · split at h
      · cases (Returns.pure h).1
      · have hanswer := Returns.query_bind h
        cases (Returns.pure hanswer).1
    · split at h
      · next heq =>
        cases (Returns.pure h).1
        unfold manageAction at heq
        split at heq <;> cases heq <;> rfl
      · cases (Returns.pure h).1
  | uploadParticipants file =>
    dsimp only at h
    split at h
    · cases (Returns.pure h).1
    · split at h
      · cases (Returns.pure h).1
      · cases (Returns.pure h).1
        rfl
  | uploadLogins file =>
    dsimp only at h
    split at h
    · cases (Returns.pure h).1
    · split at h
      · cases (Returns.pure h).1
      · cases (Returns.pure h).1
        rfl
  | approveAll | deleteWithoutSubmissions | createRandomLogins | removeLogins =>
    cases (Returns.pure h).1
    rfl

theorem register_call {id : Int} {ooc : Bool} {contest : Option Contest} {operation : Operation}
    (h : Returns o (Registration.onPostCreateAsync culture user id ooc contest) db (.call operation) db') :
    (∃ found, contest = some found ∧ found.isAcm culture = false) ∧
      operation = .registerIndividual id user.userId ooc := by
  cases contest with
  | none => cases (Returns.pure h).1
  | some contest =>
    unfold Registration.onPostCreateAsync at h
    dsimp only at h
    split at h
    · cases (Returns.pure h).1
    · next hacm =>
      obtain ⟨loaded, db₁, -, h₁⟩ := Returns.bind h
      obtain ⟨k, h₂⟩ := Returns.now_bind h₁
      have hnext := (Returns.pure h₂).1
      refine ⟨⟨contest, rfl, Bool.eq_false_iff.mpr hacm⟩, ?_⟩
      split at hnext
      · cases hnext
      · split at hnext
        · cases hnext
        · cases hnext
          rfl

/-- Whom a request withdraws, by what its page has checked. -/
def Withdraws (db : Db) (contest : Contest) (row : Competitor) : Request → Prop
  | .unregister _ => contest.isAcm culture = false ∧ db.isMember user.userId row = true
  | .deleteTeam _ teamId => contest.isAcm culture = true ∧ row.id = teamId ∧ row.isApproved = false ∧
      row.coachId = some user.userId ∧ ∃ orgId ∈ user.coachOrgs, row.organizationId = some orgId
  | .manage _ _ | .register _ _ | .createTeam _ _ _ _ => False

theorem singleOrDefault_mem {α : Type} {l : List α} {a : α} (h : singleOrDefault l = .ok (some a)) : a ∈ l := by
  cases l with
  | nil => cases h
  | cons first rest =>
    cases rest with
    | nil =>
      cases h
      exact List.mem_singleton_self _
    | cons second rest => cases h

/-- A page that withdraws looks at the clock after one query. -/
theorem unregister_call {id : Int} {contest : Option Contest} {operation : Operation} {s' : Session Db}
    (h : ReturnsFrom o (Registration.onPostDeleteAsync culture user id contest) ⟨db, 0⟩ (.call operation) s') :
    ∃ found row, contest = some found ∧ operation = .delete id row.id ∧ row ∈ db.competitors ∧
      Withdraws culture user db found row (.unregister id) ∧ o.clock 1 < found.startTime := by
  cases contest with
  | none => cases (ReturnsFrom.pure h).1
  | some contest =>
    unfold Registration.onPostDeleteAsync at h
    dsimp only at h
    split at h
    · cases (ReturnsFrom.pure h).1
    · next hacm =>
      obtain ⟨found, hloaded, h₁⟩ := ReturnsFrom.read_bind h
      have h₂ := ReturnsFrom.now_bind h₁
      have hnext := (ReturnsFrom.pure h₂).1
      split at hnext
      · cases hnext
      · next row hrow =>
        split at hnext
        · cases hnext
        · next hearly =>
          cases hnext
          unfold loaded at hloaded
          split at hloaded
          · cases hloaded
          · cases hsingle : singleOrDefault (competitorsWith contest.id user.userId db) with
            | error e =>
              rw [hsingle] at hloaded
              cases hloaded
            | ok competitor =>
              rw [hsingle] at hloaded
              cases hloaded
              have hmem := singleOrDefault_mem (hsingle.trans (congrArg Except.ok hrow))
              obtain ⟨hstored, -, hmember⟩ := ContestPages.mem_competitorsWith.mp hmem
              exact ⟨contest, row, rfl, rfl, hstored, ⟨Bool.eq_false_iff.mpr hacm, hmember⟩, not_le.mp hearly⟩

theorem createTeam_call {id orgId : Int} {input : TeamInput} {binding : List ContestPages.ModelError}
    {contest : Option Contest} {operation : Operation}
    (h : Returns o (Teams.Create.onPostAsync culture user id orgId input binding contest) db (.call operation) db') :
    (∃ participants, input.errors participants binding = []) ∧ orgId ∈ user.coachOrgs ∧
      operation = .registerTeam id orgId user.userId input.teamName (input.participants.map (·.getD "")) := by
  have h₁ := Returns.query_bind h
  split at h₁
  · split at h₁
    · cases (Returns.pure h₁).1
    · split at h₁
      · cases (Returns.pure h₁).1
      · next participants _ _ horg =>
        obtain ⟨k, h₂⟩ := Returns.now_bind h₁
        have hnext := (Returns.pure h₂).1
        split at hnext
        · cases hnext
        · split at hnext
          · cases hnext
          · next hvalid =>
            cases hnext
            exact ⟨⟨participants, by simpa using hvalid⟩, by simpa using horg, rfl⟩
  · cases (Returns.pure h₁).1

theorem deleteTeam_call {id teamId : Int} {contest : Option Contest} {operation : Operation} {s' : Session Db}
    (h : ReturnsFrom o (Teams.onPostDeleteAsync culture user id teamId contest) ⟨db, 0⟩ (.call operation) s') :
    ∃ found row, contest = some found ∧ operation = .delete id row.id ∧ row ∈ db.competitors ∧
      Withdraws culture user db found row (.deleteTeam id teamId) ∧ o.clock 1 < found.startTime := by
  have hquery := ReturnsFrom.query_bind h
  split at hquery
  · next found row hfound =>
    split at hquery
    · cases (ReturnsFrom.pure hquery).1
    · next hacm =>
      have h₁ := ReturnsFrom.now_bind hquery
      split at h₁
      · cases (ReturnsFrom.pure h₁).1
      · next hchecks =>
        obtain ⟨coaches, t, hcoaches, h₂⟩ := ReturnsFrom.bind h₁
        obtain ⟨hlift, -⟩ := Returns.lift hcoaches.returns
        have hnext := (ReturnsFrom.pure h₂).1
        split at hnext
        · next hcoach =>
          cases hnext
          rw [hcoach] at hlift
          have hrow := List.find?_some hfound
          simp only [Bool.and_eq_true, beq_iff_eq] at hrow
          simp only [Bool.or_eq_true, decide_eq_true_eq, bne_iff_ne, not_or, not_not, ge_iff_le, not_le,
            Bool.not_eq_true] at hchecks
          refine ⟨found, row, rfl, rfl, List.mem_of_find?_eq_some hfound,
            ⟨?_, hrow.2, hchecks.1.2, hchecks.2, ?_⟩, hchecks.1.1⟩
          · simpa using hacm
          · unfold CompetitorPages.coaches at hlift
            split at hlift
            · cases hlift
            · next orgId horg => exact ⟨orgId, by simpa using hlift, horg⟩
        · cases hnext
  · cases (ReturnsFrom.pure hquery).1

end Pages

/-! ## What happens to a contest that nobody manages -/

section Unmanaged

variable (service : CompetitorManagementService) (db₀ : Db) (contest : Contest) (es : List Ev)

/-- Whom a request registers. -/
def Registers (user : SignedIn) (db : Db) (row : Competitor) : Request → Prop
  | .register _ ooc => contest.isAcm service.culture = false ∧ row.isOutOfCompetition = ooc ∧
      db.isMember user.userId row = true
  | .createTeam _ orgId _ _ => contest.isAcm service.culture = true ∧ row.organizationId = some orgId ∧
      orgId ∈ user.coachOrgs ∧ row.coachId = some user.userId
  | .manage _ _ | .unregister _ | .deleteTeam _ _ => False

/-- A request of the run for the contest, by one who may ask it. -/
def Asked (user : SignedIn) (request : Request) : Prop :=
  Ev.request user request ∈ es ∧ request.id = contest.id ∧ user.mayAsk request = true

/-- The run takes a step of page `a`, which stands so in the state `s`. -/
structure Turn (a : Nat) (page : Page) (s : St) (o : Outside OperationExn) (s' : St) : Prop where
  takes : Takes (step service) (init db₀) es s (.advance a o) s'
  page : s.pages[a]? = some page

/-- In the step that decides, page `a` found that the contest, which is to be seen, had not begun. -/
def FoundEarly (a : Nat) (user : SignedIn) (request : Request) : Prop :=
  contest.isHidden = false ∧ ∃ s o s', Turn service db₀ es a ⟨user, request, .contestRead (some contest)⟩ s o s' ∧
    o.clock 1 < contest.startTime

/-- The call of page `a` has deleted the competitor. -/
def Deleted (a : Nat) (user : SignedIn) (request : Request) (row : Competitor) : Prop :=
  ∃ participant members s o s',
    Turn service db₀ es a ⟨user, request, .serving (.deletingRow contest.id row.id participant members)⟩ s o s' ∧
      row ∈ s.db.competitors ∧ row ∉ s'.db.competitors

/-- The competitor was withdrawn by its member or its coach, who asked before the start. -/
def Withdrawn (row : Competitor) : Prop :=
  ∃ a user request, Asked contest es user request ∧ Withdraws service.culture user db₀ contest row request ∧
    FoundEarly service db₀ contest es a user request ∧ Deleted service db₀ contest es a user request row

/-- The call of page `a` has created the competitor, and found that the contest was not over. -/
def Created (a : Nat) (user : SignedIn) (request : Request) (row : Competitor) : Prop :=
  contest.isHidden = false ∧ ∃ operation s o s',
    Turn service db₀ es a ⟨user, request, .serving (.start operation)⟩ s o s' ∧ o.clock 2 ≤ contest.endTime ∧
      row ∉ s.db.competitors ∧ row ∈ s'.db.competitors

/-- The competitor has registered, and nobody has decided about it. -/
def Joined (db : Db) (row : Competitor) : Prop :=
  (row.isApproved = false ∧ row.isDisqualified = false ∧ row.userName = none ∧ row.passwordHash = none) ∧
    ∃ a user request, Asked contest es user request ∧ Registers service contest user db row request ∧
      Created service db₀ contest es a user request row

/-- What has come to the contest, what has gone, and that nothing else has changed. -/
structure Unmanaged (db : Db) : Prop where
  same : Same db₀ db
  stays : ∀ row ∈ db₀.competitors, row.contestId = contest.id →
    row ∈ db.competitors ∨ Withdrawn service db₀ contest es row
  comes : ∀ row ∈ db.competitors, row.contestId = contest.id →
    row ∈ db₀.competitors ∨ Joined service db₀ contest es db row
  members : ∀ row ∈ db₀.competitors, row ∈ db.competitors → row.contestId = contest.id → ∀ userId,
    db.isMember userId row = db₀.isMember userId row

variable {service} {db₀} {contest} {es}

theorem unmanaged_init : Unmanaged service db₀ contest es db₀ where
  same := ⟨rfl, rfl, rfl, rfl, rfl, rfl, Int.le_refl _⟩
  stays _ hrow _ := Or.inl hrow
  comes _ hrow _ := Or.inl hrow
  members _ _ _ _ _ := rfl

/-- A competitor of the beginning that is there was there before. -/
theorem old_row (h : Changes db db') {row : Competitor} (hrow : row ∈ db'.competitors)
    (hold : row.concurrencyStamp < db.nextStamp) : row ∈ db.competitors := by
  have hkeeps : db.nextStamp ≤ db'.nextStamp ∧
      ∀ c ∈ db'.competitors, c.concurrencyStamp < db.nextStamp → c ∈ db.competitors := by
    refine h.keeps (P := fun db' => db.nextStamp ≤ db'.nextStamp ∧
      ∀ c ∈ db'.competitors, c.concurrencyStamp < db.nextStamp → c ∈ db.competitors) (fun db₁ db₂ hchange hbefore => ?_)
      ⟨Int.le_refl _, fun _ hc _ => hc⟩
    refine ⟨hbefore.1.trans hchange.same.nextStamp, fun c hc hstamp => hbefore.2 c ?_ hstamp⟩
    have hbound := hbefore.1
    cases hchange with
    | create new members h =>
      rw [h.competitors] at hc
      rcases List.mem_append.mp hc with hc | hc
      · exact hc
      · have hnew := h.stamp
        rw [← List.mem_singleton.mp hc] at hnew
        omega
    | remove id h =>
      rw [h.competitors] at hc
      exact (List.mem_filter.mp hc).1
    | flags old new h | assignLogin old new h | removeLogin old new h =>
      rcases (h.competitors c).mp hc with rfl | hc
      · have hnew := h.stamp
        omega
      · exact hc.1
  exact hkeeps.2 row hrow hold

/-- What a step has to show. -/
theorem unmanaged_next (h : Unmanaged service db₀ contest es db) (hsame : Same db db')
    (hgone : ∀ row ∈ db.competitors, row.contestId = contest.id → row ∉ db'.competitors → row ∈ db₀.competitors →
      Withdrawn service db₀ contest es row)
    (hcome : ∀ row ∈ db'.competitors, row.contestId = contest.id → row ∉ db.competitors →
      Joined service db₀ contest es db' row)
    (hmembers : ∀ row ∈ db.competitors, row.contestId = contest.id → row ∈ db'.competitors → ∀ userId,
      db'.isMember userId row = db.isMember userId row)
    (hold : ∀ row ∈ db₀.competitors, row ∈ db'.competitors → row ∈ db.competitors) :
    Unmanaged service db₀ contest es db' where
  same := h.same.trans hsame
  stays row hrow hcontest := by
    rcases h.stays row hrow hcontest with hstored | hwithdrawn
    · by_cases hstays : row ∈ db'.competitors
      · exact Or.inl hstays
      · exact Or.inr (hgone row hstored hcontest hstays hrow)
    · exact Or.inr hwithdrawn
  comes row hrow hcontest := by
    by_cases hstored : row ∈ db.competitors
    · rcases h.comes row hstored hcontest with hfirst | ⟨hnew, a, user, request, hasked, hregisters, hcreated⟩
      · exact Or.inl hfirst
      · refine Or.inr ⟨hnew, a, user, request, hasked, ?_, hcreated⟩
        cases request with
        | register id ooc =>
          refine ⟨hregisters.1, hregisters.2.1, ?_⟩
          rw [hmembers row hstored hcontest hrow]
          exact hregisters.2.2
        | createTeam => exact hregisters
        | manage | unregister | deleteTeam => exact hregisters.elim
    · exact Or.inr (hcome row hrow hcontest hstored)
  members row hfirst hrow hcontest userId := by
    have hstored := hold row hfirst hrow
    rw [hmembers row hstored hcontest hrow, h.members row hfirst hstored hcontest]

theorem unmanaged_elsewhere (h : Unmanaged service db₀ contest es db) {other : Int} (honly : OnlyIn other db db')
    (hne : contest.id ≠ other) (hold : ∀ row ∈ db₀.competitors, row ∈ db'.competitors → row ∈ db.competitors) :
    Unmanaged service db₀ contest es db' := by
  refine unmanaged_next h honly.same (fun row hrow hcontest hout _ => ?_) (fun row hrow hcontest hout => ?_)
    (fun row hrow hcontest _ userId => ?_) hold
  · exact absurd ((honly.competitors row (hcontest ▸ hne)).mpr hrow) hout
  · exact absurd ((honly.competitors row (hcontest ▸ hne)).mp hrow) hout
  · exact honly.members row hrow (hcontest ▸ hne) userId

theorem unmanaged_created (h : Unmanaged service db₀ contest es db) {new : Competitor} {members : List Int}
    (hcreates : Creates db db' new members) (hjoined : Joined service db₀ contest es db' new)
    (hold : ∀ row ∈ db₀.competitors, row ∈ db'.competitors → row ∈ db.competitors) :
    Unmanaged service db₀ contest es db' := by
  refine unmanaged_next h hcreates.toSame (fun row hrow _ hout _ => ?_) (fun row hrow _ hout => ?_)
    (fun row hrow _ _ userId => isMember_created hcreates hrow userId) hold
  · rw [hcreates.competitors] at hout
    exact absurd (List.mem_append_left _ hrow) hout
  · rw [hcreates.competitors] at hrow
    rcases List.mem_append.mp hrow with hstored | hnew
    · exact absurd hstored hout
    · rw [List.mem_singleton.mp hnew]
      exact hjoined

theorem unmanaged_removed (h : Unmanaged service db₀ contest es db) {id : Int} (hremoves : Removes db db' [id])
    (hwithdrawn : ∀ row ∈ db₀.competitors, row ∈ db.competitors → row.contestId = contest.id → row.id = id →
      Withdrawn service db₀ contest es row) : Unmanaged service db₀ contest es db' := by
  have hleft : ∀ row, row ∈ db'.competitors ↔ row ∈ db.competitors ∧ row.id ≠ id := by
    intro row
    rw [hremoves.competitors, List.mem_filter]
    simp
  refine unmanaged_next h hremoves.toSame (fun row hrow hcontest hout hfirst => ?_) (fun row hrow _ hout => ?_)
    (fun row hrow _ hstays userId => isMember_removed hremoves ?_ userId) fun row _ hrow => ((hleft row).mp hrow).1
  · refine hwithdrawn row hfirst hrow hcontest ?_
    by_contra hne
    exact hout ((hleft row).mpr ⟨hrow, hne⟩)
  · exact absurd ((hleft row).mp hrow).1 hout
  · simpa using ((hleft row).mp hstays).2

/-! ## Requests while nobody manages -/

variable (service) (db₀) (contest) (es)

def Deletes (id participantId : Int) : Call → Prop
  | .start (.delete id' participantId') | .deleting id' participantId' _ _ | .deletingMessages id' participantId' _ _
  | .deletingRow id' participantId' _ _ => id' = id ∧ participantId' = participantId
  | _ => False

/-- What a page that withdraws a competitor has made sure of. -/
def Grounds (db : Db) (a : Nat) (user : SignedIn) (request : Request) (participantId : Int) : Prop :=
  FoundEarly service db₀ contest es a user request ∧
    ∀ row ∈ db₀.competitors, row ∈ db.competitors → row.contestId = contest.id → row.id = participantId →
      Withdraws service.culture user db₀ contest row request

/-- The call stays within what the request may do. -/
def Within (db : Db) (a : Nat) (user : SignedIn) (call : Call) : Request → Prop
  | .manage _ _ => False
  | .register id ooc => call = .start (.registerIndividual id user.userId ooc)
  | .createTeam id orgId _ _ => orgId ∈ user.coachOrgs ∧
      ∃ name participants, call = .start (.registerTeam id orgId user.userId name participants)
  | .unregister id => ∃ participantId, Deletes id participantId call ∧
      Grounds service db₀ contest es db a user (.unregister id) participantId
  | .deleteTeam id teamId => ∃ participantId, Deletes id participantId call ∧
      Grounds service db₀ contest es db a user (.deleteTeam id teamId) participantId

def StageOk (db : Db) (a : Nat) (user : SignedIn) (request : Request) : Stage → Prop
  | .received | .answered _ => True
  | .contestRead found => user.mayAsk request = true ∧ found = visibleContest request.id db₀
  | .serving call => user.mayAsk request = true ∧ CallOk db call ∧ call.isFor request.id ∧
      (request.id = contest.id → Within service db₀ contest es db a user call request)

def PageOk (db : Db) (a : Nat) (page : Page) : Prop :=
  Ev.request page.user page.request ∈ es ∧ StageOk service db₀ contest es db a page.user page.request page.stage

variable {service} {db₀} {contest} {es}

theorem grounds_changes {a : Nat} {user : SignedIn} {request : Request} {participantId : Int}
    (hold : ∀ row ∈ db₀.competitors, row ∈ db'.competitors → row ∈ db.competitors)
    (h : Grounds service db₀ contest es db a user request participantId) :
    Grounds service db₀ contest es db' a user request participantId :=
  ⟨h.1, fun row hfirst hrow => h.2 row hfirst (hold row hfirst hrow)⟩

/-- What others do leaves a request as it should be. -/
theorem pageOk_changes (hchanges : Changes db db')
    (hold : ∀ row ∈ db₀.competitors, row ∈ db'.competitors → row ∈ db.competitors) {a : Nat} {page : Page}
    (h : PageOk service db₀ contest es db a page) : PageOk service db₀ contest es db' a page := by
  obtain ⟨user, request, stage⟩ := page
  refine ⟨h.1, ?_⟩
  have hstage := h.2
  cases stage with
  | received | answered => trivial
  | contestRead found => exact hstage
  | serving call =>
    obtain ⟨hmay, hcall, hfor, hwithin⟩ := hstage
    refine ⟨hmay, callOk_changes hchanges hcall, hfor, fun hid => ?_⟩
    have hbefore := hwithin hid
    cases request with
    | manage | register | createTeam => exact hbefore
    | unregister | deleteTeam =>
      obtain ⟨participantId, hdeletes, hgrounds⟩ := hbefore
      exact ⟨participantId, hdeletes, grounds_changes hold hgrounds⟩

theorem work_cases {α : Type} {page : Page} {w : Op α} {next : α → Stage} {stage : Stage} (hw : Quiet w)
    (h : page.work w next o db = (stage, db')) :
    db' = db ∧ ((∃ a n, ReturnsFrom o w ⟨db, 0⟩ a ⟨db, n⟩ ∧ stage = next a) ∨
      ∃ response, stage = .answered response) := by
  unfold Page.work at h
  have hquiet := hw o ⟨db, 0⟩
  generalize hrun : w o ⟨db, 0⟩ = r at h hquiet
  obtain ⟨result, s⟩ := r
  cases result with
  | error e =>
    cases h
    exact ⟨hquiet, Or.inr ⟨_, rfl⟩⟩
  | ok a =>
    cases h
    obtain ⟨db₁, count⟩ := s
    obtain rfl : db₁ = db := hquiet
    exact ⟨rfl, Or.inl ⟨a, count, hrun, rfl⟩⟩

section Step

variable (hfound : db₀.contests.find? contest.id = some contest)
  (hnobody : ∀ user post, Ev.request user (.manage contest.id post) ∈ es → user.canManage contest.id = false)

/-- Whom a page withdraws by what it has read, it may withdraw by what was at first. -/
theorem grounds_read (h : Unmanaged service db₀ contest es db) {a : Nat} {user : SignedIn} {request : Request}
    {row : Competitor} (hearly : FoundEarly service db₀ contest es a user request) (hrow : row ∈ db.competitors)
    (hwithdraws : Withdraws service.culture user db contest row request) :
    Grounds service db₀ contest es db a user request row.id := by
  refine ⟨hearly, fun first hfirst hstored hof hid => ?_⟩
  obtain rfl := Db.competitor_unique hstored hrow hid
  cases request with
  | unregister id =>
    refine ⟨hwithdraws.1, ?_⟩
    rw [← h.members first hfirst hstored hof]
    exact hwithdraws.2
  | deleteTeam => exact hwithdraws
  | manage | register | createTeam => exact hwithdraws.elim

include hfound in
theorem visible_found {id : Int} {found : Contest} (hid : id = contest.id) (h : some found = visibleContest id db₀) :
    found = contest ∧ contest.isHidden = false := by
  unfold visibleContest at h
  rw [hid, hfound] at h
  obtain ⟨hsome, hvisible⟩ := Option.filter_eq_some_iff.mp h.symm
  cases hsome
  exact ⟨rfl, by simpa using hvisible⟩

include hfound hnobody in
/-- The call that a page makes. -/
theorem second_ok {a : Nat} {s s' : St} (h : Unmanaged service db₀ contest es s.db) {user : SignedIn}
    {request : Request} {found : Option Contest} {operation : Operation} {t : Session Db}
    (hasked : Ev.request user request ∈ es) (hmay : user.mayAsk request = true)
    (hread : request.readsContest = true → found = visibleContest request.id db₀ ∧
      Turn service db₀ es a ⟨user, request, .contestRead found⟩ s o s')
    (hcall : ReturnsFrom o (request.second service.culture user found) ⟨s.db, 0⟩ (.call operation) t) :
    StageOk service db₀ contest es s.db a user request (.serving (.start operation)) := by
  cases request with
  | manage id post =>
    refine ⟨hmay, trivial, manage_call user hcall.returns, fun hid => ?_⟩
    have hmanages : user.canManage id = true := hmay
    rw [show id = contest.id from hid] at hmanages hasked
    rw [hnobody user post hasked] at hmanages
    cases hmanages
  | register id ooc =>
    obtain ⟨-, rfl⟩ := register_call service.culture user hcall.returns
    exact ⟨hmay, trivial, rfl, fun _ => rfl⟩
  | unregister id =>
    obtain ⟨found, row, rfl, rfl, hrow, hwithdraws, hearly⟩ := unregister_call service.culture user hcall
    obtain ⟨hvisible, hturn⟩ := hread rfl
    refine ⟨hmay, trivial, rfl, fun hid => ⟨row.id, ⟨rfl, rfl⟩, ?_⟩⟩
    obtain ⟨rfl, hshown⟩ := visible_found hfound hid hvisible
    exact grounds_read h ⟨hshown, s, o, s', hturn, hearly⟩ hrow hwithdraws
  | createTeam id orgId input binding =>
    obtain ⟨-, horg, rfl⟩ := createTeam_call service.culture user hcall.returns
    exact ⟨hmay, trivial, rfl, fun _ => ⟨horg, _, _, rfl⟩⟩
  | deleteTeam id teamId =>
    obtain ⟨found, row, rfl, rfl, hrow, hwithdraws, hearly⟩ := deleteTeam_call service.culture user hcall
    obtain ⟨hvisible, hturn⟩ := hread rfl
    refine ⟨hmay, trivial, rfl, fun hid => ⟨row.id, ⟨rfl, rfl⟩, ?_⟩⟩
    obtain ⟨rfl, hshown⟩ := visible_found hfound hid hvisible
    exact grounds_read h ⟨hshown, s, o, s', hturn, hearly⟩ hrow hwithdraws

/-! ## Calls -/

/-- Of a call that deletes, the last piece does. -/
theorem deletes_advance {id participantId : Int} {call call' : Call} (hdeletes : Deletes id participantId call)
    (hok : CallOk db call) (h : call.advance service o db = (call', db')) :
    (Deletes id participantId call' ∨ ∃ result, call' = .over result) ∧
      (db' = db ∨ (∃ participant members, call = .deletingRow id participantId participant members) ∧
        Removes db db' [participantId]) := by
  have hread : ∀ {α : Type} {w : Op α} {next : α → Call}, piece w next o db = (call', db') → Quiet w →
      (∀ a, Deletes id participantId (next a)) →
      (Deletes id participantId call' ∨ ∃ result, call' = .over result) ∧ db' = db := by
    intro α w next hpiece hw hnext
    rcases piece_cases hw.atomic hpiece with ⟨a, hreturns, rfl⟩ | ⟨⟨e, rfl⟩, rfl⟩
    · exact ⟨Or.inl (hnext a), hreturns.quiet hw⟩
    · exact ⟨Or.inr ⟨_, rfl⟩, rfl⟩
  cases call with
  | start operation =>
    cases operation with
    | delete id' participantId' =>
      obtain ⟨rfl, rfl⟩ := hdeletes
      exact (hread h (quiet_find _) fun _ => ⟨rfl, rfl⟩).imp_right Or.inl
    | registerIndividual | registerTeam | set | deleteWithoutSubmissions | approveAll | «import» | assignLogins
    | generateLogins | removeLogins => exact hdeletes.elim
  | deleting | deletingMessages => exact (hread h (quiet_refuse _) fun _ => hdeletes).imp_right Or.inl
  | deletingRow id' participantId' participant members =>
    obtain ⟨rfl, rfl⟩ := hdeletes
    rcases piece_cases (Atomic.access _) h with ⟨a, hreturns, rfl⟩ | ⟨⟨e, rfl⟩, rfl⟩
    · obtain ⟨-, -, hremoves⟩ := deleteAsync_returns hreturns
      rw [hok.2.1] at hremoves
      exact ⟨Or.inr ⟨_, rfl⟩, Or.inr ⟨⟨participant, members, rfl⟩, hremoves⟩⟩
    · exact ⟨Or.inr ⟨_, rfl⟩, Or.inl rfl⟩
  | updating | generating | «over» => exact hdeletes.elim

include hfound in
/-- What a registration leaves, with what it has checked. -/
theorem unmanaged_registered {a : Nat} {s s' : St} (h : Unmanaged service db₀ contest es s.db) {acm : Bool}
    {participant : Competitor} {members : List OlympUser} {u : Unit} {user : SignedIn} {request : Request}
    {operation : Operation} (hturn : Turn service db₀ es a ⟨user, request, .serving (.start operation)⟩ s o s')
    (hopen : RegistrationOpen service.culture o s.db contest.id acm)
    (hcreate : Returns o (UserManager.createAsync participant members) s.db u s'.db)
    (hnew : participant.isApproved = false ∧ participant.isDisqualified = false ∧ participant.userName = none ∧
      participant.passwordHash = none) (hasked : Asked contest es user request)
    (hregisters : contest.isAcm service.culture = acm →
      Registers service contest user s'.db (s.db.created participant) request) :
    Unmanaged service db₀ contest es s'.db := by
  have hcreates := createAsync_returns hcreate
  obtain ⟨contest', hfound', hvisible, hacm, htime⟩ := hopen
  rw [h.same.contests, hfound] at hfound'
  cases hfound'
  have hstamp := hcreates.stamp
  have hjoins : s.db.created participant ∉ s.db.competitors ∧ s.db.created participant ∈ s'.db.competitors := by
    refine ⟨fun hstored => ?_, ?_⟩
    · have hold : (s.db.created participant).concurrencyStamp < s.db.nextStamp :=
        s.db.stamps _ (Db.mem_competitors.mp hstored)
      omega
    · rw [hcreates.competitors]
      exact List.mem_append_right _ (List.mem_singleton_self _)
  refine unmanaged_created h hcreates ⟨hnew, a, user, request, hasked, hregisters hacm, hvisible,
    operation, s, o, s', hturn,
    htime, hjoins⟩ fun row hfirst hrow => ?_
  have hold : row.concurrencyStamp < db₀.nextStamp := db₀.stamps _ (Db.mem_competitors.mp hfirst)
  have hnext := h.same.nextStamp
  rw [hcreates.competitors] at hrow
  rcases List.mem_append.mp hrow with hstored | hcreated
  · exact hstored
  · rw [← List.mem_singleton.mp hcreated] at hstamp
    omega

include hfound in
/-- A registration for the contest that a request within its bounds makes. -/
theorem registration_unmanaged {a : Nat} {s s' : St} (h : Unmanaged service db₀ contest es s.db)
    {user : SignedIn} {id : Int} {ooc : Bool} {call' : Call} (hasked : Asked contest es user (.register id ooc))
    (hturn : Turn service db₀ es a
      ⟨user, .register id ooc, .serving (.start (.registerIndividual id user.userId ooc))⟩ s o s')
    (hpiece : (Operation.registerIndividual id user.userId ooc).begin service o s.db = (call', s'.db)) :
    Unmanaged service db₀ contest es s'.db ∧ ∃ result, call' = .over result := by
  rcases piece_outcome (Atomic.transaction _) hpiece with ⟨u, n, hreturns, rfl⟩ | ⟨e, -, rfl, hdb⟩
  · obtain rfl : id = contest.id := hasked.2.1
    have hopen := registerIndividualAsync_open service hreturns
    obtain ⟨member, organization, registrationDate, hmember, hcreate⟩ :=
      registerIndividualAsync_returns service hreturns.returns
    refine ⟨unmanaged_registered hfound h hturn hopen hcreate ⟨rfl, rfl, rfl, rfl⟩ hasked fun hacm => ?_, _, rfl⟩
    refine ⟨hacm, rfl, ((createAsync_returns hcreate).isMember_new).mpr ?_⟩
    rw [← hmember]
    exact List.mem_singleton_self _
  · exact ⟨hdb ▸ h, _, rfl⟩

include hfound in
theorem team_unmanaged {a : Nat} {s s' : St} (h : Unmanaged service db₀ contest es s.db)
    {user : SignedIn} {id orgId : Int} {input : TeamInput} {binding : List ContestPages.ModelError} {name : String}
    {participants : List String} {call' : Call}
    (hasked : Asked contest es user (.createTeam id orgId input binding)) (horg : orgId ∈ user.coachOrgs)
    (hturn : Turn service db₀ es a ⟨user, .createTeam id orgId input binding,
      .serving (.start (.registerTeam id orgId user.userId name participants))⟩ s o s')
    (hpiece : (Operation.registerTeam id orgId user.userId name participants).begin service o s.db = (call', s'.db)) :
    Unmanaged service db₀ contest es s'.db ∧ ∃ result, call' = .over result := by
  rcases piece_outcome (atomic_registerTeam _ _ _ _ _ _) hpiece with ⟨u, n, hreturns, rfl⟩ | ⟨e, -, rfl, hdb⟩
  · obtain rfl : id = contest.id := hasked.2.1
    have hopen := registerTeamAsync_open service hreturns
    obtain ⟨_, _, _, -, -, -, -, hcreate⟩ := registerTeamAsync_returns service hreturns.returns
    refine ⟨unmanaged_registered hfound h hturn hopen hcreate ⟨rfl, rfl, rfl, rfl⟩ hasked fun hacm => ?_, _, rfl⟩
    exact ⟨hacm, rfl, horg, rfl⟩
  · exact ⟨hdb ▸ h, _, rfl⟩

theorem deletion_unmanaged {a : Nat} {s s' : St} (h : Unmanaged service db₀ contest es s.db) {user : SignedIn}
    {request : Request} {participantId : Int} {call call' : Call} (hasked : Asked contest es user request)
    (hturn : Turn service db₀ es a ⟨user, request, .serving call⟩ s o s')
    (hdeletes : Deletes contest.id participantId call)
    (hgrounds : Grounds service db₀ contest es s.db a user request participantId)
    (hok : CallOk s.db call) (hpiece : call.advance service o s.db = (call', s'.db)) :
    Unmanaged service db₀ contest es s'.db ∧
      (Deletes contest.id participantId call' ∨ ∃ result, call' = .over result) := by
  obtain ⟨hcall, hdb⟩ := deletes_advance hdeletes hok hpiece
  refine ⟨?_, hcall⟩
  rcases hdb with hdb | ⟨⟨participant, members, rfl⟩, hremoves⟩
  · exact hdb ▸ h
  · refine unmanaged_removed h hremoves fun row hfirst hstored hof hid => ?_
    subst hid
    refine ⟨a, user, request, hasked, hgrounds.2 row hfirst hstored hof rfl, hgrounds.1, participant,
      members, s, o, s', hturn,
      hstored, fun hstays => ?_⟩
    rw [hremoves.competitors] at hstays
    simpa using (List.mem_filter.mp hstays).2

/-- A call goes on to serve the request, or the page answers. -/
theorem serve_cases (page : Page) (call : Call) :
    (∃ response, page.serve call = .answered response) ∨ page.serve call = .serving call := by
  cases call with
  | «over» result =>
    cases result with
    | ok value => exact Or.inl ⟨_, rfl⟩
    | error e => exact Or.inl ⟨_, rfl⟩
  | start | updating | deleting | deletingMessages | deletingRow | generating => exact Or.inr rfl

theorem serve_over (page : Page) (result : Except OperationExn Value) :
    ∃ response, page.serve (.over result) = .answered response := by
  cases result with
  | ok value => exact ⟨_, rfl⟩
  | error e => exact ⟨_, rfl⟩

theorem first_rows (h : Unmanaged service db₀ contest es db) (hchanges : Changes db db') :
    ∀ row ∈ db₀.competitors, row ∈ db'.competitors → row ∈ db.competitors := by
  intro row hfirst hrow
  have hold : row.concurrencyStamp < db₀.nextStamp := db₀.stamps _ (Db.mem_competitors.mp hfirst)
  have hnext := h.same.nextStamp
  exact old_row hchanges hrow (by omega)

include hfound in
/-- A piece of the call of a request. -/
theorem serving_ok {a : Nat} {s s' : St} (h : Unmanaged service db₀ contest es s.db) {user : SignedIn}
    {request : Request}
    {call call' : Call} (hpage : PageOk service db₀ contest es s.db a ⟨user, request, .serving call⟩)
    (hturn : Turn service db₀ es a ⟨user, request, .serving call⟩ s o s')
    (hpiece : call.advance service o s.db = (call', s'.db)) :
    Unmanaged service db₀ contest es s'.db ∧ Changes s.db s'.db ∧
      StageOk service db₀ contest es s'.db a user request ((⟨user, request, .serving call⟩ : Page).serve call') := by
  obtain ⟨hevent, hmay, hcall, hfor, hwithin⟩ := hpage
  dsimp only at hevent hmay hfor hwithin
  obtain ⟨honly, hfor'⟩ := advance_onlyIn hcall hfor hpiece
  have hchanges : Changes s.db s'.db ∧ (CallOk s'.db call' ∨ ∃ result, call' = .over result) := by
    rcases advance_advanced hcall hpiece with ⟨hdb, hcall'⟩ | ⟨⟨value, hover⟩, hchanges⟩
    · rw [hdb]
      exact ⟨.refl, Or.inl hcall'⟩
    · exact ⟨hchanges, Or.inr ⟨_, hover⟩⟩
  have hfirst := first_rows h hchanges.1
  -- the stage, from what holds of the call while it goes on
  have hnext : (request.id = contest.id → Within service db₀ contest es s'.db a user call' request ∨
        ∃ result, call' = .over result) →
      StageOk service db₀ contest es s'.db a user request ((⟨user, request, .serving call⟩ : Page).serve call') := by
    intro hwithin'
    by_cases hover : ∃ result, call' = .over result
    · obtain ⟨result, rfl⟩ := hover
      obtain ⟨response, hserve⟩ := serve_over ⟨user, request, .serving call⟩ result
      rw [hserve]
      trivial
    · rcases serve_cases ⟨user, request, .serving call⟩ call' with ⟨response, hserve⟩ | hserve
      · rw [hserve]
        trivial
      · rw [hserve]
        exact ⟨hmay, hchanges.2.resolve_right hover, hfor', fun hid => (hwithin' hid).resolve_right hover⟩
  by_cases hid : request.id = contest.id
  · have hasked : Asked contest es user request := ⟨hevent, hid, hmay⟩
    have hbefore := hwithin hid
    cases request with
    | manage id post => exact hbefore.elim
    | register id ooc =>
      obtain rfl := hbefore
      obtain ⟨hunmanaged, hover⟩ := registration_unmanaged hfound h hasked hturn hpiece
      exact ⟨hunmanaged, hchanges.1, hnext fun _ => Or.inr hover⟩
    | createTeam id orgId input binding =>
      obtain ⟨horg, name, participants, rfl⟩ := hbefore
      obtain ⟨hunmanaged, hover⟩ := team_unmanaged hfound h hasked horg hturn hpiece
      exact ⟨hunmanaged, hchanges.1, hnext fun _ => Or.inr hover⟩
    | unregister id | deleteTeam id =>
      obtain rfl : id = contest.id := hid
      obtain ⟨participantId, hdeletes, hgrounds⟩ := hbefore
      obtain ⟨hunmanaged, hcall'⟩ := deletion_unmanaged h hasked hturn hdeletes hgrounds hcall hpiece
      refine ⟨hunmanaged, hchanges.1, hnext fun _ => hcall'.imp_left fun hdeletes' => ?_⟩
      exact ⟨participantId, hdeletes', grounds_changes hfirst hgrounds⟩
  · exact ⟨unmanaged_elsewhere h honly (Ne.symm hid) hfirst, hchanges.1, hnext fun hsame => absurd hsame hid⟩

include hfound hnobody in
theorem work_ok {a : Nat} {s s' : St} (h : Unmanaged service db₀ contest es s.db) {page : Page} {found : Option Contest}
    {stage : Stage} (hasked : Ev.request page.user page.request ∈ es) (hmay : page.user.mayAsk page.request = true)
    (hread : page.request.readsContest = true → found = visibleContest page.request.id db₀ ∧
      Turn service db₀ es a ⟨page.user, page.request, .contestRead found⟩ s o s')
    (hwork : page.work (page.request.second service.culture page.user found) Next.stage o s.db = (stage, db')) :
    db' = s.db ∧ StageOk service db₀ contest es s.db a page.user page.request stage := by
  obtain ⟨hdb, ⟨next, n, hreturns, rfl⟩ | ⟨response, rfl⟩⟩ :=
    work_cases (quiet_second service.culture page.user page.request found) hwork
  · refine ⟨hdb, ?_⟩
    cases next with
    | answer response => trivial
    | call operation => exact second_ok hfound hnobody h hasked hmay hread hreturns
  · exact ⟨hdb, trivial⟩

include hfound hnobody in
/-- While nobody manages the contest a request stays within what it may do. -/
theorem request_ok {a : Nat} {s s' : St} (h : Unmanaged service db₀ contest es s.db) {page : Page} {stage : Stage}
    (hpage : PageOk service db₀ contest es s.db a page) (hturn : Turn service db₀ es a page s o s')
    (hpiece : page.advance service o s.db = (stage, s'.db)) :
    Unmanaged service db₀ contest es s'.db ∧ Changes s.db s'.db ∧
      StageOk service db₀ contest es s'.db a page.user page.request stage := by
  obtain ⟨user, request, before⟩ := page
  -- what leaves the database alone
  have hsame : s'.db = s.db ∧ StageOk service db₀ contest es s.db a user request stage →
      Unmanaged service db₀ contest es s'.db ∧ Changes s.db s'.db ∧
        StageOk service db₀ contest es s'.db a user request stage := by
    rintro ⟨hdb, hstage⟩
    rw [hdb]
    exact ⟨h, .refl, hstage⟩
  cases before with
  | received =>
    unfold Page.advance at hpiece
    dsimp only at hpiece
    split at hpiece
    · refine hsame ?_
      injection hpiece with hstage hdb
      rw [← hstage]
      exact ⟨hdb.symm, trivial⟩
    · next hmay =>
      have hmay' : user.mayAsk request = true := by simpa using hmay
      split at hpiece
      · obtain ⟨hdb, ⟨found, n, hreturns, rfl⟩ | ⟨response, rfl⟩⟩ := work_cases (Quiet.query _) hpiece
        · refine hsame ⟨hdb, hmay', ?_⟩
          rw [(Returns.query hreturns.returns).1]
          unfold visibleContest
          rw [h.same.contests]
        · exact hsame ⟨hdb, trivial⟩
      · next hreads =>
        have hread : request.readsContest = true → none = visibleContest request.id db₀ ∧
            Turn service db₀ es a ⟨user, request, .contestRead none⟩ s o s' :=
          fun hreads' => absurd hreads' hreads
        exact hsame (work_ok hfound hnobody h hpage.1 hmay' hread hpiece)
  | contestRead found =>
    exact hsame (work_ok hfound hnobody h hpage.1 hpage.2.1 (fun _ => ⟨hpage.2.2, hturn⟩) hpiece)
  | serving call =>
    injection hpiece with hstage hdb
    rw [← hstage]
    exact serving_ok hfound h hpage hturn (Prod.ext rfl hdb)
  | answered response =>
    injection hpiece with hstage hdb
    rw [← hstage] at hsame ⊢
    exact hsame ⟨hdb.symm, trivial⟩

variable (service db₀ contest es)

/-- What holds of every state of the run. -/
def RunOk (s : St) : Prop :=
  Unmanaged service db₀ contest es s.db ∧ ∀ a page, s.pages[a]? = some page → PageOk service db₀ contest es s.db a page

variable {service db₀ contest es}

include hfound hnobody in
theorem runOk_step {s s' : St} {e : Ev} (htakes : Takes (step service) (init db₀) es s e s')
    (hs : RunOk service db₀ contest es s) : RunOk service db₀ contest es s' := by
  have hstep := htakes.enabled
  cases e with
  | request user request =>
    cases hstep
    refine ⟨hs.1, fun a page hpage => ?_⟩
    by_cases ha : a < s.pages.length
    · rw [List.getElem?_append_left ha] at hpage
      exact hs.2 a page hpage
    · rw [List.getElem?_append_right (not_lt.mp ha)] at hpage
      rw [List.mem_singleton.mp (List.mem_of_getElem? hpage)]
      exact ⟨htakes.mem, trivial⟩
  | advance a o =>
    simp only [step] at hstep
    cases hget : s.pages[a]? with
    | none =>
      rw [hget] at hstep
      cases hstep
    | some page =>
      rw [hget] at hstep
      cases hstep
      have hpage := hs.2 a page hget
      obtain ⟨hunmanaged, hchanges, hstage⟩ := request_ok hfound hnobody hs.1 hpage ⟨htakes, hget⟩ rfl
      refine ⟨hunmanaged, fun b other hother => ?_⟩
      by_cases hab : a = b
      · subst hab
        rw [List.getElem?_set_self (List.getElem?_eq_some_iff.mp hget).1] at hother
        cases hother
        exact ⟨hpage.1, hstage⟩
      · rw [List.getElem?_set_ne hab] at hother
        exact pageOk_changes hchanges (first_rows hs.1 hchanges) (hs.2 b other hother)

end Step

end Unmanaged

/-- In any interleaving of requests, none of them by one who can manage the contest: its
    competitors are those of the beginning, less those who were withdrawn by a page that found it
    not begun, and those who have registered before the end and whom nobody has approved. -/
theorem unmanaged_contest (service : CompetitorManagementService) (db : Db) (contest : Contest) (es : List Ev)
    (hfound : db.contests.find? contest.id = some contest)
    (hnobody : ∀ user post, Ev.request user (.manage contest.id post) ∈ es → user.canManage contest.id = false) :
    ∀ before after, es = before ++ after →
      Unmanaged service db contest before (final (step service) (init db) before).db := by
  intro before after hes
  have hnobody' : ∀ user post, Ev.request user (.manage contest.id post) ∈ before → user.canManage contest.id = false :=
    fun user post hmem => hnobody user post (hes ▸ List.mem_append_left _ hmem)
  have hrun : Always (step service) (RunOk service db contest before) (init db) before :=
    always_of_takes (fun _ _ _ htakes hs => runOk_step hfound hnobody' htakes hs)
      ⟨unmanaged_init, fun _ page hpage => absurd hpage.symm (Option.some_ne_none page)⟩
  exact hrun.last.1

def namedUser : OlympUser := { sampleUser with firstName := some "Ada", lastName := some "Byron" }

def namedDb : Db :=
  { sampleDb with
    users := ⟨[.olympUser namedUser, .competitor sampleCompetitor], 3, by decide, by decide⟩
    stamps := by decide
    members_of := by
      intro p hp
      rw [List.mem_singleton.mp hp]
      exact ⟨⟨namedUser, List.mem_cons_self, rfl⟩, sampleCompetitor, List.mem_cons_of_mem _ List.mem_cons_self, rfl⟩
    claims_of := by decide
    history_of := fun _ h => (nomatch h) }

/-- A member asks before the start, and its competitor is deleted after it; the jury of another
    contest gets nowhere; the member registers anew, out of competition. -/
def unmanagedRun : List Ev :=
  [.request ⟨⟨1, false, false⟩, false, [], []⟩ (.unregister 1), .advance 0 (calm (-5)), .advance 0 (calm (-5)),
    .request ⟨⟨5, false, true⟩, false, ["2"], []⟩ (.manage 1 .removeLogins), .advance 0 (calm 5), .advance 0 (calm 5),
    .advance 1 (calm 5), .advance 0 (calm 5), .advance 0 (calm 5),
    .request ⟨⟨1, false, false⟩, false, [], []⟩ (.register 1 true), .advance 2 (calm 50), .advance 2 (calm 50),
    .advance 2 (calm 50)]

theorem unmanaged_sample :
    (final (step sampleService) (init namedDb) unmanagedRun).db.competitors.map (fun c => c.id) = [3] ∧
      Withdrawn sampleService namedDb ⟨1, "school", 0, 100, false, false⟩ unmanagedRun sampleCompetitor ∧
      ∃ row, Joined sampleService namedDb ⟨1, "school", 0, 100, false, false⟩ unmanagedRun
        (final (step sampleService) (init namedDb) unmanagedRun).db row := by
  have hids : (final (step sampleService) (init namedDb) unmanagedRun).db.competitors.map (fun c => c.id) = [3] := by
    decide +kernel
  have hnobody : ∀ user post, Ev.request user (.manage 1 post) ∈ unmanagedRun → user.canManage 1 = false := by
    intro user post h
    simp only [unmanagedRun, List.mem_cons, Ev.request.injEq, Request.manage.injEq, reduceCtorEq, and_false,
      List.not_mem_nil, or_false, false_or] at h
    rw [h.1]
    decide
  have hunmanaged := unmanaged_contest sampleService namedDb ⟨1, "school", 0, 100, false, false⟩ unmanagedRun
    (by decide) hnobody unmanagedRun [] (List.append_nil _).symm
  refine ⟨hids, ?_, ?_⟩
  · refine (hunmanaged.stays sampleCompetitor (by decide) rfl).resolve_left fun hstays => ?_
    have hid := List.mem_map_of_mem (f := fun c : Competitor => c.id) hstays
    rw [hids] at hid
    exact absurd hid (by decide)
  · obtain ⟨row, hrow, hid⟩ := List.mem_map.mp (hids ▸ List.mem_singleton_self (3 : Int))
    have hcontest : row.contestId = 1 := by
      have hall : ∀ c ∈ (final (step sampleService) (init namedDb) unmanagedRun).db.competitors, c.contestId = 1 := by
        decide +kernel
      exact hall row hrow
    refine ⟨row, (hunmanaged.comes row hrow hcontest).resolve_left fun hfirst => ?_⟩
    have hfirst' : row.id ∈ namedDb.competitors.map fun c => c.id := List.mem_map_of_mem hfirst
    rw [hid] at hfirst'
    exact absurd hfirst' (by decide)

end OlympSystem.Site.Accounts.CompetitorPages
