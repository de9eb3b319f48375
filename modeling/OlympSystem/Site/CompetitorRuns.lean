/-
  OlympSystem.Site.CompetitorRuns — calls of the service on competitors, in any order.

  A call goes on piece by piece. A transaction is one piece, serializable and atomic; the
  calls that open none (`UpdateAsync`, `DeleteAsync`, the count of `GenerateLoginsAsync`)
  let other calls in between their accesses, and write what they read before. `Outside`
  says what each access of a piece meets: it may throw, and the call may be cancelled.

  Proved:
  - `piece_outcome`: a piece returns, or throws and leaves the database as it was.
  - `advance_advanced`: a piece that ends its call well makes a sequence of changes; any
    other piece leaves the database as it was.
  - `tracks_change`: a competitor that still has the stamp that was read is as it was read.
  - `always_kept`: what every change keeps holds throughout every run.
-/

import OlympSystem.Lib.Runs
import OlympSystem.Site.CompetitorChanges

namespace OlympSystem.Site.Accounts.CompetitorManagement

open Lib.Runs Lib.Transactions

inductive Operation where
  | registerIndividual (contestId userId : Int) (outOfCompetition : Bool)
  | registerTeam (contestId organizationId coachId : Int) (name : String) (participants : List String)
  /-- `SetApprovalAsync`, `SetOutOfCompetitionAsync`, `SetDisqualificationAsync`. -/
  | set (contestId participantId : Int) (flag : Flag)
  | delete (contestId participantId : Int)
  | deleteWithoutSubmissions (contestId : Int)
  | approveAll (contestId : Int)
  | «import» (contestId : Int) (names : List String)
  | assignLogins (contestId : Int) (logins : List (String × String))
  | generateLogins (contestId : Int) (random : Nat → String)
  | removeLogins (contestId : Int)

inductive Value where
  | unit
  | count (n : Nat)
  | summary (summary : ParticipantImportSummary)
  deriving DecidableEq, Repr

inductive Call where
  | start (operation : Operation)
  /-- A flag is set in what was read, and not saved. -/
  | updating (participant : Competitor)
  /-- Before the look at submissions, the look at messages, and the deletion. -/
  | deleting (contestId participantId : Int) (participant : Competitor) (members : List Int)
  | deletingMessages (contestId participantId : Int) (participant : Competitor) (members : List Int)
  | deletingRow (contestId participantId : Int) (participant : Competitor) (members : List Int)
  | generating (contestId : Int) (logins : List (String × String))
  | over (result : Except OperationExn Value)

structure St where
  db : Db
  calls : List Call

def St.call (s : St) (a : Nat) : Call := (s.calls[a]?).getD (.over (.ok .unit))

def init (db : Db) : St := ⟨db, []⟩

inductive Ev where
  | call (operation : Operation)
  /-- The call goes on to the next place where others can get in. -/
  | advance (a : Nat) (o : Outside OperationExn)

def piece {α : Type} (w : Op α) (next : α → Call) (o : Outside OperationExn) (db : Db) : Call × Db :=
  match w o ⟨db, 0⟩ with
  | (.ok a, s) => (next a, s.db)
  | (.error e, s) => (.over (.error e), s.db)

def done {α : Type} (value : α → Value) (a : α) : Call := .over (.ok (value a))

variable (service : CompetitorManagementService)

def Operation.begin : Operation → Outside OperationExn → Db → Call × Db
  | .registerIndividual contestId userId outOfCompetition =>
    piece (registerIndividualAsync service contestId userId outOfCompetition) (done fun _ => .unit)
  | .registerTeam contestId organizationId coachId name participants =>
    piece (registerTeamAsync service contestId organizationId coachId name participants) (done fun _ => .unit)
  | .set contestId participantId flag =>
    piece (findParticipant contestId participantId) fun participant => .updating (flag.set participant)
  | .delete contestId participantId =>
    piece (findWithMembers contestId participantId) fun found => .deleting contestId participantId found.1 found.2
  | .deleteWithoutSubmissions contestId => piece (deleteWithoutSubmissionsAsync contestId) (done .count)
  | .approveAll contestId => piece (approveAllAsync contestId) (done fun _ => .unit)
  | .import contestId names => piece (importAsync service contestId names) (done .summary)
  | .assignLogins contestId logins => piece (assignLoginsAsync service contestId logins) (done fun _ => .unit)
  | .generateLogins contestId random =>
    piece (countCompetitors contestId) fun count => .generating contestId (generatedLogins count random)
  | .removeLogins contestId => piece (removeLoginsAsync contestId) (done fun _ => .unit)

def Call.advance : Call → Outside OperationExn → Db → Call × Db
  | .start operation => operation.begin service
  | .updating participant => piece (UserManager.updateAsync participant) (done fun _ => .unit)
  | .deleting contestId participantId participant members =>
    piece (refuseSubmissions participantId) fun _ => .deletingMessages contestId participantId participant members
  | .deletingMessages contestId participantId participant members =>
    piece (refuseMessages participantId) fun _ => .deletingRow contestId participantId participant members
  | .deletingRow _ _ participant members => piece (UserManager.deleteAsync participant members) (done fun _ => .unit)
  | .generating contestId logins => piece (assignLoginsAsync service contestId logins) (done fun _ => .unit)
  | .over result => fun _ db => (.over result, db)

def step (s : St) : Ev → Option St
  | .call operation => some { s with calls := s.calls ++ [.start operation] }
  | .advance a o =>
    if a < s.calls.length then
      let (call, db) := (s.call a).advance service o s.db
      some ⟨db, s.calls.set a call⟩
    else none

variable {service}

/-! ## Pieces -/

theorem piece_outcome {α : Type} {w : Op α} (hw : Atomic w) {next : α → Call} {o : Outside OperationExn} {db db' : Db}
    {call : Call} (h : piece w next o db = (call, db')) :
    (∃ a n, ReturnsFrom o w ⟨db, 0⟩ a ⟨db', n⟩ ∧ call = next a) ∨
      ∃ e, Throws o w db e ∧ call = .over (.error e) ∧ db' = db := by
  unfold piece at h
  have hatomic := hw o ⟨db, 0⟩
  generalize hrun : w o ⟨db, 0⟩ = r at h hatomic
  rcases r with ⟨e | a, s⟩
  · cases h
    exact Or.inr ⟨e, ⟨0, congrArg Prod.fst hrun⟩, rfl, hatomic _ rfl⟩
  · cases h
    exact Or.inl ⟨a, s.count, hrun, rfl⟩

theorem piece_cases {α : Type} {w : Op α} (hw : Atomic w) {next : α → Call} {o : Outside OperationExn} {db db' : Db}
    {call : Call} (h : piece w next o db = (call, db')) :
    (∃ a, Returns o w db a db' ∧ call = next a) ∨ (∃ e, call = .over (.error e)) ∧ db' = db := by
  rcases piece_outcome hw h with ⟨a, n, hreturns, hcall⟩ | ⟨e, -, hcall, hdb⟩
  · exact Or.inl ⟨a, hreturns.returns, hcall⟩
  · exact Or.inr ⟨⟨e, hcall⟩, hdb⟩

section Atomic

theorem quiet_find {α : Type} (f : Db → Option α) :
    Quiet (do let x ← Work.query f; Work.orThrow x .entityNotFound : Op α) :=
  (Quiet.query f).bind fun x => Quiet.orThrow x _

theorem atomic_registerTeam (service : CompetitorManagementService) (contestId organizationId coachId : Int)
    (name : String) (participants : List String) :
    Atomic (registerTeamAsync service contestId organizationId coachId name participants) :=
  Atomic.after (Quiet.throwIf _ _) fun _ => Atomic.after (Quiet.throwIf _ _) fun _ => Atomic.transaction _

theorem atomic_import (service : CompetitorManagementService) (contestId : Int) (names : List String) :
    Atomic (importAsync service contestId names) :=
  Atomic.after (Quiet.throwIf _ _) fun _ => Atomic.after (Quiet.throwIf _ _) fun _ => Atomic.transaction _

theorem atomic_assignLogins (service : CompetitorManagementService) (contestId : Int)
    (logins : List (String × String)) :
    Atomic (assignLoginsAsync service contestId logins) :=
  Atomic.after (Quiet.foldlM (fun _ _ => Quiet.orThrow _ _) _ _) fun _ => Atomic.transaction _

theorem quiet_refuse (f : Db → Bool) : Quiet (do let any ← Work.query f; Work.throwIf any recordsExist : Op Unit) :=
  (Quiet.query f).bind fun any => Quiet.throwIf any _

end Atomic

/-! ## What was read -/

/-- The row that still has the stamp that was read is as it was read. -/
structure Tracks (db : Db) (read : Competitor) : Prop where
  known : read.concurrencyStamp < db.nextStamp
  row : ∀ c ∈ db.competitors, c.id = read.id → c.concurrencyStamp = read.concurrencyStamp → c = read

theorem tracks_stored {db : Db} {read : Competitor} (h : read ∈ db.competitors) : Tracks db read :=
  ⟨db.stamps _ (Db.mem_competitors.mp h), fun _ hc hid _ => Db.competitor_unique hc h hid⟩

theorem tracks_replaces {db db' : Db} {old new read : Competitor} (h : Replaces db db' old new) (ht : Tracks db read) :
    Tracks db' read := by
  refine ⟨lt_of_lt_of_le ht.known h.nextStamp, fun c hc hid hstamp => ?_⟩
  rcases (h.competitors c).mp hc with rfl | ⟨hc, -⟩
  · -- the stamp is new
    have hnew := h.stamp
    have hknown := ht.known
    omega
  · exact ht.row c hc hid hstamp

theorem tracks_change {db db' : Db} {read : Competitor} (h : Change db db') (ht : Tracks db read) :
    Tracks db' read := by
  cases h with
  | create new members h =>
    refine ⟨lt_of_lt_of_le ht.known h.nextStamp, fun c hc hid hstamp => ?_⟩
    rw [h.competitors] at hc
    rcases List.mem_append.mp hc with hc | hc
    · exact ht.row c hc hid hstamp
    · have hnew := h.stamp
      have hknown := ht.known
      rw [← List.mem_singleton.mp hc] at hnew
      omega
  | remove id h =>
    refine ⟨lt_of_lt_of_le ht.known h.nextStamp, fun c hc hid hstamp => ht.row c ?_ hid hstamp⟩
    rw [h.competitors] at hc
    exact (List.mem_filter.mp hc).1
  | flags _ _ h | assignLogin _ _ h | removeLogin _ _ h => exact tracks_replaces h ht

def CallOk (db : Db) : Call → Prop
  | .updating participant => ∃ read flag, participant = Flag.set flag read ∧ Tracks db read
  | .deleting contestId participantId participant _ | .deletingMessages contestId participantId participant _
  | .deletingRow contestId participantId participant _ =>
    Tracks db participant ∧ participant.id = participantId ∧ participant.contestId = contestId
  | _ => True

theorem callOk_changes {db db' : Db} {call : Call} (h : Changes db db') (hok : CallOk db call) : CallOk db' call := by
  have htracks : ∀ read, Tracks db read → Tracks db' read :=
    fun read => h.keeps fun _ _ hchange ht => tracks_change hchange ht
  cases call with
  | updating participant =>
    obtain ⟨read, flag, heq, ht⟩ := hok
    exact ⟨read, flag, heq, htracks read ht⟩
  | deleting | deletingMessages | deletingRow => exact ⟨htracks _ hok.1, hok.2⟩
  | start | generating | «over» => trivial

/-! ## Steps -/

section Steps

variable {o : Outside OperationExn} {db db' : Db}

theorem flags_change {read : Competitor} {flag : Flag} {new : Competitor} (ht : Tracks db read)
    (h : Returns o (UserManager.updateAsync (flag.set read)) db new db') : Change db db' := by
  obtain ⟨rfl, hclaims, row, hid, hstamp, hrep⟩ := updateAsync_returns h
  have hread : row = read := by
    cases flag <;> exact ht.row row hrep.stored hid hstamp
  refine .flags row _ hrep hclaims ?_
  rw [hread]
  cases flag <;> exact ⟨rfl, rfl, rfl⟩

/-- A piece either leaves the database as it was, or ends its call well. -/
def Advanced (db : Db) (call' : Call) (db' : Db) : Prop :=
  db' = db ∧ CallOk db call' ∨ (∃ value, call' = .over (.ok value)) ∧ Changes db db'

theorem advanced_threw {call' : Call} (h : (∃ e, call' = .over (.error e)) ∧ db' = db) : Advanced db call' db' := by
  obtain ⟨⟨e, rfl⟩, rfl⟩ := h
  exact Or.inl ⟨rfl, trivial⟩

/-- The last piece of a call. -/
theorem advanced_done {α : Type} {w : Op α} {value : α → Value} {call' : Call}
    (h : piece w (done value) o db = (call', db')) (hw : Atomic w)
    (hchanges : ∀ a, Returns o w db a db' → Changes db db') :
    Advanced db call' db' := by
  rcases piece_cases hw h with ⟨a, hreturns, rfl⟩ | hthrew
  · exact Or.inr ⟨⟨_, rfl⟩, hchanges a hreturns⟩
  · exact advanced_threw hthrew

/-- A piece that only reads. -/
theorem advanced_read {α : Type} {w : Op α} {next : α → Call} {call' : Call}
    (h : piece w next o db = (call', db')) (hw : Quiet w) (hok : ∀ a, Returns o w db a db → CallOk db (next a)) :
    Advanced db call' db' := by
  rcases piece_cases hw.atomic h with ⟨a, hreturns, rfl⟩ | hthrew
  · obtain rfl := hreturns.quiet hw
    exact Or.inl ⟨rfl, hok a hreturns⟩
  · exact advanced_threw hthrew

theorem begin_advanced {operation : Operation} {call' : Call} (h : operation.begin service o db = (call', db')) :
    Advanced db call' db' := by
  cases operation with
  | registerIndividual =>
    exact advanced_done h (Atomic.transaction _) fun _ hr => .single (registerIndividualAsync_change service hr)
  | registerTeam =>
    exact advanced_done h (atomic_registerTeam _ _ _ _ _ _) fun _ hr => .single (registerTeamAsync_change service hr)
  | set contestId participantId flag =>
    refine advanced_read h (quiet_find _) fun participant hr => ⟨participant, flag, rfl, ?_⟩
    exact tracks_stored (List.mem_of_find?_eq_some (find_returns hr).1)
  | delete =>
    refine advanced_read h (quiet_find _) fun _ hr => ?_
    obtain ⟨-, hstored, hids⟩ := findWithMembers_returns hr
    exact ⟨tracks_stored hstored, hids⟩
  | deleteWithoutSubmissions =>
    exact advanced_done h (Atomic.transaction _) fun _ hr => (deleteWithoutSubmissionsAsync_removes hr).2.2
  | approveAll => exact advanced_done h (Atomic.transaction _) fun _ hr => approveAllAsync_changes hr
  | «import» => exact advanced_done h (atomic_import _ _ _) fun _ hr => importAsync_changes service hr
  | assignLogins => exact advanced_done h (atomic_assignLogins _ _ _) fun _ hr => assignLoginsAsync_changes service hr
  | generateLogins => exact advanced_read h (Quiet.query _) fun _ _ => trivial
  | removeLogins => exact advanced_done h (Atomic.transaction _) fun _ hr => removeLoginsAsync_changes hr

theorem advance_advanced {call call' : Call} (hok : CallOk db call) (h : call.advance service o db = (call', db')) :
    Advanced db call' db' := by
  cases call with
  | start operation => exact begin_advanced h
  | updating participant =>
    obtain ⟨read, flag, rfl, ht⟩ := hok
    exact advanced_done h (Atomic.access _) fun _ hr => .single (flags_change ht hr)
  | deleting | deletingMessages => exact advanced_read h (quiet_refuse _) fun _ _ => hok
  | deletingRow contestId participantId participant members =>
    refine advanced_done h (Atomic.access _) fun _ hr => .single ?_
    obtain ⟨hhistory, ⟨row, hrow, hid, -⟩, hremoves⟩ := deleteAsync_returns hr
    exact .remove participant.id hremoves ⟨row, hrow, hid⟩ hhistory
  | generating => exact advanced_done h (atomic_assignLogins _ _ _) fun _ hr => assignLoginsAsync_changes service hr
  | «over» =>
    cases h
    exact Or.inl ⟨rfl, trivial⟩

end Steps

/-! ## Runs -/

theorem call_append (db : Db) (calls : List Call) (operation : Operation) (b : Nat) :
    (St.mk db (calls ++ [.start operation])).call b = if b = calls.length then .start operation
      else (St.mk db calls).call b := by
  unfold St.call
  by_cases hb : b = calls.length
  · rw [if_pos hb, hb]
    simp
  · rw [if_neg hb]
    rcases Nat.lt_or_ge b calls.length with hlt | hge
    · rw [List.getElem?_append_left hlt]
    · have hgt : calls.length + 1 ≤ b := by omega
      rw [List.getElem?_eq_none (by simpa using hgt), List.getElem?_eq_none hge]

theorem call_set (db : Db) {calls : List Call} {a : Nat} (ha : a < calls.length) (call : Call) (b : Nat) :
    (St.mk db (calls.set a call)).call b = if b = a then call else (St.mk db calls).call b := by
  unfold St.call
  by_cases hb : b = a
  · rw [if_pos hb, hb]
    simp [ha]
  · rw [if_neg hb]
    simp [Ne.symm hb]

theorem step_cases {s s' : St} {e : Ev} (h : step service s e = some s') :
    (∃ operation, e = .call operation ∧ s' = ⟨s.db, s.calls ++ [.start operation]⟩) ∨
      ∃ a o call db, e = .advance a o ∧ a < s.calls.length ∧ (s.call a).advance service o s.db = (call, db) ∧
        s' = ⟨db, s.calls.set a call⟩ := by
  cases e with
  | call operation =>
    cases h
    exact Or.inl ⟨operation, rfl, rfl⟩
  | advance a o =>
    simp only [step] at h
    split at h
    · next ha =>
      cases h
      exact Or.inr ⟨a, o, _, _, rfl, ha, rfl, rfl⟩
    · cases h

def Inv (s : St) : Prop := ∀ a, CallOk s.db (s.call a)

/-- A step leaves the database as it was, or ends its call well. -/
def EndsWell (s : St) : Ev → St → Prop
  | .call _, s' => s'.db = s.db
  | .advance a _, s' => s'.db = s.db ∨ ∃ value, s'.call a = .over (.ok value)

theorem inv_step {s s' : St} {e : Ev} (hinv : Inv s) (h : step service s e = some s') :
    Inv s' ∧ Changes s.db s'.db ∧ EndsWell s e s' := by
  rcases step_cases h with ⟨operation, rfl, rfl⟩ | ⟨a, o, call, db, rfl, ha, hadvance, rfl⟩
  · refine ⟨fun b => ?_, .refl, rfl⟩
    rw [call_append]
    split
    · trivial
    · exact hinv b
  · have hset := call_set db ha call
    rcases advance_advanced (hinv a) hadvance with ⟨rfl, hok⟩ | ⟨⟨value, rfl⟩, hchanges⟩
    · refine ⟨fun b => ?_, .refl, Or.inl rfl⟩
      rw [hset]
      split
      · exact hok
      · exact hinv b
    · refine ⟨fun b => ?_, hchanges, Or.inr ⟨value, ?_⟩⟩
      · rw [hset]
        split
        · trivial
        · exact callOk_changes hchanges (hinv b)
      · rw [hset, if_pos rfl]

theorem inv_init (db : Db) : Inv (init db) := fun _ => trivial

/-- What every change keeps holds throughout every run. -/
theorem always_kept (service : CompetitorManagementService) {P : Db → Prop}
    (hchange : ∀ db db', Change db db' → P db → P db') {db : Db} (h : P db) (es : List Ev) :
    Always (step service) (fun s => P s.db) (init db) es := by
  have hinv : Always (step service) (fun s => Inv s ∧ P s.db) (init db) es :=
    always_of_inv (fun s e s' hs hstep => by
      obtain ⟨hinv, hchanges, -⟩ := inv_step hs.1 hstep
      exact ⟨hinv, hchanges.keeps hchange hs.2⟩) ⟨inv_init db, h⟩ es
  exact hinv.mono fun _ hs => hs.2

/-- What holds of every step from a state whose calls hold what they have read. -/
theorem along_inv (service : CompetitorManagementService) {P : St → Ev → St → Prop}
    (hP : ∀ s e s', Inv s → step service s e = some s' → P s e s') (db : Db) (es : List Ev) :
    Along (step service) P (init db) es :=
  along_of_inv hP (always_of_inv (fun _ _ _ hs hstep => (inv_step hs hstep).1) (inv_init db) es)

/-! ## A sample -/

def sampleService : CompetitorManagementService := ⟨.ordinal, .asciiOnly⟩

def sampleUser : OlympUser where
  id := 1
  userName := some "user"
  passwordHash := some "hash"
  concurrencyStamp := 0
  name := "User"
  isDisqualified := false
  isHidden := false
  registrationDate := none
  coachId := none
  organizationId := some 1
  firstName := none
  lastName := none
  details := none

def sampleCompetitor : Competitor := { newCompetitor "Team" 1 with id := 2, concurrencyStamp := 1, isApproved := true }

/-- A user takes part in one of two contests, in a team without a login. -/
def sampleDb : Db where
  contests := ⟨[⟨1, "school", 0, 100, false, false⟩, ⟨2, "acm", 0, 100, true, false⟩], 3, by decide, by decide⟩
  organizations := ⟨[⟨1, "School"⟩], 2, by decide, by decide⟩
  problems := ⟨[], 1, by decide, by decide⟩
  compilators := ⟨[], 1, by decide, by decide⟩
  users := ⟨[.olympUser sampleUser, .competitor sampleCompetitor], 3, by decide, by decide⟩
  nextStamp := 2
  participations := [⟨1, 2⟩]
  claims := []
  history := ⟨⟨[], 1, by decide, by decide⟩, ⟨[], 1, by decide, by decide⟩, []⟩
  stamps := by decide
  participations_key := by decide
  members_of := by
    intro p hp
    rw [List.mem_singleton.mp hp]
    exact ⟨⟨sampleUser, List.mem_cons_self, rfl⟩, sampleCompetitor, List.mem_cons_of_mem _ List.mem_cons_self, rfl⟩
  claims_of := by decide
  history_of := fun _ h => (nomatch h)

/-- Nothing fails, and it is this moment all the time. -/
def calm (now : Int) : Outside OperationExn := ⟨fun _ => none, fun _ => false, fun _ => now⟩

end OlympSystem.Site.Accounts.CompetitorManagement
