/-
  OlympSystem.Site.Queue — the site at work: checkers that take submissions from the
  queue, imports and retests, in any order.

  Every call is a thread of control of its own: a `TryCheckFromDB` of some checker, an
  `ImportAsync`, a `RetestAsync` or a `RetestCompilationErrorsAsync`. All of them share the
  database and the gate (`EnterAsync`, a semaphore of 1), which a check leaves while it
  judges. What a call reads under the gate in one go is one step, as nobody writes these
  tables without the gate. A step of the database is atomic, and a failing one changes
  nothing.

  The clock moves by `tick`; every other step reads it at most.

  Proved:
  - `gate_step`: a call holds the gate exactly when it is between entering and leaving.
  - `write_within`: an import or a retest writes only what belongs to its problems.
  - `shape_step`: what the unit of work of a check holds at each point of it.
-/

import OlympSystem.Lib.Runs
import OlympSystem.Site.CheckerManager
import OlympSystem.Site.ImportLaw

namespace OlympSystem.Site.Queue

open Lib.Runs Lib.Tables Lib.Query OlympSystem.Checker ProblemArchive CheckerManager ImportLaw

inductive Operation where
  | import (contestId : Int) (imported : List ImportedProblem)
  | retest (contestId problemId : Int) (exceptAccepted : Bool)
  | retestCompilationErrors (contestId : Int)

/-- What an operation has read, and is about to write. -/
inductive Plan where
  | import (tracker : Tracker)
  | retest (problemId : Int) (exceptAccepted : Bool)
  | retestCompilationErrors (problemIds : List Int)

/-- The problems a plan was found idle for. -/
def Plan.covers : Plan → List Int
  | .import tracker => tracker.existing.map (·.original.id)
  | .retest problemId _ => [problemId]
  | .retestCompilationErrors problemIds => problemIds

def Plan.write (db : Db) (now : Int) : Plan → Db
  | .import tracker => saveChanges db tracker
  | .retest problemId exceptAccepted => Site.retest db now problemId exceptAccepted
  | .retestCompilationErrors problemIds => Site.retestCompilationErrors db now problemIds

/-- What an operation does between entering the gate and its write. -/
def Operation.prepare (service : ContestProblemService) (db : Db) : Operation → Except Exn Plan
  | .import contestId imported => (service.prepareImport noFaults db contestId imported).map .import
  | .retest contestId problemId exceptAccepted =>
    (prepareRetest db contestId problemId).map fun () => .retest problemId exceptAccepted
  | .retestCompilationErrors contestId =>
    (prepareRetestCompilationErrors db contestId).map .retestCompilationErrors

inductive Call where
  | over
  /-- Waits for the gate, with the ids of the compilators it can check. -/
  | entering (checker : ConnectedChecker) (ids : List Int)
  | picking (checker : ConnectedChecker) (ids : List Int) (span : Int)
  /-- Picked a submission and read the clock. -/
  | claiming (checker : ConnectedChecker) (loaded : Loaded) (span now : Int)
  /-- Claimed and attached it, still in the gate. -/
  | claimed (check : Check)
  | judging (check : Check)
  /-- In the finally block. -/
  | judged (check : Check)
  /-- Waits for the gate to save. -/
  | saving (check : Check)
  | committing (check : Check)
  | waiting (operation : Operation)
  | reading (operation : Operation)
  | ready (plan : Plan)
  /-- In the gate, with nothing left to do. -/
  | leaving

/-- Between entering and leaving the gate. -/
def Call.holds : Call → Bool
  | .picking .. | .claiming .. | .claimed _ | .committing _ | .reading _ | .ready _ | .leaving => true
  | _ => false

/-- The check in flight: claimed, and neither saved nor given up. -/
def Call.inFlight : Call → Option Check
  | .claimed check | .judging check | .judged check | .saving check | .committing check => some check
  | _ => none

structure St where
  db : Db
  now : Int
  gate : Option Nat
  calls : List Call

def init (db : Db) (now : Int) : St := ⟨db, now, none, []⟩

def St.call (s : St) (a : Nat) : Call := s.calls[a]?.getD .over

def St.put (s : St) (a : Nat) (call : Call) : St := { s with calls := s.calls.set a call }

def St.begin (s : St) (call : Call) : St := { s with calls := s.calls ++ [call] }

inductive Ev where
  | tick (ticks : Nat)
  | tryCheckFromDB (checker : ConnectedChecker)
  | importAsync (contestId : Int) (source : Except Exn (List ZipEntry))
  | retestAsync (contestId problemId : Int) (exceptAccepted : Bool)
  | retestCompilationErrorsAsync (contestId : Int)
  /-- The wait for the gate is cancelled. -/
  | cancel (a : Nat)
  | enter (a : Nat)
  /-- The query of a claim; one of several with the earliest commit time is its choice. -/
  | pick (a : Nat) (choice : Option Int)
  | claim (a : Nat)
  | leave (a : Nat)
  /-- The check returns or throws, by the answers of the runner. -/
  | judge (a : Nat) (answers : Verdict.Answers) (elapsed : TimeSpan)
  /-- Anything else throws in the try block: the check is cancelled. -/
  | abort (a : Nat)
  | stamp (a : Nat)
  | save (a : Nat)
  | prepare (a : Nat)
  | commit (a : Nat)
  /-- The database throws. -/
  | fail (a : Nat)

variable (deployment : Deployment)

/-- The steps into and out of the gate. -/
def stepGate (s : St) : Ev → Option St
  | .cancel a =>
    match s.call a with
    | .entering _ _ | .waiting _ => some (s.put a .over)
    | _ => none
  | .enter a =>
    match s.gate, s.call a with
    | none, .entering checker ids => some { s.put a (.picking checker ids (s.now - staleness)) with gate := some a }
    | none, .saving check => some { s.put a (.committing check) with gate := some a }
    | none, .waiting operation => some { s.put a (.reading operation) with gate := some a }
    | _, _ => none
  | .leave a =>
    match s.call a with
    | .claimed check => some { s.put a (.judging check) with gate := none }
    | .leaving => some { s.put a .over with gate := none }
    | _ => none
  | .fail a =>
    match s.call a with
    | .picking .. | .claiming .. | .committing _ | .reading _ | .ready _ => some (s.put a .leaving)
    | _ => none
  | _ => none

def stepCheck (s : St) : Ev → Option St
  | .pick a choice =>
    match s.call a with
    | .picking checker ids span =>
      let candidates := candidates s.db ids span
      match choice with
      | none => if candidates.length = 0 then some (s.put a .leaving) else none
      | some id =>
        match first candidates id with
        | none => none
        | some loaded => some (s.put a (.claiming checker loaded span s.now))
    | _ => none
  | .claim a =>
    match s.call a with
    | .claiming checker loaded span now =>
      if s.db.submissions.rows.any (isClaimed loaded span) then
        some { s.put a (.claimed (attach checker loaded now)) with
          db := s.db.updateSubmissions ((claimUpdate now).restrict (isClaimed loaded span)) }
      else some (s.put a .leaving)
    | _ => none
  | .judge a answers elapsed =>
    match s.call a with
    | .judging check => some (s.put a (.judged (check.judge deployment s.now answers elapsed)))
    | _ => none
  | .abort a =>
    match s.call a with
    | .judging check => some (s.put a (.judged check.failed))
    | _ => none
  | .stamp a =>
    match s.call a with
    | .judged check => some (s.put a (.saving (check.stamp s.now)))
    | _ => none
  | .save a =>
    match s.call a with
    | .committing check => some { s.put a .leaving with db := check.saveChanges s.db }
    | _ => none
  | _ => none

def step (s : St) : Ev → Option St
  | .tick ticks => some { s with now := s.now + ticks }
  | .tryCheckFromDB checker =>
    let ids := compilatorIds s.db checker
    if ids.length = 0 then some s else some (s.begin (.entering checker ids))
  | .importAsync contestId source =>
    match readAsync deployment.service.options deployment.service.runtime source with
    | .error _ => some s
    | .ok imported => some (s.begin (.waiting (.import contestId imported)))
  | .retestAsync contestId problemId exceptAccepted =>
    some (s.begin (.waiting (.retest contestId problemId exceptAccepted)))
  | .retestCompilationErrorsAsync contestId => some (s.begin (.waiting (.retestCompilationErrors contestId)))
  | .prepare a =>
    match s.call a with
    | .reading operation =>
      match operation.prepare deployment.service s.db with
      | .error _ => some (s.put a .leaving)
      | .ok plan => some (s.put a (.ready plan))
    | _ => none
  | .commit a =>
    match s.call a with
    | .ready plan => some { s.put a .leaving with db := plan.write s.db s.now }
    | _ => none
  | .cancel a => stepGate s (.cancel a)
  | .enter a => stepGate s (.enter a)
  | .leave a => stepGate s (.leave a)
  | .fail a => stepGate s (.fail a)
  | e => stepCheck deployment s e

/-! ## Calls -/

theorem call_put {s : St} {a : Nat} {call : Call} (h : s.call a ≠ .over) (b : Nat) :
    (s.put a call).call b = if b = a then call else s.call b := by
  unfold St.call St.put at *
  rw [List.getElem?_set]
  by_cases e : b = a
  · subst e
    have hlt : b < s.calls.length := by
      by_contra hge
      rw [List.getElem?_eq_none (by omega)] at h
      exact h rfl
    simp [hlt]
  · simp [e, Ne.symm e]

theorem call_begin {s : St} {call : Call} (b : Nat) :
    (s.begin call).call b = if b = s.calls.length then call else s.call b := by
  unfold St.call St.begin
  by_cases e : b = s.calls.length
  · subst e; simp
  · rw [if_neg e]
    by_cases hlt : b < s.calls.length
    · rw [List.getElem?_append_left hlt]
    · rw [List.getElem?_eq_none (by rw [List.length_append, List.length_singleton]; omega),
        List.getElem?_eq_none (by omega)]

theorem call_length (s : St) : s.call s.calls.length = .over := by
  unfold St.call
  rw [List.getElem?_eq_none (le_refl _)]; rfl

/-! ## What a step does -/

inductive Move (db : Db) (now : Int) : Call → Call → Db → Prop
  | cancel (call : Call) : call.holds = false → call.inFlight = none → Move db now call .over db
  | enterPicking (checker : ConnectedChecker) (ids : List Int) :
      Move db now (.entering checker ids) (.picking checker ids (now - staleness)) db
  | enterCommitting (check : Check) : Move db now (.saving check) (.committing check) db
  | enterReading (operation : Operation) : Move db now (.waiting operation) (.reading operation) db
  /-- Nothing to do, nothing done, or the database threw. -/
  | drop (call : Call) : call.holds = true → (∀ check, call ≠ .claimed check) → Move db now call .leaving db
  | pick (checker : ConnectedChecker) (ids : List Int) (span id : Int) (loaded : Loaded) :
      first (candidates db ids span) id = some loaded →
      Move db now (.picking checker ids span) (.claiming checker loaded span now) db
  | claim (checker : ConnectedChecker) (loaded : Loaded) (span at_ : Int) :
      db.submissions.rows.any (isClaimed loaded span) = true →
      Move db now (.claiming checker loaded span at_) (.claimed (attach checker loaded at_))
        (db.updateSubmissions ((claimUpdate at_).restrict (isClaimed loaded span)))
  | leaveClaimed (check : Check) : Move db now (.claimed check) (.judging check) db
  | leave : Move db now .leaving .over db
  | judge (check : Check) (answers : Verdict.Answers) (elapsed : TimeSpan) :
      Move db now (.judging check) (.judged (check.judge deployment now answers elapsed)) db
  | abort (check : Check) : Move db now (.judging check) (.judged check.failed) db
  | stamp (check : Check) : Move db now (.judged check) (.saving (check.stamp now)) db
  | save (check : Check) : Move db now (.committing check) .leaving (check.saveChanges db)
  | prepare (operation : Operation) (plan : Plan) : operation.prepare deployment.service db = .ok plan →
      Move db now (.reading operation) (.ready plan) db
  | commit (plan : Plan) : Move db now (.ready plan) .leaving (plan.write db now)

/-- The gate after a move of call `a`. -/
def gateAfter (gate : Option Nat) (a : Nat) (before after : Call) : Option Nat :=
  if before.holds = after.holds then gate else if after.holds then some a else none

/-- Call `a` moves; to enter the gate it finds it free. -/
def Moves (s s' : St) : Prop :=
  ∃ a call db, s.call a ≠ .over ∧ Move deployment s.db s.now (s.call a) call db ∧
    ((s.call a).holds = false → call.holds = true → s.gate = none) ∧
    s' = { s.put a call with db := db, gate := gateAfter s.gate a (s.call a) call }

variable {deployment}

theorem moves_of {s s' : St} {a : Nat} {before after : Call} {db : Db} {gate : Option Nat} (hc : s.call a = before)
    (hover : before ≠ .over) (hm : Move deployment s.db s.now before after db)
    (hfree : before.holds = false → after.holds = true → s.gate = none)
    (hgate : gate = gateAfter s.gate a before after) (hs : s' = { s.put a after with db := db, gate := gate }) :
    Moves deployment s s' := by
  subst hc hgate
  exact ⟨a, after, db, hover, hm, hfree, hs⟩

theorem stepGate_moves {s s' : St} {e : Ev} (h : stepGate s e = some s') : Moves deployment s s' := by
  unfold stepGate at h
  split at h
  · split at h <;> cases h <;> rename_i hc
    · exact moves_of hc (by simp) (.cancel _ rfl rfl) (fun _ h => (nomatch h)) rfl rfl
    · exact moves_of hc (by simp) (.cancel _ rfl rfl) (fun _ h => (nomatch h)) rfl rfl
  · split at h <;> cases h <;> rename_i hgate hc
    · exact moves_of hc (by simp) (.enterPicking _ _) (fun _ _ => hgate) rfl rfl
    · exact moves_of hc (by simp) (.enterCommitting _) (fun _ _ => hgate) rfl rfl
    · exact moves_of hc (by simp) (.enterReading _) (fun _ _ => hgate) rfl rfl
  · split at h <;> cases h <;> rename_i hc
    · exact moves_of hc (by simp) (.leaveClaimed _) (fun h => (nomatch h)) rfl rfl
    · exact moves_of hc (by simp) .leave (fun h => (nomatch h)) rfl rfl
  · split at h <;> cases h <;> rename_i hc <;>
      exact moves_of hc (by simp) (.drop _ rfl (by simp)) (fun h => (nomatch h)) rfl rfl
  · cases h

theorem stepCheck_moves {s s' : St} {e : Ev} (h : stepCheck deployment s e = some s') : Moves deployment s s' := by
  unfold stepCheck at h
  split at h
  · split at h
    · rename_i hc
      simp only at h
      split at h
      · split at h <;> cases h
        exact moves_of hc (by simp) (.drop _ rfl (by simp)) (fun h => (nomatch h)) rfl rfl
      · split at h <;> cases h
        rename_i hfirst
        exact moves_of hc (by simp) (.pick _ _ _ _ _ hfirst) (fun h => (nomatch h)) rfl rfl
    · cases h
  · split at h
    · rename_i hc
      split at h <;> cases h
      · rename_i hany
        exact moves_of hc (by simp) (.claim _ _ _ _ hany) (fun h => (nomatch h)) rfl rfl
      · exact moves_of hc (by simp) (.drop _ rfl (by simp)) (fun h => (nomatch h)) rfl rfl
    · cases h
  · split at h <;> cases h
    rename_i hc
    exact moves_of hc (by simp) (.judge _ _ _) (fun _ h => (nomatch h)) rfl rfl
  · split at h <;> cases h
    rename_i hc
    exact moves_of hc (by simp) (.abort _) (fun _ h => (nomatch h)) rfl rfl
  · split at h <;> cases h
    rename_i hc
    exact moves_of hc (by simp) (.stamp _) (fun _ h => (nomatch h)) rfl rfl
  · split at h <;> cases h
    rename_i hc
    exact moves_of hc (by simp) (.save _) (fun h => (nomatch h)) rfl rfl
  · cases h

/-- How a call begins. -/
inductive Begins (deployment : Deployment) : Ev → Call → Prop
  | tryCheckFromDB (checker : ConnectedChecker) (ids : List Int) :
      Begins deployment (.tryCheckFromDB checker) (.entering checker ids)
  | importAsync (contestId : Int) (source : Except Exn (List ZipEntry)) (imported : List ImportedProblem) :
      readAsync deployment.service.options deployment.service.runtime source = .ok imported →
      Begins deployment (.importAsync contestId source) (.waiting (.import contestId imported))
  | retestAsync (contestId problemId : Int) (exceptAccepted : Bool) :
      Begins deployment (.retestAsync contestId problemId exceptAccepted)
        (.waiting (.retest contestId problemId exceptAccepted))
  | retestCompilationErrorsAsync (contestId : Int) :
      Begins deployment (.retestCompilationErrorsAsync contestId) (.waiting (.retestCompilationErrors contestId))

theorem Begins.outside {e : Ev} {call : Call} (h : Begins deployment e call) :
    call.holds = false ∧ call.inFlight = none := by
  cases h <;> exact ⟨rfl, rfl⟩

/-- A step lets time pass, begins a call (or refuses to), or moves one. -/
theorem step_cases {s s' : St} {e : Ev} (h : step deployment s e = some s') :
    (∃ ticks : Nat, s' = { s with now := s.now + ticks }) ∨ s' = s ∨
      (∃ call : Call, Begins deployment e call ∧ s' = s.begin call) ∨ Moves deployment s s' := by
  unfold step at h
  split at h
  · cases h; exact Or.inl ⟨_, rfl⟩
  · simp only at h
    split at h <;> cases h
    · exact Or.inr (Or.inl rfl)
    · exact Or.inr (Or.inr (Or.inl ⟨_, .tryCheckFromDB _ _, rfl⟩))
  · split at h <;> cases h
    · exact Or.inr (Or.inl rfl)
    · rename_i hread
      exact Or.inr (Or.inr (Or.inl ⟨_, .importAsync _ _ _ hread, rfl⟩))
  · cases h; exact Or.inr (Or.inr (Or.inl ⟨_, .retestAsync _ _ _, rfl⟩))
  · cases h; exact Or.inr (Or.inr (Or.inl ⟨_, .retestCompilationErrorsAsync _, rfl⟩))
  · split at h
    · rename_i hc
      split at h <;> cases h <;> refine Or.inr (Or.inr (Or.inr ?_))
      · exact moves_of hc (by simp) (.drop _ rfl (by simp)) (fun h => (nomatch h)) rfl rfl
      · rename_i hplan
        exact moves_of hc (by simp) (.prepare _ _ hplan) (fun h => (nomatch h)) rfl rfl
    · cases h
  · split at h <;> cases h
    rename_i hc
    exact Or.inr (Or.inr (Or.inr (moves_of hc (by simp) (.commit _) (fun h => (nomatch h)) rfl rfl)))
  · exact Or.inr (Or.inr (Or.inr (stepGate_moves h)))
  · exact Or.inr (Or.inr (Or.inr (stepGate_moves h)))
  · exact Or.inr (Or.inr (Or.inr (stepGate_moves h)))
  · exact Or.inr (Or.inr (Or.inr (stepGate_moves h)))
  · exact Or.inr (Or.inr (Or.inr (stepCheck_moves h)))

/-! ## What a step writes -/

/-- The steps that write the database, each with what it writes. -/
inductive Writes (s : St) : Ev → Db → Prop
  | claim (a : Nat) (checker : ConnectedChecker) (loaded : Loaded) (span at_ : Int) :
      s.call a = .claiming checker loaded span at_ → s.db.submissions.rows.any (isClaimed loaded span) = true →
      Writes s (.claim a) (s.db.updateSubmissions ((claimUpdate at_).restrict (isClaimed loaded span)))
  | save (a : Nat) (check : Check) : s.call a = .committing check → Writes s (.save a) (check.saveChanges s.db)
  | commit (a : Nat) (plan : Plan) : s.call a = .ready plan → Writes s (.commit a) (plan.write s.db s.now)

theorem stepGate_db {s s' : St} {e : Ev} (h : stepGate s e = some s') : s'.db = s.db := by
  unfold stepGate at h
  split at h
  · split at h <;> cases h <;> rfl
  · split at h <;> cases h <;> rfl
  · split at h <;> cases h <;> rfl
  · split at h <;> cases h <;> rfl
  · cases h

/-- A step writes what its event says, or nothing. A claim may find nothing to write. -/
theorem step_writes {s s' : St} {e : Ev} (h : step deployment s e = some s') :
    Writes s e s'.db ∨ (s'.db = s.db ∧ ∀ a, e ≠ .save a ∧ e ≠ .commit a) := by
  cases e with
  | tick ticks => cases h; exact Or.inr ⟨rfl, by simp⟩
  | tryCheckFromDB checker =>
    simp only [step] at h
    split at h <;> cases h <;> exact Or.inr ⟨rfl, by simp⟩
  | importAsync contestId source =>
    simp only [step] at h
    split at h <;> cases h <;> exact Or.inr ⟨rfl, by simp⟩
  | retestAsync contestId problemId exceptAccepted => cases h; exact Or.inr ⟨rfl, by simp⟩
  | retestCompilationErrorsAsync contestId => cases h; exact Or.inr ⟨rfl, by simp⟩
  | cancel a => exact Or.inr ⟨stepGate_db (e := .cancel a) h, by simp⟩
  | enter a => exact Or.inr ⟨stepGate_db (e := .enter a) h, by simp⟩
  | leave a => exact Or.inr ⟨stepGate_db (e := .leave a) h, by simp⟩
  | fail a => exact Or.inr ⟨stepGate_db (e := .fail a) h, by simp⟩
  | pick a choice =>
    simp only [step, stepCheck] at h
    split at h
    · split at h <;> split at h <;> cases h <;> exact Or.inr ⟨rfl, by simp⟩
    · cases h
  | claim a =>
    simp only [step, stepCheck] at h
    split at h
    · rename_i hc
      split at h <;> cases h
      · rename_i hany
        exact Or.inl (.claim a _ _ _ _ hc hany)
      · exact Or.inr ⟨rfl, by simp⟩
    · cases h
  | judge a answers elapsed =>
    simp only [step, stepCheck] at h
    split at h <;> cases h
    exact Or.inr ⟨rfl, by simp⟩
  | abort a =>
    simp only [step, stepCheck] at h
    split at h <;> cases h
    exact Or.inr ⟨rfl, by simp⟩
  | stamp a =>
    simp only [step, stepCheck] at h
    split at h <;> cases h
    exact Or.inr ⟨rfl, by simp⟩
  | save a =>
    simp only [step, stepCheck] at h
    split at h <;> cases h
    exact Or.inl (.save a _ ‹_›)
  | prepare a =>
    simp only [step] at h
    split at h
    · split at h <;> cases h <;> exact Or.inr ⟨rfl, by simp⟩
    · cases h
  | commit a =>
    simp only [step] at h
    split at h <;> cases h
    exact Or.inl (.commit a _ ‹_›)

/-- The write of a plan stays within the problems the plan covers. -/
structure Within (plan : Plan) (db db' : Db) : Prop where
  submissions : ∀ x ∈ db.submissions.rows, x.problemId ∉ plan.covers → x ∈ db'.submissions.rows
  problems : ∀ problem ∈ db.problems.rows, problem.id ∉ plan.covers → problem ∈ db'.problems.rows
  contests : db'.contests = db.contests
  checkResults : db'.checkResults = db.checkResults

theorem write_within (db : Db) (now : Int) (plan : Plan) : Within plan db (plan.write db now) := by
  cases plan with
  | «import» tracker =>
    have hsame := saveChanges_same db tracker
    exact ⟨fun x hx _ => hsame.submissions ▸ hx, fun problem hp hcover => saveChanges_other hp hcover,
      hsame.contests, hsame.checkResults⟩
  | retest problemId exceptAccepted =>
    refine ⟨fun x hx hcover => Db.mem_updateSubmissions hx ?_, fun _ hp _ => hp, rfl, rfl⟩
    have hne : (x.problemId == problemId) = false := beq_eq_false_iff_ne.mpr fun e => hcover (List.mem_singleton.mpr e)
    simp only [retested, hne, Bool.false_and]
  | retestCompilationErrors problemIds =>
    refine ⟨fun x hx hcover => Db.mem_updateSubmissions hx ?_, fun _ hp _ => hp, rfl, rfl⟩
    have hnotIn : problemIds.contains x.problemId = false := by simpa [Plan.covers] using hcover
    simp only [hasCompilationError, hnotIn, Bool.false_and]

/-! ## The gate -/

def GateHeld (s : St) : Prop := ∀ a, (s.call a).holds = true ↔ s.gate = some a

theorem gate_init (db : Db) (now : Int) : GateHeld (init db now) := by
  intro a
  simp [init, St.call, Call.holds]

theorem gate_step {s s' : St} {e : Ev} (h : GateHeld s) (hs : step deployment s e = some s') : GateHeld s' := by
  rcases step_cases hs with ⟨ticks, rfl⟩ | rfl | ⟨call, hbegins, rfl⟩ | ⟨a, call, db, hover, -, hfree, rfl⟩
  · exact h
  · exact h
  · obtain ⟨hholds, -⟩ := hbegins.outside
    intro b
    rw [call_begin]
    by_cases e : b = s.calls.length
    · subst e
      have hfree := h s.calls.length
      rw [call_length] at hfree
      rw [if_pos rfl, hholds]
      exact hfree
    · rw [if_neg e]; exact h b
  · intro b
    show ((s.put a call).call b).holds = true ↔ gateAfter s.gate a (s.call a) call = some b
    rw [call_put hover]
    have ha := h a
    have hb := h b
    unfold gateAfter
    by_cases e : b = a
    · subst e
      rw [if_pos rfl]
      cases hbefore : (s.call b).holds <;> cases hafter : call.holds <;> simp_all
    · rw [if_neg e]
      cases hbefore : (s.call a).holds <;> cases hafter : call.holds
      · simpa using hb
      · -- the gate was free and is entered
        rw [hfree hbefore hafter] at hb
        simp only [Bool.false_eq_true, if_false, if_true, Option.some.injEq]
        exact ⟨fun hh => (nomatch hb.mp hh), fun hh => absurd hh.symm e⟩
      · -- the gate was `a`'s and is left
        rw [ha.mp hbefore] at hb
        simp only [Bool.true_eq_false, Bool.false_eq_true, if_false]
        exact ⟨fun hh => absurd (Option.some.inj (hb.mp hh)).symm e, fun hh => (nomatch hh)⟩
      · simpa using hb

/-- Only one call is in the gate. -/
theorem GateHeld.only {s : St} (h : GateHeld s) {a b : Nat} (ha : (s.call a).holds = true) (hne : b ≠ a) :
    (s.call b).holds = false := by
  cases hb : (s.call b).holds with
  | false => rfl
  | true => exact absurd (Option.some.inj (((h b).mp hb).symm.trans ((h a).mp ha))) hne

/-- A step leaves a call where it is, moves it, or begins it. -/
theorem call_cases {s s' : St} {e : Ev} (hs : step deployment s e = some s') (a : Nat) :
    s'.call a = s.call a ∨ Move deployment s.db s.now (s.call a) (s'.call a) s'.db ∨
      (a = s.calls.length ∧ (s'.call a).holds = false ∧ (s'.call a).inFlight = none) := by
  rcases step_cases hs with ⟨ticks, rfl⟩ | rfl | ⟨call, hbegins, rfl⟩ | ⟨b, call, db, hover, hm, -, rfl⟩
  · exact Or.inl rfl
  · exact Or.inl rfl
  · rw [call_begin]
    split
    · next hnew => exact Or.inr (Or.inr ⟨hnew, hbegins.outside⟩)
    · exact Or.inl rfl
  · show (s.put b call).call a = s.call a ∨ Move deployment s.db s.now (s.call a) ((s.put b call).call a) db ∨ _
    rw [call_put hover]
    by_cases hab : a = b
    · subst hab
      rw [if_pos rfl]
      exact Or.inr (Or.inl hm)
    · rw [if_neg hab]
      exact Or.inl rfl

/-- What each call's own moves keep, all calls keep. -/
theorem calls_step {P : Call → Prop} (hquiet : ∀ call : Call, call.holds = false → call.inFlight = none → P call)
    (hmove : ∀ {db db' : Db} {now : Int} {call call' : Call}, P call → Move deployment db now call call' db' → P call')
    {s s' : St} {e : Ev} (h : ∀ a, P (s.call a)) (hs : step deployment s e = some s') : ∀ a, P (s'.call a) := by
  intro a
  rcases call_cases hs a with hcall | hm | ⟨-, hholds, hnone⟩
  · rw [hcall]; exact h a
  · exact hmove (h a) hm
  · exact hquiet _ hholds hnone

/-- Only a call in the gate writes. -/
theorem move_db {db db' : Db} {now : Int} {call call' : Call} (hm : Move deployment db now call call' db') :
    db' = db ∨ call.holds = true := by
  cases hm with
  | claim | save | commit => exact Or.inr rfl
  | _ => exact Or.inl rfl

/-- What calls hold of the database: a call that begins or moves comes to hold it, and the
    calls outside the gate keep it when another one writes. -/
theorem calls_read {R : Db → Int → Call → Prop} {s s' : St} {e : Ev} (hgate : GateHeld s)
    (h : ∀ a, R s.db s.now (s.call a)) (hs : step deployment s e = some s')
    (hlater : ∀ (ticks : Nat) (call : Call), R s.db s.now call → R s.db (s.now + ticks) call)
    (hbegin : ∀ call, Begins deployment e call → R s.db s.now call)
    (hmove : ∀ a call, Move deployment s.db s.now (s.call a) call s'.db → R s'.db s.now call)
    (hkeep : ∀ call : Call, call.holds = false → R s.db s.now call → R s'.db s.now call) :
    ∀ a, R s'.db s'.now (s'.call a) := by
  rcases step_cases hs with ⟨ticks, rfl⟩ | rfl | ⟨call, hbegins, rfl⟩ | ⟨a, call, db, hover, hm, -, rfl⟩
  · exact fun b => hlater ticks _ (h b)
  · exact h
  · intro b
    rw [call_begin]
    split
    · exact hbegin call hbegins
    · exact h b
  · intro b
    show R db s.now ((s.put a call).call b)
    rw [call_put hover]
    by_cases e : b = a
    · rw [if_pos e]; exact hmove a call hm
    · rw [if_neg e]
      rcases move_db hm with hdb | hholds
      · rw [hdb]; exact h b
      · exact hkeep _ (hgate.only hholds e) (h b)

/-- What a call in the gate has read stays so, as nobody else writes: its own moves keep it. -/
theorem gate_reads {R : Db → Int → Call → Prop}
    (houtside : ∀ {db : Db} {now : Int} {call : Call}, call.holds = false → R db now call)
    (hlater : ∀ {db : Db} {now : Int} (ticks : Nat) {call : Call}, R db now call → R db (now + ticks) call)
    (hmove : ∀ {db db' : Db} {now : Int} {call call' : Call}, R db now call → Move deployment db now call call' db' →
      R db' now call')
    {s s' : St} {e : Ev} (hgate : GateHeld s) (h : ∀ a, R s.db s.now (s.call a)) (hs : step deployment s e = some s') :
    ∀ a, R s'.db s'.now (s'.call a) :=
  calls_read hgate h hs (fun ticks _ hr => hlater ticks hr) (fun _ hbegins => houtside hbegins.outside.1)
    (fun a _ hm => hmove (h a) hm) fun _ hholds _ => houtside hholds

/-! ## Checks -/

/-- What the query of a claim includes belongs together. -/
structure Joined (loaded : Loaded) : Prop where
  problem : loaded.problem.id = loaded.submission.problemId
  tests : loaded.tests = activeTests loaded.problem
  contest : loaded.contest.id = loaded.problem.contestId

/-- The unit of work started with the submission as it was read, and claimed. -/
structure Attached (check : Check) : Prop where
  joined : Joined check.loaded
  original : check.original =
    { check.loaded.submission with statusCode := 1, lastModification := check.original.lastModification }

/-- The check failed: only the status is changed. -/
structure Failed (check : Check) : Prop where
  result : check.result = none
  statusCode : check.current.statusCode = 0
  score : check.current.score = check.original.score
  scoresByTest : check.current.scoresByTest = check.original.scoresByTest

/-- The check returned: its result is added and copied. -/
structure Succeeded (deployment : Deployment) (check : Check) (row : CheckResultRow) : Prop where
  result : check.result = some row
  submission : row.submissionId = check.original.id
  checked : ∃ answers elapsed, check.outcome deployment answers elapsed =
    .ok ⟨row.statusCode, row.log, row.score, row.testResults⟩
  statusCode : check.current.statusCode = row.statusCode
  score : check.current.score = row.score
  scoresByTest : check.current.scoresByTest = row.testResults

def Ended (deployment : Deployment) (check : Check) : Prop :=
  Failed check ∨ ∃ row, Succeeded deployment check row

/-- The unit of work of a check at each point of it. -/
def Shape (deployment : Deployment) : Call → Prop
  | .claiming _ loaded _ _ => Joined loaded
  | .claimed check | .judging check => Attached check ∧ check.current = check.original ∧ check.result = none
  | .judged check | .saving check | .committing check => Attached check ∧ Ended deployment check
  | _ => True

theorem shape_quiet (call : Call) (hholds : call.holds = false) (hnone : call.inFlight = none) :
    Shape deployment call := by
  cases call <;> trivial

theorem load_joined {db : Db} {ids : List Int} {x : SubmissionRow} {loaded : Loaded}
    (h : load db ids x = some loaded) :
    Joined loaded ∧ loaded.submission = x ∧ loaded.problem ∈ db.problems.rows ∧ loaded.contest ∈ db.contests.rows := by
  unfold load at h
  split at h
  · rename_i hcompilator hproblem
    split at h
    · rename_i hcontest
      split at h <;> cases h
      obtain ⟨hproblem, hpid⟩ := Table.find?_some hproblem
      obtain ⟨hcontest, hcid⟩ := Table.find?_some hcontest
      exact ⟨⟨hpid, rfl, hcid⟩, rfl, hproblem, hcontest⟩
    · cases h
  · cases h

/-- The submission a claim picks is pending, and what is included with it is in the database. -/
theorem first_loaded {db : Db} {ids : List Int} {span id : Int} {loaded : Loaded}
    (h : first (candidates db ids span) id = some loaded) :
    Joined loaded ∧ loaded.submission ∈ db.submissions.rows ∧ isPending span loaded.submission = true ∧
      loaded.problem ∈ db.problems.rows ∧ loaded.contest ∈ db.contests.rows := by
  unfold first at h
  split at h
  · cases h
  · rename_i hfind
    split at h <;> cases h
    obtain ⟨x, hx, hload⟩ := List.mem_filterMap.mp (List.mem_of_find?_eq_some hfind)
    obtain ⟨hmem, hpending⟩ := List.mem_filter.mp hx
    obtain ⟨hjoined, hsub, hproblem, hcontest⟩ := load_joined hload
    subst hsub
    exact ⟨hjoined, hmem, hpending, hproblem, hcontest⟩

theorem attach_shape {checker : ConnectedChecker} {loaded : Loaded} (h : Joined loaded) (now : Int) :
    Attached (attach checker loaded now) := ⟨h, rfl⟩

theorem failed_ended {check : Check} (h : check.current = check.original) (hr : check.result = none) :
    Ended deployment check.failed := by
  have hscore : check.current.score = check.original.score := by rw [h]
  have htests : check.current.scoresByTest = check.original.scoresByTest := by rw [h]
  exact Or.inl ⟨hr, rfl, hscore, htests⟩

theorem stamp_ended {check : Check} (h : Ended deployment check) (now : Int) : Ended deployment (check.stamp now) := by
  rcases h with h | ⟨row, h⟩
  · exact Or.inl ⟨h.result, h.statusCode, h.score, h.scoresByTest⟩
  · exact Or.inr ⟨row, h.result, h.submission, h.checked, h.statusCode, h.score, h.scoresByTest⟩

/-- The judgement goes into the tracked row and the result. -/
theorem judge_keeps (check : Check) (checkTime : Int) (answers : Verdict.Answers) (elapsed : TimeSpan) :
    (check.judge deployment checkTime answers elapsed).original = check.original ∧
      (check.judge deployment checkTime answers elapsed).loaded = check.loaded := by
  unfold Check.judge
  split <;> exact ⟨rfl, rfl⟩

theorem judge_ended {check : Check} (ha : Attached check) (h : check.current = check.original)
    (hr : check.result = none) (checkTime : Int) (answers : Verdict.Answers) (elapsed : TimeSpan) :
    Attached (check.judge deployment checkTime answers elapsed) ∧
      Ended deployment (check.judge deployment checkTime answers elapsed) := by
  unfold Check.judge
  cases houtcome : check.outcome deployment answers elapsed with
  | error e => exact ⟨⟨ha.joined, ha.original⟩, failed_ended h hr⟩
  | ok result =>
    have hid : check.loaded.submission.id = check.original.id := by rw [ha.original]
    exact ⟨⟨ha.joined, ha.original⟩, Or.inr ⟨_, rfl, hid, ⟨answers, elapsed, houtcome⟩, rfl, rfl, rfl⟩⟩

theorem shape_move {db db' : Db} {now : Int} {call call' : Call} (h : Shape deployment call)
    (hm : Move deployment db now call call' db') : Shape deployment call' := by
  cases hm with
  | pick checker ids span id loaded hfirst => exact (first_loaded hfirst).1
  | claim checker loaded span at_ _ => exact ⟨attach_shape h at_, rfl, rfl⟩
  | leaveClaimed check => exact h
  | judge check answers elapsed => exact judge_ended h.1 h.2.1 h.2.2 now answers elapsed
  | abort check => exact ⟨⟨h.1.joined, h.1.original⟩, failed_ended h.2.1 h.2.2⟩
  | stamp check => exact ⟨⟨h.1.joined, h.1.original⟩, stamp_ended h.2 now⟩
  | enterCommitting check => exact h
  | cancel | enterPicking | enterReading | drop | leave | save | prepare | commit => trivial

/-- Every check is what its point in the code says, throughout every run. -/
theorem shape_step {s s' : St} {e : Ev} (h : ∀ a, Shape deployment (s.call a))
    (hs : step deployment s e = some s') : ∀ a, Shape deployment (s'.call a) :=
  calls_step shape_quiet shape_move h hs

theorem shape_init (db : Db) (now : Int) (a : Nat) : Shape deployment ((init db now).call a) := trivial

/-- A result that is saved has no code of a queued or a claimed submission. -/
theorem Succeeded.code {check : Check} {row : CheckResultRow} (h : Succeeded deployment check row) :
    row.statusCode ≠ 0 ∧ row.statusCode ≠ 1 := by
  obtain ⟨answers, elapsed, hchecked⟩ := h.checked
  obtain ⟨request, -, hresult⟩ := Check.outcome_ok hchecked
  exact Verdict.check_code deployment.platform elapsed hresult

/-! ### A site with one queued submission -/

def sampleDeployment : Deployment where
  service := ⟨Domain.Culture.ordinal, {}, ⟨.asciiOnly, fun _ => .ok none⟩, [4]⟩
  platform := Verdict.samplePlatform

def sampleChecker : ConnectedChecker :=
  ⟨Verdict.sampleService, [⟨Verdict.sampleConfiguration, "test 1", some "full version", none⟩]⟩

def sampleTest (id number : Int) (output : Bytes) (score : Int) : TestRow :=
  ⟨id, ⟨number, [], output, false, true, some score, none⟩⟩

/-- A problem of two tests for 30 and 70 points, and a queued submission. -/
def sampleDb : Db where
  contests := ⟨[⟨1, "school"⟩], 2, by decide, by decide⟩
  compilators := ⟨[⟨1, "test", some "test 1", true⟩], 2, by decide, by decide⟩
  checkers := [4]
  problems := ⟨[⟨1, 1, "Sum", none, true, 1, 2, 128, 1, 4, [sampleTest 1 1 [] 30, sampleTest 2 2 [0x61] 70]⟩], 2,
    by decide, by decide⟩
  nextTest := 3
  submissions := ⟨[⟨1, "source", 0, 0, 0, none, none, 1, 1⟩], 2, by decide, by decide⟩
  checkResults := []
  submissions_of := by decide

def claimed (a : Nat) : List Ev :=
  [.tryCheckFromDB sampleChecker, .enter a, .pick a (some 1), .claim a, .leave a]

def checked (a : Nat) (status : RunnerStatus) : List Ev :=
  [.judge a (fun _ => .ok { Verdict.sampleAnswer with status := status }) 0, .stamp a, .enter a, .save a, .leave a]

end OlympSystem.Site.Queue
