/-
  OlympSystem.Site.ExclusiveJudging — checks, imports and retests that do not get into
  each other's way.

  The gate is free while a checker judges, so what keeps others off a submission under
  judgement is its status 1: a claim takes it only when its last modification is two
  minutes old, and an import or a retest throws when a submission of its problems has it.

  `Timely`: no check is in flight two minutes after its claim.

  Proved, for every run that is timely throughout:
  - `inv_step`: each check in flight has its submission, with status 1 and the claim's
    time, and the problem it loaded; what a call in the gate has read is still so.
  - `exclusive_judging`: (a) a submission has at most one check in flight, and has status
    1 then; (b) no import and no retest commits on a problem with a check in flight;
    (c) a returned check is saved on the tests and limits it was computed from; (d) check
    results are only added, one for each returned check.
-/

import OlympSystem.Site.Queue

namespace OlympSystem.Site.ExclusiveJudging

open Lib.Runs Lib.Tables Lib.Query Lib.Program OlympSystem.Checker CheckerManager Queue ImportLaw

/-- Every check in flight was claimed less than two minutes ago. -/
def Timely (s : St) : Prop :=
  ∀ call ∈ s.calls, ∀ check ∈ call.inFlight, s.now < check.original.lastModification + staleness

instance (s : St) : Decidable (Timely s) :=
  inferInstanceAs (Decidable (∀ call ∈ s.calls, ∀ check ∈ call.inFlight,
    s.now < check.original.lastModification + staleness))

theorem Timely.check {s : St} (h : Timely s) {a : Nat} {check : Check} (hc : check ∈ (s.call a).inFlight) :
    s.now < check.original.lastModification + staleness := by
  unfold St.call at hc
  cases hget : s.calls[a]? with
  | none => rw [hget] at hc; cases hc
  | some call =>
    rw [hget] at hc
    exact h call (List.mem_of_getElem? hget) check hc

/-! ## The invariant -/

/-- The submission of a check in flight is claimed by it, and what the check loaded is
    what the database has. -/
structure Marked (db : Db) (check : Check) : Prop where
  submission : ∃ x ∈ db.submissions.rows, x.id = check.original.id ∧ x.statusCode = 1 ∧
    x.lastModification = check.original.lastModification ∧ x.problemId = check.loaded.problem.id ∧
    x.text = check.loaded.submission.text
  problem : check.loaded.problem ∈ db.problems.rows
  contest : check.loaded.contest ∈ db.contests.rows

/-- What a call in the gate has read is still so. -/
def Reads (db : Db) (now : Int) : Call → Prop
  | .picking _ _ span => span + staleness ≤ now
  | .claiming _ loaded span _ => span + staleness ≤ now ∧ loaded.submission ∈ db.submissions.rows ∧
      loaded.problem ∈ db.problems.rows ∧ loaded.contest ∈ db.contests.rows
  | .ready plan => db.isBusy plan.covers = false
  | _ => True

structure Inv (deployment : Deployment) (s : St) : Prop where
  gate : GateHeld s
  shape : ∀ a, Shape deployment (s.call a)
  reads : ∀ a, Reads s.db s.now (s.call a)
  marked : ∀ a, ∀ check ∈ (s.call a).inFlight, Marked s.db check
  one : ∀ a b, ∀ check ∈ (s.call a).inFlight, ∀ check' ∈ (s.call b).inFlight,
    check.original.id = check'.original.id → a = b

theorem inv_init (deployment : Deployment) (db : Db) (now : Int) : Inv deployment (init db now) :=
  ⟨gate_init db now, fun a => shape_init db now a, fun _ => trivial, fun _ _ h => (nomatch h),
    fun _ _ _ h => (nomatch h)⟩

variable {deployment : Deployment}

theorem reads_outside {db : Db} {now : Int} {call : Call} (h : call.holds = false) : Reads db now call := by
  cases call <;> trivial

theorem reads_later {db : Db} {now : Int} (ticks : Nat) {call : Call} (h : Reads db now call) :
    Reads db (now + ticks) call := by
  unfold Reads at *
  split at h
  · omega
  · exact ⟨by omega, h.2⟩
  · exact h
  · trivial

theorem originals_advance (isSchool : Bool) (contestId : Int) : ∀ (items : List ProblemArchive.ImportedProblem)
    (tracker : Tracker), (items.foldl (advance isSchool contestId) tracker).existing.map (·.original.id) =
      tracker.existing.map (·.original.id) := by
  intro items
  induction items with
  | nil => intro _; rfl
  | cons item items ih =>
    intro tracker
    rw [List.foldl_cons, ih]
    unfold advance
    rw [List.map_map]
    refine List.map_congr_left fun problem _ => ?_
    simp only [Function.comp_apply]
    split <;> rfl

theorem map_ok {α β ε : Type} {x : Except ε α} {f : α → β} {b : β} (h : x.map f = .ok b) :
    ∃ a, x = .ok a ∧ b = f a := by
  cases x with
  | error e => cases h
  | ok a => cases h; exact ⟨a, rfl, rfl⟩

/-- A plan is made when no submission of its problems is under judgement. -/
theorem prepare_idle {service : ContestProblemService} {db : Db} {operation : Operation} {plan : Plan}
    (h : operation.prepare service db = .ok plan) : db.isBusy plan.covers = false := by
  cases operation with
  | «import» contestId imported =>
    obtain ⟨tracker, htracker, rfl⟩ := map_ok h
    obtain ⟨contest, hprepared, rfl⟩ := prepareImport_ok service htracker
    have hcovers : (importedTracker (contest.isSchool service.culture) contestId db imported).existing.map
        (·.original.id) = (ContestProblemService.existingProblems db contestId imported).map ProblemRow.id := by
      unfold importedTracker
      rw [originals_advance, List.map_map]; rfl
    show db.isBusy ((importedTracker _ contestId db imported).existing.map (·.original.id)) = false
    rw [hcovers]; exact hprepared.idle
  | retest contestId problemId exceptAccepted =>
    obtain ⟨u, hu, rfl⟩ := map_ok h
    unfold prepareRetest at hu
    split at hu
    · cases hu
    · split at hu
      · cases hu
      · exact ensureIdle_ok.mp hu
  | retestCompilationErrors contestId =>
    obtain ⟨problemIds, hids, rfl⟩ := map_ok h
    unfold prepareRetestCompilationErrors at hids
    simp only at hids
    split at hids
    · cases hids
    · rename_i hidle
      cases hids
      exact ensureIdle_ok.mp hidle

/-- The plan of an import is made of a contest and an archive. -/
theorem prepare_import {service : ContestProblemService} {db : Db} {operation : Operation} {tracker : Tracker}
    (h : operation.prepare service db = .ok (.import tracker)) :
    ∃ contest ∈ db.contests.rows, ∃ imported, operation = .import contest.id imported ∧
      tracker = importedTracker (contest.isSchool service.culture) contest.id db imported := by
  cases operation with
  | «import» contestId imported =>
    obtain ⟨made, hmade, heq⟩ := map_ok h
    obtain ⟨contest, hprepared, rfl⟩ := prepareImport_ok service hmade
    obtain ⟨hcontest, hid⟩ := single_ok hprepared.found
    obtain rfl := beq_iff_eq.mp hid
    exact ⟨contest, hcontest, imported, rfl, Plan.import.inj heq⟩
  | retest | retestCompilationErrors =>
    obtain ⟨_, -, heq⟩ := map_ok h
    cases heq

/-! ## Writes beside a check in flight -/

theorem marked_keep {db db' : Db} {check : Check} (h : Marked db check)
    (hx : ∀ x ∈ db.submissions.rows, x.id = check.original.id → x.problemId = check.loaded.problem.id →
      x ∈ db'.submissions.rows)
    (hproblem : check.loaded.problem ∈ db'.problems.rows) (hcontests : db'.contests = db.contests) :
    Marked db' check := by
  obtain ⟨x, hmem, hid, hstatus, htime, hpid, htext⟩ := h.submission
  exact ⟨⟨x, hx x hmem hid hpid, hid, hstatus, htime, hpid, htext⟩, hproblem, hcontests ▸ h.contest⟩

theorem marked_saveChanges {db : Db} {check check' : Check} (h : Marked db check)
    (hne : check.original.id ≠ check'.original.id) : Marked (check'.saveChanges db) check := by
  have hx : ∀ x ∈ db.submissions.rows, x.id = check.original.id → x.problemId = check.loaded.problem.id →
      x ∈ (db.updateSubmissions (check'.writeUpdate.restrict (·.id == check'.original.id))).submissions.rows :=
    fun x hx hid _ => Db.mem_updateSubmissions hx (by rw [hid]; exact beq_eq_false_iff_ne.mpr hne)
  unfold Check.saveChanges
  cases check'.result with
  | none => exact marked_keep h hx h.problem rfl
  | some row => exact marked_keep h hx h.problem rfl

/-- The problem of a check in flight is not covered by an idle plan. -/
theorem marked_uncovered {db : Db} {check : Check} (h : Marked db check) {plan : Plan}
    (hidle : db.isBusy plan.covers = false) : check.loaded.problem.id ∉ plan.covers := by
  intro hmem
  obtain ⟨x, hx, -, hstatus, -, hproblem, -⟩ := h.submission
  exact Db.isBusy_eq_false.mp hidle x hx (hproblem ▸ hmem) hstatus

theorem marked_commit {db : Db} {check : Check} (h : Marked db check) {plan : Plan} (now : Int)
    (hidle : db.isBusy plan.covers = false) : Marked (plan.write db now) check := by
  have hcovers := marked_uncovered h hidle
  have hwithin := write_within db now plan
  exact marked_keep h (fun x hx _ hproblem => hwithin.submissions x hx (hproblem ▸ hcovers))
    (hwithin.problems _ h.problem hcovers) hwithin.contests

/-! ## The claim -/

/-- A claim that finds its submission still pending finds no check of it in flight. -/
theorem claim_free {s : St} (h : Inv deployment s) (ht : Timely s) {loaded : Loaded} {span : Int}
    (hspan : span + staleness ≤ s.now) (hany : s.db.submissions.rows.any (isClaimed loaded span) = true) {b : Nat}
    {check : Check} (hc : check ∈ (s.call b).inFlight) : check.original.id ≠ loaded.submission.id := by
  intro heq
  obtain ⟨y, hy, hclaimed⟩ := List.any_eq_true.mp hany
  obtain ⟨x, hx, hid, hstatus, htime, -⟩ := (h.marked b check hc).submission
  simp only [isClaimed, isPending, Bool.and_eq_true, beq_iff_eq, Bool.or_eq_true, decide_eq_true_eq] at hclaimed
  have hxy : x = y := s.db.submissions.row_unique hx hy (by rw [hid, heq, hclaimed.1])
  subst hxy
  have htimely := ht.check hc
  rcases hclaimed.2 with h0 | ⟨-, hstale⟩
  · omega
  · omega

theorem marked_claim {db : Db} {check : Check} (h : Marked db check) {loaded : Loaded} {span : Int} (now : Int)
    (hne : check.original.id ≠ loaded.submission.id) :
    Marked (db.updateSubmissions ((claimUpdate now).restrict (isClaimed loaded span))) check := by
  refine marked_keep h (fun x hx hid _ => Db.mem_updateSubmissions hx ?_) h.problem rfl
  have hfalse : (x.id == loaded.submission.id) = false := beq_eq_false_iff_ne.mpr (hid ▸ hne)
  simp only [isClaimed, hfalse, Bool.false_and]

/-- The claimed submission is marked for the check that claimed it. -/
theorem marked_attach {db : Db} {loaded : Loaded} {span : Int} (checker : ConnectedChecker) (now : Int)
    (hjoined : Joined loaded) (hsub : loaded.submission ∈ db.submissions.rows)
    (hproblem : loaded.problem ∈ db.problems.rows) (hcontest : loaded.contest ∈ db.contests.rows)
    (hany : db.submissions.rows.any (isClaimed loaded span) = true) :
    Marked (db.updateSubmissions ((claimUpdate now).restrict (isClaimed loaded span)))
      (attach checker loaded now) := by
  obtain ⟨y, hy, hclaimed⟩ := List.any_eq_true.mp hany
  have hid : y.id = loaded.submission.id := by
    simp only [isClaimed, Bool.and_eq_true, beq_iff_eq] at hclaimed
    exact hclaimed.1
  have hy' : y = loaded.submission := db.submissions.row_unique hy hsub hid
  subst hy'
  refine ⟨⟨(claimUpdate now).apply loaded.submission, ?_, rfl, rfl, rfl, hjoined.problem.symm, rfl⟩, hproblem, hcontest⟩
  exact List.mem_map.mpr ⟨loaded.submission, hsub, by rw [SubmissionUpdate.restrict_apply, hclaimed]; rfl⟩

/-! ## Steps -/

/-- The check of a call after its move: the one before, or the one it claimed. -/
theorem move_inFlight {db db' : Db} {now : Int} {call call' : Call} (hm : Move deployment db now call call' db')
    {check' : Check} (hc : check' ∈ call'.inFlight) :
    (∃ check ∈ call.inFlight, check'.original = check.original ∧ check'.loaded = check.loaded) ∨
      ∃ checker loaded span at_, call = .claiming checker loaded span at_ ∧ check' = attach checker loaded at_ ∧
        db.submissions.rows.any (isClaimed loaded span) = true ∧
        db' = db.updateSubmissions ((claimUpdate at_).restrict (isClaimed loaded span)) := by
  cases hm with
  | claim checker loaded span at_ hany => cases hc; exact Or.inr ⟨checker, loaded, span, at_, rfl, rfl, hany, rfl⟩
  | leaveClaimed check => exact Or.inl ⟨check', hc, rfl, rfl⟩
  | enterCommitting check => exact Or.inl ⟨check', hc, rfl, rfl⟩
  | judge check answers elapsed =>
    cases hc
    exact Or.inl ⟨check, rfl, judge_keeps check now answers elapsed⟩
  | abort check => cases hc; exact Or.inl ⟨check, rfl, rfl, rfl⟩
  | stamp check => cases hc; exact Or.inl ⟨check, rfl, rfl, rfl⟩
  | cancel | enterPicking | enterReading | drop | pick | leave | save | prepare | commit => cases hc

theorem moved_reads {db db' : Db} {now : Int} {call call' : Call} (h : Reads db now call)
    (hm : Move deployment db now call call' db') : Reads db' now call' := by
  cases hm with
  | enterPicking checker ids => exact Int.le_of_eq (by omega)
  | pick checker ids span id loaded hfirst =>
    obtain ⟨-, hsub, -, hproblem, hcontest⟩ := first_loaded hfirst
    exact ⟨h, hsub, hproblem, hcontest⟩
  | prepare operation plan hplan => exact prepare_idle hplan
  | _ => trivial

section Moves

variable {s : St} {a : Nat} {call : Call} {db : Db}

/-- What a move makes of the database leaves every other check in flight alone. -/
theorem others_marked (h : Inv deployment s) (ht : Timely s) (hm : Move deployment s.db s.now (s.call a) call db)
    {b : Nat} (hb : b ≠ a) {check : Check} (hc : check ∈ (s.call b).inFlight) : Marked db check := by
  have hmarked := h.marked b check hc
  have hreads := h.reads a
  have hone := h.one b a check hc
  generalize s.call a = before at hm hreads hone
  cases hm with
  | claim checker loaded span at_ hany => exact marked_claim hmarked at_ (claim_free h ht hreads.1 hany hc)
  | save check' => exact marked_saveChanges hmarked fun heq => hb (hone check' rfl heq)
  | commit plan => exact marked_commit hmarked s.now hreads
  | _ => exact hmarked

theorem moved_marked (h : Inv deployment s) (hm : Move deployment s.db s.now (s.call a) call db) {check : Check}
    (hc : check ∈ call.inFlight) : Marked db check := by
  rcases move_inFlight hm hc with ⟨before, hbefore, horiginal, hloaded⟩ |
    ⟨checker, loaded, span, at_, hclaiming, rfl, hany, rfl⟩
  · -- the database is the same: the moves that write end the check
    have hdb : db = s.db := by
      generalize s.call a = before at hm hbefore
      cases hm with
      | claim => cases hbefore
      | save | commit => cases hc
      | _ => rfl
    have hmarked := h.marked a before hbefore
    rw [hdb]
    exact ⟨horiginal ▸ hloaded ▸ hmarked.submission, hloaded ▸ hmarked.problem, hloaded ▸ hmarked.contest⟩
  · have hreads := h.reads a
    have hshape := h.shape a
    rw [hclaiming] at hreads hshape
    exact marked_attach checker at_ hshape hreads.2.1 hreads.2.2.1 hreads.2.2.2 hany

theorem moved_one (h : Inv deployment s) (ht : Timely s) (hm : Move deployment s.db s.now (s.call a) call db)
    {b : Nat} {check check' : Check} (hc : check ∈ call.inFlight) (hc' : check' ∈ (s.call b).inFlight)
    (heq : check.original.id = check'.original.id) : a = b := by
  rcases move_inFlight hm hc with ⟨before, hbefore, horiginal, -⟩ | ⟨checker, loaded, span, at_,
    hclaiming, rfl, hany, -⟩
  · exact h.one a b before hbefore check' hc' (horiginal ▸ heq)
  · have hreads := h.reads a
    rw [hclaiming] at hreads
    exact absurd heq.symm (claim_free h ht hreads.1 hany hc')

end Moves

theorem reads_step {s s' : St} {e : Ev} (hgate : GateHeld s) (h : ∀ a, Reads s.db s.now (s.call a))
    (hs : step deployment s e = some s') : ∀ a, Reads s'.db s'.now (s'.call a) :=
  gate_reads reads_outside reads_later moved_reads hgate h hs

theorem inv_step {s s' : St} {e : Ev} (h : Inv deployment s) (ht : Timely s) (hs : step deployment s e = some s') :
    Inv deployment s' := by
  have hgate := gate_step h.gate hs
  have hshape := shape_step h.shape hs
  have hreads := reads_step h.gate h.reads hs
  rcases step_cases hs with ⟨ticks, rfl⟩ | rfl | ⟨call, hbegins, rfl⟩ | ⟨a, call, db, hover, hm, -, rfl⟩
  · exact ⟨hgate, hshape, hreads, h.marked, h.one⟩
  · exact h
  · -- a new call is outside the gate, without a check
    obtain ⟨-, hnone⟩ := hbegins.outside
    have hold : ∀ b, ∀ check ∈ ((s.begin call).call b).inFlight, check ∈ (s.call b).inFlight := by
      intro b check hc
      rw [call_begin] at hc
      split at hc
      · rw [hnone] at hc; cases hc
      · exact hc
    exact ⟨hgate, hshape, hreads, fun b check hc => h.marked b check (hold b check hc),
      fun b b' check hc check' hc' => h.one b b' check (hold b check hc) check' (hold b' check' hc')⟩
  · have hcall : ∀ b, ({ s.put a call with db := db, gate := gateAfter s.gate a (s.call a) call } : St).call b =
        if b = a then call else s.call b := fun b => call_put hover b
    refine ⟨hgate, hshape, hreads, fun b check hc => ?_, fun b b' check hc check' hc' heq => ?_⟩
    · rw [hcall] at hc
      by_cases e : b = a
      · rw [if_pos e] at hc; exact moved_marked h hm hc
      · rw [if_neg e] at hc; exact others_marked h ht hm e hc
    · rw [hcall] at hc hc'
      by_cases e : b = a
      · rw [if_pos e] at hc
        by_cases e' : b' = a
        · rw [e, e']
        · rw [if_neg e'] at hc'
          rw [e]; exact moved_one h ht hm hc hc' heq
      · rw [if_neg e] at hc
        by_cases e' : b' = a
        · rw [if_pos e'] at hc'
          rw [e']; exact (moved_one h ht hm hc' hc heq.symm).symm
        · rw [if_neg e'] at hc'
          exact h.one b b' check hc check' hc' heq

/-! ## The law -/

/-- A submission has at most one check in flight, and is claimed while it has one. -/
structure Exclusive (s : St) : Prop where
  one : ∀ a b, ∀ check ∈ (s.call a).inFlight, ∀ check' ∈ (s.call b).inFlight,
    check.original.id = check'.original.id → a = b
  claimed : ∀ a, ∀ check ∈ (s.call a).inFlight, ∀ x ∈ s.db.submissions.rows, x.id = check.original.id →
    x.statusCode = 1
  stored : ∀ a, ∀ check ∈ (s.call a).inFlight, ∃ x ∈ s.db.submissions.rows, x.id = check.original.id

def UnderCheck (s : St) (problemId : Int) : Prop :=
  ∃ a, ∃ check ∈ (s.call a).inFlight, ∃ x ∈ s.db.submissions.rows, x.id = check.original.id ∧ x.problemId = problemId

/-- The write of a plan: it stays within the problems the plan covers, and none of them
    has a check in flight. -/
structure Commits (s : St) (plan : Plan) (db : Db) : Prop where
  idle : ∀ problemId ∈ plan.covers, ¬UnderCheck s problemId
  submissions : ∀ x ∈ s.db.submissions.rows, x.problemId ∉ plan.covers → x ∈ db.submissions.rows
  problems : ∀ problem ∈ s.db.problems.rows, problem.id ∉ plan.covers → problem ∈ db.problems.rows
  checkResults : db.checkResults = s.db.checkResults

/-- The request asks for what the database has of the submission. -/
structure Asks (culture : Domain.Culture) (db : Db) (submissionId : Int) (request : CheckRequest) : Prop where
  current : ∃ x ∈ db.submissions.rows, ∃ problem ∈ db.problems.rows, ∃ contest ∈ db.contests.rows,
    x.id = submissionId ∧ problem.id = x.problemId ∧ contest.id = problem.contestId ∧
    request.source = x.text ∧
    request.checkerId = problem.checkerId ∧
    request.tests = (activeTests problem).map
      (fun test => ⟨test.content.number, test.content.input, test.content.output, test.content.score⟩) ∧
    request.timeLimit = .fromSeconds (if request.compilator.configuration.useSlowTimeLimit
      then problem.slowTimeLimit else problem.timeLimit) ∧
    request.memoryLimitMb = problem.memoryLimit ∧
    request.allTests = contest.isSchool culture

/-- The check returned this result for what the database has of its submission. -/
structure JudgedNow (deployment : Deployment) (db : Db) (check : Check) (row : CheckResultRow) : Prop where
  submission : row.submissionId = check.original.id
  returned : ∃ request, createCheckRequest deployment.service.culture check.checker check.loaded = .ok request ∧
    Asks deployment.service.culture db row.submissionId request ∧
    ∃ answers elapsed, (Prog.solo (check.checker.service.check deployment.platform request elapsed)
      check.checker.service.initialFields answers).result =
        .ok ⟨row.statusCode, row.log, row.score, row.testResults⟩

/-- The save of a check: one check result if it returned, none if it failed, and the check
    is finished. -/
structure Saves (deployment : Deployment) (s s' : St) (a : Nat) (check : Check) : Prop where
  committing : s.call a = .committing check
  finished : s'.call a = .leaving
  checkResults : s'.db.checkResults = s.db.checkResults ++ check.result.toList
  judged : (check.result = none ∧ check.current.statusCode = 0) ∨
    ∃ row, check.result = some row ∧ JudgedNow deployment s.db check row

/-- What steps do to plans and check results. -/
def StepLaw (deployment : Deployment) (s : St) : Ev → St → Prop
  | .save a, s' => ∃ check, Saves deployment s s' a check
  | .commit a, s' => ∃ plan, s.call a = .ready plan ∧ Commits s plan s'.db
  | _, s' => s'.db.checkResults = s.db.checkResults

theorem Inv.exclusive {s : St} (h : Inv deployment s) : Exclusive s where
  one := h.one
  claimed a check hc x hx hid := by
    obtain ⟨y, hy, hyid, hstatus, -⟩ := (h.marked a check hc).submission
    have hxy : x = y := s.db.submissions.row_unique hx hy (hid.trans hyid.symm)
    rw [hxy]; exact hstatus
  stored a check hc := by
    obtain ⟨x, hx, hid, -⟩ := (h.marked a check hc).submission
    exact ⟨x, hx, hid⟩

/-- No submission of an idle problem has a check in flight. -/
theorem Inv.not_underCheck {s : St} (h : Inv deployment s) {problemIds : List Int}
    (hidle : s.db.isBusy problemIds = false) {problemId : Int} (hmem : problemId ∈ problemIds) :
    ¬UnderCheck s problemId := by
  rintro ⟨a, check, hc, x, hx, hid, hproblem⟩
  exact Db.isBusy_eq_false.mp hidle x hx (hproblem ▸ hmem) (h.exclusive.claimed a check hc x hx hid)

theorem commits_of_ready {s : St} (h : Inv deployment s) {a : Nat} {plan : Plan} (hc : s.call a = .ready plan) :
    Commits s plan (plan.write s.db s.now) := by
  have hidle := h.reads a
  rw [hc] at hidle
  have hwithin := write_within s.db s.now plan
  exact ⟨fun problemId => h.not_underCheck hidle, hwithin.submissions, hwithin.problems, hwithin.checkResults⟩

theorem createCheckRequest_asks {culture : Domain.Culture} {db : Db} {check : Check} {request : CheckRequest}
    (hmarked : Marked db check) (hjoined : Joined check.loaded)
    (h : createCheckRequest culture check.checker check.loaded = .ok request) :
    Asks culture db check.original.id request := by
  obtain ⟨x, hx, hid, -, -, hproblem, htext⟩ := hmarked.submission
  refine ⟨⟨x, hx, _, hmarked.problem, _, hmarked.contest, hid, hproblem.symm, hjoined.contest, ?_⟩⟩
  have hmade := createCheckRequest_made h
  exact ⟨hmade.source.trans htext.symm, hmade.checkerId, by rw [hmade.tests, hjoined.tests], hmade.timeLimit,
    hmade.memoryLimitMb, hmade.allTests⟩

/-- A check that returned did so on what the database still has. -/
theorem judgedNow {db : Db} {check : Check} {row : CheckResultRow} (hmarked : Marked db check)
    (ha : Attached check) (hs : Succeeded deployment check row) : JudgedNow deployment db check row := by
  obtain ⟨answers, elapsed, hchecked⟩ := hs.checked
  obtain ⟨request, hrequest, hresult⟩ := Check.outcome_ok hchecked
  refine ⟨hs.submission, request, hrequest, ?_, answers, elapsed, hresult⟩
  rw [hs.submission]
  exact createCheckRequest_asks hmarked ha.joined hrequest

theorem step_save {s s' : St} {a : Nat} (hs : step deployment s (.save a) = some s') :
    ∃ check, s.call a = .committing check ∧ s' = { s.put a .leaving with db := check.saveChanges s.db } := by
  simp only [step, stepCheck] at hs
  split at hs
  · rename_i check hc
    cases hs
    exact ⟨check, hc, rfl⟩
  · cases hs

theorem saves_of_committing {s : St} (h : Inv deployment s) {a : Nat} {check : Check}
    (hc : s.call a = .committing check) :
    Saves deployment s { s.put a .leaving with db := check.saveChanges s.db } a check := by
  have hshape := h.shape a
  have hmarked := h.marked a check (by rw [hc]; rfl)
  rw [hc] at hshape
  obtain ⟨ha, hended⟩ := hshape
  have hover : s.call a ≠ .over := by rw [hc]; exact fun e => (nomatch e)
  have hcall : (s.put a .leaving).call a = .leaving := by rw [call_put hover, if_pos rfl]
  have hresults : (check.saveChanges s.db).checkResults = s.db.checkResults ++ check.result.toList := by
    unfold Check.saveChanges
    cases check.result with
    | none => exact (List.append_nil _).symm
    | some row => rfl
  rcases hended with hf | ⟨row, hrow⟩
  · exact ⟨hc, hcall, hresults, Or.inl ⟨hf.result, hf.statusCode⟩⟩
  · exact ⟨hc, hcall, hresults, Or.inr ⟨row, hrow.result, judgedNow hmarked ha hrow⟩⟩

theorem step_law {s s' : St} {e : Ev} (h : Inv deployment s) (hs : step deployment s e = some s') :
    StepLaw deployment s e s' := by
  rcases step_writes hs with hw | ⟨hdb, hnot⟩
  · generalize hdb : s'.db = db at hw
    cases hw with
    | claim a checker loaded span at_ _ _ =>
      show s'.db.checkResults = s.db.checkResults
      rw [hdb]; rfl
    | commit a plan hc => exact ⟨plan, hc, hdb ▸ commits_of_ready h hc⟩
    | save a _ _ =>
      obtain ⟨check, hc, rfl⟩ := step_save hs
      exact ⟨check, saves_of_committing h hc⟩
  · cases e with
    | save a => exact absurd rfl (hnot a).1
    | commit a => exact absurd rfl (hnot a).2
    | _ => exact congrArg Db.checkResults hdb

/-- In every run from every database, with any checkers, imports and retests, in which no
    check is in flight two minutes after its claim. -/
theorem exclusive_judging (deployment : Deployment) (db : Db) (now : Int) (es : List Ev)
    (h : Always (step deployment) Timely (init db now) es) :
    Always (step deployment) Exclusive (init db now) es ∧
      Along (step deployment) (StepLaw deployment) (init db now) es := by
  have hinv : Always (step deployment) (Inv deployment) (init db now) es :=
    always_under (fun _ _ _ hi ht _ hs => inv_step hi ht hs) (inv_init deployment db now) h
  have hlaw : Along (step deployment) (StepLaw deployment) (init db now) es := by
    refine along_of_inv ?_ hinv
    intro s e s' hi hs
    exact step_law hi hs
  exact ⟨hinv.mono fun _ hi => hi.exclusive, hlaw⟩

/-- The problem is retested after a check of its submission. -/
def checkThenRetest : List Ev :=
  claimed 0 ++ checked 0 .completed ++
    [.retestAsync 1 1 false, .enter 1, .prepare 1, .commit 1, .leave 1]

theorem sample_judging :
    let db := (final (step sampleDeployment) (init sampleDb 0) checkThenRetest).db
    (db.submissions.rows.map SubmissionRow.statusCode = [0] ∧
        db.checkResults.map CheckResultRow.statusCode = [-1002]) ∧
      Always (step sampleDeployment) Exclusive (init sampleDb 0) checkThenRetest ∧
      Along (step sampleDeployment) (StepLaw sampleDeployment) (init sampleDb 0) checkThenRetest :=
  ⟨by decide +kernel, exclusive_judging sampleDeployment sampleDb 0 checkThenRetest (by decide +kernel)⟩

end OlympSystem.Site.ExclusiveJudging
