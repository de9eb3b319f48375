/-
  OlympSystem.Site.SharedQueue — many checkers at one queue, beside imports and retests.

  Every checker runs `TryCheckFromDB` on its own, so several checks are in flight at once
  and the queue changes between them. Each call still finds the queue as one checker alone
  would: the gate is held from its query to its claim, and what others have claimed has
  status 1 and is not stale.

  Assumed of a run: it is timely (no check is in flight two minutes after its claim), and
  no save fails (the submission of a check that could not be saved keeps status 1 until a
  claim finds it stale).

  Proved, from a database in which nothing is claimed:
  - `carried_step`: a submission has status 1 exactly while a check of it is in flight.
  - `queue_step`: a query takes the oldest submission that is eligible for its checker,
    and finds none only when none is; a claim finds the submission its query found.
  - `shared_queue`: both for every run.
-/

import OlympSystem.Site.Drain
import OlympSystem.Site.ExclusiveJudging
import OlympSystem.Site.QueueLedger

namespace OlympSystem.Site.SharedQueue

open Lib.Runs Lib.Tables OlympSystem.Checker ProblemArchive CheckerManager Queue ImportLaw ExclusiveJudging Drain

def InFlight (s : St) (id : Int) : Prop := ∃ a, ∃ check ∈ (s.call a).inFlight, check.original.id = id

/-- A submission is claimed exactly while a check of it is in flight. -/
def Carried (s : St) : Prop := ∀ x ∈ s.db.submissions.rows, x.statusCode = 1 ↔ InFlight s x.id

/-- The step is not a save that fails. -/
def SavesDone (s : St) (e : Ev) (_ : St) : Prop :=
  (match e with
  | .fail a => (s.call a).inFlight.isNone
  | _ => true) = true

instance (s : St) (e : Ev) (s' : St) : Decidable (SavesDone s e s') := inferInstanceAs (Decidable (_ = true))

/-- What the queries and the claims of the checkers do. -/
def QueueLaw (s : St) (e : Ev) (s' : St) : Prop :=
  match e with
  | .pick a none => ∀ checker ids span, s.call a = .picking checker ids span → eligible checker s.db = []
  | .pick a (some _) => ∃ checker ids span loaded, s.call a = .picking checker ids span ∧
      s'.call a = .claiming checker loaded span s.now ∧ loaded.submission ∈ eligible checker s.db ∧
      ∀ x ∈ eligible checker s.db, loaded.submission.commitTime ≤ x.commitTime
  | .claim a => ∃ check, s'.call a = .claimed check
  | _ => True

variable {deployment : Deployment}

/-! ## Contests of imported problems -/

/-- The problems of a tracker keep their contest, or are added to one that is there. -/
structure Placed (db : Db) (tracker : Tracker) : Prop where
  existing : ∀ problem ∈ tracker.existing, problem.current.contestId = problem.original.contestId
  added : ∀ problem ∈ tracker.added, ∃ contest ∈ db.contests.rows, contest.id = problem.current.contestId

theorem placed_advance {db : Db} {contest : ContestRow} (hcontest : contest ∈ db.contests.rows) (isSchool : Bool)
    {tracker : Tracker} (h : Placed db tracker) (item : ImportedProblem) :
    Placed db (advance isSchool contest.id tracker item) := by
  refine ⟨fun problem hp => ?_, fun problem hp => ?_⟩
  · obtain ⟨problem', hp', rfl⟩ := List.mem_map.mp hp
    split
    · exact h.existing problem' hp'
    · exact h.existing problem' hp'
  · rcases List.mem_append.mp hp with hp | hp
    · exact h.added problem hp
    · split at hp
      · cases hp
      · rw [List.mem_singleton.mp hp]
        exact ⟨contest, hcontest, rfl⟩

theorem placed_imported {db : Db} {contest : ContestRow} (hcontest : contest ∈ db.contests.rows) (isSchool : Bool)
    (items : List ImportedProblem) : Placed db (importedTracker isSchool contest.id db items) := by
  have hloop : ∀ (items : List ImportedProblem) (tracker : Tracker), Placed db tracker →
      Placed db (items.foldl (advance isSchool contest.id) tracker) := by
    intro items
    induction items with
    | nil => intro _ h; exact h
    | cons item items ih => intro tracker h; exact ih _ (placed_advance hcontest isSchool h item)
  refine hloop items _ ⟨fun problem hp => ?_, fun problem hp => nomatch hp⟩
  obtain ⟨row, -, rfl⟩ := List.mem_map.mp hp
  rfl

theorem contests_saveExisting : ∀ (problems : List TrackedProblem) (db : Db),
    (∀ problem ∈ problems, problem.current.contestId = problem.original.contestId) → HasContests db →
    HasContests (problems.foldl saveExisting db) := by
  intro problems
  induction problems with
  | nil => intro db _ h; exact h
  | cons problem problems ih =>
    intro db hkeep h
    refine ih _ (fun p hp => hkeep p (List.mem_cons_of_mem _ hp)) ?_
    intro row hrow
    obtain ⟨stored, hstored, rfl⟩ := List.mem_map.mp hrow
    obtain ⟨contest, hcontest, hid⟩ := h stored hstored
    refine ⟨contest, hcontest, hid.trans ?_⟩
    rw [Update.restrict_apply]
    split
    · have hsame := hkeep problem List.mem_cons_self
      show stored.contestId = saved problem.original.contestId problem.current.contestId stored.contestId
      rw [hsame]
      simp [saved]
    · rfl

theorem contests_saveAdded : ∀ (problems : List TrackedProblem) (db : Db),
    (∀ problem ∈ problems, ∃ contest ∈ db.contests.rows, contest.id = problem.current.contestId) → HasContests db →
    HasContests (problems.foldl saveAdded db) := by
  intro problems
  induction problems with
  | nil => intro db _ h; exact h
  | cons problem problems ih =>
    intro db hplaced h
    refine ih _ (fun p hp => hplaced p (List.mem_cons_of_mem _ hp)) ?_
    intro row hrow
    rcases List.mem_append.mp hrow with hrow | hrow
    · exact h row hrow
    · rw [List.mem_singleton.mp hrow]
      exact hplaced problem List.mem_cons_self

theorem contests_saveChanges {db : Db} {tracker : Tracker} (h : HasContests db) (hplaced : Placed db tracker) :
    HasContests (saveChanges db tracker) := by
  unfold saveChanges
  refine contests_saveAdded _ _ ?_ (contests_saveExisting _ _ hplaced.existing h)
  rw [(saveExisting_same tracker.existing db).contests]
  exact hplaced.added

/-! ## What a call has read -/

/-- The compilators a checker was matched with, the submission it found pending, the
    contests an import found: what the database still has. -/
def Knows (db : Db) : Call → Prop
  | .entering checker ids => ids = compilatorIds db checker
  | .picking checker ids _ => ids = compilatorIds db checker
  | .claiming _ loaded span _ => loaded.submission ∈ db.submissions.rows ∧ isPending span loaded.submission = true
  | .ready (.import tracker) => Placed db tracker
  | _ => True

theorem compilators_step {s s' : St} {e : Ev} (hs : step deployment s e = some s') :
    s'.db.compilators = s.db.compilators := by
  rcases step_writes hs with hw | ⟨hdb, -⟩
  · generalize s'.db = db at hw
    cases hw with
    | claim => rfl
    | save a check _ =>
      unfold Check.saveChanges
      cases check.result <;> rfl
    | commit a plan _ =>
      cases plan with
      | «import» tracker => exact (saveChanges_same s.db tracker).compilators
      | retest | retestCompilationErrors => rfl
  · rw [hdb]

theorem compilatorIds_congr {db db' : Db} (h : db'.compilators = db.compilators) (checker : ConnectedChecker) :
    compilatorIds db' checker = compilatorIds db checker := by
  unfold compilatorIds
  rw [h]

theorem moved_knows {db db' : Db} {now : Int} {call call' : Call} (h : Knows db call)
    (hm : Move deployment db now call call' db') : Knows db' call' := by
  cases hm with
  | enterPicking checker ids => exact h
  | pick checker ids span id loaded hfirst =>
    obtain ⟨-, hsub, hpending, -⟩ := first_loaded hfirst
    exact ⟨hsub, hpending⟩
  | prepare operation plan hplan =>
    cases plan with
    | «import» tracker =>
      obtain ⟨contest, hcontest, items, -, rfl⟩ := prepare_import hplan
      exact placed_imported hcontest _ items
    | retest | retestCompilationErrors => trivial
  | _ => trivial

theorem knows_outside {db db' : Db} {call : Call} (hcompilators : db'.compilators = db.compilators)
    (hholds : call.holds = false) (h : Knows db call) : Knows db' call := by
  cases call with
  | entering checker ids =>
    show ids = compilatorIds db' checker
    rw [compilatorIds_congr hcompilators]
    exact h
  | picking | claiming | claimed | committing | reading | ready | leaving => cases hholds
  | «over» | judging | judged | saving | waiting => trivial

theorem knows_step {s s' : St} {e : Ev} (hgate : GateHeld s) (h : ∀ a, Knows s.db (s.call a))
    (hs : step deployment s e = some s') : ∀ a, Knows s'.db (s'.call a) := by
  have hothers : (∀ call, Begins deployment e call → Knows s.db call) → ∀ a, Knows s'.db (s'.call a) := fun hbegin =>
    calls_read (R := fun db _ call => Knows db call) hgate h hs (fun _ _ hr => hr) hbegin
      (fun a _ hm => moved_knows (h a) hm) fun _ hholds hr => knows_outside (compilators_step hs) hholds hr
  cases e with
  | tryCheckFromDB checker =>
    simp only [step] at hs
    split at hs <;> cases hs
    · exact h
    · intro a
      rw [call_begin]
      split
      · rfl
      · exact h a
  | _ =>
    refine hothers fun call hbegins => ?_
    cases hbegins <;> trivial

/-! ## Checks in flight -/

theorem call_put_ne {s : St} {a b : Nat} {call : Call} (h : b ≠ a) : (s.put b call).call a = s.call a := by
  unfold St.call St.put
  rw [List.getElem?_set_ne h]

/-- A check waits for its save until it is saved, or the save fails. -/
theorem committing_step {s s' : St} {e : Ev} {a : Nat} {check : Check} (hc : s.call a = .committing check)
    (hs : step deployment s e = some s') : s'.call a = .committing check ∨ e = .save a ∨ e = .fail a := by
  have hnew : ∀ call, (s.begin call).call a = .committing check := fun call => by
    have hover : a ≠ s.calls.length := fun h => by
      rw [h, call_length] at hc
      cases hc
    rw [call_begin, if_neg hover]
    exact hc
  -- the events of other calls leave it alone, and its own are the save and the failure
  have hother : ∀ {b : Nat} {call : Call}, b ≠ a → (s.put b call).call a = .committing check := fun hb =>
    (call_put_ne hb).trans hc
  cases e with
  | tick ticks => cases hs; exact Or.inl hc
  | tryCheckFromDB checker =>
    simp only [step] at hs
    split at hs <;> cases hs
    · exact Or.inl hc
    · exact Or.inl (hnew _)
  | importAsync contestId source =>
    simp only [step] at hs
    split at hs <;> cases hs
    · exact Or.inl hc
    · exact Or.inl (hnew _)
  | retestAsync | retestCompilationErrorsAsync => cases hs; exact Or.inl (hnew _)
  | cancel b | leave b | claim b | abort b | stamp b | prepare b | commit b =>
    by_cases hb : b = a
    · subst hb
      simp [step, stepGate, stepCheck, hc] at hs
    · simp only [step, stepGate, stepCheck] at hs
      repeat' split at hs
      all_goals cases hs
      all_goals exact Or.inl (hother hb)
  | enter b =>
    by_cases hb : b = a
    · subst hb
      simp only [step, stepGate, hc] at hs
      split at hs <;> cases hs <;> simp_all
    · simp only [step, stepGate] at hs
      split at hs <;> cases hs <;> exact Or.inl (hother hb)
  | judge b answers elapsed =>
    by_cases hb : b = a
    · subst hb
      simp [step, stepCheck, hc] at hs
    · simp only [step, stepCheck] at hs
      split at hs <;> cases hs
      exact Or.inl (hother hb)
  | pick b choice =>
    by_cases hb : b = a
    · subst hb
      simp [step, stepCheck, hc] at hs
    · simp only [step, stepCheck] at hs
      repeat' split at hs
      all_goals cases hs
      all_goals exact Or.inl (hother hb)
  | save b =>
    by_cases hb : b = a
    · subst hb; exact Or.inr (Or.inl rfl)
    · simp only [step, stepCheck] at hs
      split at hs <;> cases hs
      exact Or.inl (hother hb)
  | fail b =>
    by_cases hb : b = a
    · subst hb; exact Or.inr (Or.inr rfl)
    · simp only [step, stepGate] at hs
      split at hs <;> cases hs <;> exact Or.inl (hother hb)

theorem move_keeps {db db' : Db} {now : Int} {call call' : Call} (hm : Move deployment db now call call' db')
    {check : Check} (hc : check ∈ call.inFlight) :
    (∃ check' ∈ call'.inFlight, check'.original = check.original) ∨ call = .committing check := by
  cases hm with
  | cancel call _ hnone => rw [hnone] at hc; cases hc
  | drop call hholds hclaimed =>
    cases call with
    | committing check' => cases hc; exact Or.inr rfl
    | claimed check' => exact absurd rfl (hclaimed check')
    | judging | judged | saving => cases hholds
    | «over» | entering | picking | claiming | waiting | reading | ready | leaving => cases hc
  | leaveClaimed check' => exact Or.inl ⟨check, hc, rfl⟩
  | enterCommitting check' => exact Or.inl ⟨check, hc, rfl⟩
  | judge check' answers elapsed => cases hc; exact Or.inl ⟨_, rfl, (judge_keeps check now answers elapsed).1⟩
  | abort check' => cases hc; exact Or.inl ⟨_, rfl, rfl⟩
  | stamp check' => cases hc; exact Or.inl ⟨_, rfl, rfl⟩
  | save check' => cases hc; exact Or.inr rfl
  | enterPicking | enterReading | pick | claim | leave | prepare | commit => cases hc

/-- Only its save ends a check, where no save fails. -/
theorem inFlight_step {s s' : St} {e : Ev} (hs : step deployment s e = some s') (hsaves : SavesDone s e s') {a : Nat}
    {check : Check} (hc : check ∈ (s.call a).inFlight) (hne : e ≠ .save a) : InFlight s' check.original.id := by
  by_cases hcommitting : s.call a = .committing check
  · rcases committing_step hcommitting hs with hsame | rfl | rfl
    · exact ⟨a, check, by rw [hsame]; rfl, rfl⟩
    · exact absurd rfl hne
    · simp [SavesDone, hcommitting, Call.inFlight] at hsaves
  · rcases call_cases hs a with hsame | hm | ⟨hnew, -⟩
    · exact ⟨a, check, hsame ▸ hc, rfl⟩
    · rcases move_keeps hm hc with ⟨check', hc', horiginal⟩ | h
      · exact ⟨a, check', hc', by rw [horiginal]⟩
      · exact absurd h hcommitting
    · rw [hnew, call_length] at hc
      cases hc

/-! ## The invariant -/

structure Shared (deployment : Deployment) (s : St) : Prop where
  exclusive : Inv deployment s
  contests : HasContests s.db
  knows : ∀ a, Knows s.db (s.call a)
  carried : ∀ x ∈ s.db.submissions.rows, x.statusCode = 1 → InFlight s x.id

theorem shared_init (deployment : Deployment) {db : Db} (hcontests : HasContests db) (hquiet : Quiet db) (now : Int) :
    Shared deployment (init db now) :=
  ⟨inv_init deployment db now, hcontests, fun _ => trivial, fun x hx h1 => absurd h1 (hquiet x hx)⟩

theorem contests_step {s s' : St} {e : Ev} (h : Shared deployment s) (hs : step deployment s e = some s') :
    HasContests s'.db := by
  rcases step_writes hs with hw | ⟨hdb, -⟩
  · generalize s'.db = db at hw
    cases hw with
    | claim => exact h.contests
    | save a check _ =>
      unfold Check.saveChanges
      cases check.result <;> exact h.contests
    | commit a plan hc =>
      have hknows := h.knows a
      rw [hc] at hknows
      cases plan with
      | «import» tracker => exact contests_saveChanges h.contests hknows
      | retest | retestCompilationErrors => exact h.contests
  · rw [hdb]; exact h.contests

theorem step_claim {s s' : St} {a : Nat} {checker : ConnectedChecker} {loaded : Loaded} {span now : Int}
    (hc : s.call a = .claiming checker loaded span now)
    (hany : s.db.submissions.rows.any (isClaimed loaded span) = true)
    (hs : step deployment s (.claim a) = some s') : s'.call a = .claimed (attach checker loaded now) := by
  simp only [step, stepCheck, hc, hany, if_true, Option.some.injEq] at hs
  subst hs
  have hover : s.call a ≠ .over := by rw [hc]; simp
  exact (call_put hover a).trans (if_pos rfl)

/-- A saved submission is queued again or judged. -/
theorem saved_status {check : Check} (ha : Attached check) (hended : Ended deployment check) (x : SubmissionRow) :
    (check.write x).statusCode ≠ 1 := by
  have h1 : check.original.statusCode = 1 := by rw [ha.original]
  rcases hended with hf | ⟨row, hrow⟩
  · simp [Check.write, saved, hf.statusCode, h1]
  · have hne : ¬row.statusCode = check.original.statusCode := by rw [h1]; exact hrow.code.2
    simp only [Check.write, saved, hrow.statusCode, if_neg hne]
    exact hrow.code.2

theorem carried_step {s s' : St} {e : Ev} (h : Shared deployment s) (hsaves : SavesDone s e s')
    (hs : step deployment s e = some s') : ∀ x ∈ s'.db.submissions.rows, x.statusCode = 1 → InFlight s' x.id := by
  intro x hx h1
  -- a row that the step left alone had its check before
  have hkept : x ∈ s.db.submissions.rows → (∀ a, e = .save a → ∀ check ∈ (s.call a).inFlight,
      check.original.id ≠ x.id) → InFlight s' x.id := by
    intro hold hnot
    obtain ⟨b, check, hc, hid⟩ := h.carried x hold h1
    rw [← hid]
    exact inFlight_step hs hsaves hc fun he => hnot b he check hc hid
  have hfind : s'.db.submissions.find? x.id = some x := Table.find?_of_mem hx
  rcases step_writes hs with hw | ⟨hdb, hnot⟩
  · generalize s'.db = db at hw hfind
    cases hw with
    | claim a checker loaded span at_ hc hany =>
      rw [QueueLedger.find?_updateSubmissions] at hfind
      obtain ⟨y, hy, hxy⟩ := Option.map_eq_some_iff.mp hfind
      obtain ⟨hymem, -⟩ := Table.find?_some hy
      rw [SubmissionUpdate.restrict_apply] at hxy
      split at hxy
      · next hclaimed =>
        have hid : loaded.submission.id = x.id := by
          simp only [isClaimed, Bool.and_eq_true, beq_iff_eq] at hclaimed
          rw [← hxy, (claimUpdate at_).keeps]
          exact hclaimed.1.symm
        exact ⟨a, _, by rw [step_claim hc hany hs]; rfl, hid⟩
      · exact hkept (hxy ▸ hymem) fun b he => by cases he
    | save a check hc =>
      rw [QueueLedger.find?_saveChanges] at hfind
      obtain ⟨y, hy, hxy⟩ := Option.map_eq_some_iff.mp hfind
      obtain ⟨hymem, -⟩ := Table.find?_some hy
      have hshape := h.exclusive.shape a
      rw [hc] at hshape
      split at hxy
      · -- a saved row is queued again or judged
        have hwritten := saved_status hshape.1 hshape.2 y
        rw [hxy] at hwritten
        exact absurd h1 hwritten
      · next hne =>
        refine hkept (hxy ▸ hymem) fun b he check' hc' => ?_
        cases he
        rw [hc] at hc'
        cases hc'
        rw [← hxy]
        exact Ne.symm hne
    | commit a plan hc =>
      rw [QueueLedger.find?_write] at hfind
      obtain ⟨y, hy, hxy⟩ := Option.map_eq_some_iff.mp hfind
      obtain ⟨hymem, -⟩ := Table.find?_some hy
      split at hxy
      · have hqueued : x.statusCode = 0 := by rw [← hxy]; rfl
        omega
      · exact hkept (hxy ▸ hymem) fun b he => by cases he
  · exact hkept (hdb ▸ hx) fun b he => absurd he (hnot b).1

theorem shared_step {s s' : St} {e : Ev} (h : Shared deployment s) (ht : Timely s) (hsaves : SavesDone s e s')
    (hs : step deployment s e = some s') : Shared deployment s' :=
  ⟨inv_step h.exclusive ht hs, contests_step h hs, knows_step h.exclusive.gate h.knows hs, carried_step h hsaves hs⟩

theorem Shared.carriedBy {s : St} (h : Shared deployment s) : Carried s := by
  intro x hx
  constructor
  · exact h.carried x hx
  · rintro ⟨a, check, hc, hid⟩
    exact h.exclusive.exclusive.claimed a check hc x hx hid.symm

/-! ## Queries and claims -/

/-- What a query finds pending is queued: the claims in flight are not stale. -/
theorem pending_queued {s : St} (h : Shared deployment s) (ht : Timely s) {span : Int}
    (hspan : span + staleness ≤ s.now) {x : SubmissionRow} (hx : x ∈ s.db.submissions.rows)
    (hpending : isPending span x = true) : x.statusCode = 0 := by
  simp only [isPending, Bool.or_eq_true, beq_iff_eq, Bool.and_eq_true, decide_eq_true_eq] at hpending
  rcases hpending with h0 | ⟨h1, hstale⟩
  · exact h0
  · obtain ⟨a, check, hc, hid⟩ := h.carried x hx h1
    obtain ⟨y, hy, hyid, -, htime, -⟩ := (h.exclusive.marked a check hc).submission
    have hxy : y = x := s.db.submissions.row_unique hy hx (hyid.trans hid)
    have htimely := ht.check hc
    rw [hxy] at htime
    omega

theorem candidate_eligible {db : Db} {checker : ConnectedChecker} {span : Int}
    (hqueued : ∀ x ∈ db.submissions.rows, isPending span x = true → x.statusCode = 0) {loaded : Loaded}
    (h : loaded ∈ candidates db (compilatorIds db checker) span) : loaded.submission ∈ eligible checker db := by
  obtain ⟨x, hx, hload⟩ := List.mem_filterMap.mp h
  obtain ⟨hmem, hpending⟩ := List.mem_filter.mp hx
  obtain ⟨rfl, hincludes, hactive, hids, htests⟩ := load_includes hmem hload
  refine List.mem_filter.mpr ⟨hmem, decide_eq_true ⟨hqueued _ hmem hpending, ?_, mem_compilatorIds.mp hids⟩⟩
  exact ⟨loaded.problem, hincludes.problem.1, hincludes.problem.2, hactive, htests⟩

theorem first_oldest {db : Db} {checker : ConnectedChecker} {span id : Int} {loaded : Loaded}
    (hcontests : HasContests db) (h : first (candidates db (compilatorIds db checker) span) id = some loaded) :
    loaded ∈ candidates db (compilatorIds db checker) span ∧
      ∀ x ∈ eligible checker db, loaded.submission.commitTime ≤ x.commitTime := by
  unfold first at h
  split at h
  · cases h
  · next found hfind =>
    split at h <;> cases h
    next hall =>
    refine ⟨List.mem_of_find?_eq_some hfind, fun x hx => ?_⟩
    obtain ⟨loaded', hmem, hsub⟩ := candidates_of_eligible hcontests span hx
    rw [← hsub]
    exact of_decide_eq_true (List.all_eq_true.mp hall loaded' hmem)

theorem queue_pick {s s' : St} (h : Shared deployment s) (ht : Timely s) {a : Nat} {choice : Option Int}
    (hs : step deployment s (.pick a choice) = some s') : QueueLaw s (.pick a choice) s' := by
  simp only [step, stepCheck] at hs
  split at hs
  · next checker ids span hc =>
    have hknows := h.knows a
    have hreads := h.exclusive.reads a
    rw [hc] at hknows hreads
    have hids : ids = compilatorIds s.db checker := hknows
    subst hids
    have hqueued : ∀ x ∈ s.db.submissions.rows, isPending span x = true → x.statusCode = 0 := fun x hx =>
      pending_queued h ht hreads hx
    cases choice with
    | none =>
      simp only at hs
      split at hs
      · next hnone =>
        intro checker' ids' span' hc'
        rw [hc] at hc'
        cases hc'
        -- an eligible submission would be a candidate
        refine List.eq_nil_iff_forall_not_mem.mpr fun x hx => ?_
        obtain ⟨loaded, hmem, -⟩ := candidates_of_eligible h.contests span hx
        rw [List.length_eq_zero_iff.mp hnone] at hmem
        cases hmem
      · cases hs
    | some id =>
      simp only at hs
      split at hs
      · cases hs
      · next loaded hfirst =>
        cases hs
        obtain ⟨hmem, holdest⟩ := first_oldest h.contests hfirst
        have hover : s.call a ≠ .over := by rw [hc]; simp
        exact ⟨checker, _, span, loaded, hc, (call_put hover a).trans (if_pos rfl),
          candidate_eligible hqueued hmem, holdest⟩
  · cases hs

theorem queue_claim {s s' : St} (h : Shared deployment s) {a : Nat} (hs : step deployment s (.claim a) = some s') :
    QueueLaw s (.claim a) s' := by
  cases hc : s.call a with
  | claiming checker loaded span now =>
    have hknows := h.knows a
    rw [hc] at hknows
    have hany : s.db.submissions.rows.any (isClaimed loaded span) = true :=
      List.any_eq_true.mpr ⟨loaded.submission, hknows.1, by simp [isClaimed, hknows.2]⟩
    exact ⟨_, step_claim hc hany hs⟩
  | _ => simp [step, stepCheck, hc] at hs

theorem queue_step {s s' : St} {e : Ev} (h : Shared deployment s) (ht : Timely s)
    (hs : step deployment s e = some s') : QueueLaw s e s' := by
  cases e with
  | pick a choice => exact queue_pick h ht hs
  | claim a => exact queue_claim h hs
  | _ => trivial

/-- In every timely run in which no save fails, from every database in which nothing is
    claimed, with any checkers, imports and retests: a submission is claimed exactly while
    a check of it is in flight, every query takes the oldest submission that is eligible
    then, and every claim succeeds. -/
theorem shared_queue (deployment : Deployment) (db : Db) (now : Int) (es : List Ev) (hcontests : HasContests db)
    (hquiet : Quiet db) (htimely : Always (step deployment) Timely (init db now) es)
    (hsaves : Along (step deployment) SavesDone (init db now) es) :
    Always (step deployment) Carried (init db now) es ∧ Along (step deployment) QueueLaw (init db now) es := by
  have hshared : Always (step deployment) (Shared deployment) (init db now) es := by
    refine always_both ?_ (shared_init deployment hcontests hquiet now) htimely hsaves
    intro s e s' h ht hd hs
    exact shared_step h ht hd hs
  refine ⟨hshared.mono fun _ h => h.carriedBy, along_under ?_ hshared htimely⟩
  intro s e s' h ht _ hs
  exact queue_step h ht hs

/-- Two queued submissions of one problem. -/
def twoQueued : Db :=
  { sampleDb with
    submissions := ⟨[⟨1, "first", 0, 5, 0, none, none, 1, 1⟩, ⟨2, "second", 0, 3, 0, none, none, 1, 1⟩], 3,
      by decide, by decide⟩
    submissions_of := by decide }

/-- Two checkers take them, the oldest first, and a third call finds nothing. -/
def sideBySide : List Ev :=
  [.tryCheckFromDB sampleChecker, .tryCheckFromDB sampleChecker, .tryCheckFromDB sampleChecker,
    .enter 0, .pick 0 (some 2), .claim 0, .leave 0,
    .enter 1, .pick 1 (some 1), .claim 1, .leave 1, .enter 2, .pick 2 none, .leave 2] ++
    checked 1 .completed ++ checked 0 .totalTimeLimit

theorem sample_shared :
    (final (step sampleDeployment) (init twoQueued 0) sideBySide).db.submissions.rows.map SubmissionRow.statusCode =
        [-1002, -1] ∧
      Always (step sampleDeployment) Carried (init twoQueued 0) sideBySide ∧
      Along (step sampleDeployment) QueueLaw (init twoQueued 0) sideBySide :=
  ⟨by decide +kernel, shared_queue sampleDeployment twoQueued 0 sideBySide (by unfold HasContests; decide +kernel)
    (by unfold Quiet; decide +kernel) (by decide +kernel) (by decide +kernel)⟩

end OlympSystem.Site.SharedQueue
