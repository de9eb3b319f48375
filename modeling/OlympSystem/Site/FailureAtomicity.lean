/-
  OlympSystem.Site.FailureAtomicity — what one check leaves of its submission, when it
  fails and when it returns.

  A call claims a submission, judges it outside the gate, and saves. Its try block throws
  (`Throws`: `CreateCheckRequest` or the checker throws, or the check is cancelled) or
  gives a result (`Returns`). Meanwhile the other calls of the site take any steps, as long
  as none of them has a check of the same submission in flight (`Alone`).

  Proved:
  - `held_step`: the submission's row is what the claim wrote, and its check results and
    what was loaded with it stay.
  - `failure_atomicity`: after the save a failed check's submission is as before the claim,
    with status 0, and a next call can claim it; a returned one has its result.
-/

import OlympSystem.Site.Drain
import OlympSystem.Site.ExclusiveJudging

namespace OlympSystem.Site.FailureAtomicity

open Lib.Runs Lib.Tables Lib.Query OlympSystem.Checker CheckerManager Queue ImportLaw
open ExclusiveJudging (Reads reads_step)
open Drain (call_last put_last first_of_mem claimed_of_candidate write_original)

/-- No other call has a check of the submission in flight. -/
def Alone (a : Nat) (id : Int) (s : St) : Prop :=
  ∀ b < s.calls.length, b ≠ a → ∀ check ∈ (s.call b).inFlight, check.original.id ≠ id

instance (a : Nat) (id : Int) (s : St) : Decidable (Alone a id s) :=
  inferInstanceAs (Decidable (∀ b < s.calls.length, b ≠ a → ∀ check ∈ (s.call b).inFlight, check.original.id ≠ id))

theorem Alone.other {a b : Nat} {id : Int} {s : St} (h : Alone a id s) (hb : b ≠ a) {check : Check}
    (hc : check ∈ (s.call b).inFlight) : check.original.id ≠ id := by
  by_cases hlt : b < s.calls.length
  · exact h b hlt hb check hc
  · unfold St.call at hc
    rw [List.getElem?_eq_none (Nat.le_of_not_lt hlt)] at hc
    cases hc

section Steps

variable (deployment : Deployment) (a : Nat)

/-- In this step the try block of call `a` throws. -/
def Throws (s : St) (e : Ev) : Prop :=
  ∃ check, s.call a = .judging check ∧ (e = .abort a ∨ ∃ answers elapsed error,
    e = .judge a answers elapsed ∧ check.outcome deployment answers elapsed = .error error)

/-- In this step the check of call `a` returns. -/
def Returns (result : CheckerResult) (s : St) (e : Ev) : Prop :=
  ∃ check answers elapsed, s.call a = .judging check ∧ e = .judge a answers elapsed ∧
    check.outcome deployment answers elapsed = .ok result

end Steps

def resultsOf (db : Db) (id : Int) : List CheckResultRow := db.checkResults.filter (·.submissionId == id)

/-- The submission `x` is queued again, as it was before the claim. -/
structure Restored (x : SubmissionRow) (before db db' : Db) : Prop where
  row : ∃ time, { x with statusCode := 0, lastModification := time } ∈ db'.submissions.rows
  results : resultsOf db' x.id = resultsOf before x.id
  save : db'.checkResults = db.checkResults

/-- The submission `x` has the result, which is its one new check result. -/
structure Recorded (x : SubmissionRow) (result : CheckerResult) (before db db' : Db) : Prop where
  row : ∃ time, { x with
    statusCode := result.statusCode
    lastModification := time
    score := result.score
    scoresByTest := result.testResults } ∈ db'.submissions.rows
  results : ∃ time,
    resultsOf db' x.id = resultsOf before x.id ++
      [⟨x.id, time, result.statusCode, result.log, result.score, result.testResults⟩] ∧
    db'.checkResults = db.checkResults ++
      [⟨x.id, time, result.statusCode, result.log, result.score, result.testResults⟩]

/-- A new call of any checker that has the submission's compilator claims it, when no
    candidate is earlier. -/
def Reclaimable (deployment : Deployment) (s : St) (x : SubmissionRow) : Prop :=
  ∀ checker, (compilatorIds s.db checker).contains x.compilatorId = true →
    (∀ other ∈ candidates s.db (compilatorIds s.db checker) (s.now - staleness),
      x.commitTime ≤ other.submission.commitTime) →
    ∃ check, (final (step deployment) s [.tryCheckFromDB checker, .enter s.calls.length,
        .pick s.calls.length (some x.id), .claim s.calls.length]).call s.calls.length = .claimed check ∧
      check.original.id = x.id

/-! ## A call after its claim -/

variable {deployment : Deployment} {a : Nat}

/-- Finished, or with the check of the claim in flight. -/
def Past (check : Check) : Call → Prop
  | .over | .leaving => True
  | .claimed check' | .judging check' | .judged check' | .saving check' | .committing check' =>
    check'.original = check.original ∧ check'.loaded = check.loaded
  | _ => False

/-- Finished, or past the try block, with this result in the unit of work. -/
def Resolved (result : Option CheckResultRow) : Call → Prop
  | .over | .leaving => True
  | .judged check | .saving check | .committing check => check.result = result
  | _ => False

theorem past_move {db db' : Db} {now : Int} {check : Check} {call call' : Call} (h : Past check call)
    (hm : Move deployment db now call call' db') : Past check call' := by
  cases hm with
  | judge check' answers elapsed =>
    obtain ⟨horiginal, hloaded⟩ := judge_keeps check' now answers elapsed
    exact ⟨horiginal.trans h.1, hloaded.trans h.2⟩
  | leaveClaimed | abort | stamp | enterCommitting => exact h
  | cancel | drop | save | commit | leave => trivial
  | enterPicking | enterReading | pick | claim | prepare => cases h

theorem resolved_move {db db' : Db} {now : Int} {result : Option CheckResultRow} {call call' : Call}
    (h : Resolved result call) (hm : Move deployment db now call call' db') : Resolved result call' := by
  cases hm with
  | stamp | enterCommitting => exact h
  | cancel | drop | save | commit | leave => trivial
  | enterPicking | enterReading | pick | claim | prepare | leaveClaimed | judge | abort => cases h

theorem calls_grow {s s' : St} {e : Ev} (hs : step deployment s e = some s') : s.calls.length ≤ s'.calls.length := by
  rcases step_cases hs with ⟨ticks, rfl⟩ | rfl | ⟨call, -, rfl⟩ | ⟨b, call, db, -, -, -, rfl⟩
  · exact Nat.le_refl _
  · exact Nat.le_refl _
  · unfold St.begin; simp
  · unfold St.put; simp

/-- What the own moves of a call that began keep, steps keep. -/
theorem call_kept {P : Call → Prop}
    (hmove : ∀ {db db' : Db} {now : Int} {call call' : Call}, P call → Move deployment db now call call' db' → P call')
    {s s' : St} {e : Ev} (h : P (s.call a)) (hlt : a < s.calls.length) (hs : step deployment s e = some s') :
    P (s'.call a) := by
  rcases call_cases hs a with hcall | hm | ⟨hnew, -⟩
  · rw [hcall]; exact h
  · exact hmove h hm
  · omega

/-! ## The submission of a check in flight -/

/-- The submission is as the claim wrote it, with what was loaded with it and its results. -/
structure Kept (before db : Db) (check : Check) : Prop where
  stored : check.original ∈ db.submissions.rows
  loaded : ∃ ids, load db ids check.loaded.submission = some check.loaded
  results : resultsOf db check.original.id = resultsOf before check.original.id

/-- From the claim of `check` on. -/
structure Held (deployment : Deployment) (a : Nat) (check : Check) (before : Db) (s : St) : Prop where
  gate : GateHeld s
  shape : ∀ b, Shape deployment (s.call b)
  reads : ∀ b, Reads s.db s.now (s.call b)
  begun : a < s.calls.length
  past : Past check (s.call a)
  attached : Attached check
  kept : (s.call a).inFlight ≠ none → Kept before s.db check

theorem load_some {db : Db} {ids : List Int} {x : SubmissionRow} {loaded : Loaded} (h : load db ids x = some loaded) :
    loaded.problem ∈ db.problems.rows ∧ loaded.problem.id = x.problemId ∧ loaded.submission = x := by
  obtain ⟨hjoined, hsub, hproblem, -⟩ := load_joined h
  exact ⟨hproblem, hsub ▸ hjoined.problem, hsub⟩

/-- The joins find the same rows again. -/
theorem load_keep {db db' : Db} {ids ids' : List Int} {x x' : SubmissionRow} {loaded : Loaded}
    (h : load db ids x = some loaded) (hcompilators : db'.compilators = db.compilators)
    (hcontests : db'.contests = db.contests) (hproblem : loaded.problem ∈ db'.problems.rows)
    (hcompilator : x'.compilatorId = x.compilatorId) (hpid : x'.problemId = x.problemId)
    (hids : ids'.contains x.compilatorId = true) : load db' ids' x' = some { loaded with submission := x' } := by
  obtain ⟨-, hid, -⟩ := load_some h
  have hfind : db'.problems.find? x.problemId = some loaded.problem := hid ▸ Table.find?_of_mem hproblem
  unfold load at h ⊢
  rw [hcompilators, hcontests, hcompilator, hpid]
  split at h
  · rename_i compilator problem hc hp
    split at h
    · rename_i contest hcontest
      split at h <;> cases h
      rename_i hactive
      simp only [Bool.and_eq_true] at hactive
      rw [hc, hfind]
      simp only [hcontest, hactive.1.1, hactive.2, hids, Bool.and_self, if_pos]
    · cases h
  · cases h

theorem load_contains {db : Db} {ids : List Int} {x : SubmissionRow} {loaded : Loaded}
    (h : load db ids x = some loaded) : ids.contains x.compilatorId = true := by
  unfold load at h
  split at h
  · split at h
    · split at h <;> cases h
      rename_i hactive
      simp only [Bool.and_eq_true] at hactive
      exact hactive.1.2
    · cases h
  · cases h

theorem kept_of {before db db' : Db} {check : Check} (h : Kept before db check)
    (hstored : check.original ∈ db'.submissions.rows) (hcompilators : db'.compilators = db.compilators)
    (hcontests : db'.contests = db.contests) (hproblem : check.loaded.problem ∈ db'.problems.rows)
    (hresults : resultsOf db' check.original.id = resultsOf db check.original.id) : Kept before db' check := by
  obtain ⟨ids, hload⟩ := h.loaded
  exact ⟨hstored, ⟨ids, load_keep hload hcompilators hcontests hproblem rfl rfl (load_contains hload)⟩,
    hresults.trans h.results⟩

theorem write_compilators (db : Db) (now : Int) (plan : Plan) : (plan.write db now).compilators = db.compilators := by
  cases plan with
  | «import» tracker => exact (saveChanges_same db tracker).compilators
  | retest | retestCompilationErrors => rfl

theorem kept_problem {before db : Db} {check : Check} (h : Kept before db check) :
    check.loaded.problem ∈ db.problems.rows := by
  obtain ⟨ids, hload⟩ := h.loaded
  exact (load_some hload).1

/-- Another submission is claimed. -/
theorem kept_claim {before db : Db} {check : Check} (h : Kept before db check) {loaded : Loaded} {span now : Int}
    (hne : loaded.submission.id ≠ check.original.id) :
    Kept before (db.updateSubmissions ((claimUpdate now).restrict (isClaimed loaded span))) check := by
  have hproblem := kept_problem h
  refine kept_of h (Db.mem_updateSubmissions h.stored ?_) rfl rfl hproblem rfl
  have hfalse : (check.original.id == loaded.submission.id) = false := beq_eq_false_iff_ne.mpr hne.symm
  simp only [isClaimed, hfalse, Bool.false_and]

theorem resultsOf_save {db : Db} {check' : Check} {id : Int} (hne : ∀ row ∈ check'.result, row.submissionId ≠ id) :
    resultsOf (check'.saveChanges db) id = resultsOf db id := by
  unfold Check.saveChanges
  cases hresult : check'.result with
  | none => rfl
  | some row =>
    show (db.checkResults ++ [row]).filter _ = _
    have hother : (row.submissionId == id) = false := beq_eq_false_iff_ne.mpr (hne row hresult)
    rw [List.filter_append, List.filter_cons, if_neg (by rw [hother]; exact Bool.false_ne_true), List.filter_nil,
      List.append_nil]
    rfl

/-- The check of another submission is saved. -/
theorem kept_save {before db : Db} {check check' : Check} (h : Kept before db check) (hended : Ended deployment check')
    (hne : check'.original.id ≠ check.original.id) : Kept before (check'.saveChanges db) check := by
  have hstored : check.original ∈ (db.updateSubmissions
      (check'.writeUpdate.restrict (·.id == check'.original.id))).submissions.rows :=
    Db.mem_updateSubmissions h.stored (beq_eq_false_iff_ne.mpr hne.symm)
  have hresults : resultsOf (check'.saveChanges db) check.original.id = resultsOf db check.original.id := by
    refine resultsOf_save fun row hrow => ?_
    rcases hended with hf | ⟨row', hs⟩
    · rw [hf.result] at hrow; cases hrow
    · rw [hs.result] at hrow
      cases hrow
      rw [hs.submission]; exact hne
  have hproblem := kept_problem h
  unfold Check.saveChanges at hresults ⊢
  split at hresults
  · exact kept_of h hstored rfl rfl hproblem hresults
  · exact kept_of h hstored rfl rfl hproblem hresults

/-- An import or a retest commits: its problems have no claimed submission. -/
theorem kept_commit {before db : Db} {check : Check} (h : Kept before db check) (hattached : Attached check)
    (now : Int) {plan : Plan} (hidle : db.isBusy plan.covers = false) : Kept before (plan.write db now) check := by
  have hwithin := write_within db now plan
  have hclaimed : check.original.statusCode = 1 := by rw [hattached.original]
  have hproblem : check.loaded.problem.id = check.original.problemId := by
    rw [hattached.original]; exact hattached.joined.problem
  have huncovered : check.original.problemId ∉ plan.covers :=
    fun hmem => Db.isBusy_eq_false.mp hidle _ h.stored hmem hclaimed
  refine kept_of h (hwithin.submissions _ h.stored huncovered) (write_compilators db now plan) hwithin.contests
    (hwithin.problems _ (kept_problem h) (hproblem ▸ huncovered)) ?_
  unfold resultsOf
  rw [hwithin.checkResults]

/-! ## Steps -/

variable {check : Check} {before : Db}

theorem Held.inFlight {s : St} (h : Held deployment a check before s) {check' : Check}
    (hc : check' ∈ (s.call a).inFlight) :
    check'.original = check.original ∧ check'.loaded = check.loaded ∧ Kept before s.db check := by
  have hpast := h.past
  have hkept := h.kept (by rw [hc]; exact Option.some_ne_none _)
  generalize s.call a = call at hc hpast
  cases call with
  | claimed | judging | judged | saving | committing => cases hc; exact ⟨hpast.1, hpast.2, hkept⟩
  | _ => cases hc

/-- A call in flight after a step had its check in flight before it. -/
theorem inFlight_before {s s' : St} {e : Ev} (h : Held deployment a check before s)
    (hs : step deployment s e = some s') (hc : (s'.call a).inFlight ≠ none) : (s.call a).inFlight ≠ none := by
  rcases call_cases hs a with hcall | hm | ⟨hnew, -⟩
  · rwa [← hcall]
  · have hpast := h.past
    generalize s.call a = call at hm hpast
    generalize s'.call a = call' at hm hc
    generalize s'.db = db at hm
    cases hm with
    | claim | pick | enterPicking | enterReading | prepare => cases hpast
    | drop | cancel | save | commit | leave => exact absurd rfl hc
    | leaveClaimed | judge | abort | stamp | enterCommitting => exact Option.some_ne_none _
  · have := h.begun
    omega

theorem step_claim {s s' : St} {b : Nat} {checker : ConnectedChecker} {loaded : Loaded} {span at_ : Int}
    (hc : s.call b = .claiming checker loaded span at_)
    (hany : s.db.submissions.rows.any (isClaimed loaded span) = true)
    (hs : step deployment s (.claim b) = some s') :
    s' = { s.put b (.claimed (attach checker loaded at_)) with
      db := s.db.updateSubmissions ((claimUpdate at_).restrict (isClaimed loaded span)) } := by
  simp only [step, stepCheck, hc, hany, if_pos] at hs
  exact (Option.some.inj hs).symm

theorem kept_step {s s' : St} {e : Ev} (h : Held deployment a check before s)
    (halone : Alone a check.original.id s) (halone' : Alone a check.original.id s')
    (hs : step deployment s e = some s') (hc : (s'.call a).inFlight ≠ none) : Kept before s'.db check := by
  have hkept := h.kept (inFlight_before h hs hc)
  rcases step_writes hs with hw | ⟨hdb, -⟩
  · generalize s'.db = db at hw
    cases hw with
    | claim b checker loaded span at_ hclaiming hany =>
      have hb : b ≠ a := by
        intro heq
        have hpast := h.past
        rw [← heq, hclaiming] at hpast
        cases hpast
      have hmem : attach checker loaded at_ ∈ (s'.call b).inFlight := by
        rw [step_claim hclaiming hany hs]
        show attach checker loaded at_ ∈ ((s.put b _).call b).inFlight
        rw [call_put (by rw [hclaiming]; exact fun h => (nomatch h)), if_pos rfl]
        rfl
      exact kept_claim hkept fun heq => halone'.other hb hmem heq
    | save b check' hcommitting =>
      have hb : b ≠ a := by
        intro heq
        obtain ⟨_, _, rfl⟩ := ExclusiveJudging.step_save hs
        subst heq
        refine hc ?_
        show ((s.put b .leaving).call b).inFlight = none
        rw [call_put (by rw [hcommitting]; exact fun h => (nomatch h)), if_pos rfl]
        rfl
      have hshape := h.shape b
      rw [hcommitting] at hshape
      exact kept_save hkept hshape.2 (halone.other hb (by rw [hcommitting]; rfl))
    | commit b plan hready =>
      have hreads := h.reads b
      rw [hready] at hreads
      exact kept_commit hkept h.attached s.now hreads
  · rw [hdb]; exact hkept

theorem held_step {s s' : St} {e : Ev} (h : Held deployment a check before s)
    (halone : Alone a check.original.id s) (halone' : Alone a check.original.id s')
    (hs : step deployment s e = some s') : Held deployment a check before s' where
  gate := gate_step h.gate hs
  shape := shape_step h.shape hs
  reads := reads_step h.gate h.reads hs
  begun := h.begun.trans_le (calls_grow hs)
  past := call_kept (fun hp hm => past_move hp hm) h.past h.begun hs
  attached := h.attached
  kept := kept_step h halone halone' hs

theorem resolved_step {s s' : St} {e : Ev} {result : Option CheckResultRow} (h : Held deployment a check before s)
    (hr : Resolved result (s.call a)) (hs : step deployment s e = some s') : Resolved result (s'.call a) :=
  call_kept (fun hp hm => resolved_move hp hm) hr h.begun hs

/-! ## The claim -/

/-- What a call about to claim has loaded is what the joins find. -/
def Loads (db : Db) (_now : Int) : Call → Prop
  | .claiming _ loaded _ _ => ∃ ids, load db ids loaded.submission = some loaded
  | _ => True

theorem loads_move {db db' : Db} {now : Int} {call call' : Call} (_ : Loads db now call)
    (hm : Move deployment db now call call' db') : Loads db' now call' := by
  cases hm with
  | pick checker ids span id loaded hfirst =>
    refine ⟨ids, ?_⟩
    unfold first at hfirst
    split at hfirst
    · cases hfirst
    · rename_i hfind
      split at hfirst <;> cases hfirst
      obtain ⟨x, -, hload⟩ := List.mem_filterMap.mp (List.mem_of_find?_eq_some hfind)
      rw [(load_some hload).2.2]; exact hload
  | _ => trivial

structure Inv (deployment : Deployment) (s : St) : Prop where
  gate : GateHeld s
  shape : ∀ b, Shape deployment (s.call b)
  reads : ∀ b, Reads s.db s.now (s.call b)
  loads : ∀ b, Loads s.db s.now (s.call b)

theorem inv_init (deployment : Deployment) (db : Db) (now : Int) : Inv deployment (init db now) :=
  ⟨gate_init db now, fun b => shape_init db now b, fun _ => trivial, fun _ => trivial⟩

theorem loads_outside {db : Db} {now : Int} {call : Call} (h : call.holds = false) : Loads db now call := by
  cases call <;> trivial

theorem inv_step {s s' : St} {e : Ev} (h : Inv deployment s) (hs : step deployment s e = some s') :
    Inv deployment s' :=
  ⟨gate_step h.gate hs, shape_step h.shape hs, reads_step h.gate h.reads hs,
    gate_reads (R := Loads) loads_outside (fun _ _ h => h) loads_move h.gate h.loads hs⟩

/-- A step that claims finds the submission it loaded still pending. -/
theorem step_claimed {s s' : St} (hs : step deployment s (.claim a) = some s') (hc : s'.call a = .claimed check) :
    ∃ checker loaded span at_, s.call a = .claiming checker loaded span at_ ∧ check = attach checker loaded at_ ∧
      s.db.submissions.rows.any (isClaimed loaded span) = true ∧
      s'.db = s.db.updateSubmissions ((claimUpdate at_).restrict (isClaimed loaded span)) := by
  simp only [step, stepCheck] at hs
  split at hs
  · rename_i checker loaded span at_ hclaiming
    have hover : s.call a ≠ .over := by
      rw [hclaiming]
      intro hover
      cases hover
    split at hs <;> obtain rfl := Option.some.inj hs
    · rename_i hany
      have hcall : (s.put a (.claimed (attach checker loaded at_))).call a = .claimed (attach checker loaded at_) := by
        rw [call_put hover, if_pos rfl]
      cases hcall.symm.trans hc
      exact ⟨checker, loaded, span, at_, hclaiming, rfl, hany, rfl⟩
    · have hcall : (s.put a .leaving).call a = .leaving := by rw [call_put hover, if_pos rfl]
      cases hcall.symm.trans hc
  · cases hs

theorem begun_of {s : St} (h : s.call a ≠ .over) : a < s.calls.length := by
  by_contra hge
  unfold St.call at h
  rw [List.getElem?_eq_none (by omega)] at h
  exact h rfl

/-- The claim: a submission that was stored is marked, and held from there on. -/
theorem held_claim {s s' : St} (h : Inv deployment s) (hs : step deployment s (.claim a) = some s')
    (hc : s'.call a = .claimed check) :
    Held deployment a check s.db s' ∧ ∃ x ∈ s.db.submissions.rows, x.id = check.original.id ∧
      check.original = { x with statusCode := 1, lastModification := check.original.lastModification } := by
  have hinv := inv_step h hs
  obtain ⟨checker, loaded, span, at_, hclaiming, rfl, hany, hdb⟩ := step_claimed hs hc
  have hreads := h.reads a
  have hloads := h.loads a
  rw [hclaiming] at hreads hloads
  obtain ⟨ids, hload⟩ := hloads
  obtain ⟨-, hsub, hproblem, -⟩ := hreads
  obtain ⟨y, hy, hclaimed⟩ := List.any_eq_true.mp hany
  have hid : y.id = loaded.submission.id := by
    simp only [isClaimed, Bool.and_eq_true, beq_iff_eq] at hclaimed
    exact hclaimed.1
  have hrow := s.db.submissions.row_unique hy hsub hid
  subst hrow
  have hshape := hinv.shape a
  rw [hc] at hshape
  refine ⟨⟨hinv.gate, hinv.shape, hinv.reads, ?_, ?_, hshape.1, fun _ => ⟨?_, ⟨ids, ?_⟩, ?_⟩⟩, _, hsub, rfl, rfl⟩
  · apply begun_of
    rw [hc]
    intro hover
    cases hover
  · rw [hc]; exact ⟨rfl, rfl⟩
  · rw [hdb]
    exact List.mem_map.mpr ⟨_, hsub, by rw [SubmissionUpdate.restrict_apply, hclaimed]; rfl⟩
  · rw [hdb]
    exact load_keep hload rfl rfl hproblem rfl rfl (load_contains hload)
  · rw [hdb]; rfl

/-! ## The save -/

/-- The row a save writes over what the claim wrote. -/
theorem saved_row {db : Db} (check : Check) (h : check.original ∈ db.submissions.rows) :
    { check.original with
      statusCode := check.current.statusCode
      lastModification := check.current.lastModification
      score := check.current.score
      scoresByTest := check.current.scoresByTest } ∈ (check.saveChanges db).submissions.rows := by
  have hrows : (check.saveChanges db).submissions.rows =
      db.submissions.rows.map (check.writeUpdate.restrict (·.id == check.original.id)).apply := by
    unfold Check.saveChanges
    split <;> rfl
  rw [hrows]
  refine List.mem_map.mpr ⟨_, h, ?_⟩
  rw [SubmissionUpdate.restrict_apply, beq_self_eq_true, if_pos rfl]
  exact write_original check

theorem saveChanges_tables (check : Check) (db : Db) : (check.saveChanges db).compilators = db.compilators ∧
    (check.saveChanges db).contests = db.contests ∧ (check.saveChanges db).problems = db.problems := by
  unfold Check.saveChanges
  split <;> exact ⟨rfl, rfl, rfl⟩

section Save

variable {x : SubmissionRow} {db : Db} {check' : Check}

theorem save_restores (hkept : Kept before db check) (hended : Ended deployment check')
    (horiginal : check'.original = check.original) (hresult : check'.result = none)
    (hx : check.original = { x with statusCode := 1, lastModification := check.original.lastModification }) :
    Restored x before db (check'.saveChanges db) := by
  have hid : check.original.id = x.id := by rw [hx]
  have hstored := saved_row check' (horiginal ▸ hkept.stored)
  have hfailed : Failed check' := by
    rcases hended with h | ⟨row, h⟩
    · exact h
    · cases hresult.symm.trans h.result
  have hresults : (check'.saveChanges db).checkResults = db.checkResults := by
    unfold Check.saveChanges
    rw [hresult]; rfl
  refine ⟨⟨check'.current.lastModification, ?_⟩, ?_, hresults⟩
  · rw [hfailed.statusCode, hfailed.score, hfailed.scoresByTest, horiginal, hx] at hstored
    exact hstored
  · unfold resultsOf
    rw [hresults, ← hid]
    exact hkept.results

theorem save_records {result : CheckerResult} {time : Int} (hkept : Kept before db check)
    (hended : Ended deployment check') (horiginal : check'.original = check.original)
    (hresult : check'.result = some ⟨check.original.id, time, result.statusCode, result.log, result.score,
      result.testResults⟩)
    (hx : check.original = { x with statusCode := 1, lastModification := check.original.lastModification }) :
    Recorded x result before db (check'.saveChanges db) := by
  have hid : check.original.id = x.id := by rw [hx]
  have hstored := saved_row check' (horiginal ▸ hkept.stored)
  rcases hended with h | ⟨row, h⟩
  · rw [h.result] at hresult; cases hresult
  · cases h.result.symm.trans hresult
    have hresults : (check'.saveChanges db).checkResults = db.checkResults ++
        [⟨x.id, time, result.statusCode, result.log, result.score, result.testResults⟩] := by
      unfold Check.saveChanges
      rw [hresult, hid]; rfl
    refine ⟨⟨check'.current.lastModification, ?_⟩, time, ?_, hresults⟩
    · rw [h.statusCode, h.score, h.scoresByTest, horiginal, hx] at hstored
      exact hstored
    · have hbefore := hkept.results
      rw [hid] at hbefore
      unfold resultsOf at hbefore ⊢
      rw [hresults, List.filter_append, hbefore]
      simp

end Save

/-! ## The next call -/

/-- With the gate free, a queued submission that the joins find can be claimed. -/
theorem reclaimable {s : St} {ids : List Int} {x : SubmissionRow} {loaded : Loaded} (hgate : s.gate = none)
    (hx : x ∈ s.db.submissions.rows) (hqueued : x.statusCode = 0) (hload : load s.db ids x = some loaded) :
    Reclaimable deployment s x := by
  intro checker hids hfirst
  have hload' := load_keep hload rfl rfl (load_some hload).1 rfl rfl hids
  have hpending : isPending (s.now - staleness) x = true := by simp [isPending, hqueued]
  have hmem : { loaded with submission := x } ∈
      candidates s.db (compilatorIds s.db checker) (s.now - staleness) :=
    List.mem_filterMap.mpr ⟨x, List.mem_filter.mpr ⟨hx, hpending⟩, hload'⟩
  have hpick := first_of_mem hmem hfirst
  have hany := claimed_of_candidate hmem
  have hne : ¬(compilatorIds s.db checker).length = 0 := by
    intro hlength
    rw [List.length_eq_zero_iff] at hlength
    rw [hlength] at hids
    cases hids
  obtain ⟨db, now, gate, calls⟩ := s
  subst hgate
  refine ⟨attach checker { loaded with submission := x } now, ?_, rfl⟩
  simp only [final, step, stepGate, stepCheck, St.begin, if_neg hne, call_last, put_last, hpick, if_pos hany]

/-! ## The run of one check -/

/-- Call `a` claims in `s`, its try block ends in the step `e`, and it saves. No other
    check of its submission is in flight from the claim to the save. -/
structure Single (deployment : Deployment) (a : Nat) (s : St) (during : List Ev) (e : Ev) (rest : List Ev)
    (check : Check) (claimed ended saved : St) : Prop where
  claim : step deployment s (.claim a) = some claimed
  attached : claimed.call a = .claimed check
  alone : Always (step deployment) (Alone a check.original.id) claimed during
  ends : step deployment (final (step deployment) claimed during) e = some ended
  alone' : Always (step deployment) (Alone a check.original.id) ended rest
  save : step deployment (final (step deployment) ended rest) (.save a) = some saved

/-- The gate is left next, and the database stays. -/
def Released (deployment : Deployment) (a : Nat) (s : St) (after : St) : Prop :=
  step deployment s (.leave a) = some after ∧ after.gate = none ∧ after.db = s.db

theorem resolved_throws {s s' : St} {e : Ev} (h : Held deployment a check before s) (ht : Throws deployment a s e)
    (hs : step deployment s e = some s') : Resolved none (s'.call a) := by
  obtain ⟨check', hc, hend⟩ := ht
  have hshape := h.shape a
  rw [hc] at hshape
  obtain ⟨-, -, hnone⟩ := hshape
  have hover : s.call a ≠ .over := by rw [hc]; exact fun h => (nomatch h)
  rcases hend with rfl | ⟨answers, elapsed, error, rfl, houtcome⟩
  · simp only [step, stepCheck, hc, Option.some.injEq] at hs
    rw [← hs, call_put hover, if_pos rfl]
    exact hnone
  · simp only [step, stepCheck, hc, Option.some.injEq] at hs
    rw [← hs, call_put hover, if_pos rfl]
    unfold Check.judge
    rw [houtcome]
    exact hnone

theorem resolved_returns {s s' : St} {e : Ev} {result : CheckerResult} (h : Held deployment a check before s)
    (ht : Returns deployment a result s e) (hs : step deployment s e = some s') :
    Resolved (some ⟨check.original.id, s.now, result.statusCode, result.log, result.score, result.testResults⟩)
      (s'.call a) := by
  obtain ⟨check', answers, elapsed, hc, rfl, houtcome⟩ := ht
  obtain ⟨-, hloaded, -⟩ := h.inFlight (by rw [hc]; rfl)
  have hid : check.loaded.submission.id = check.original.id := by rw [h.attached.original]
  have hover : s.call a ≠ .over := by rw [hc]; exact fun h => (nomatch h)
  simp only [step, stepCheck, hc, Option.some.injEq] at hs
  rw [← hs, call_put hover, if_pos rfl]
  unfold Check.judge
  rw [houtcome, ← hid, ← hloaded]
  rfl

/-- After the save the gate is left, and the next state's gate is free. -/
theorem released_of_save {s saved : St} (hs : step deployment s (.save a) = some saved) :
    ∃ after, Released deployment a saved after := by
  obtain ⟨check', hc, rfl⟩ := ExclusiveJudging.step_save hs
  have hover : s.call a ≠ .over := by rw [hc]; exact fun h => (nomatch h)
  have hcall : St.call { s.put a .leaving with db := check'.saveChanges s.db } a = .leaving := by
    show (s.put a .leaving).call a = .leaving
    rw [call_put hover, if_pos rfl]
  refine ⟨{ (St.put { s.put a .leaving with db := check'.saveChanges s.db } a .over) with gate := none }, ?_, rfl, rfl⟩
  simp only [step, stepGate, hcall]

/-- In every run from every database, whatever the other calls do to other submissions. -/
theorem failure_atomicity (deployment : Deployment) (db : Db) (now : Int) (es during rest : List Ev) (a : Nat) (e : Ev)
    (check : Check) (claimed ended saved : St)
    (h : Single deployment a (final (step deployment) (init db now) es) during e rest check claimed ended saved) :
    let s := final (step deployment) (init db now) es
    let caught := final (step deployment) claimed during
    let last := final (step deployment) ended rest
    ∃ after, Released deployment a saved after ∧ ∃ x ∈ s.db.submissions.rows, x.id = check.original.id ∧
      (Throws deployment a caught e → Restored x s.db last.db saved.db ∧
        ∃ y ∈ after.db.submissions.rows, y.id = x.id ∧ Reclaimable deployment after y) ∧
      ∀ result, Returns deployment a result caught e → Recorded x result s.db last.db saved.db := by
  intro s caught last
  have hinv : Inv deployment s := (always_of_inv (fun _ _ _ => inv_step) (inv_init deployment db now) es).last
  obtain ⟨hclaimed, x, hx, hid, horiginal⟩ := held_claim hinv h.claim h.attached
  have hcaught : Held deployment a check s.db caught :=
    (always_under (fun _ _ _ hi ht ht' hs => held_step hi ht ht' hs) hclaimed h.alone).last
  have hended := held_step hcaught h.alone.last h.alone'.head h.ends
  have hlast : ∀ result, Resolved result (ended.call a) →
      Held deployment a check s.db last ∧ Resolved result (last.call a) := by
    intro result hr
    refine (always_under (I := fun t => Held deployment a check s.db t ∧ Resolved result (t.call a))
      (fun _ _ _ hi ht ht' hs => ⟨held_step hi.1 ht ht' hs, resolved_step hi.1 hi.2 hs⟩) ⟨hended, hr⟩ h.alone').last
  obtain ⟨check', hc, hsaved⟩ := ExclusiveJudging.step_save h.save
  obtain ⟨after, hafter⟩ := released_of_save h.save
  have hdb : saved.db = check'.saveChanges last.db := by rw [hsaved]
  refine ⟨after, hafter, x, hx, hid, fun hthrows => ?_, fun result hreturns => ?_⟩
  · obtain ⟨hheld, hresolved⟩ := hlast none (resolved_throws hcaught hthrows h.ends)
    have hmem : check' ∈ (last.call a).inFlight := by rw [hc]; rfl
    obtain ⟨hsame, -, hkept⟩ := hheld.inFlight hmem
    have hshape := hheld.shape a
    rw [hc] at hshape hresolved
    have hrestored := save_restores hkept hshape.2 hsame hresolved horiginal
    rw [← hdb] at hrestored
    obtain ⟨time, hrow⟩ := hrestored.row
    obtain ⟨ids, hload⟩ := hkept.loaded
    have hloaded := hheld.attached.original.symm.trans horiginal
    have hcompilator := congrArg SubmissionRow.compilatorId hloaded
    have hproblem := congrArg SubmissionRow.problemId hloaded
    obtain ⟨hcompilators, hcontests, hproblems⟩ := saveChanges_tables check' last.db
    rw [← hafter.2.2] at hrow
    refine ⟨hrestored, _, hrow, rfl, reclaimable hafter.2.1 hrow rfl
      (load_keep hload ?_ ?_ ?_ hcompilator.symm hproblem.symm (load_contains hload))⟩
    · rw [hafter.2.2, hdb, hcompilators]
    · rw [hafter.2.2, hdb, hcontests]
    · rw [hafter.2.2, hdb, hproblems]; exact kept_problem hkept
  · obtain ⟨hheld, hresolved⟩ := hlast _ (resolved_returns hcaught hreturns h.ends)
    have hmem : check' ∈ (last.call a).inFlight := by rw [hc]; rfl
    obtain ⟨hsame, -, hkept⟩ := hheld.inFlight hmem
    have hshape := hheld.shape a
    rw [hc] at hshape hresolved
    rw [hdb]
    exact save_records hkept hshape.2 hsame hresolved horiginal

/-- A check that is cancelled. -/
theorem sample_cancelled :
    let last := final (step sampleDeployment) (init sampleDb 0) (claimed 0 ++ [.abort 0, .tick 5, .stamp 0, .enter 0])
    ∃ saved, step sampleDeployment last (.save 0) = some saved ∧
      Restored ⟨1, "source", 0, 0, 0, none, none, 1, 1⟩ sampleDb last.db saved.db := by
  obtain ⟨after, hafter, x, hx, -, hfails, -⟩ := failure_atomicity sampleDeployment sampleDb 0
    [.tryCheckFromDB sampleChecker, .enter 0, .pick 0 (some 1)] [.leave 0] [.tick 5, .stamp 0, .enter 0] 0 (.abort 0)
    _ _ _ _ ⟨rfl, rfl, by decide +kernel, rfl, by decide +kernel, rfl⟩
  cases List.mem_singleton.mp hx
  exact ⟨_, rfl, (hfails ⟨_, rfl, Or.inl rfl⟩).1⟩

end OlympSystem.Site.FailureAtomicity
