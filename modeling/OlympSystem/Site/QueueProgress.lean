/-
  OlympSystem.Site.QueueProgress — the calls at the queue do not wait for each other
  forever.

  A call waits for the gate, and a check enters it twice: to claim and to save. The gate is
  free while a checker judges, so who is in it needs nobody else to go on.

  `Proceeds`: the steps of a call on its own way, without a failure, a cancellation or a
  new call.

  Proved:
  - `proceeds_moves`: such a step brings its call nearer to its end, and moves no other.
  - `proceeds_some`: while a call is not over, some call can proceed.
  - `calls_finish`: from every state of every run, however the calls take turns, each takes
    nine steps at most, none if it is over, and they stop only with all of them over and the
    gate free.
-/

import OlympSystem.Site.Drain

namespace OlympSystem.Site.QueueProgress

open Lib.Runs Lib.Query OlympSystem.Checker CheckerManager Queue

/-- The call that takes a step on its own way. -/
def turn : Ev → Option Nat
  | .enter a | .pick a _ | .claim a | .leave a | .judge a _ _ | .stamp a | .save a | .prepare a | .commit a => some a
  | _ => none

def Proceeds (e : Ev) : Prop := (turn e).isSome = true

/-- The steps a call has before it at most. -/
def rest : Call → Nat
  | .over => 0
  | .leaving => 1
  | .committing _ | .ready _ => 2
  | .saving _ | .reading _ => 3
  | .judged _ | .waiting _ => 4
  | .judging _ => 5
  | .claimed _ => 6
  | .claiming .. => 7
  | .picking .. => 8
  | .entering .. => 9

def total (s : St) : Nat := (s.calls.map rest).sum

variable {deployment : Deployment}

/-! ## Nearer to the end -/

theorem sum_set_lt : ∀ {l : List Call} {a : Nat} {call : Call}, rest call < rest (l[a]?.getD .over) →
    ((l.set a call).map rest).sum < (l.map rest).sum := by
  intro l
  induction l with
  | nil => intro a call h; simp [rest] at h
  | cons first l ih =>
    intro a call h
    cases a with
    | zero =>
      simp only [List.getElem?_cons_zero, Option.getD_some] at h
      simp only [List.set_cons_zero, List.map_cons, List.sum_cons]
      omega
    | succ a =>
      have hlater : ((l.set a call).map rest).sum < (l.map rest).sum := ih (by simpa using h)
      simp only [List.set_cons_succ, List.map_cons, List.sum_cons]
      omega

theorem rest_le (call : Call) : rest call ≤ 9 := by cases call <;> simp [rest]

theorem total_le (s : St) : total s ≤ 9 * s.calls.countP (rest · != 0) := by
  unfold total
  induction s.calls with
  | nil => simp
  | cons call calls ih =>
    have hone := rest_le call
    rw [List.map_cons, List.sum_cons, List.countP_cons]
    by_cases hzero : rest call = 0
    · simp only [hzero]
      simp only [bne_self_eq_false, Bool.false_eq_true, if_false]
      omega
    · simp only [bne_iff_ne, ne_eq, hzero, not_false_eq_true, if_true]
      omega

/-- Who takes a turn comes nearer to its end; the other calls stay where they are. -/
theorem proceeds_moves {s s' : St} {e : Ev} (he : Proceeds e) (hs : step deployment s e = some s') :
    ∃ a call, turn e = some a ∧ rest call < rest (s.call a) ∧ s'.calls = s.calls.set a call := by
  cases e with
  | tick | tryCheckFromDB | importAsync | retestAsync | retestCompilationErrorsAsync | cancel | abort | fail => cases he
  | enter a =>
    simp only [step, stepGate] at hs
    split at hs
    · next hc => cases hs; exact ⟨a, _, rfl, by rw [hc]; simp [rest], rfl⟩
    · next hc => cases hs; exact ⟨a, _, rfl, by rw [hc]; simp [rest], rfl⟩
    · next hc => cases hs; exact ⟨a, _, rfl, by rw [hc]; simp [rest], rfl⟩
    · cases hs
  | pick a choice =>
    simp only [step, stepCheck] at hs
    split at hs
    · next hc =>
      split at hs <;> split at hs <;> cases hs <;> exact ⟨a, _, rfl, by rw [hc]; simp [rest], rfl⟩
    · cases hs
  | claim a =>
    simp only [step, stepCheck] at hs
    split at hs
    · next hc => split at hs <;> cases hs <;> exact ⟨a, _, rfl, by rw [hc]; simp [rest], rfl⟩
    · cases hs
  | leave a =>
    simp only [step, stepGate] at hs
    split at hs
    · next hc => cases hs; exact ⟨a, _, rfl, by rw [hc]; simp [rest], rfl⟩
    · next hc => cases hs; exact ⟨a, _, rfl, by rw [hc]; simp [rest], rfl⟩
    · cases hs
  | judge a answers elapsed =>
    simp only [step, stepCheck] at hs
    split at hs <;> cases hs
    next hc => exact ⟨a, _, rfl, by rw [hc]; simp [rest], rfl⟩
  | stamp a =>
    simp only [step, stepCheck] at hs
    split at hs <;> cases hs
    next hc => exact ⟨a, _, rfl, by rw [hc]; simp [rest], rfl⟩
  | save a =>
    simp only [step, stepCheck] at hs
    split at hs <;> cases hs
    next hc => exact ⟨a, _, rfl, by rw [hc]; simp [rest], rfl⟩
  | prepare a =>
    simp only [step] at hs
    split at hs
    · next hc => split at hs <;> cases hs <;> exact ⟨a, _, rfl, by rw [hc]; simp [rest], rfl⟩
    · cases hs
  | commit a =>
    simp only [step] at hs
    split at hs <;> cases hs
    next hc => exact ⟨a, _, rfl, by rw [hc]; simp [rest], rfl⟩

/-- The steps before each call. -/
theorem rest_step {s s' : St} {e : Ev} (he : Proceeds e) (hs : step deployment s e = some s') (b : Nat) :
    rest (s'.call b) + (if turn e == some b then 1 else 0) ≤ rest (s.call b) := by
  obtain ⟨a, call, hturn, hlt, hcalls⟩ := proceeds_moves he hs
  have hput : s'.call b = (s.put a call).call b := by
    unfold St.call
    rw [hcalls]
    rfl
  have hover : s.call a ≠ .over := by
    intro hover
    rw [hover] at hlt
    exact Nat.not_lt_zero _ hlt
  rw [hput, call_put hover, hturn]
  by_cases hb : b = a
  · subst hb
    simp only [beq_self_eq_true, if_true]
    omega
  · have hne : (some a == some b) = false := beq_false_of_ne fun heq => hb (Option.some.inj heq).symm
    simp [hne, hb]

/-- The steps before all of them. -/
theorem total_step {s s' : St} {e : Ev} (he : Proceeds e) (hs : step deployment s e = some s') :
    total s' < total s := by
  obtain ⟨a, call, -, hlt, hcalls⟩ := proceeds_moves he hs
  unfold total
  rw [hcalls]
  exact sum_set_lt hlt

/-! ## Somebody can proceed -/

/-- A query returns one of the oldest candidates, or none where there is none. -/
theorem pick_some {s : St} {a : Nat} {checker : ConnectedChecker} {ids : List Int} {span : Int}
    (hc : s.call a = .picking checker ids span) : ∃ choice s', step deployment s (.pick a choice) = some s' := by
  cases holdest : (orderBy (byKey fun x : Loaded => x.submission.commitTime) (candidates s.db ids span)).head? with
  | none =>
    have hnone : (candidates s.db ids span).length = 0 := by
      rw [← orderBy_length (byKey fun x : Loaded => x.submission.commitTime), List.length_eq_zero_iff]
      exact List.head?_eq_none_iff.mp holdest
    exact ⟨none, _, by simp only [step, stepCheck, hc, hnone, if_true]; rfl⟩
  | some loaded =>
    obtain ⟨hmem, hfirst⟩ := first_orderBy (byKey_totalPreorder _) holdest
    have hpicked : first (candidates s.db ids span) loaded.submission.id = some loaded :=
      Drain.first_of_mem hmem fun x hx => by simpa [byKey] using hfirst x hx
    exact ⟨some loaded.submission.id, _, by simp only [step, stepCheck, hc, hpicked]; rfl⟩

/-- Who is in the gate can proceed. -/
theorem holder_proceeds {s : St} {a : Nat} (h : (s.call a).holds = true) :
    ∃ e s', Proceeds e ∧ step deployment s e = some s' := by
  cases hc : s.call a with
  | picking checker ids span =>
    obtain ⟨choice, s', hs⟩ := pick_some hc
    exact ⟨.pick a choice, s', rfl, hs⟩
  | claiming checker loaded span now =>
    by_cases hany : s.db.submissions.rows.any (isClaimed loaded span) = true
    · exact ⟨.claim a, _, rfl, by simp only [step, stepCheck, hc, hany, if_true]; rfl⟩
    · exact ⟨.claim a, _, rfl, by simp only [step, stepCheck, hc, hany]; rfl⟩
  | claimed check => exact ⟨.leave a, _, rfl, by simp only [step, stepGate, hc]; rfl⟩
  | committing check => exact ⟨.save a, _, rfl, by simp only [step, stepCheck, hc]; rfl⟩
  | reading operation =>
    cases hplan : operation.prepare deployment.service s.db with
    | error e => exact ⟨.prepare a, _, rfl, by simp only [step, hc, hplan]; rfl⟩
    | ok plan => exact ⟨.prepare a, _, rfl, by simp only [step, hc, hplan]; rfl⟩
  | ready plan => exact ⟨.commit a, _, rfl, by simp only [step, hc]; rfl⟩
  | leaving => exact ⟨.leave a, _, rfl, by simp only [step, stepGate, hc]; rfl⟩
  | «over» | entering | judging | judged | saving | waiting => rw [hc] at h; cases h

/-- With the gate free, every call that is not over can proceed. -/
theorem free_proceeds {s : St} (hgate : s.gate = none) {a : Nat} (hholds : (s.call a).holds = false)
    (hover : s.call a ≠ .over) : ∃ e s', Proceeds e ∧ step deployment s e = some s' := by
  cases hc : s.call a with
  | «over» => exact absurd hc hover
  | entering checker ids => exact ⟨.enter a, _, rfl, by simp only [step, stepGate, hgate, hc]; rfl⟩
  | saving check => exact ⟨.enter a, _, rfl, by simp only [step, stepGate, hgate, hc]; rfl⟩
  | waiting operation => exact ⟨.enter a, _, rfl, by simp only [step, stepGate, hgate, hc]; rfl⟩
  | judging check =>
    exact ⟨.judge a (fun _ => .ok Verdict.sampleAnswer) 0, _, rfl, by simp only [step, stepCheck, hc]; rfl⟩
  | judged check => exact ⟨.stamp a, _, rfl, by simp only [step, stepCheck, hc]; rfl⟩
  | picking | claiming | claimed | committing | reading | ready | leaving => rw [hc] at hholds; cases hholds

theorem proceeds_some {s : St} (h : GateHeld s) {a : Nat} (hover : s.call a ≠ .over) :
    ∃ e s', Proceeds e ∧ step deployment s e = some s' := by
  cases hgate : s.gate with
  | some b => exact holder_proceeds ((h b).mpr hgate)
  | none =>
    have hholds : (s.call a).holds = false := by
      cases hh : (s.call a).holds with
      | false => rfl
      | true => rw [(h a).mp hh] at hgate; cases hgate
    exact free_proceeds hgate hholds hover

/-! ## Runs -/

/-- Left to themselves the calls come to an end: each takes no more steps than it has before
    it, nine at most and none when it is over, and they do not stop before all of them are over
    and the gate is free. -/
structure Finishes (deployment : Deployment) (s : St) : Prop where
  bounded : ∀ es, (∀ e ∈ es, Proceeds e) → ∀ a, count (step deployment) (fun _ e _ => turn e == some a) s es ≤
    rest (s.call a)
  together : ∀ es, (∀ e ∈ es, Proceeds e) →
    count (step deployment) (fun _ _ _ => true) s es ≤ 9 * s.calls.countP (rest · != 0)
  unblocked : ∀ es, (∀ e, Proceeds e → step deployment (final (step deployment) s es) e = none) →
    (final (step deployment) s es).gate = none ∧ ∀ a, (final (step deployment) s es).call a = .over

theorem stuck_over {s : St} (h : GateHeld s) (hstuck : ∀ e, Proceeds e → step deployment s e = none) :
    s.gate = none ∧ ∀ a, s.call a = .over := by
  have hover : ∀ a, s.call a = .over := by
    intro a
    by_contra hne
    obtain ⟨e, s', he, hs⟩ := proceeds_some h hne
    rw [hstuck e he] at hs
    cases hs
  refine ⟨?_, hover⟩
  cases hgate : s.gate with
  | none => rfl
  | some a =>
    have hholds := (h a).mpr hgate
    rw [hover a] at hholds
    cases hholds

theorem finishes_of_gate {s : St} (h : GateHeld s) : Finishes deployment s := by
  refine ⟨fun es hes a => ?_, fun es hes => ?_, fun es hstuck => ?_⟩
  · refine count_le_measure (I := fun _ => True) (K := Proceeds) (m := fun s : St => rest (s.call a)) ?_ trivial hes
    exact fun s e s' _ he hs => ⟨trivial, rest_step he hs a⟩
  · have hcount : count (step deployment) (fun _ _ _ => true) s es ≤ total s := by
      refine count_le_measure (I := fun _ => True) (K := Proceeds) ?_ trivial hes
      intro s e s' _ he hs
      have hless := total_step he hs
      exact ⟨trivial, by simp only [if_true]; omega⟩
    exact hcount.trans (total_le s)
  · have hgate : Always (step deployment) GateHeld s es := always_of_inv (fun _ _ _ hi hs => gate_step hi hs) h es
    exact stuck_over hgate.last hstuck

/-- In every state of every run of the queue, with any checkers, imports and retests, the
    calls that are under way finish without waiting for anything but each other. -/
theorem calls_finish (deployment : Deployment) (db : Db) (now : Int) (es : List Ev) :
    Always (step deployment) (Finishes deployment) (init db now) es := by
  have hgate : Always (step deployment) GateHeld (init db now) es :=
    always_of_inv (fun _ _ _ hi hs => gate_step hi hs) (gate_init db now) es
  exact hgate.mono fun _ h => finishes_of_gate h

end OlympSystem.Site.QueueProgress
