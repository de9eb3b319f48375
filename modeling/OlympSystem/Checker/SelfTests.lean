/-
  OlympSystem.Checker.SelfTests — what `RunSelfTests` records.

  A slot is a place in the array of results: a compilator with one of its tests, or a
  compilator without tests. The array has one row for each slot, in the order of the
  sorted compilators and of the tests, and the running index of the loop is the number of
  slots before. So a row is written by the run of its own slot.

  A service is used by one call after another, each of which may throw or be cancelled at
  any await (`Reached`); `Check` and `Run` leave the fields alone, so that they may also
  come in between.

  Proved:
  - `selfTestLoop_books`: a loop that ends has booked every slot from the running index on.
  - `reached_kept`: what the fields keep between the calls; a service that has passed has
    compilators, and none of them with an error.
  - `self_tests_booked`: rows, requests, return value and status of every `RunSelfTests`
    that completes.
-/

import OlympSystem.Checker.Exclusive

namespace OlympSystem.Checker.SelfTests

open Lib.Program Lib.Program.Prog Lib.Query CheckerService Exclusive

variable {svc : CheckerService} {platform : Platform}

abbrev Ended (α : Type) := Outcome Fields Exn RunnerTask RunnerResult α

/-- The fields of a service after any calls. -/
inductive Reached (svc : CheckerService) (platform : Platform) : Fields → Prop
  | new : Reached svc platform svc.initialFields
  | call {fields : Fields} (call : Call) {o : Ended Output} (h : Reached svc platform fields)
      (hcall : May (program svc platform call) fields o) : Reached svc platform o.fields

/-! ## Slots and rows -/

abbrev Slot := CompilatorInfo × Option SelfTest

def slotsOf (svc : CheckerService) (compilators : List CompilatorInfo) : List Slot :=
  compilators.flatMap fun c =>
    if (svc.getTests c.configuration).length = 0 then [(c, none)]
    else (svc.getTests c.configuration).map fun test => (c, some test)

def noTests (c : CompilatorInfo) : CheckerTestResult :=
  ⟨"SelfTests", c, .accepted, some .internalError,
    "No self-tests for compilator " ++ c.configuration.name ++ ", language " ++ c.configuration.language⟩

def pendingRow (c : CompilatorInfo) (test : SelfTest) :
    CheckerTestResult := ⟨test.name, c, test.expectedResult, none, ""⟩

def verdictOf : Except Exn (CheckerResultStatus × String) → CheckerResultStatus
  | .ok (status, _) => status
  | .error _ => .internalError

/-- The row of a slot after the loop, and the exchanges with the runner for it. -/
def IsRow (svc : CheckerService) : Slot → Exchanges × CheckerTestResult → Prop
  | (c, none), x => x.2 = noTests c ∧ x.1 = []
  | (c, some test), x =>
    x.2.name = test.name ∧ x.2.compilator = c ∧ x.2.expectedResult = test.expectedResult ∧
      match c.error with
      | some _ => x.2.result = none ∧ x.1 = []
      | none => ∃ fields o, May (svc.runCheckerTest test c.configuration) fields o ∧ o.log = x.1 ∧
          x.2.result = some (verdictOf o.result)

theorem createTestResults_slots (compilators : List CompilatorInfo) :
    svc.createTestResults compilators = (slotsOf svc compilators).map fun slot =>
      match slot.2 with
      | none => noTests slot.1
      | some test => pendingRow slot.1 test := by
  unfold createTestResults slotsOf
  rw [List.map_flatMap]
  congr 1
  funext c
  by_cases h : (svc.getTests c.configuration).length = 0
  · simp only [if_pos h]; rfl
  · simp only [if_neg h, List.map_map]; rfl

/-! ## Calls that leave the fields alone -/

section Fields

variable {R : Fields → Fields → Prop} [Std.Refl R]

theorem within_requestFor (configuration : CompilatorConfiguration) (task : RunnerTask) :
    Within R (svc.requestFor configuration task) := by
  unfold requestFor
  split
  · exact within_request task
  · exact within_ret _

variable [Trans R R R]

theorem within_checkTest (name : String) (configuration : CompilatorConfiguration) (checker : SimpleChecker)
    (input output : Bytes) (timeLimit : TimeSpan) (memoryLimitMb : Int) :
    Within R (svc.checkTest name configuration checker input output timeLimit memoryLimitMb) :=
  within_bind (within_requestFor _ _) fun _ => within_bind (within_ret _) fun _ => within_ret _

theorem within_testAttempts (request : CheckRequest) (checker : SimpleChecker) (test : CheckTest) :
    ∀ (retries : Nat) (acc : Progress), Within R (svc.testAttempts platform request checker test retries acc) := by
  intro retries
  induction retries with
  | zero =>
    intro acc
    unfold testAttempts
    exact within_bind (within_checkTest _ _ _ _ _ _ _) fun _ => within_ret _
  | succ retries ih =>
    intro acc
    unfold testAttempts
    refine within_bind (within_checkTest _ _ _ _ _ _ _) fun x => ?_
    simp only
    split
    · exact ih _
    · exact within_ret _

theorem within_testLoop (request : CheckRequest) (checker : SimpleChecker) :
    ∀ (tests : List CheckTest) (acc : Progress), Within R (svc.testLoop platform request checker tests acc) := by
  intro tests
  induction tests with
  | nil => intro acc; exact within_ret _
  | cons test tests ih =>
    intro acc
    unfold testLoop
    refine within_bind (within_testAttempts _ _ _ _ _) fun x => ?_
    simp only
    split
    · exact ih _
    · refine within_bind (within_ret _) fun acc => ?_
      split
      · exact ih _
      · exact within_ret _

theorem within_check (request : CheckRequest) (elapsed : TimeSpan) : Within R (svc.check platform request elapsed) := by
  refine within_wait (within_finallyRelease ?_)
  unfold checkBody
  simp only
  split
  · exact within_ret _
  · refine within_bind (within_requestFor _ _) fun _ => ?_
    split
    · exact within_bind (within_ret _) fun _ => within_ret _
    · split
      · exact within_ret _
      · exact within_bind (within_testLoop _ _ _ _) fun _ => within_ret _

theorem within_run (source : String) (configuration : CompilatorConfiguration) (input : String) (timeLimit : TimeSpan)
    (memoryLimitMb : Int) (guid : String) :
    Within R (svc.run source configuration input timeLimit memoryLimitMb guid) := by
  refine within_wait (within_finallyRelease ?_)
  unfold runBody
  refine within_bind (within_requestFor _ _) fun _ => ?_
  simp only
  split
  · exact within_ret _
  · exact within_bind (within_requestFor _ _) fun _ => within_ret _

theorem within_runCheckerTest (test : SelfTest) (configuration : CompilatorConfiguration) :
    Within R (svc.runCheckerTest test configuration) := by
  unfold runCheckerTest
  refine within_bind (within_requestFor _ _) fun _ => ?_
  simp only
  split
  · exact within_ret _
  · exact within_bind (within_checkTest _ _ _ _ _ _ _) fun _ => within_ret _

end Fields

/-! ## One self-test -/

theorem within_caught {α : Type} {R : Fields → Fields → Prop} [Std.Refl R] [Trans R R R] {p : Task α} (h : Within R p) :
    Within R (caught p) :=
  within_andThen h fun r => by
    split
    · exact within_ret _
    · exact within_ret _

theorem may_caught {α : Type} {p : Task α} {s : Fields} {o : Ended (Except Exn α)} {r : Except Exn α}
    (h : May (caught p) s o) (hok : o.result = .ok r) :
    ∃ o₁, May p s o₁ ∧ o₁.result = r ∧ o.log = o₁.log ∧ o.fields = o₁.fields := by
  obtain ⟨o₁, o₂, h₁, h₂, rfl⟩ := may_andThen h
  refine ⟨o₁, h₁, ?_, ?_⟩
  · split at h₂
    · obtain rfl := h₂; cases hok
    · obtain rfl := h₂; exact Except.ok.inj hok
  · split at h₂
    · obtain rfl := h₂; exact ⟨List.append_nil _, rfl⟩
    · obtain rfl := h₂; exact ⟨List.append_nil _, rfl⟩

def withRow (fields : Fields) (index : Nat) (row : CheckerTestResult) : Fields :=
  { fields with checkerTestResults := fields.checkerTestResults.set index row }

/-- A self-test that ends has run its test and written the verdict into its own row. -/
theorem selfTest_books {test : SelfTest} {configuration : CompilatorConfiguration} {index : Nat}
    {pending : CheckerTestResult} {s : Fields} {o : Ended Unit} (hslot : s.checkerTestResults[index]? = some pending)
    (h : May (svc.selfTest platform test configuration index) s o) (hok : o.result = .ok ()) :
    ∃ o₁ output, May (svc.runCheckerTest test configuration) s o₁ ∧ o.log = o₁.log ∧
      o.fields = withRow s index { pending with result := some (verdictOf o₁.result), output := output } := by
  unfold selfTest at h
  obtain ⟨o₀, u, o', hpoll, -, hwait, hok', rfl⟩ := may_bind_ok h hok
  obtain ⟨hlog, hfields⟩ := may_throwIfCancelled hpoll
  rw [hfields] at hwait
  obtain ⟨r, hwait⟩ := hwait
  cases r with
  | error e => obtain rfl := hwait; cases hok'
  | ok u =>
    have htry := may_get.mp hwait
    rw [hslot] at htry
    obtain ⟨oc, answer, ow, hcaught, hanswer, hwrite, -, rfl⟩ := may_bind_ok (may_finallyRelease htry) hok'
    obtain ⟨o₁, h₁, hresult, hlog₁, hfields₁⟩ := may_caught hcaught hanswer
    rw [hfields₁, ← within_runCheckerTest (R := Eq) test configuration s o₁ h₁] at hwrite
    cases answer with
    | ok x =>
      obtain ⟨status, output⟩ := x
      obtain rfl := hwrite
      refine ⟨o₁, output, h₁, ?_, ?_⟩
      · simp [Outcome.after, hlog, hlog₁]
      · rw [hresult]; rfl
    | error e =>
      obtain rfl := hwrite
      refine ⟨o₁, platform.text e, h₁, ?_, ?_⟩
      · simp [Outcome.after, hlog, hlog₁]
      · rw [hresult]; rfl

/-! ## The loop -/

/-- The rows from a running index on, for the slots from there. -/
structure Books (svc : CheckerService) (s : Fields) (before after : List CheckerTestResult) (slots : List Slot)
    (o : Ended Unit) (booked : List (Exchanges × CheckerTestResult)) : Prop where
  rows : List.Forall₂ (IsRow svc) slots booked
  fields : o.fields = { s with checkerTestResults := before ++ booked.map Prod.snd ++ after }
  log : o.log = booked.flatMap Prod.fst

namespace Books

variable {s : Fields} {before middle after : List CheckerTestResult} {slots more : List Slot} {o o' : Ended Unit}
  {booked others : List (Exchanges × CheckerTestResult)}

/-- A row that stays as it was. -/
theorem skip {slot : Slot} {row : CheckerTestResult} (hrow : IsRow svc slot ([], row))
    (h : Books svc s (before ++ [row]) after slots o booked) :
    Books svc s before after (slot :: slots) o (([], row) :: booked) where
  rows := .cons hrow h.rows
  fields := by rw [h.fields]; simp
  log := by rw [h.log]; rfl

/-- What is booked after the first slots. -/
theorem append (h : Books svc s before middle slots o booked)
    (h' : Books svc o.fields (before ++ booked.map Prod.snd) after more o' others) :
    Books svc s before after (slots ++ more) (.after o.log o') (booked ++ others) where
  rows := List.rel_append h.rows h'.rows
  fields := by
    show o'.fields = _
    rw [h'.fields, h.fields, List.map_append]
    simp
  log := by
    show o.log ++ o'.log = _
    rw [h.log, h'.log, List.flatMap_append]

end Books

theorem selfTestsOf_books (c : CompilatorInfo) : ∀ {tests : List SelfTest} {before after : List CheckerTestResult}
    {s : Fields} {o : Ended Unit}, s.checkerTestResults = before ++ tests.map (pendingRow c) ++ after →
    May (svc.selfTestsOf platform c tests before.length) s o → o.result = .ok () →
    ∃ booked, Books svc s before after (tests.map fun test => (c, some test)) o booked := by
  intro tests
  induction tests with
  | nil =>
    intro before after s o hrows h _
    obtain rfl := h
    rw [List.map_nil] at hrows
    exact ⟨[], .nil, by rw [List.map_nil, ← hrows], rfl⟩
  | cons test tests ih =>
    intro before after s o hrows h hok
    have hslot : s.checkerTestResults[before.length]? = some (pendingRow c test) := by
      rw [hrows, List.map_cons, List.append_assoc, List.getElem?_append_right (Nat.le_refl _)]
      simp
    have hset : ∀ row, s.checkerTestResults.set before.length row =
        (before ++ [row]) ++ tests.map (pendingRow c) ++ after := by
      intro row
      rw [hrows, List.map_cons, List.append_assoc, List.set_append_right _ _ (Nat.le_refl _)]
      simp
    have hlen : ∀ row : CheckerTestResult, (before ++ [row]).length = before.length + 1 := fun row => by simp
    unfold selfTestsOf at h
    cases hc : c.error with
    | none =>
      rw [hc] at h
      obtain ⟨o₁, u, o₂, hone, hok₁, hrest, hok₂, rfl⟩ := may_bind_ok h hok
      obtain ⟨ot, output, htest, hlog, hfields⟩ := selfTest_books hslot hone hok₁
      have hrows₁ : o₁.fields.checkerTestResults = _ := (congrArg Fields.checkerTestResults hfields).trans (hset _)
      have hfirst : Books svc s before (tests.map (pendingRow c) ++ after) [(c, some test)] o₁
          [(ot.log, { pendingRow c test with result := some (verdictOf ot.result), output := output })] := by
        refine ⟨.cons ⟨rfl, rfl, rfl, ?_⟩ .nil, ?_, ?_⟩
        · rw [hc]; exact ⟨s, ot, htest, rfl, rfl⟩
        · rw [hfields, withRow, hset, List.append_assoc]; rfl
        · rw [hlog]; simp
      rw [← hlen] at hrest
      obtain ⟨booked, hbooked⟩ := ih hrows₁ hrest hok₂
      exact ⟨_, hfirst.append hbooked⟩
    | some error =>
      rw [hc] at h
      have hrows₁ : s.checkerTestResults = (before ++ [pendingRow c test]) ++ tests.map (pendingRow c) ++ after := by
        rw [hrows]; simp
      have hrest : May (svc.selfTestsOf platform c tests (before ++ [pendingRow c test]).length) s o := by
        rw [hlen]; exact h
      obtain ⟨booked, hbooked⟩ := ih hrows₁ hrest hok
      exact ⟨_, hbooked.skip ⟨rfl, rfl, rfl, by rw [hc]; exact ⟨rfl, rfl⟩⟩⟩

def initialRow (slot : Slot) : CheckerTestResult :=
  match slot.2 with
  | none => noTests slot.1
  | some test => pendingRow slot.1 test

theorem slotsOf_cons (c : CompilatorInfo) (rest : List CompilatorInfo) :
    slotsOf svc (c :: rest) = slotsOf svc [c] ++ slotsOf svc rest := by
  simp [slotsOf]

theorem slotsOf_noTests {c : CompilatorInfo} (h : (svc.getTests c.configuration).length = 0) :
    slotsOf svc [c] = [(c, none)] := by
  show (if _ then _ else _) ++ [] = _
  rw [if_pos h]; rfl

theorem slotsOf_tests {c : CompilatorInfo} (h : (svc.getTests c.configuration).length ≠ 0) :
    slotsOf svc [c] = (svc.getTests c.configuration).map fun test => (c, some test) := by
  show (if _ then _ else _) ++ [] = _
  rw [if_neg h, List.append_nil]

theorem selfTestLoop_books : ∀ {compilators : List CompilatorInfo} {before : List CheckerTestResult} {s : Fields}
    {o : Ended Unit}, s.checkerTestResults = before ++ (slotsOf svc compilators).map initialRow →
    May (svc.selfTestLoop platform compilators before.length) s o → o.result = .ok () →
    ∃ booked, Books svc s before [] (slotsOf svc compilators) o booked := by
  intro compilators
  induction compilators with
  | nil =>
    intro before s o hrows h _
    obtain rfl := h
    have hrows : s.checkerTestResults = before := hrows.trans (List.append_nil _)
    exact ⟨[], .nil, by rw [List.map_nil, List.append_nil, List.append_nil, ← hrows], rfl⟩
  | cons c rest ih =>
    intro before s o hrows h hok
    rw [slotsOf_cons, List.map_append] at hrows
    unfold selfTestLoop at h
    by_cases hnone : (svc.getTests c.configuration).length = 0
    · simp only [if_pos hnone] at h
      rw [slotsOf_noTests hnone, List.map_singleton] at hrows
      have hrows : s.checkerTestResults = (before ++ [noTests c]) ++ (slotsOf svc rest).map initialRow := by
        rw [hrows]; simp [initialRow]
      have hlen : (before ++ [noTests c]).length = before.length + 1 := by simp
      rw [← hlen] at h
      obtain ⟨booked, hbooked⟩ := ih hrows h hok
      rw [slotsOf_cons, slotsOf_noTests hnone]
      exact ⟨_, hbooked.skip ⟨rfl, rfl⟩⟩
    · simp only [if_neg hnone] at h
      rw [slotsOf_tests hnone, List.map_map] at hrows
      obtain ⟨o₁, u, o₂, hone, hok₁, hrest, hok₂, rfl⟩ := may_bind_ok h hok
      have hrows : s.checkerTestResults = before ++ (svc.getTests c.configuration).map (pendingRow c) ++
          (slotsOf svc rest).map initialRow := by
        rw [hrows, List.append_assoc]; rfl
      obtain ⟨booked₁, hbooked₁⟩ := selfTestsOf_books c hrows hone hok₁
      have hlen : (before ++ booked₁.map Prod.snd).length = before.length + (svc.getTests c.configuration).length := by
        rw [List.length_append, List.length_map, ← hbooked₁.rows.length_eq, List.length_map]
      rw [← hlen] at hrest
      obtain ⟨booked₂, hbooked₂⟩ := ih (congrArg Fields.checkerTestResults hbooked₁.fields) hrest hok₂
      rw [slotsOf_cons, slotsOf_tests hnone]
      exact ⟨_, hbooked₁.append hbooked₂⟩

/-- Only the rows of the tests have changed. -/
def OnlyRows (s s' : Fields) : Prop := ∃ rows, s' = { s with checkerTestResults := rows }

instance : Std.Refl OnlyRows := ⟨fun s => ⟨s.checkerTestResults, rfl⟩⟩

instance : Trans OnlyRows OnlyRows OnlyRows where
  trans := by
    rintro s s₁ s₂ ⟨rows₁, rfl⟩ ⟨rows₂, rfl⟩
    exact ⟨rows₂, rfl⟩

theorem within_selfTest (test : SelfTest) (configuration : CompilatorConfiguration) (index : Nat) :
    Within OnlyRows (svc.selfTest platform test configuration index) := by
  have hset : ∀ row, Within OnlyRows (setTestResult index row) := fun row => within_modify fun s => ⟨_, rfl⟩
  unfold selfTest
  refine within_bind (within_throwIfCancelled _) fun _ => within_wait (within_get fun fields => ?_)
  split
  · exact within_ret _
  · refine within_finallyRelease (within_bind (within_caught (within_runCheckerTest _ _)) fun answer => ?_)
    split
    · exact hset _
    · exact hset _

theorem within_selfTestsOf (c : CompilatorInfo) : ∀ (tests : List SelfTest) (index : Nat),
    Within OnlyRows (svc.selfTestsOf platform c tests index) := by
  intro tests
  induction tests with
  | nil => intro index; exact within_ret _
  | cons test tests ih =>
    intro index
    unfold selfTestsOf
    split
    · exact within_bind (within_selfTest _ _ _) fun _ => ih _
    · exact ih _

theorem within_selfTestLoop : ∀ (compilators : List CompilatorInfo) (index : Nat),
    Within OnlyRows (svc.selfTestLoop platform compilators index) := by
  intro compilators
  induction compilators with
  | nil => intro index; exact within_ret _
  | cons c rest ih =>
    intro index
    unfold selfTestLoop
    simp only
    split
    · exact ih _
    · exact within_bind (within_selfTestsOf _ _ _) fun _ => ih _

/-! ## The versions -/

/-- Only version rows have changed, and there are as many as before. -/
def OnlyVersions (s s' : Fields) : Prop :=
  ∃ rows, s' = { s with versionResults := rows } ∧ rows.length = s.versionResults.length

instance : Std.Refl OnlyVersions := ⟨fun s => ⟨s.versionResults, rfl, rfl⟩⟩

instance : Trans OnlyVersions OnlyVersions OnlyVersions where
  trans := by
    rintro s s₁ s₂ ⟨rows₁, rfl, h₁⟩ ⟨rows₂, rfl, h₂⟩
    exact ⟨rows₂, rfl, h₂.trans h₁⟩

def withVersion (fields : Fields) (i : Nat) (row : CheckerTestResult) : Fields :=
  { fields with versionResults := fields.versionResults.set i row }

theorem within_fetchVersion (configuration : CompilatorConfiguration) (results : VersionCache)
    {R : Fields → Fields → Prop} [Std.Refl R] [Trans R R R] : Within R (fetchVersion configuration results) := by
  unfold fetchVersion
  simp only
  split
  · exact within_ret _
  · exact within_bind (within_request _) fun _ => within_ret _

theorem within_versionLoop : ∀ (rest : List CompilatorConfiguration) (results : VersionCache)
    (compilators : List CompilatorInfo), Within OnlyVersions (versionLoop platform rest results compilators) := by
  intro rest
  induction rest with
  | nil => intro results compilators; exact within_ret _
  | cons configuration rest ih =>
    intro results compilators
    unfold versionLoop
    refine within_bind (within_throwIfCancelled _) fun _ => ?_
    refine within_bind (within_caught (within_fetchVersion _ _)) fun answer => ?_
    exact within_bind (within_modify fun s => ⟨_, rfl, List.length_set⟩) fun _ => ih _ _

/-- A version loop that ends has given each configuration a compilator and its row. -/
theorem versionLoop_loads : ∀ {rest : List CompilatorConfiguration} {results : VersionCache}
    {compilators all : List CompilatorInfo} {before after : List CheckerTestResult} {s : Fields}
    {o : Ended (List CompilatorInfo)}, s.versionResults = before ++ after → before.length = compilators.length →
    after.length = rest.length → May (versionLoop platform rest results compilators) s o → o.result = .ok all →
    ∃ loaded : List (CompilatorInfo × String), loaded.map (·.1.configuration) = rest ∧
      all = compilators ++ loaded.map Prod.fst ∧
      o.fields.versionResults = before ++ loaded.map fun x => versionResult x.1 x.2 := by
  intro rest
  induction rest with
  | nil =>
    intro results compilators all before after s o hrows _ hafter h hok
    obtain rfl := h
    obtain rfl := Except.ok.inj hok
    obtain rfl := List.length_eq_zero_iff.mp hafter
    exact ⟨[], rfl, (List.append_nil _).symm, hrows⟩
  | cons configuration rest ih =>
    intro results compilators all before after s o hrows hbefore hafter h hok
    unfold versionLoop at h
    obtain ⟨o₁, u, o₂, hpoll, -, h₂, hok₂, rfl⟩ := may_bind_ok h hok
    rw [(may_throwIfCancelled hpoll).2] at h₂
    obtain ⟨o₃, answer, o₄, hcaught, -, h₄, hok₄, rfl⟩ := may_bind_ok h₂ hok₂
    have hfields : s = o₃.fields := within_caught (R := Eq) (within_fetchVersion _ _) s o₃ hcaught
    rw [← hfields] at h₄
    generalize hinfo : versionInfo platform configuration (answer.map Prod.fst) = info at h₄
    obtain ⟨compilator, log⟩ := info
    have hloop := may_modify.mp h₄
    have hconf := versionInfo_configuration platform configuration (answer.map Prod.fst)
    rw [hinfo] at hconf
    cases after with
    | nil => cases hafter
    | cons row after =>
      have hrows' : (withVersion s compilators.length (versionResult compilator log)).versionResults =
          (before ++ [versionResult compilator log]) ++ after := by
        unfold withVersion
        rw [← hbefore, hrows, List.set_append_right _ _ (Nat.le_refl _)]
        simp
      have hlen : (before ++ [versionResult compilator log]).length = (compilators ++ [compilator]).length := by
        simp [hbefore]
      obtain ⟨loaded, hconfs, hall, hversions⟩ := ih hrows' hlen (Nat.succ.inj hafter) hloop hok₄
      refine ⟨(compilator, log) :: loaded, by rw [List.map_cons, hconfs, hconf], by rw [hall]; simp, ?_⟩
      show o₄.fields.versionResults = _
      rw [hversions]; simp

/-- The rows of the versions belong to the configurations in their order, and the compilators are
    those of the rows, sorted. -/
def VersionRows (svc : CheckerService) (compilators : List CompilatorInfo) (rows : List CheckerTestResult) : Prop :=
  ∃ loaded : List (CompilatorInfo × String), loaded.map (·.1.configuration) = svc.configurations ∧
    rows = loaded.map (fun x => versionResult x.1 x.2) ∧ compilators = orderBy byDisplayName (loaded.map Prod.fst)

/-- What a service that passed its self-tests has. -/
structure Passed (svc : CheckerService) (compilators : List CompilatorInfo) : Prop where
  nonempty : compilators ≠ []
  available : ∀ c ∈ compilators, c.error = none
  tested : ∀ c ∈ compilators, svc.getTests c.configuration ≠ []

structure Kept (svc : CheckerService) (fields : Fields) : Prop where
  waiting : fields.compilators = none → fields.versionResults.length = svc.configurations.length
  loaded : ∀ compilators, fields.compilators = some compilators → VersionRows svc compilators fields.versionResults
  passed : fields.selfTestingStatus = .success → ∃ compilators, fields.compilators = some compilators ∧
    Passed svc compilators

theorem kept_new : Kept svc svc.initialFields where
  waiting _ := by simp [initialFields]
  loaded compilators h := by cases h
  passed h := by cases h

theorem loadBody_kept {s : Fields} {o : Ended Unit} (hs : Kept svc s) (hc : s.compilators = none)
    (h : May (svc.loadBody platform) s o) :
    Kept svc o.fields ∧ (o.result = .ok () → ∃ compilators, o.fields.compilators = some compilators) := by
  have hstatus : s.selfTestingStatus ≠ .success := by
    intro hsuccess
    obtain ⟨compilators, hsome, -⟩ := hs.passed hsuccess
    rw [hc] at hsome; cases hsome
  have h := may_get.mp h
  simp only [hc] at h
  rcases may_bind h with ⟨o₁, e, h₁, -, hresult, hfields, -⟩ | ⟨o₁, loaded, o₂, h₁, hok, h₂, rfl⟩
  · -- the loop threw: some rows of versions are written, and there are still no compilators
    obtain ⟨rows, ho, hlen⟩ := within_versionLoop _ _ _ _ _ h₁
    rw [hfields, hresult, ho]
    refine ⟨⟨fun _ => hlen.trans (hs.waiting hc), fun compilators hsome => ?_, fun hsuccess => ?_⟩,
      fun hok => nomatch hok⟩
    · rw [show s.compilators = some compilators from hsome] at hc; cases hc
    · exact absurd hsuccess hstatus
  · obtain ⟨rows, ho, -⟩ := within_versionLoop _ _ _ _ _ h₁
    obtain ⟨infos, hconfs, hall, hversions⟩ := versionLoop_loads (by rw [List.nil_append]) rfl (hs.waiting hc) h₁ hok
    rw [List.nil_append] at hall hversions
    have h₂ := may_modify.mp h₂
    obtain rfl := h₂
    refine ⟨⟨fun hnone => (nomatch hnone), fun compilators hsome => ?_, fun hsuccess => ?_⟩, fun _ => ⟨_, rfl⟩⟩
    · exact ⟨infos, hconfs, hversions, by rw [← Option.some.inj hsome, hall]⟩
    · have hsame : o₁.fields.selfTestingStatus = s.selfTestingStatus := by rw [ho]
      exact absurd (hsame.symm.trans hsuccess) hstatus

/-- A load leaves what was loaded; one that ends has loaded. -/
theorem loadCompilators_kept {s : Fields} {o : Ended Unit} (hs : Kept svc s)
    (h : May (svc.loadCompilators platform) s o) :
    Kept svc o.fields ∧ (o.result = .ok () → ∃ compilators, o.fields.compilators = some compilators) := by
  have h := may_get.mp h
  cases hc : s.compilators with
  | some compilators =>
    simp only [hc] at h
    obtain rfl := h
    exact ⟨hs, fun _ => ⟨compilators, hc⟩⟩
  | none =>
    simp only [hc] at h
    obtain ⟨r, h⟩ := h
    cases r with
    | ok u => exact loadBody_kept hs hc (may_finallyRelease h)
    | error e =>
      obtain rfl := h
      exact ⟨hs, fun hok => nomatch hok⟩

/-! ## `RunSelfTests` -/

def started (svc : CheckerService) (compilators : List CompilatorInfo) (fields : Fields) : Fields :=
  { fields with checkerTestResults := svc.createTestResults compilators, selfTestingStatus := .inProcess }

/-- What `RunSelfTests` returns after the loop. -/
def successOf (compilators : List CompilatorInfo) (fields : Fields) : Bool :=
  decide (0 < compilators.length) && (selfTestingResults fields).all fun x => x.result == some x.expectedResult

def finished (compilators : List CompilatorInfo) (fields : Fields) : Fields :=
  { fields with selfTestingStatus := if successOf compilators fields then .success else .failed }

/-- A call ends in the load, in the loop, or with what it returns. -/
theorem runSelfTests_cases {s : Fields} {o : Ended Bool} (hs : Kept svc s) (h : May (svc.runSelfTests platform) s o) :
    (∃ o₁ e, May (svc.loadCompilators platform) s o₁ ∧ o.result = .error e ∧ o.fields = o₁.fields) ∨
    ∃ o₁ compilators o₂, May (svc.loadCompilators platform) s o₁ ∧ o₁.result = .ok () ∧
      o₁.fields.compilators = some compilators ∧
      May (svc.selfTestLoop platform compilators 0) (started svc compilators o₁.fields) o₂ ∧
      ((∃ e, o.result = .error e ∧ o.fields = o₂.fields) ∨
        o₂.result = .ok () ∧ o = ⟨o₁.log ++ o₂.log, .ok (successOf compilators o₂.fields),
          finished compilators o₂.fields⟩) := by
  rcases may_bind h with ⟨o₁, e, h₁, -, hresult, hfields, -⟩ | ⟨o₁, u, o₂, h₁, hok, h₂, rfl⟩
  · exact Or.inl ⟨o₁, e, h₁, hresult, hfields⟩
  · obtain ⟨compilators, hc⟩ := (loadCompilators_kept hs h₁).2 hok
    have h₂ := may_get.mp h₂
    simp only [hc] at h₂
    have h₂ := may_modify.mp h₂
    have h₂ := may_modify.mp h₂
    refine Or.inr ⟨o₁, compilators, ?_⟩
    rcases may_bind h₂ with ⟨o₃, e, h₃, -, hresult, hfields, -⟩ | ⟨o₃, u, o₄, h₃, hok₃, h₄, rfl⟩
    · exact ⟨o₃, h₁, hok, hc, h₃, Or.inl ⟨e, hresult, hfields⟩⟩
    · have h₄ := may_get.mp h₄
      have h₄ := may_modify.mp h₄
      obtain rfl := h₄
      refine ⟨o₃, h₁, hok, hc, h₃, Or.inr ⟨hok₃, ?_⟩⟩
      simp [Outcome.after, successOf, finished]

/-- A version row is passed if the version was obtained. -/
theorem versionRows_passed {compilators : List CompilatorInfo} {rows : List CheckerTestResult}
    (h : VersionRows svc compilators rows) :
    (∀ row ∈ rows, row.result = some row.expectedResult) ↔ ∀ c ∈ compilators, c.error = none := by
  obtain ⟨loaded, -, rfl, rfl⟩ := h
  have hrow : ∀ x : CompilatorInfo × String, (versionResult x.1 x.2).result =
      some (versionResult x.1 x.2).expectedResult ↔
      x.1.error = none := by
    intro x
    cases hx : x.1.error <;> simp [versionResult, hx]
  simp only [List.forall_mem_map, hrow]
  constructor
  · intro hall c hc
    obtain ⟨x, hx, rfl⟩ := List.mem_map.mp (mem_orderBy.mp hc)
    exact hall x hx
  · intro hall x hx
    exact hall x.1 (mem_orderBy.mpr (List.mem_map_of_mem hx))

/-- The row of a compilator without tests fails. -/
theorem rows_tested {compilators : List CompilatorInfo} {booked : List (Exchanges × CheckerTestResult)}
    (h : List.Forall₂ (IsRow svc) (slotsOf svc compilators) booked)
    (hall : ∀ row ∈ booked.map Prod.snd, row.result = some row.expectedResult) :
    ∀ c ∈ compilators, svc.getTests c.configuration ≠ [] := by
  intro c hc hnone
  have hslot : (c, none) ∈ slotsOf svc compilators := by
    refine List.mem_flatMap.mpr ⟨c, hc, ?_⟩
    rw [if_pos (by rw [hnone]; rfl)]
    exact List.mem_singleton_self _
  obtain ⟨x, hx, hrow⟩ := (forall₂_exists h).1 _ hslot
  have hfails := hall x.2 (List.mem_map_of_mem hx)
  rw [hrow.1] at hfails
  cases hfails

theorem successOf_iff {compilators : List CompilatorInfo} {fields : Fields}
    {booked : List (Exchanges × CheckerTestResult)} (hversions : VersionRows svc compilators fields.versionResults)
    (hrows : List.Forall₂ (IsRow svc) (slotsOf svc compilators) booked)
    (hresults : fields.checkerTestResults = booked.map Prod.snd) :
    successOf compilators fields = true ↔
      Passed svc compilators ∧ ∀ row ∈ fields.checkerTestResults, row.result = some row.expectedResult := by
  have hsplit : successOf compilators fields = true ↔ compilators ≠ [] ∧
      (∀ row ∈ fields.versionResults, row.result = some row.expectedResult) ∧
        ∀ row ∈ fields.checkerTestResults, row.result = some row.expectedResult := by
    simp only [successOf, selfTestingResults, Bool.and_eq_true, decide_eq_true_eq, List.length_pos_iff,
      List.all_eq_true, beq_iff_eq, List.forall_mem_append]
  rw [hsplit, versionRows_passed hversions]
  constructor
  · rintro ⟨hne, havailable, hall⟩
    exact ⟨⟨hne, havailable, rows_tested hrows (hresults ▸ hall)⟩, hall⟩
  · rintro ⟨hpassed, hall⟩
    exact ⟨hpassed.nonempty, hpassed.available, hall⟩

/-- What a `RunSelfTests` that returned `success` has recorded: for each slot its row and the
    exchanges with the runner. -/
structure Bookkeeping (svc : CheckerService) (platform : Platform) (fields : Fields) (o : Ended Bool) (success : Bool)
    (compilators : List CompilatorInfo) (booked : List (Exchanges × CheckerTestResult)) : Prop where
  /-- The compilators and the rows of their versions are those of `LoadCompilators`; after its
      requests come those of the tests, slot by slot. -/
  loads : ∃ loaded, May (svc.loadCompilators platform) fields loaded ∧ loaded.result = .ok () ∧
    loaded.fields.compilators = some compilators ∧ loaded.fields.versionResults = o.fields.versionResults ∧
    o.log = loaded.log ++ booked.flatMap Prod.fst
  stored : o.fields.compilators = some compilators
  versions : VersionRows svc compilators o.fields.versionResults
  results : o.fields.checkerTestResults = booked.map Prod.snd
  rows : List.Forall₂ (IsRow svc) (slotsOf svc compilators) booked
  returns : success = true ↔
    Passed svc compilators ∧ ∀ row ∈ o.fields.checkerTestResults, row.result = some row.expectedResult
  status : o.fields.selfTestingStatus = if success then .success else .failed
  available : o.fields.selfTestingStatus = .success → ∀ c ∈ compilators, c.error = none

theorem runSelfTests_books {s : Fields} {o : Ended Bool} {success : Bool} (hs : Kept svc s)
    (h : May (svc.runSelfTests platform) s o) (hok : o.result = .ok success) :
    ∃ compilators booked, Bookkeeping svc platform s o success compilators booked := by
  rcases runSelfTests_cases hs h with ⟨o₁, e, -, herror, -⟩ | ⟨o₁, compilators, o₂, hload, hloaded, hc, hloop, hend⟩
  · rw [herror] at hok; cases hok
  · rcases hend with ⟨e, herror, -⟩ | ⟨hok₂, rfl⟩
    · rw [herror] at hok; cases hok
    · obtain rfl := Except.ok.inj hok
      have hrows : (started svc compilators o₁.fields).checkerTestResults =
          [] ++ (slotsOf svc compilators).map initialRow := createTestResults_slots compilators
      obtain ⟨booked, hbooked⟩ := selfTestLoop_books hrows hloop hok₂
      have hversions : o₂.fields.versionResults = o₁.fields.versionResults := by rw [hbooked.fields]; rfl
      have hresults : o₂.fields.checkerTestResults = booked.map Prod.snd := by rw [hbooked.fields]; simp
      have hkept : VersionRows svc compilators o₂.fields.versionResults :=
        hversions ▸ (loadCompilators_kept hs hload).1.loaded compilators hc
      have hreturns := successOf_iff hkept hbooked.rows hresults
      refine ⟨compilators, booked, ⟨o₁, hload, hloaded, hc, hversions.symm, by rw [← hbooked.log]⟩, ?_, hkept, hresults,
        hbooked.rows, hreturns, rfl, fun hstatus => ?_⟩
      · show o₂.fields.compilators = _
        rw [hbooked.fields]; exact hc
      · cases hsuccess : successOf compilators o₂.fields with
        | true => exact (hreturns.mp hsuccess).1.available
        | false =>
          have hfailed : (finished compilators o₂.fields).selfTestingStatus = .failed := by
            simp [finished, hsuccess]
          rw [hfailed] at hstatus; cases hstatus

/-! ## Every call -/

theorem runSelfTests_kept {s : Fields} {o : Ended Bool} (hs : Kept svc s) (h : May (svc.runSelfTests platform) s o) :
    Kept svc o.fields := by
  rcases runSelfTests_cases hs h with ⟨o₁, e, hload, -, hfields⟩ | ⟨o₁, compilators, o₂, hload, -, hc, hloop, hend⟩
  · rw [hfields]
    exact (loadCompilators_kept hs hload).1
  · have hkept := (loadCompilators_kept hs hload).1
    obtain ⟨rows, hrows⟩ := within_selfTestLoop _ _ _ _ hloop
    have hstored : o₂.fields.compilators = some compilators := by rw [hrows]; exact hc
    have hversions : o₂.fields.versionResults = o₁.fields.versionResults := by rw [hrows]; rfl
    rcases hend with ⟨e, -, hfields⟩ | ⟨-, ho⟩
    · -- the loop threw: the status is still that of a test in process
      rw [hfields]
      refine ⟨fun hnone => ?_, fun cs hsome => ?_, fun hsuccess => ?_⟩
      · rw [hstored] at hnone; cases hnone
      · rw [hversions]
        exact hkept.loaded cs (hc.trans (hstored.symm.trans hsome))
      · rw [hrows] at hsuccess; cases hsuccess
    · obtain ⟨cs, booked, hbook⟩ := runSelfTests_books hs h (congrArg Outcome.result ho)
      refine ⟨fun hnone => ?_, fun cs' hsome => ?_, fun hsuccess => ?_⟩
      · rw [hbook.stored] at hnone; cases hnone
      · rw [hbook.stored] at hsome
        exact Option.some.inj hsome ▸ hbook.versions
      · refine ⟨cs, hbook.stored, (hbook.returns.mp ?_).1⟩
        have hstatus := hbook.status
        rw [hsuccess] at hstatus
        by_contra hfailed
        rw [if_neg hfailed] at hstatus
        cases hstatus

/-- Between the calls, whatever they were and however they ended. -/
theorem reached_kept {fields : Fields} (h : Reached svc platform fields) : Kept svc fields := by
  induction h with
  | new => exact kept_new
  | @call fields call o _ hcall ih =>
    cases call with
    | loadCompilators =>
      rcases may_bind hcall with ⟨o₁, e, h₁, -, -, hfields, -⟩ | ⟨o₁, u, o₂, h₁, -, h₂, rfl⟩
      · rw [hfields]; exact (loadCompilators_kept ih h₁).1
      · obtain rfl := h₂
        exact (loadCompilators_kept ih h₁).1
    | check request elapsed =>
      have hsame : Within Eq (program svc platform (.check request elapsed)) :=
        within_bind (within_check request elapsed) fun _ => within_ret _
      rw [← hsame _ _ hcall]; exact ih
    | run source configuration input timeLimit memoryLimitMb guid =>
      have hsame : Within Eq (program svc platform (.run source configuration input timeLimit memoryLimitMb guid)) :=
        within_bind (within_run source configuration input timeLimit memoryLimitMb guid) fun _ => within_ret _
      rw [← hsame _ _ hcall]; exact ih
    | runSelfTests =>
      rcases may_bind hcall with ⟨o₁, e, h₁, -, -, hfields, -⟩ | ⟨o₁, success, o₂, h₁, -, h₂, rfl⟩
      · rw [hfields]; exact runSelfTests_kept ih h₁
      · obtain rfl := h₂
        exact runSelfTests_kept ih h₁

/-- A service in status `Success` has compilators, each available and tested. -/
theorem Reached.passed {fields : Fields} (h : Reached svc platform fields) (hs : fields.selfTestingStatus = .success) :
    ∃ compilators, fields.compilators = some compilators ∧ Passed svc compilators :=
  (reached_kept h).passed hs

/-- The bookkeeping of the self-tests, after any earlier calls and with any runner. -/
theorem self_tests_booked {fields : Fields} (hreached : Reached svc platform fields) {o : Ended Bool} {success : Bool}
    (h : May (svc.runSelfTests platform) fields o) (hok : o.result = .ok success) :
    ∃ compilators booked, Bookkeeping svc platform fields o success compilators booked :=
  runSelfTests_books (reached_kept hreached) h hok

/-! ### Two compilators, of which one does not tell its version -/

def sampleConfiguration (name : String) : CompilatorConfiguration :=
  ⟨name, "C", "gcc", false, 0, (· ++ ".c"), fun _ => "compile", fun _ _ => "run", name ++ " --version",
    fun output => .ok (output, none)⟩

def sampleChecker : SimpleChecker :=
  ⟨4, fun _ expected actual => .ok (if expected = actual then .accepted else .wrongAnswer)⟩

def sampleService : CheckerService :=
  ⟨⟨"0", "runner", ["gcc"]⟩, [sampleConfiguration "cc", sampleConfiguration "gcc"],
    [⟨"sum", "C", [], "source", "", "", .fromSeconds 1, 64, sampleChecker, .accepted⟩], [], by simp⟩

def samplePlatform : Platform := ⟨"\n", fun _ => "", fun _ => ""⟩

def sampleAnswers (n : Nat) : Except Exn RunnerResult :=
  if n = 0 then .error .nullReference else .ok ⟨.completed, 0, [], [], ⟨0, 0, 0, 0, 0⟩⟩

theorem sample_booked : ∃ compilators booked, Bookkeeping sampleService samplePlatform sampleService.initialFields
    (solo (sampleService.runSelfTests samplePlatform) sampleService.initialFields sampleAnswers) false
    compilators booked :=
  self_tests_booked .new (may_solo _ _ _) (by rfl)

end OlympSystem.Checker.SelfTests
