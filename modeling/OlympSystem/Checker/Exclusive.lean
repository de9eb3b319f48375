/-
  OlympSystem.Checker.Exclusive — concurrent calls on one `CheckerService`.

  The calls are `Check`, `Run`, `RunSelfTests` and `LoadCompilators`; an operation is
  what one of them does under the semaphore: a check, a run, one self-test, one load of
  versions. Any number of calls runs at once (Lib.Serial), each can be cancelled or fail
  at every await.

  The discipline: a program is run (`ReadOnly`) only after the operation compiled it,
  and has not cleared the directory since. The fields keep one slot for each self-test
  of each configuration, so that reading a slot between the wait and the try block
  cannot throw.

  Proved:
  - `follows_check`, `follows_run`, `follows_loadCompilators`, `follows_runSelfTests`:
    each call keeps to the discipline.
  - `runner_use`: in every interleaving one call at most holds the semaphore, the
    requests of an operation stand together, a program runs after its own successful
    compilation, a call cancelled in a wait sends and releases nothing, and the permit
    is there once all calls have ended.
-/

import OlympSystem.Checker.Service
import OlympSystem.Lib.Serial

namespace OlympSystem.Checker.Exclusive

open Lib.Runs Lib.Program Lib.Serial CheckerService

/-! ## The calls -/

inductive Call where
  | loadCompilators
  | check (request : CheckRequest) (elapsed : TimeSpan)
  | run (source : String) (configuration : CompilatorConfiguration) (input : String) (timeLimit : TimeSpan)
      (memoryLimitMb : Int) (guid : String)
  | runSelfTests

inductive Output where
  | loaded
  | checked (result : CheckerResult)
  | ran (log : String)
  | tested (success : Bool)

def program (svc : CheckerService) (platform : Platform) : Call → Task Output
  | .loadCompilators => do
    svc.loadCompilators platform
    return .loaded
  | .check request elapsed => do
    let result ← svc.check platform request elapsed
    return .checked result
  | .run source configuration input timeLimit memoryLimitMb guid => do
    let log ← svc.run source configuration input timeLimit memoryLimitMb guid
    return .ran log
  | .runSelfTests => do
    let success ← svc.runSelfTests platform
    return .tested success

/-- What the call compiles: a name, a configuration and a source. -/
def Compiles (svc : CheckerService) : Call → String → CompilatorConfiguration → String → Prop
  | .loadCompilators, _, _, _ => False
  | .check request _, name, configuration, source =>
    name = request.name ∧ configuration = request.compilator.configuration ∧ source = request.source
  | .run source' configuration' _ _ _ guid, name, configuration, source =>
    name = guid ∧ configuration = configuration' ∧ source = source'
  | .runSelfTests, name, _, source => ∃ test ∈ svc.checkerTests, name = test.name ∧ source = test.source

/-! ## The discipline -/

abbrev Exchanges := List (RunnerTask × Except Exn RunnerResult)

/-- The program was compiled, and the directory not cleared since. -/
def Compiled (name : String) (configuration : CompilatorConfiguration) (source : String) (hist : Exchanges) : Prop :=
  ∃ before result after, hist = before ++ (compileTask name configuration source true, .ok result) :: after ∧
    result.status = .completed ∧ ∀ x ∈ after, x.1.clearWorkdir = false

/-- The slots of a configuration's self-tests among the results. -/
def slots (svc : CheckerService) (configuration : CompilatorConfiguration) : Nat :=
  if (svc.getTests configuration).length = 0 then 1 else (svc.getTests configuration).length

def testCount (svc : CheckerService) : Nat := (svc.configurations.map (slots svc)).sum

def FieldsInv (svc : CheckerService) (fields : Fields) : Prop :=
  fields.checkerTestResults.length = testCount svc ∧
    ∀ compilators, fields.compilators = some compilators →
      (compilators.map fun c => slots svc c.configuration).sum = testCount svc

def discipline (svc : CheckerService) : Discipline Fields Exn RunnerTask RunnerResult Call where
  sends call hist q := q.readOnly = true → ∃ name configuration source, Compiles svc call name configuration source ∧
    Compiled name configuration source hist ∧
      ∃ input timeLimit memoryLimitMb, q = runTask name configuration input timeLimit memoryLimitMb
  inv := FieldsInv svc

variable {svc : CheckerService} {platform : Platform} {call : Call}

abbrev Held (P : Exchanges → Prop) (m : Mode RunnerTask Exn RunnerResult) : Prop := ∃ hist, m = .held hist ∧ P hist

/-- The call keeps to the discipline while it holds the semaphore, and keeps `P` of its exchanges. -/
abbrev Keeps {α : Type} (svc : CheckerService) (call : Call) (P : Exchanges → Prop)
    (m : Mode RunnerTask Exn RunnerResult) (p : Task α) : Prop :=
  Follows (discipline svc) call (fun m _ => Held P m) m p

theorem createTestResults_length (compilators : List CompilatorInfo) :
    (svc.createTestResults compilators).length = (compilators.map fun c => slots svc c.configuration).sum := by
  unfold createTestResults
  rw [List.length_flatMap]
  congr 1
  refine List.map_congr_left fun c _ => ?_
  unfold slots
  by_cases h : (svc.getTests c.configuration).length = 0
  · rw [if_pos h]; simp only [if_pos h]; rfl
  · rw [if_neg h]; simp only [if_neg h, List.length_map]

theorem initialFields_inv (svc : CheckerService) : FieldsInv svc svc.initialFields := by
  refine ⟨?_, fun compilators h => by cases h⟩
  unfold initialFields testCount
  rw [createTestResults_length]
  simp [List.map_map, Function.comp_def]

/-! ## Requests -/

theorem Compiled.append {name source : String} {configuration : CompilatorConfiguration} {hist : Exchanges}
    (h : Compiled name configuration source hist) {q : RunnerTask} (hq : q.clearWorkdir = false)
    (r : Except Exn RunnerResult) : Compiled name configuration source (hist ++ [(q, r)]) := by
  obtain ⟨before, result, after, rfl, hc, hafter⟩ := h
  refine ⟨before, result, after ++ [(q, r)], by simp, hc, fun x hx => ?_⟩
  rcases List.mem_append.mp hx with hx | hx
  · exact hafter x hx
  · rw [List.mem_singleton.mp hx]; exact hq

theorem follows_lift {α : Type} {post : Mode RunnerTask Exn RunnerResult → Except Exn α → Prop}
    {m : Mode RunnerTask Exn RunnerResult} {r : Except Exn α} (h : post m r) :
    Follows (discipline svc) call post m (Prog.lift r) := h

/-- A request that is not a run of a program is always allowed. -/
theorem follows_compile (hist : Exchanges) (name source : String) (configuration : CompilatorConfiguration) :
    Follows (discipline svc) call
      (fun m r => Held (fun hist' => ∀ result, r = .ok result →
        hist' = hist ++ [(compileTask name configuration source true, .ok result)]) m)
      (.held hist) (svc.compile name configuration source true) := by
  unfold compile requestFor
  split
  · exact follows_request (fun hq => (nomatch hq)) fun r => ⟨_, rfl, fun result hr => by rw [hr]⟩
  · exact ⟨hist, rfl, fun result hr => by cases hr⟩

theorem keeps_runTest {name source : String} {configuration : CompilatorConfiguration}
    (hprog : Compiles svc call name configuration source) {m : Mode RunnerTask Exn RunnerResult}
    (hm : Held (Compiled name configuration source) m) (input : Bytes) (timeLimit : TimeSpan) (memoryLimitMb : Int) :
    Keeps svc call (Compiled name configuration source) m
      (svc.runTest name configuration input timeLimit memoryLimitMb) := by
  obtain ⟨hist, rfl, hc⟩ := hm
  unfold runTest requestFor
  split
  · exact follows_request (fun _ => ⟨name, configuration, source, hprog, hc, input, timeLimit, memoryLimitMb, rfl⟩)
      fun r => ⟨_, rfl, hc.append rfl r⟩
  · exact ⟨hist, rfl, hc⟩

/-- The rule of sequence for what is kept. -/
theorem keeps_bind {α β : Type} {P : Exchanges → Prop} {m : Mode RunnerTask Exn RunnerResult} {p : Task α}
    {f : α → Task β} (hp : Keeps svc call P m p) (hf : ∀ m a, Held P m → Keeps svc call P m (f a)) :
    Keeps svc call P m (p >>= f) :=
  follows_bind hp hf fun _ _ h => h

theorem keeps_checkTest {name source : String} {configuration : CompilatorConfiguration}
    (hprog : Compiles svc call name configuration source) {m : Mode RunnerTask Exn RunnerResult}
    (hm : Held (Compiled name configuration source) m) (checker : SimpleChecker) (input output : Bytes)
    (timeLimit : TimeSpan) (memoryLimitMb : Int) : Keeps svc call (Compiled name configuration source) m
      (svc.checkTest name configuration checker input output timeLimit memoryLimitMb) := by
  unfold checkTest
  refine keeps_bind (keeps_runTest hprog hm input timeLimit memoryLimitMb) fun m result hm => ?_
  exact keeps_bind (follows_lift hm) fun m status hm => hm

/-! ## `Check` -/

theorem keeps_testAttempts {request : CheckRequest} {elapsed : TimeSpan} (checker : SimpleChecker)
    (test : CheckTest) : ∀ (retries : Nat) (acc : Progress) {m : Mode RunnerTask Exn RunnerResult},
      Held (Compiled request.name request.compilator.configuration request.source) m →
      Keeps svc (.check request elapsed) (Compiled request.name request.compilator.configuration request.source) m
        (svc.testAttempts platform request checker test retries acc) := by
  intro retries
  induction retries with
  | zero =>
    intro acc m hm
    unfold testAttempts
    exact keeps_bind (keeps_checkTest (by exact ⟨rfl, rfl, rfl⟩) hm checker _ _ _ _) fun m x hm => hm
  | succ retries ih =>
    intro acc m hm
    unfold testAttempts
    refine keeps_bind (keeps_checkTest (by exact ⟨rfl, rfl, rfl⟩) hm checker _ _ _ _) fun m x hm => ?_
    simp only
    split
    · exact ih _ hm
    · exact hm

theorem keeps_testLoop {request : CheckRequest} {elapsed : TimeSpan} (checker : SimpleChecker) :
    ∀ (tests : List CheckTest) (acc : Progress) {m : Mode RunnerTask Exn RunnerResult},
      Held (Compiled request.name request.compilator.configuration request.source) m →
      Keeps svc (.check request elapsed) (Compiled request.name request.compilator.configuration request.source) m
        (svc.testLoop platform request checker tests acc) := by
  intro tests
  induction tests with
  | nil => intro acc m hm; exact hm
  | cons test tests ih =>
    intro acc m hm
    unfold testLoop
    refine keeps_bind (keeps_testAttempts checker test maxRetries _ hm) fun m x hm => ?_
    obtain ⟨status, result, acc⟩ := x
    simp only
    split
    · exact ih _ hm
    · refine keeps_bind (follows_lift hm) fun m acc hm => ?_
      split
      · exact ih _ hm
      · exact hm

theorem follows_checkBody (request : CheckRequest) (elapsed : TimeSpan) :
    Follows (discipline svc) (.check request elapsed) Holding (.held [])
      (svc.checkBody platform request elapsed) := by
  unfold checkBody
  simp only
  split
  · exact ⟨[], rfl⟩
  · refine follows_bind (follows_compile [] _ _ _) (fun m result h => ?_) (fun m e h => ⟨h.choose, h.choose_spec.1⟩)
    obtain ⟨hist, rfl, hhist⟩ := h
    rw [hhist result rfl]
    split
    · exact ⟨_, rfl⟩
    · rename_i hstatus
      have hcompiled : Compiled request.name request.compilator.configuration request.source
          [(compileTask request.name request.compilator.configuration request.source true, .ok result)] :=
        ⟨[], result, [], rfl, by simpa using hstatus, fun x hx => (nomatch hx)⟩
      split
      · exact ⟨_, rfl⟩
      · refine follows_mono (fun m r h => ?_) (keeps_bind (keeps_testLoop _ _ _ ⟨_, rfl, hcompiled⟩)
          fun m acc hm => follows_lift hm)
        exact ⟨h.choose, h.choose_spec.1⟩

theorem follows_check (request : CheckRequest) (elapsed : TimeSpan) :
    Follows (discipline svc) (.check request elapsed) Released .free (svc.check platform request elapsed) :=
  follows_locked (follows_checkBody request elapsed)

/-! ## `Run` -/

theorem follows_runBody (source : String) (configuration : CompilatorConfiguration) (input : String)
    (timeLimit : TimeSpan) (memoryLimitMb : Int) (guid : String) :
    Follows (discipline svc) (.run source configuration input timeLimit memoryLimitMb guid) Holding (.held [])
      (svc.runBody source configuration input timeLimit memoryLimitMb guid) := by
  unfold runBody
  refine follows_bind (follows_compile [] _ _ _) (fun m result h => ?_) (fun m e h => ⟨h.choose, h.choose_spec.1⟩)
  obtain ⟨hist, rfl, hhist⟩ := h
  rw [hhist result rfl]
  simp only
  split
  · exact ⟨_, rfl⟩
  · rename_i hstatus
    have hcompiled : Compiled guid configuration source
        [(compileTask guid configuration source true, .ok result)] :=
      ⟨[], result, [], rfl, by simpa using hstatus, fun x hx => (nomatch hx)⟩
    refine follows_mono (fun m r h => ?_) (keeps_bind (keeps_runTest (by exact ⟨rfl, rfl, rfl⟩)
      ⟨_, rfl, hcompiled⟩ _ _ _) fun m acc hm => hm)
    exact ⟨h.choose, h.choose_spec.1⟩

theorem follows_run (source : String) (configuration : CompilatorConfiguration) (input : String)
    (timeLimit : TimeSpan) (memoryLimitMb : Int) (guid : String) :
    Follows (discipline svc) (.run source configuration input timeLimit memoryLimitMb guid) Released .free
      (svc.run source configuration input timeLimit memoryLimitMb guid) :=
  follows_locked (follows_runBody source configuration input timeLimit memoryLimitMb guid)

/-! ## `LoadCompilators` -/

theorem follows_caught {α : Type} {m : Mode RunnerTask Exn RunnerResult} {p : Task α}
    (h : Follows (discipline svc) call Holding m p) : Follows (discipline svc) call Holding m (caught p) := by
  refine follows_andThen (fun m r hm => ?_) h
  cases r with
  | ok a => exact hm
  | error e => cases e <;> exact hm

theorem follows_fetchVersion {m : Mode RunnerTask Exn RunnerResult} (hm : ∃ hist, m = .held hist)
    (configuration : CompilatorConfiguration) (results : VersionCache) :
    Follows (discipline svc) call Holding m (fetchVersion configuration results) := by
  unfold fetchVersion
  simp only
  split
  · exact hm
  · obtain ⟨hist, rfl⟩ := hm
    have hrequest : Follows (discipline svc) call Holding (.held hist)
        (Prog.request (versionTask configuration)) :=
      follows_request (fun hq => (nomatch hq)) fun r => ⟨_, rfl⟩
    exact follows_bind hrequest (fun m result hm => hm) (fun m e hm => hm)

/-- The loop gives one compilator for each configuration. -/
theorem follows_versionLoop : ∀ (rest : List CompilatorConfiguration) (results : VersionCache)
    (compilators : List CompilatorInfo) {m : Mode RunnerTask Exn RunnerResult}, (∃ hist, m = .held hist) →
    Follows (discipline svc) call (fun m r => (∃ hist, m = .held hist) ∧ ∀ all, r = .ok all →
      all.map (·.configuration) = compilators.map (·.configuration) ++ rest) m
      (versionLoop platform rest results compilators) := by
  intro rest
  induction rest with
  | nil =>
    intro results compilators m hm
    exact ⟨hm, fun all h => by rw [← Except.ok.inj h, List.append_nil]⟩
  | cons configuration rest ih =>
    intro results compilators m hm
    unfold versionLoop
    have hthrow : Follows (discipline svc) call Holding m (Prog.throwIfCancelled .operationCanceled) :=
      follows_throwIfCancelled hm hm
    refine follows_bind hthrow (fun m _ hm => ?_) (fun m e hm => ⟨hm, fun all h => by cases h⟩)
    refine follows_bind (follows_caught (follows_fetchVersion hm configuration results)) (fun m answer hm => ?_)
      (fun m e hm => ⟨hm, fun all h => by cases h⟩)
    simp only
    have hmodify : ∀ (i : Nat) (result : CheckerTestResult), Follows (discipline svc) call Holding m
        (Prog.modify fun fields => { fields with versionResults := fields.versionResults.set i result }) :=
      fun i result => follows_modify (fun fields h => h) hm
    refine follows_bind (hmodify _ _) (fun m _ hm => ?_) (fun m e hm => ⟨hm, fun all h => by cases h⟩)
    refine follows_mono (fun m r h => ⟨h.1, fun all hall => ?_⟩) (ih _ _ hm)
    rw [h.2 all hall, List.map_append, List.map_singleton, versionInfo_configuration, List.append_assoc]
    rfl

theorem follows_loadBody : Follows (discipline svc) call Holding (.held []) (svc.loadBody platform) := by
  unfold loadBody
  refine follows_get fun fields _ => ?_
  split
  · exact ⟨[], rfl⟩
  · refine follows_bind (follows_versionLoop svc.configurations [] [] ⟨[], rfl⟩) (fun m compilators h => ?_)
      (fun m e h => h.1)
    obtain ⟨hm, hall⟩ := h
    have hslots : ((Lib.Query.orderBy byDisplayName compilators).map fun c => slots svc c.configuration).sum =
        testCount svc := by
      rw [((Lib.Query.orderBy_perm byDisplayName compilators).map _).sum_eq]
      unfold testCount
      have := hall compilators rfl
      rw [List.map_nil, List.nil_append] at this
      rw [← this, List.map_map]
      rfl
    have hresults : Follows (discipline svc) call Holding m (Prog.modify fun fields =>
        { fields with checkerTestResults := svc.createTestResults (Lib.Query.orderBy byDisplayName compilators) }) :=
      follows_modify (fun fields h => ⟨by rw [← hslots]; exact createTestResults_length _, h.2⟩) hm
    refine follows_bind hresults (fun m _ hm => ?_) (fun m e hm => hm)
    refine follows_modify (fun fields h => ⟨h.1, fun cs hcs => ?_⟩) hm
    cases hcs
    exact hslots

theorem follows_loadCompilators : Follows (discipline svc) call Released .free (svc.loadCompilators platform) := by
  unfold loadCompilators
  refine follows_get fun fields _ => ?_
  split
  · trivial
  · exact follows_locked follows_loadBody

/-! ## `RunSelfTests` -/

theorem follows_runCheckerTest {test : SelfTest} (htest : test ∈ svc.checkerTests)
    (configuration : CompilatorConfiguration) :
    Follows (discipline svc) .runSelfTests Holding (.held []) (svc.runCheckerTest test configuration) := by
  unfold runCheckerTest
  refine follows_bind (follows_compile [] _ _ _) (fun m result h => ?_) (fun m e h => ⟨h.choose, h.choose_spec.1⟩)
  obtain ⟨hist, rfl, hhist⟩ := h
  rw [hhist result rfl]
  simp only
  split
  · exact ⟨_, rfl⟩
  · rename_i hstatus
    have hcompiled : Compiled test.name configuration test.source
        [(compileTask test.name configuration test.source true, .ok result)] :=
      ⟨[], result, [], rfl, by simpa using hstatus, fun x hx => (nomatch hx)⟩
    have hprog : Compiles svc .runSelfTests test.name configuration test.source := ⟨test, htest, rfl, rfl⟩
    refine follows_mono (fun m r h => ?_) (keeps_bind (keeps_checkTest hprog ⟨_, rfl, hcompiled⟩ _ _ _ _ _)
      fun m x hm => hm)
    exact ⟨h.choose, h.choose_spec.1⟩

theorem follows_setTestResult {m : Mode RunnerTask Exn RunnerResult} (hm : ∃ hist, m = .held hist)
    (resultIndex : Nat) (result : CheckerTestResult) :
    Follows (discipline svc) call Holding m (setTestResult resultIndex result) :=
  follows_modify (fun fields h => ⟨by rw [← h.1]; exact List.length_set, h.2⟩) hm

/-- The slot of the test exists, so that nothing is thrown between the wait and the try block. -/
theorem follows_selfTest {test : SelfTest} (htest : test ∈ svc.checkerTests)
    (configuration : CompilatorConfiguration) {resultIndex : Nat} (hi : resultIndex < testCount svc) :
    Follows (discipline svc) .runSelfTests Released .free (svc.selfTest platform test configuration resultIndex) := by
  unfold selfTest
  refine follows_then (follows_throwIfCancelled trivial trivial) fun _ => ?_
  refine ⟨rfl, ?_, fun e => ⟨e, rfl⟩⟩
  refine follows_get fun fields hfields => ?_
  have hslot : resultIndex < fields.checkerTestResults.length := by rw [hfields.1]; exact hi
  rw [List.getElem?_eq_getElem hslot]
  refine follows_finallyRelease (follows_mono (fun m r hm => ⟨hm, trivial⟩) ?_)
  refine follows_bind (follows_caught (follows_runCheckerTest htest configuration)) (fun m answer hm => ?_)
    (fun m e hm => hm)
  split
  · exact follows_setTestResult hm _ _
  · exact follows_setTestResult hm _ _

theorem follows_selfTestsOf (compilator : CompilatorInfo) : ∀ (tests : List SelfTest) (index : Nat),
    (∀ test ∈ tests, test ∈ svc.checkerTests) → index + tests.length ≤ testCount svc →
    Follows (discipline svc) .runSelfTests Released .free (svc.selfTestsOf platform compilator tests index) := by
  intro tests
  induction tests with
  | nil => intro _ _ _; trivial
  | cons test tests ih =>
    intro index htests hle
    rw [List.length_cons] at hle
    have hrest := ih (index + 1) (fun t ht => htests t (List.mem_cons_of_mem _ ht)) (by omega)
    have htest := htests test List.mem_cons_self
    unfold selfTestsOf
    split
    · exact follows_then (follows_selfTest htest compilator.configuration (by omega)) fun _ => hrest
    · exact hrest

theorem follows_selfTestLoop : ∀ (compilators : List CompilatorInfo) (index : Nat),
    index + (compilators.map fun c => slots svc c.configuration).sum ≤ testCount svc →
    Follows (discipline svc) .runSelfTests Released .free (svc.selfTestLoop platform compilators index) := by
  intro compilators
  induction compilators with
  | nil => intro _ _; trivial
  | cons compilator rest ih =>
    intro index hle
    rw [List.map_cons, List.sum_cons] at hle
    unfold selfTestLoop
    simp only
    by_cases h : (svc.getTests compilator.configuration).length = 0
    · rw [if_pos h]
      have hslot : slots svc compilator.configuration = 1 := if_pos h
      exact ih _ (by omega)
    · rw [if_neg h]
      have hslot : slots svc compilator.configuration = (svc.getTests compilator.configuration).length := if_neg h
      exact follows_then (follows_selfTestsOf compilator _ index (fun t ht => (List.mem_filter.mp ht).1) (by omega))
        fun _ => ih _ (by omega)

theorem follows_runSelfTests :
    Follows (discipline svc) .runSelfTests Released .free (svc.runSelfTests platform) := by
  unfold runSelfTests
  refine follows_then follows_loadCompilators fun _ => ?_
  refine follows_get fun fields hfields => ?_
  split
  · trivial
  · rename_i compilators hcompilators
    have hslots := hfields.2 compilators hcompilators
    refine follows_then (follows_modify (fun s hs => ⟨?_, hs.2⟩) trivial) fun _ => ?_
    · rw [← hslots]; exact createTestResults_length _
    refine follows_then (follows_modify (fun s hs => hs) trivial) fun _ => ?_
    refine follows_then (follows_selfTestLoop compilators 0 (by omega)) fun _ => ?_
    refine follows_get fun fields _ => ?_
    exact follows_then (follows_modify (fun s hs => hs) trivial) fun _ => trivial

/-! ## Every interleaving -/

/-- Every call keeps to the discipline and ends without the permit. -/
theorem follows_program (svc : CheckerService) (platform : Platform) (call : Call) :
    Follows (discipline svc) call Ends .free (program svc platform call) := by
  have ends : ∀ {m : Mode RunnerTask Exn RunnerResult} {r : Except Exn Output}, Released m r → Ends m r := by
    rintro m r hm hist rfl
    cases hm
  refine follows_mono (fun m r h => ends h) ?_
  cases call with
  | loadCompilators => exact follows_then follows_loadCompilators fun _ => trivial
  | check request elapsed => exact follows_then (follows_check request elapsed) fun _ => trivial
  | run source configuration input timeLimit memoryLimitMb guid =>
    exact follows_then (follows_run source configuration input timeLimit memoryLimitMb guid) fun _ => trivial
  | runSelfTests => exact follows_then follows_runSelfTests fun _ => trivial

abbrev State := Lib.Serial.St Fields Exn RunnerTask RunnerResult Output Call

abbrev Event := Ev Exn RunnerResult Call

/-- The last clearing request before request number `n` was the successful compilation,
    in the same operation, of the program that the request runs. -/
def RunsCompiled (svc : CheckerService) (s : State) (n : Nat) (e : Entry RunnerTask) : Prop :=
  ∃ p m c result name configuration source input timeLimit memoryLimitMb,
    s.procs e.proc = some p ∧ Compiles svc p.call name configuration source ∧
    m < n ∧ s.shared.log[m]? = some c ∧ c.tag = e.tag ∧
    c.request = compileTask name configuration source true ∧
    s.shared.answers m = some (.ok result) ∧ result.status = .completed ∧
    e.request = runTask name configuration input timeLimit memoryLimitMb ∧
    ∀ l x, m < l → l < n → s.shared.log[l]? = some x → x.request.clearWorkdir = false

structure Serial (svc : CheckerService) (s : State) : Prop where
  /-- One call at most is between acquiring and releasing the semaphore. -/
  exclusive : ∀ i j p q, s.procs i = some p → s.procs j = some q → p.holding = true → q.holding = true → i = j
  /-- The requests of an operation are a contiguous block. -/
  blocks : Contiguous Entry.tag s.shared.log
  compiled : ∀ n e, s.shared.log[n]? = some e → e.request.readOnly = true → RunsCompiled svc s n e
  /-- The permit is there once every call has ended. -/
  available : (∀ i p, s.procs i = some p → p.ended) → s.shared.permits = 1

/-- What holds of every step: only the holder sends, and a call cancelled in a wait
    neither sends nor releases, from the cancellation on. -/
def Quiet (s : State) (e : Event) (s' : State) : Prop :=
  ∀ i a p, e = .act i a → s.procs i = some p →
    (s'.shared.log ≠ s.shared.log → p.holding = true) ∧
    (p.cancelled = true ∨ (∃ x, a = .cancel x) →
      s'.shared.log = s.shared.log ∧ s'.shared.permits = s.shared.permits ∧
      ∃ p', s'.procs i = some p' ∧ p'.cancelled = true)

theorem runsCompiled_of_allowed {s : State} {n : Nat} {e : Entry RunnerTask}
    (hro : e.request.readOnly = true) (h : Allowed (discipline svc) s n e) :
    RunsCompiled svc s n e := by
  obtain ⟨p, old, hist, hp, hb, hsends⟩ := h
  obtain ⟨name, configuration, source, hprog, hcompiled, input, timeLimit, memoryLimitMb, hrun⟩ := hsends hro
  obtain ⟨before, result, after, rfl, hstatus, hafter⟩ := hcompiled
  -- the log up to `n` is `old`, the exchanges before the compilation, it, and those after
  have hn : ∀ l x, l < n → s.shared.log[l]? = some x → (s.shared.log.take n)[l]? = some x := by
    intro l x hl hx
    rw [List.getElem?_take_of_lt hl]; exact hx
  have hentry : (s.shared.log.take n)[old.length + before.length]? =
      some ⟨e.proc, e.op, compileTask name configuration source true⟩ := by
    rw [hb.log_eq, List.getElem?_append_right (by omega)]
    simp [entries]
  have hlt : old.length + before.length < n := by
    have h1 := (List.getElem?_eq_some_iff.mp hentry).1
    rw [List.length_take] at h1
    omega
  refine ⟨p, old.length + before.length, ⟨e.proc, e.op, compileTask name configuration source true⟩, result, name,
    configuration, source, input, timeLimit, memoryLimitMb, hp, hprog, hlt, ?_, rfl, rfl, ?_, hstatus, hrun, ?_⟩
  · rw [List.getElem?_take_of_lt hlt] at hentry; exact hentry
  · exact hb.answered before.length (compileTask name configuration source true, .ok result) (by simp)
  · intro l x hml hln hx
    have hx := hn l x hln hx
    rw [hb.log_eq, List.getElem?_append_right (by omega)] at hx
    simp only [entries, List.map_append, List.map_cons] at hx
    rw [List.getElem?_append_right (by simp; omega), List.length_map] at hx
    obtain ⟨k, hk⟩ : ∃ k, l - old.length - before.length = k + 1 := ⟨l - old.length - before.length - 1, by omega⟩
    rw [hk, List.getElem?_cons_succ] at hx
    obtain ⟨y, hy, rfl⟩ := List.mem_map.mp (List.mem_of_getElem? hx)
    exact hafter y hy

theorem serial_of_inv {s : State} (h : Inv (discipline svc) s) : Serial svc s where
  exclusive := h.exclusive
  blocks := h.contiguous
  compiled n e he hro := runsCompiled_of_allowed hro (h.allowed n e he)
  available := h.available

theorem quiet_of_inv {s s' : State} {e : Event} (h : Inv (discipline svc) s)
    (hs : Lib.Serial.step (program svc platform) s e = some s') : Quiet s e s' := by
  rintro i a p rfl hp
  simp only [Lib.Serial.step, hp, Option.map_eq_some_iff] at hs
  obtain ⟨⟨g', p'⟩, hact, rfl⟩ := hs
  refine ⟨fun hlog => ?_, ?_⟩
  · cases a with
    | send => exact sends_holding h hp hact
    | acquire =>
      simp only [stepProc] at hact
      split at hact
      · split at hact
        · cases hact
        · cases hact; exact absurd rfl hlog
      · cases hact
    | _ =>
      simp only [stepProc] at hact
      split at hact
      · cases hact; exact absurd rfl hlog
      · cases hact
  · rintro (hc | ⟨x, rfl⟩)
    · obtain ⟨hperm, hlog, hc'⟩ := cancelled_silent h hp hc hact
      exact ⟨hlog, hperm, p', upd_same _ _ _, hc'⟩
    · simp only [stepProc] at hact
      split at hact
      · cases hact
        exact ⟨rfl, rfl, _, upd_same _ _ _, rfl⟩
      · cases hact

end OlympSystem.Checker.Exclusive
