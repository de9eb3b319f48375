/-
  OlympSystem.Site.CheckerProcess — `CheckerManager.Process`: the loop of each registered
  checker, over its service and over the queue that all of them share.

  A pass of the outer loop loads the compilators, runs the self-tests and, if they
  succeed, awaits one `TryCheckFromDB` after another until something throws; a minute later
  the next pass tests again. The pages of the runners use the same service in between
  (`Run`, which leaves the fields alone: one that comes between two self-tests stands after
  them). `call` is the last call of `TryCheckFromDB` that got as far as the queue: while
  it is not over the loop stays where it is. `log` is what the service and its runner have
  said to each other.

  A step may stand for more than the code does: a pass may end at any time between two
  calls, and a runner may connect twice.

  Proved:
  - `turn_kept`: a process in its inner loop has compilators, all of them vouched for.
  - `step_kept`: a call of the queue is awaited by the one process whose checker it works
    for, with the compilators that process has.
  - `judged_by_tested`: a submission is only judged with a compilator that told its version
    and passed every self-test there is for it, of which there is one, in exchanges that
    this process had with its runner; and a checker judges one submission at a time.
-/

import OlympSystem.Checker.SelfTests
import OlympSystem.Site.Queue

namespace OlympSystem.Site.CheckerProcess

open Lib.Runs Lib.Program Lib.Program.Prog Lib.Query OlympSystem.Checker Exclusive SelfTests CheckerManager

inductive Point where
  | loading
  | testing
  /-- In the inner loop. -/
  | serving
  /-- In the catch block. -/
  | pausing
  | ended
  deriving DecidableEq

structure Process where
  service : CheckerService
  fields : Fields
  log : Exchanges
  point : Point
  call : Option Nat

def register (service : CheckerService) : Process := ⟨service, service.initialFields, [], .loading, none⟩

def afterLoad : Except Exn Unit → Point
  | .ok () => .testing
  | .error _ => .pausing

def afterTests : Except Exn Bool → Point
  | .ok true => .serving
  | .ok false => .ended
  | .error _ => .pausing

/-- A call of the service has ended. -/
def Process.after {α : Type} (p : Process) (o : Ended α) (point : Point) : Process :=
  { p with fields := o.fields, log := p.log ++ o.log, point := point }

/-- A step of a process, or of a page that uses its service. -/
inductive Turn (platform : Platform) (p : Process) : Process → Prop
  | load (o : Ended Unit) : p.point = .loading → May (p.service.loadCompilators platform) p.fields o →
      Turn platform p (p.after o (afterLoad o.result))
  | test (o : Ended Bool) : p.point = .testing → May (p.service.runSelfTests platform) p.fields o →
      Turn platform p (p.after o (afterTests o.result))
  /-- `Check` of a claimed submission. -/
  | check (request : CheckRequest) (elapsed : TimeSpan) (o : Ended CheckerResult) : p.point = .serving →
      May (p.service.check platform request elapsed) p.fields o → Turn platform p (p.after o p.point)
  /-- `TryCheckFromDB` or the delay after it throws. -/
  | fails : p.point = .serving → Turn platform p { p with point := .pausing }
  | resume : p.point = .pausing → Turn platform p { p with point := .loading }
  | cancel : Turn platform p { p with point := .ended }
  /-- `Run` of a page. -/
  | run (source : String) (configuration : CompilatorConfiguration) (input : String) (timeLimit : TimeSpan)
      (memoryLimitMb : Int) (guid : String) (o : Ended String) :
      May (p.service.run source configuration input timeLimit memoryLimitMb guid) p.fields o →
      Turn platform p (p.after o p.point)

structure System where
  processes : List Process
  queue : Queue.St

/-- Nothing is awaited at the queue. -/
def Idle (queue : Queue.St) (p : Process) : Prop := ∀ n ∈ p.call, queue.call n = .over

/-- `TryCheckFromDB` returns at once where the checker has none of the compilators. -/
def Process.awaits (p : Process) (before after : Queue.St) : Process :=
  if before.calls.length < after.calls.length then { p with call := some before.calls.length } else p

variable (deployment : Deployment)

inductive Step (s : System) : System → Prop
  | register (service : CheckerService) : Step s { s with processes := s.processes ++ [register service] }
  | turn (i : Nat) (p p' : Process) : s.processes[i]? = some p → Turn deployment.platform p p' →
      p'.point = p.point ∨ Idle s.queue p → Step s { s with processes := s.processes.set i p' }
  /-- The inner loop calls `TryCheckFromDB` with `checker.Compilators!`. -/
  | tryCheckFromDB (i : Nat) (p : Process) (compilators : List CompilatorInfo) (queue : Queue.St) :
      s.processes[i]? = some p → p.point = .serving → Idle s.queue p → p.fields.compilators = some compilators →
      Queue.step deployment s.queue (.tryCheckFromDB ⟨p.service, compilators⟩) = some queue →
      Step s ⟨s.processes.set i (p.awaits s.queue queue), queue⟩
  /-- Everything else at the queue: the calls under way, imports, retests, the clock. -/
  | queue (e : Queue.Ev) (queue : Queue.St) : (∀ checker, e ≠ .tryCheckFromDB checker) →
      Queue.step deployment s.queue e = some queue → Step s { s with queue := queue }

inductive Reachable (db : Db) (now : Int) : System → Prop
  | start : Reachable db now ⟨[], Queue.init db now⟩
  | next {s s' : System} : Reachable db now s → Step deployment s s' → Reachable db now s'

/-! ## What the self-tests vouch for -/

/-- A self-test was run with the compilator and ended as it should, and the page of the
    runners has its row. -/
structure PassedTest (p : Process) (c : CompilatorInfo) (test : SelfTest) : Prop where
  ran : ∃ fields o, May (p.service.runCheckerTest test c.configuration) fields o ∧
    verdictOf o.result = test.expectedResult ∧ o.log <:+: p.log
  recorded : ∃ row ∈ p.fields.checkerTestResults, row.name = test.name ∧ row.compilator = c ∧
    row.result = some test.expectedResult

/-- The compilator told its version and passed its self-tests. -/
structure Vouched (p : Process) (c : CompilatorInfo) : Prop where
  available : c.error = none
  tested : p.service.getTests c.configuration ≠ []
  passed : ∀ test ∈ p.service.getTests c.configuration, PassedTest p c test

/-- What a process keeps. -/
structure ProcessInv (p : Process) : Prop where
  kept : Kept p.service p.fields
  serving : p.point = .serving → p.fields.selfTestingStatus = .success ∧
    ∃ compilators, p.fields.compilators = some compilators ∧ ∀ c ∈ compilators, Vouched p c

variable {deployment : Deployment}

/-- A slot of the results for each test of a compilator. -/
theorem mem_slots {service : CheckerService} {compilators : List CompilatorInfo} {c : CompilatorInfo} {test : SelfTest}
    (hc : c ∈ compilators) (ht : test ∈ service.getTests c.configuration) :
    (c, some test) ∈ slotsOf service compilators := by
  have hne : (service.getTests c.configuration).length ≠ 0 := by
    intro hzero
    rw [List.length_eq_zero_iff.mp hzero] at ht
    cases ht
  refine List.mem_flatMap.mpr ⟨c, hc, ?_⟩
  rw [if_neg hne]
  exact List.mem_map_of_mem ht

/-- Self-tests that succeed vouch for every compilator. -/
theorem vouched_of_success {platform : Platform} {p : Process} {o : Ended Bool} {point : Point}
    (hkept : Kept p.service p.fields) (h : May (p.service.runSelfTests platform) p.fields o)
    (hok : o.result = .ok true) :
    o.fields.selfTestingStatus = .success ∧
      ∃ compilators, o.fields.compilators = some compilators ∧ ∀ c ∈ compilators, Vouched (p.after o point) c := by
  obtain ⟨compilators, booked, hbook⟩ := runSelfTests_books hkept h hok
  obtain ⟨hpassed, hresults⟩ := hbook.returns.mp rfl
  obtain ⟨loaded, -, -, -, -, hlog⟩ := hbook.loads
  refine ⟨hbook.status, compilators, hbook.stored, fun c hc => ⟨hpassed.available c hc, hpassed.tested c hc,
    fun test ht => ?_⟩⟩
  obtain ⟨x, hx, hrow⟩ := (forall₂_exists hbook.rows).1 _ (mem_slots hc ht)
  have hmem : x.2 ∈ o.fields.checkerTestResults := hbook.results ▸ List.mem_map_of_mem hx
  have hrecorded : x.2.result = some x.2.expectedResult := hresults x.2 hmem
  obtain ⟨hname, hcompilator, hexpected, hrun⟩ := hrow
  rw [hpassed.available c hc] at hrun
  obtain ⟨before, ended, hmay, hexchanges, hresult⟩ := hrun
  have hsaid : ended.log <:+: p.log ++ o.log := by
    rw [hexchanges, hlog, List.flatMap_def]
    have hpart : x.1 <:+: (booked.map Prod.fst).flatten := List.infix_of_mem_flatten (List.mem_map_of_mem hx)
    exact (hpart.trans (List.suffix_append _ _).isInfix).trans (List.suffix_append _ _).isInfix
  have hverdict : verdictOf ended.result = test.expectedResult := by
    rw [hresult, hexpected] at hrecorded
    exact Option.some.inj hrecorded
  exact ⟨⟨before, ended, hmay, hverdict, hsaid⟩, x.2, hmem, hname, hcompilator, by rw [hrecorded, hexpected]⟩

/-! ## Processes -/

theorem register_kept (service : CheckerService) : ProcessInv (register service) :=
  ⟨kept_new, fun h => by cases h⟩

/-- A call that leaves the fields alone adds to the log only. -/
theorem after_kept {α : Type} {p : Process} {o : Ended α} (h : ProcessInv p) (hsame : p.fields = o.fields) :
    ProcessInv (p.after o p.point) := by
  have hafter : p.after o p.point = { p with log := p.log ++ o.log } := by
    unfold Process.after
    rw [← hsame]
  rw [hafter]
  refine ⟨h.kept, fun hserving => ?_⟩
  obtain ⟨hstatus, compilators, hstored, hvouched⟩ := h.serving hserving
  refine ⟨hstatus, compilators, hstored, fun c hc => ?_⟩
  have hv := hvouched c hc
  refine ⟨hv.available, hv.tested, fun test ht => ?_⟩
  obtain ⟨⟨fields, ended, hmay, hverdict, hsaid⟩, hrow⟩ := hv.passed test ht
  exact ⟨⟨fields, ended, hmay, hverdict, hsaid.trans (List.prefix_append _ _).isInfix⟩, hrow⟩

/-- What a process that goes on serving keeps. -/
theorem turn_same {platform : Platform} {p p' : Process} (ht : Turn platform p p') :
    p'.service = p.service ∧ p'.call = p.call ∧ (p'.point = p.point → p.point = .serving → p'.fields = p.fields) := by
  cases ht with
  | load o hpoint | test o hpoint => exact ⟨rfl, rfl, fun _ hserving => by rw [hpoint] at hserving; cases hserving⟩
  | check request elapsed o hpoint hmay =>
    have hsame : p.fields = o.fields := within_check (R := Eq) request elapsed _ _ hmay
    exact ⟨rfl, rfl, fun _ _ => hsame.symm⟩
  | fails | resume | cancel => exact ⟨rfl, rfl, fun _ _ => rfl⟩
  | run source configuration input timeLimit memoryLimitMb guid o hmay =>
    have hsame : p.fields = o.fields :=
      within_run (R := Eq) source configuration input timeLimit memoryLimitMb guid _ _ hmay
    exact ⟨rfl, rfl, fun _ _ => hsame.symm⟩

theorem turn_kept {platform : Platform} {p p' : Process} (h : ProcessInv p) (ht : Turn platform p p') :
    ProcessInv p' := by
  cases ht with
  | load o hpoint hmay =>
    refine ⟨(loadCompilators_kept h.kept hmay).1, fun hserving => ?_⟩
    have hserving : afterLoad o.result = .serving := hserving
    cases hresult : o.result <;> rw [hresult] at hserving <;> cases hserving
  | test o hpoint hmay =>
    refine ⟨runSelfTests_kept h.kept hmay, fun hserving => ?_⟩
    have hserving : afterTests o.result = .serving := hserving
    cases hresult : o.result with
    | error e => rw [hresult] at hserving; cases hserving
    | ok success =>
      cases success with
      | false => rw [hresult] at hserving; cases hserving
      | true => exact vouched_of_success h.kept hmay hresult
  | check request elapsed o hpoint hmay => exact after_kept h (within_check (R := Eq) request elapsed _ _ hmay)
  | fails | resume | cancel => exact ⟨h.kept, fun hserving => by cases hserving⟩
  | run source configuration input timeLimit memoryLimitMb guid o hmay =>
    exact after_kept h (within_run (R := Eq) source configuration input timeLimit memoryLimitMb guid _ _ hmay)

theorem awaits_kept {p : Process} (h : ProcessInv p) (before after : Queue.St) :
    ProcessInv (p.awaits before after) := by
  unfold Process.awaits
  split
  · refine ⟨h.kept, fun hserving => ?_⟩
    obtain ⟨hstatus, compilators, hstored, hvouched⟩ := h.serving hserving
    refine ⟨hstatus, compilators, hstored, fun c hc => ?_⟩
    have hv := hvouched c hc
    exact ⟨hv.available, hv.tested, fun test ht => ⟨(hv.passed test ht).ran, (hv.passed test ht).recorded⟩⟩
  · exact h

/-! ## Calls of the queue -/

def checkerOf : Queue.Call → Option ConnectedChecker
  | .entering checker _ | .picking checker .. | .claiming checker .. => some checker
  | .claimed check | .judging check | .judged check | .saving check | .committing check => some check.checker
  | _ => none

theorem judge_checker (check : Check) (checkTime : Int) (answers : Verdict.Answers) (elapsed : TimeSpan) :
    (check.judge deployment checkTime answers elapsed).checker = check.checker := by
  unfold Check.judge
  split <;> rfl

/-- A call keeps its checker. -/
theorem move_checker {db db' : Db} {now : Int} {call call' : Queue.Call}
    (hm : Queue.Move deployment db now call call' db')
    {checker : ConnectedChecker} (hc : checker ∈ checkerOf call') : checker ∈ checkerOf call := by
  cases hm with
  | enterPicking | pick | claim | leaveClaimed | abort | stamp | enterCommitting => exact hc
  | judge check answers elapsed =>
    simp only [checkerOf, judge_checker] at hc
    exact hc
  | cancel | enterReading | drop | leave | save | prepare | commit => cases hc

/-- The process awaits the call, which works for its checker. -/
structure Awaits (p : Process) (a : Nat) (checker : ConnectedChecker) : Prop where
  call : p.call = some a
  serving : p.point = .serving
  service : p.service = checker.service
  compilators : p.fields.compilators = some checker.compilators

/-- An idle process awaits no call that works for a checker. -/
theorem Idle.not_awaits {queue : Queue.St} {p : Process} (h : Idle queue p) {a : Nat} {checker : ConnectedChecker}
    (hc : checker ∈ checkerOf (queue.call a)) : ¬ Awaits p a checker := by
  intro hawaits
  rw [h a hawaits.call] at hc
  cases hc

theorem turn_awaits {platform : Platform} {p p' : Process} {a : Nat} {checker : ConnectedChecker}
    (h : Awaits p a checker) (ht : Turn platform p p') (hpoint : p'.point = p.point) : Awaits p' a checker := by
  obtain ⟨hservice, hcall, hfields⟩ := turn_same ht
  exact ⟨hcall.trans h.call, hpoint.trans h.serving, hservice.trans h.service,
    (congrArg Fields.compilators (hfields hpoint h.serving)).trans h.compilators⟩

/-! ## The site -/

structure SystemInv (s : System) : Prop where
  processes : ∀ p ∈ s.processes, ProcessInv p
  gate : Queue.GateHeld s.queue
  begun : ∀ p ∈ s.processes, ∀ a ∈ p.call, a < s.queue.calls.length
  apart : ∀ {i j : Nat} {p q : Process} {a : Nat}, s.processes[i]? = some p → s.processes[j]? = some q →
    p.call = some a → q.call = some a → i = j
  calls : ∀ a, ∀ checker ∈ checkerOf (s.queue.call a), ∃ (i : Nat) (p : Process), s.processes[i]? = some p ∧
    Awaits p a checker

/-- One process changed: what holds of the others and of it holds of all. -/
theorem mem_set {P : Process → Prop} {processes : List Process} {i : Nat} {p' : Process}
    (h : ∀ p ∈ processes, P p) (hp' : P p') : ∀ p ∈ processes.set i p', P p := by
  intro p hp
  rcases List.mem_or_eq_of_mem_set hp with hp | rfl
  · exact h p hp
  · exact hp'

theorem getElem?_set_cases {processes : List Process} {i j : Nat} {p p' q : Process} (hp : processes[i]? = some p)
    (hq : (processes.set i p')[j]? = some q) : (j = i ∧ q = p') ∨ (j ≠ i ∧ processes[j]? = some q) := by
  by_cases hji : j = i
  · subst hji
    have hlt : j < processes.length := (List.getElem?_eq_some_iff.mp hp).1
    rw [List.getElem?_set_self hlt] at hq
    exact Or.inl ⟨rfl, (Option.some.inj hq).symm⟩
  · rw [List.getElem?_set_ne (fun h => hji h.symm)] at hq
    exact Or.inr ⟨hji, hq⟩

/-- The calls of the queue that were there stay with their processes. -/
theorem queue_kept {s : System} {queue : Queue.St} {e : Queue.Ev} (h : SystemInv s)
    (hs : Queue.step deployment s.queue e = some queue) {a : Nat} (ha : a < s.queue.calls.length)
    {checker : ConnectedChecker} (hc : checker ∈ checkerOf (queue.call a)) :
    ∃ (i : Nat) (p : Process), s.processes[i]? = some p ∧ Awaits p a checker := by
  rcases Queue.call_cases hs a with hcall | hm | ⟨hnew, -⟩
  · rw [hcall] at hc; exact h.calls a checker hc
  · exact h.calls a checker (move_checker hm hc)
  · omega

/-- A step of the queue keeps the calls that were there, and adds one if it begins one. -/
theorem queue_calls {queue queue' : Queue.St} {e : Queue.Ev} (hs : Queue.step deployment queue e = some queue') :
    queue'.calls.length = queue.calls.length ∨
      ∃ call, Queue.Begins deployment e call ∧ queue' = queue.begin call := by
  rcases Queue.step_cases hs with ⟨ticks, rfl⟩ | rfl | ⟨call, hbegins, rfl⟩ | ⟨b, call, db, hover, hm, -, rfl⟩
  · exact Or.inl rfl
  · exact Or.inl rfl
  · exact Or.inr ⟨call, hbegins, rfl⟩
  · left
    show (queue.calls.set b call).length = _
    exact List.length_set

theorem length_begin (queue : Queue.St) (call : Queue.Call) :
    (queue.begin call).calls.length = queue.calls.length + 1 := by
  simp [Queue.St.begin]

theorem call_of_length {queue : Queue.St} {a : Nat} {checker : ConnectedChecker}
    (hc : checker ∈ checkerOf (queue.call a)) :
    a < queue.calls.length := by
  by_contra hge
  have hover : queue.call a = .over := by
    unfold Queue.St.call
    rw [List.getElem?_eq_none (by omega)]; rfl
  rw [hover] at hc
  cases hc

theorem turn_step {s : System} (h : SystemInv s) {i : Nat} {p p' : Process} (hp : s.processes[i]? = some p)
    (ht : Turn deployment.platform p p') (hguard : p'.point = p.point ∨ Idle s.queue p) :
    SystemInv { s with processes := s.processes.set i p' } := by
  have hmem := List.mem_of_getElem? hp
  obtain ⟨-, hcall, -⟩ := turn_same ht
  have hold : ∀ {j : Nat} {q : Process}, (s.processes.set i p')[j]? = some q →
      ∃ q', s.processes[j]? = some q' ∧ q.call = q'.call := by
    intro j q hq
    rcases getElem?_set_cases hp hq with ⟨rfl, rfl⟩ | ⟨-, hq⟩
    · exact ⟨p, hp, hcall⟩
    · exact ⟨q, hq, rfl⟩
  refine ⟨mem_set h.processes (turn_kept (h.processes p hmem) ht), h.gate,
    mem_set h.begun (hcall ▸ h.begun p hmem), fun hi hj hpa hqa => ?_, fun a checker hc => ?_⟩
  · obtain ⟨p₁, hp₁, hcall₁⟩ := hold hi
    obtain ⟨q₁, hq₁, hcall₂⟩ := hold hj
    exact h.apart hp₁ hq₁ (hcall₁ ▸ hpa) (hcall₂ ▸ hqa)
  · obtain ⟨j, q, hq, hawaits⟩ := h.calls a checker hc
    by_cases hji : j = i
    · subst hji
      rw [hp] at hq
      obtain rfl := Option.some.inj hq
      have hlt : j < s.processes.length := (List.getElem?_eq_some_iff.mp hp).1
      refine ⟨j, p', List.getElem?_set_self hlt, ?_⟩
      rcases hguard with hpoint | hidle
      · exact turn_awaits hawaits ht hpoint
      · exact absurd hawaits (hidle.not_awaits hc)
    · exact ⟨j, q, (List.getElem?_set_ne fun heq => hji heq.symm).trans hq, hawaits⟩

/-- A call that a process begins is awaited by it alone. -/
theorem begin_step {s : System} (h : SystemInv s) {i : Nat} {p : Process} {compilators : List CompilatorInfo}
    {queue : Queue.St} (hp : s.processes[i]? = some p) (hserving : p.point = .serving) (hidle : Idle s.queue p)
    (hcompilators : p.fields.compilators = some compilators)
    (hs : Queue.step deployment s.queue (.tryCheckFromDB ⟨p.service, compilators⟩) = some queue) :
    SystemInv ⟨s.processes.set i (p.awaits s.queue queue), queue⟩ := by
  have hmem := List.mem_of_getElem? hp
  have hlt : i < s.processes.length := (List.getElem?_eq_some_iff.mp hp).1
  have hprocesses := mem_set (i := i) h.processes (awaits_kept (h.processes p hmem) s.queue queue)
  have hgate := Queue.gate_step h.gate hs
  rcases queue_calls hs with hlength | ⟨call, hbegins, hqueue⟩
  · -- none of the compilators is there: the call has returned
    have hsame : p.awaits s.queue queue = p := by
      unfold Process.awaits
      rw [if_neg (by omega)]
    rw [hsame] at hprocesses ⊢
    have hset : s.processes.set i p = s.processes := by
      apply List.ext_getElem?
      intro j
      by_cases hji : j = i
      · rw [hji, List.getElem?_set_self hlt, hp]
      · exact List.getElem?_set_ne fun heq => hji heq.symm
    rw [hset] at hprocesses ⊢
    exact ⟨hprocesses, hgate, fun q hq a ha => hlength ▸ h.begun q hq a ha, h.apart,
      fun a checker hc => queue_kept h hs (hlength ▸ call_of_length hc) hc⟩
  · have hlonger : queue.calls.length = s.queue.calls.length + 1 := by rw [hqueue]; exact length_begin _ _
    have hawaits : p.awaits s.queue queue = { p with call := some s.queue.calls.length } := by
      unfold Process.awaits
      rw [if_pos (by omega)]
    rw [hawaits] at hprocesses ⊢
    have hfresh : ∀ {j : Nat} {q : Process}, s.processes[j]? = some q → q.call ≠ some s.queue.calls.length := by
      intro j q hq hcall
      have := h.begun q (List.mem_of_getElem? hq) _ hcall
      omega
    refine ⟨hprocesses, hgate, mem_set (fun q hq a ha => ?_) fun a ha => ?_, fun hi hj hpa hqa => ?_,
      fun a checker hc => ?_⟩
    · have := h.begun q hq a ha
      show a < queue.calls.length
      omega
    · cases ha
      show _ < queue.calls.length
      omega
    · rcases getElem?_set_cases hp hi with ⟨e₁, rfl⟩ | ⟨-, hold₁⟩ <;>
        rcases getElem?_set_cases hp hj with ⟨e₂, rfl⟩ | ⟨-, hold₂⟩
      · rw [e₁, e₂]
      · cases hpa; exact absurd hqa (hfresh hold₂)
      · cases hqa; exact absurd hpa (hfresh hold₁)
      · exact h.apart hold₁ hold₂ hpa hqa
    · by_cases hnew : a = s.queue.calls.length
      · -- the new call works for the checker of this process
        have hc : checker ∈ checkerOf (queue.call a) := hc
        rw [hqueue, Queue.call_begin, if_pos hnew] at hc
        refine ⟨i, _, List.getElem?_set_self hlt, ?_⟩
        cases hbegins with
        | tryCheckFromDB checker ids =>
          cases hc
          exact ⟨congrArg some hnew.symm, hserving, rfl, hcompilators⟩
      · have hlength := call_of_length hc
        simp only at hlength
        obtain ⟨j, q, hq, hwaits⟩ := queue_kept h hs (by omega) hc
        have hold : checker ∈ checkerOf (s.queue.call a) := by
          have hc : checker ∈ checkerOf (queue.call a) := hc
          rw [hqueue, Queue.call_begin, if_neg hnew] at hc
          exact hc
        by_cases hji : j = i
        · subst hji
          rw [hp] at hq
          obtain rfl := Option.some.inj hq
          exact absurd hwaits (hidle.not_awaits hold)
        · exact ⟨j, q, (List.getElem?_set_ne fun heq => hji heq.symm).trans hq, hwaits⟩

theorem step_kept {s s' : System} (h : SystemInv s) (hs : Step deployment s s') : SystemInv s' := by
  cases hs with
  | register service =>
    have hold : ∀ {j : Nat} {q : Process} {a : Nat}, (s.processes ++ [register service])[j]? =
        some q → q.call = some a →
        s.processes[j]? = some q := by
      intro j q a hq hcall
      rcases Nat.lt_or_ge j s.processes.length with hj | hj
      · rwa [List.getElem?_append_left hj] at hq
      · rw [List.getElem?_append_right hj] at hq
        have hnew := List.mem_singleton.mp (List.mem_of_getElem? hq)
        rw [hnew] at hcall
        cases hcall
    refine ⟨fun p hp => ?_, h.gate, fun p hp => ?_, fun hi hj hpa hqa => h.apart (hold hi hpa) (hold hj hqa) hpa hqa,
      fun a checker hc => ?_⟩
    · rcases List.mem_append.mp hp with hp | hp
      · exact h.processes p hp
      · rw [List.mem_singleton.mp hp]; exact register_kept service
    · rcases List.mem_append.mp hp with hp | hp
      · exact h.begun p hp
      · rw [List.mem_singleton.mp hp]; intro a ha; cases ha
    · obtain ⟨j, q, hq, hawaits⟩ := h.calls a checker hc
      refine ⟨j, q, ?_, hawaits⟩
      exact (List.getElem?_append_left (List.getElem?_eq_some_iff.mp hq).1).trans hq
  | turn i p p' hp hturn hguard => exact turn_step h hp hturn hguard
  | tryCheckFromDB i p compilators queue hp hserving hidle hcompilators hstep =>
    exact begin_step h hp hserving hidle hcompilators hstep
  | queue e queue hnot hstep =>
    refine ⟨h.processes, Queue.gate_step h.gate hstep, fun p hp a ha => ?_, h.apart, fun a checker hc => ?_⟩
    · have hlt := h.begun p hp a ha
      rcases queue_calls hstep with hlength | ⟨call, -, rfl⟩
      · exact hlength ▸ hlt
      · exact lt_of_lt_of_eq (Nat.lt_succ_of_lt hlt) (length_begin _ _).symm
    · have hc : checker ∈ checkerOf (queue.call a) := hc
      rcases queue_calls hstep with hlength | ⟨call, hbegins, rfl⟩
      · exact queue_kept h hstep (hlength ▸ call_of_length hc) hc
      · by_cases hnew : a = s.queue.calls.length
        · rw [Queue.call_begin, if_pos hnew] at hc
          cases hbegins with
          | tryCheckFromDB checker ids => exact absurd rfl (hnot checker)
          | importAsync | retestAsync | retestCompilationErrorsAsync => cases hc
        · have hlength := call_of_length hc
          rw [length_begin] at hlength
          exact queue_kept h hstep (by omega) hc

theorem reachable_kept {db : Db} {now : Int} {s : System} (h : Reachable deployment db now s) : SystemInv s := by
  induction h with
  | start =>
    refine ⟨fun p hp => absurd hp List.not_mem_nil, Queue.gate_init db now, fun p hp => absurd hp List.not_mem_nil,
      fun hi => (by cases hi), fun a checker hc => ?_⟩
    cases hc
  | next _ hs ih => exact step_kept ih hs

/-- The compilator of a request is one of the checker's. -/
theorem createCheckRequest_compilator {culture : Domain.Culture} {checker : ConnectedChecker} {loaded : Loaded}
    {request : CheckRequest} (h : createCheckRequest culture checker loaded = .ok request) :
    request.compilator ∈ checker.compilators := by
  unfold createCheckRequest singleOrDefault at h
  simp only at h
  split at h
  · cases h
  · cases h
  · next compilator hsingle =>
    cases h
    split at hsingle
    · cases hsingle
    · next hfilter =>
      cases hsingle
      have hmem := List.mem_singleton_self compilator
      rw [← hfilter] at hmem
      exact (List.mem_filter.mp hmem).1
    · cases hsingle

theorem checkerOf_inFlight {call : Queue.Call} {check : Check} (h : check ∈ call.inFlight) :
    check.checker ∈ checkerOf call := by
  cases call with
  | claimed | judging | judged | saving | committing => cases h; rfl
  | «over» | entering | picking | claiming | waiting | reading | ready | leaving => cases h

/-- In every state of the site, with any runners, pages, imports and retests: a checker in
    its inner loop has compilators; every check in flight is awaited by a process in its
    inner loop, with the status of a success, whose self-tests vouch for the compilator of
    the request; and no two processes await one call. -/
theorem judged_by_tested (deployment : Deployment) (db : Db) (now : Int) (s : System)
    (h : Reachable deployment db now s) :
    (∀ p ∈ s.processes, p.point = .serving → p.fields.compilators ≠ none) ∧
      (∀ a, ∀ check ∈ (s.queue.call a).inFlight, ∃ p ∈ s.processes, Awaits p a check.checker ∧
        p.fields.selfTestingStatus = .success ∧ ∀ request,
          createCheckRequest deployment.service.culture check.checker check.loaded = .ok request →
            Vouched p request.compilator) ∧
      ∀ (i j : Nat) (p q : Process) (a : Nat), s.processes[i]? = some p → s.processes[j]? = some q →
        p.call = some a → q.call = some a → i = j := by
  have hinv := reachable_kept h
  refine ⟨fun p hp hserving hnone => ?_, fun a check hc => ?_, fun i j p q a hi hj hp hq => hinv.apart hi hj hp hq⟩
  · obtain ⟨-, compilators, hsome, -⟩ := (hinv.processes p hp).serving hserving
    rw [hnone] at hsome
    cases hsome
  · obtain ⟨i, p, hp, hawaits⟩ := hinv.calls a check.checker (checkerOf_inFlight hc)
    have hmem := List.mem_of_getElem? hp
    obtain ⟨hstatus, compilators, hsome, hvouched⟩ := (hinv.processes p hmem).serving hawaits.serving
    refine ⟨p, hmem, hawaits, hstatus, fun request hrequest => hvouched _ ?_⟩
    rw [hawaits.compilators] at hsome
    exact Option.some.inj hsome ▸ createCheckRequest_compilator hrequest

/-! ### A runner that connects, passes its self-tests and takes a submission -/

def sampleDeployment : Deployment := { Queue.sampleDeployment with platform := SelfTests.samplePlatform }

def sampleDb : Db :=
  { Queue.sampleDb with compilators := ⟨[⟨1, "gcc", some "", true⟩], 2, by decide, by decide⟩ }

def answers (_ : Nat) : Except Exn RunnerResult := .ok ⟨.completed, 0, [], [], ⟨0, 0, 0, 0, 0⟩⟩

def connected : Process := register SelfTests.sampleService

def loading : Ended Unit :=
  solo (SelfTests.sampleService.loadCompilators SelfTests.samplePlatform) connected.fields answers

def loadedProcess : Process := connected.after loading .testing

def testing : Ended Bool :=
    solo (SelfTests.sampleService.runSelfTests SelfTests.samplePlatform) loadedProcess.fields answers

def testedProcess : Process := loadedProcess.after testing .serving

def sampleChecker : ConnectedChecker := ⟨SelfTests.sampleService, testedProcess.fields.compilators.getD []⟩

def taken : List Queue.Ev := [.tryCheckFromDB sampleChecker, .enter 0, .pick 0 (some 1), .claim 0]

def queueAfter (n : Nat) : Queue.St := final (Queue.step sampleDeployment) (Queue.init sampleDb 0) (taken.take n)

def sampleSystem : System := ⟨[{ testedProcess with call := some 0 }], queueAfter 4⟩

theorem sample_tested : Reachable sampleDeployment sampleDb 0 ⟨[testedProcess], queueAfter 0⟩ := by
  have hregistered : Reachable sampleDeployment sampleDb 0 ⟨[connected], queueAfter 0⟩ :=
    .next .start (.register SelfTests.sampleService)
  have hloads : Turn sampleDeployment.platform connected (connected.after loading (afterLoad loading.result)) :=
    .load _ rfl (may_solo _ _ answers)
  have hok : loading.result = .ok () := by decide +kernel
  rw [hok] at hloads
  have hloaded : Reachable sampleDeployment sampleDb 0 ⟨[loadedProcess], queueAfter 0⟩ :=
    .next hregistered (.turn 0 _ _ rfl hloads (Or.inr fun n hn => by cases hn))
  have htests : Turn sampleDeployment.platform loadedProcess
      (loadedProcess.after testing (afterTests testing.result)) :=
    .test _ rfl (may_solo _ _ answers)
  have hpassed : testing.result = .ok true := by decide +kernel
  rw [hpassed] at htests
  exact .next hloaded (.turn 0 _ _ rfl htests (Or.inr fun n hn => by cases hn))

theorem sample_reachable : Reachable sampleDeployment sampleDb 0 sampleSystem := by
  have hcalled : Reachable sampleDeployment sampleDb 0
      ⟨[testedProcess.awaits (queueAfter 0) (queueAfter 1)], queueAfter 1⟩ :=
    .next sample_tested (.tryCheckFromDB 0 testedProcess (testedProcess.fields.compilators.getD []) _ rfl rfl
      (fun n hn => by cases hn) rfl rfl)
  have hentered : Reachable sampleDeployment sampleDb 0
      ⟨[testedProcess.awaits (queueAfter 0) (queueAfter 1)], queueAfter 2⟩ :=
    .next hcalled (.queue (.enter 0) _ (by simp) rfl)
  have hpicked : Reachable sampleDeployment sampleDb 0
      ⟨[testedProcess.awaits (queueAfter 0) (queueAfter 1)], queueAfter 3⟩ :=
    .next hentered (.queue (.pick 0 (some 1)) _ (by simp) rfl)
  exact .next hpicked (.queue (.claim 0) _ (by simp) rfl)

theorem sample_judged_by_tested :
    sampleSystem.queue.db.submissions.rows.map SubmissionRow.statusCode = [1] ∧
      ∀ a, ∀ check ∈ (sampleSystem.queue.call a).inFlight, ∃ p ∈ sampleSystem.processes, Awaits p a check.checker ∧
        p.fields.selfTestingStatus = .success ∧ ∀ request,
          createCheckRequest sampleDeployment.service.culture check.checker check.loaded = .ok request →
            Vouched p request.compilator :=
  ⟨by decide +kernel, (judged_by_tested sampleDeployment sampleDb 0 sampleSystem sample_reachable).2.1⟩

end OlympSystem.Site.CheckerProcess
