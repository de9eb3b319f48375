/-
  OlympSystem.Site.RemoteJudging — a `CheckerService`, its `RunnerService` and the runner at
  the other end of the connection, together.

  Actors. The calls of the service (Checker.Exclusive) share its semaphore; what one of them
  sends is a call of `RunnerService.Run`, and what that returns or throws is its answer. The
  connection is that of Site.RunnerService; what the remote runner answers is here what
  `RunnerClientService.Run` computes on its machine (Runner.WorkDirectory), one command after
  another. A command on which the runner throws ends its connection. The machine stays as it
  was left from one connection to the next, so a run may start from any.

  Proved, over every interleaving of calls, cancellations, channel moves and failures:
  - `step_inv`: the invariant `Inv`, which ties the three together.
  - `Inv.executed`: what the machine carried out is what the calls were answered, in order.
  - `judged_alone`: calls of `Run` never overlap; and a check, or a run of a page, returns
    what it returns alone on the machine without the files that were in the work directory.
-/

import Mathlib.Data.List.Chain
import OlympSystem.Checker.Exclusive
import OlympSystem.Lib.Servers
import OlympSystem.Runner.WorkDirectory
import OlympSystem.Site.RunnerService

namespace OlympSystem.Site.RemoteJudging

open Lib.Runs Lib.Program Lib.Program.Prog Lib.Serial Lib.Servers Lib.Query OlympSystem.Checker Exclusive CheckerService
  Lib.Dictionaries Runner.WorkDirectory RunnerService

/-! ## The system -/

structure System (Rest : Type) where
  calls : Exclusive.State
  remote : RunnerService.St
  machine : Machine Rest
  /-- The runner is no longer at the connection. -/
  left : Bool
  executed : List (Execution (Machine Rest))

inductive Ev where
  /-- A call of the service starts, or goes on by itself. -/
  | calls (e : Exclusive.Event)
  /-- A call of the service calls `Run`. -/
  | send (i : Nat)
  /-- `Run` returns or throws, and its caller goes on. -/
  | finish (i : Nat) (e : RunnerService.Ev)
  | remote (e : RunnerService.Ev)
  /-- The runner carries out the next command. -/
  | execute
  | leave

def isReturn : RunnerService.Ev → Bool
  | .cancelWrite | .writeFails | .read | .readFails => true
  | _ => false

def isMove : RunnerService.Ev → Bool
  | .write | .take | .send | .moveNext | .respond | .drop | .completeRequest | .completeResponse => true
  | _ => false

section System

variable [Durations] {Rest : Type} (host : Host Rest) (svc : CheckerService) (platform : Platform)

/-- What a task does on the machine. -/
def carryOut (m : Machine Rest) (task : RunnerTask) : Except Exn RunnerResult × Machine Rest :=
  ((runOn host (toCommandRequest task) m).1.bind toRunnerResult, (runOn host (toCommandRequest task) m).2)

def init (m : Machine Rest) : System Rest := ⟨Lib.Serial.init svc.initialFields, RunnerService.init, m, false, []⟩

def stepSend (s : System Rest) (i : Nat) : Option (System Rest) :=
  match Lib.Serial.step (program svc platform) s.calls (.act i .send) with
  | none => none
  | some calls =>
    match calls.shared.log.getLast? with
    | none => none
    | some entry =>
      (RunnerService.step s.remote (.call entry.request)).map fun remote => { s with calls := calls, remote := remote }

/-- The call of `Run` that ends is the one its caller awaits. -/
def stepFinish (s : System Rest) (i : Nat) (e : RunnerService.Ev) : Option (System Rest) :=
  match RunnerService.step s.remote e with
  | none => none
  | some remote =>
    match remote.outcomes.getLast? with
    | none => none
    | some (n, result) =>
      if awaited s.calls i = some n then
        (Lib.Serial.step (program svc platform) s.calls (.act i (.answer result))).map fun calls =>
          { s with calls := calls, remote := remote }
      else none

def stepExecute (s : System Rest) : Option (System Rest) :=
  match s.left, s.remote.sent with
  | false, cmd :: _ =>
    match runOn host cmd.request s.machine with
    | (.ok response, m) => (RunnerService.step s.remote (.answer response)).map fun remote =>
        { s with remote := remote, machine := m, executed := s.executed ++ [⟨cmd.run, s.machine, m⟩] }
    | (.error _, m) => some { s with machine := m, left := true }
  | _, _ => none

def step (s : System Rest) : Ev → Option (System Rest)
  | .calls e =>
    if isOwn e then (Lib.Serial.step (program svc platform) s.calls e).map fun calls =>
      { s with calls := calls } else none
  | .send i => stepSend svc platform s i
  | .finish i e => if isReturn e then stepFinish svc platform s i e else none
  | .remote e =>
    if isMove e then (RunnerService.step s.remote e).map fun remote => { s with remote := remote } else none
  | .execute => stepExecute host s
  | .leave => some { s with left := true }

end System

/-! ## Steps of the connection -/

section Connection

variable [Durations] {s s' : RunnerService.St} {e : RunnerService.Ev}

/-- A move of messages ends no call of `Run`. -/
theorem move_same (he : isMove e = true) (hs : RunnerService.step s e = some s') :
    s'.tasks = s.tasks ∧ s'.outcomes = s.outcomes ∧ s'.answered = s.answered ∧ s'.run.call = s.run.call := by
  cases e with
  | call | cancelWrite | writeFails | read | readFails | answer => cases he
  | write =>
    simp only [RunnerService.step, stepRun] at hs
    split at hs
    · next hrun =>
      split at hs
      · cases hs; rw [hrun]; exact ⟨rfl, rfl, rfl, rfl⟩
      · cases hs
    · cases hs
  | take | send | moveNext | completeRequest | completeResponse | drop =>
    simp only [RunnerService.step, stepConnect] at hs
    split at hs
    · cases hs; exact ⟨rfl, rfl, rfl, rfl⟩
    · cases hs
  | respond =>
    simp only [RunnerService.step, stepConnect] at hs
    split at hs
    · split at hs
      · cases hs; exact ⟨rfl, rfl, rfl, rfl⟩
      · cases hs
    · cases hs

/-- A call of `Run` that ends has its outcome. -/
theorem return_outcome (he : isReturn e = true) (hs : RunnerService.step s e = some s') :
    ∃ n result, s.run.call = some n ∧ s'.outcomes = s.outcomes ++ [(n, result)] ∧ s'.tasks = s.tasks ∧
      s'.answered = s.answered ∧ s'.run = .idle := by
  cases e with
  | call | write | take | send | answer | moveNext | respond | drop | completeRequest | completeResponse => cases he
  | cancelWrite =>
    simp only [RunnerService.step, stepRun] at hs
    split at hs
    · next hrun => cases hs; exact ⟨_, _, by rw [hrun]; rfl, rfl, rfl, rfl, rfl⟩
    · cases hs
  | writeFails | readFails =>
    simp only [RunnerService.step, stepRun] at hs
    split at hs
    · next hrun =>
      split at hs
      · cases hs; exact ⟨_, _, by rw [hrun]; rfl, rfl, rfl, rfl, rfl⟩
      · cases hs
    · cases hs
  | read =>
    simp only [RunnerService.step, stepRun] at hs
    split at hs
    · next hrun =>
      split at hs
      · cases hs; exact ⟨_, _, by rw [hrun]; rfl, rfl, rfl, rfl, rfl⟩
      · cases hs
    · cases hs

theorem call_idle {task : RunnerTask} (hs : RunnerService.step s (.call task) = some s') :
    s.run = .idle ∧ s' = { s with run := .writing s.tasks.length task, tasks := s.tasks ++ [task] } := by
  simp only [RunnerService.step, stepRun] at hs
  split at hs
  · next hrun => cases hs; exact ⟨hrun, rfl⟩
  · cases hs

theorem answer_first {response : CommandResponse} {cmd : Cmd} {rest : List Cmd} (hsent : s.sent = cmd :: rest)
    (hs : RunnerService.step s (.answer response) = some s') :
    s' = { s with sent := rest, received := s.received ++ [⟨cmd.run, response⟩],
                  answered := s.answered ++ [(cmd, response)] } := by
  simp only [RunnerService.step, stepConnect, hsent] at hs
  cases hs
  rfl

/-- The commands come in the order of the calls of `Run`. -/
def Ordered (s : RunnerService.St) : Prop := ((cmds s).map (·.run)).Pairwise (· < ·)

omit [Durations] in
theorem ordered_of_sublist (h : Ordered s) (hsub : (cmds s').Sublist (cmds s)) : Ordered s' :=
  h.sublist (hsub.map _)

/-- Commands are only written, answered and dropped. -/
theorem cmds_step (hs : RunnerService.step s e = some s') : (cmds s').Sublist (cmds s) ∨
    ∃ n task, s.run = .writing n task ∧ cmds s' = cmds s ++ [⟨n, toCommandRequest task⟩] := by
  cases e with
  | call task =>
    obtain ⟨-, rfl⟩ := call_idle hs
    exact Or.inl (List.Sublist.refl _)
  | write =>
    simp only [RunnerService.step, stepRun] at hs
    split at hs
    · next n task hrun =>
      split at hs
      · next request hwrite =>
        cases hs
        obtain ⟨-, hbuf, -⟩ := Lib.Channel.Chan.write_some hwrite
        exact Or.inr ⟨n, task, hrun, by simp [cmds, cmdsUnderWay, hbuf]⟩
      · cases hs
    · cases hs
  | cancelWrite =>
    simp only [RunnerService.step, stepRun] at hs
    split at hs
    · cases hs; exact Or.inl (List.Sublist.refl _)
    · cases hs
  | writeFails | readFails | read =>
    simp only [RunnerService.step, stepRun] at hs
    split at hs
    · split at hs
      · cases hs; exact Or.inl (List.Sublist.refl _)
      · cases hs
    · cases hs
  | take =>
    simp only [RunnerService.step, stepConnect] at hs
    split at hs
    · next cmd request hloop hread =>
      cases hs
      obtain ⟨hbuf, -⟩ := Lib.Channel.Chan.read_some hread
      left
      simp [cmds, cmdsUnderWay, hloop, LoopAt.cmd, hbuf]
    · cases hs
  | send =>
    simp only [RunnerService.step, stepConnect] at hs
    split at hs
    · next cmd hloop => cases hs; left; simp [cmds, cmdsUnderWay, hloop, LoopAt.cmd]
    · cases hs
  | answer response =>
    simp only [RunnerService.step, stepConnect] at hs
    split at hs
    · next cmd rest hsent => cases hs; left; simp [cmds, cmdsUnderWay, hsent]
    · cases hs
  | moveNext =>
    simp only [RunnerService.step, stepConnect] at hs
    split at hs
    · next hloop _ => cases hs; left; simp [cmds, cmdsUnderWay, hloop, LoopAt.cmd]
    · cases hs
  | respond =>
    simp only [RunnerService.step, stepConnect] at hs
    split at hs
    · next hloop =>
      split at hs
      · cases hs; left; simp [cmds, cmdsUnderWay, hloop, LoopAt.cmd]
      · cases hs
    · cases hs
  | drop =>
    simp only [RunnerService.step, stepConnect] at hs
    split at hs
    · cases hs
      left
      exact List.Sublist.append_left (List.Sublist.append_left (List.sublist_append_right _ _) _) _
    · cases hs
  | completeRequest | completeResponse =>
    simp only [RunnerService.step, stepConnect] at hs
    split at hs
    · next hloop => cases hs; left; simp [cmds, cmdsUnderWay, hloop, LoopAt.cmd]
    · cases hs

theorem ordered_step (hinv : RunnerService.Inv s) (h : Ordered s) (hs : RunnerService.step s e = some s') :
    Ordered s' := by
  rcases cmds_step hs with hsub | ⟨n, task, hrun, hcmds⟩
  · exact ordered_of_sublist h hsub
  · unfold Ordered
    rw [hcmds, List.map_append]
    refine List.pairwise_append.mpr ⟨h, List.pairwise_singleton _ _, fun a ha b hb => ?_⟩
    obtain ⟨cmd, hcmd, rfl⟩ := List.mem_map.mp ha
    rw [List.mem_singleton.mp hb]
    obtain ⟨t, ht, -⟩ := hinv.own cmd hcmd
    have hlt := (List.getElem?_eq_some_iff.mp ht).1
    have hlast := hinv.last n (by rw [hrun]; rfl)
    have hne : cmd.run ≠ n := fun heq => hinv.unwritten n task hrun (heq ▸ List.mem_map_of_mem hcmd)
    show cmd.run < n
    omega

end Connection

/-! ## The invariant -/

section Invariant

variable [Durations] {Rest : Type} {host : Host Rest} {svc : CheckerService} {platform : Platform}

/-- The machine carried out the command and gave the answer. -/
def Carried (host : Host Rest) (x : Execution (Machine Rest)) (a : Cmd × CommandResponse) : Prop :=
  x.run = a.1.run ∧ runOn host a.1.request x.before = (.ok a.2, x.after)

structure Inv (host : Host Rest) (svc : CheckerService) (platform : Platform) (s : System Rest) : Prop where
  serial : Lib.Serial.Inv (discipline svc) s.calls
  told : AllTold (program svc platform) s.calls
  connection : RunnerService.Inv s.remote
  ordered : Ordered s.remote
  /-- The calls of `Run` are the requests of the calls. -/
  tasks : s.remote.tasks = s.calls.shared.log.map Entry.request
  outcomes : ∀ n r, s.calls.shared.answers n = some r → (n, r) ∈ s.remote.outcomes
  waiting : ∀ n, s.remote.run.call = some n → ∃ i, awaited s.calls i = some n
  carried : List.Forall₂ (Carried host) s.executed s.remote.answered
  chained : s.executed.IsChain fun a b => b.before = a.after
  current : s.left = false → ∀ x ∈ s.executed.getLast?, s.machine = x.after

theorem init_inv (m : Machine Rest) : Inv host svc platform (init svc m) where
  serial := Lib.Serial.inv_init (initialFields_inv svc)
  told := told_init
  connection := RunnerService.inv_init
  ordered := by simp [Ordered, init, RunnerService.init, cmds, cmdsUnderWay, LoopAt.cmd, Lib.Channel.Chan.empty]
  tasks := rfl
  outcomes n r h := by cases h
  waiting n h := by cases h
  carried := .nil
  chained := .nil
  current _ x hx := by cases hx

variable {s : System Rest}

theorem calls_inv (h : Inv host svc platform s) {e : Exclusive.Event} {calls : Exclusive.State} (he : isOwn e = true)
    (hs : Lib.Serial.step (program svc platform) s.calls e = some calls) :
    Inv host svc platform { s with calls := calls } := by
  obtain ⟨hlog, hanswers, hawaited⟩ := own_step he hs
  exact ⟨Lib.Serial.inv_step (follows_program svc platform) h.serial hs, told_step h.told hs, h.connection, h.ordered,
    by rw [h.tasks, hlog], fun n r hr => h.outcomes n r (hanswers ▸ hr),
    fun n hn => (h.waiting n hn).imp fun i hi => (hawaited i).trans hi, h.carried, h.chained, h.current⟩

theorem send_inv (h : Inv host svc platform s) {i : Nat} {s' : System Rest} (hs : stepSend svc platform s i = some s') :
    Inv host svc platform s' := by
  unfold stepSend at hs
  split at hs
  · cases hs
  · next calls hcalls =>
    obtain ⟨entry, hlog, hanswers, hmine, hothers⟩ := send_step hcalls
    rw [hlog, List.getLast?_append, List.getLast?_singleton] at hs
    obtain ⟨remote, hremote, rfl⟩ := Option.map_eq_some_iff.mp hs
    have hconnection := RunnerService.inv_step h.connection hremote
    have hordered := ordered_step h.connection h.ordered hremote
    obtain ⟨hidle, rfl⟩ := call_idle hremote
    refine ⟨Lib.Serial.inv_step (follows_program svc platform) h.serial hcalls, told_step h.told hcalls, hconnection,
      hordered, ?_, fun n r hr => h.outcomes n r (hanswers ▸ hr), fun n hn => ?_, h.carried, h.chained, h.current⟩
    · show s.remote.tasks ++ [entry.request] = _
      rw [h.tasks, hlog, List.map_append, List.map_singleton]
    · refine ⟨i, ?_⟩
      have hn : s.remote.tasks.length = n := Option.some.inj hn
      rw [← hn, h.tasks, List.length_map]
      exact hmine

theorem finish_inv (h : Inv host svc platform s) {i : Nat} {e : RunnerService.Ev} {s' : System Rest}
    (he : isReturn e = true) (hs : stepFinish svc platform s i e = some s') : Inv host svc platform s' := by
  unfold stepFinish at hs
  split at hs
  · cases hs
  · next remote hremote =>
    have hconnection := RunnerService.inv_step h.connection hremote
    have hordered := ordered_step h.connection h.ordered hremote
    obtain ⟨n, result, hrun, houtcomes, htasks, hanswered, hidle⟩ := return_outcome he hremote
    rw [houtcomes, List.getLast?_append, List.getLast?_singleton] at hs
    simp only [Option.some_or] at hs
    split at hs
    · next hmine =>
      obtain ⟨calls, hcalls, rfl⟩ := Option.map_eq_some_iff.mp hs
      obtain ⟨m, hm, hlog, hanswers, -, hothers⟩ := answer_step hcalls
      rw [hmine] at hm
      obtain rfl := Option.some.inj hm
      refine ⟨Lib.Serial.inv_step (follows_program svc platform) h.serial hcalls, told_step h.told hcalls, hconnection,
        hordered, ?_, fun k r hr => ?_, fun k hk => ?_, ?_, h.chained, h.current⟩
      · rw [htasks, h.tasks, hlog]
      · rw [hanswers] at hr
        rw [houtcomes]
        by_cases hk : k = n
        · subst hk
          rw [upd_same] at hr
          rw [Option.some.inj hr]
          exact List.mem_append_right _ (List.mem_singleton.mpr rfl)
        · rw [upd_ne _ _ hk] at hr
          exact List.mem_append_left _ (h.outcomes k r hr)
      · rw [hidle] at hk; cases hk
      · rw [hanswered]; exact h.carried
    · cases hs

theorem remote_inv (h : Inv host svc platform s) {e : RunnerService.Ev} {remote : RunnerService.St}
    (he : isMove e = true) (hs : RunnerService.step s.remote e = some remote) :
    Inv host svc platform { s with remote := remote } := by
  obtain ⟨htasks, houtcomes, hanswered, hcall⟩ := move_same he hs
  exact ⟨h.serial, h.told, RunnerService.inv_step h.connection hs, ordered_step h.connection h.ordered hs,
    htasks.trans h.tasks, fun n r hr => houtcomes ▸ h.outcomes n r hr, fun n hn => h.waiting n (hcall ▸ hn),
    hanswered ▸ h.carried, h.chained, h.current⟩

theorem execute_inv (h : Inv host svc platform s) {s' : System Rest} (hs : stepExecute host s = some s') :
    Inv host svc platform s' := by
  unfold stepExecute at hs
  split at hs
  · next cmd rest hleft hsent =>
    split at hs
    · next response m hrun =>
      obtain ⟨remote, hremote, rfl⟩ := Option.map_eq_some_iff.mp hs
      have hconnection := RunnerService.inv_step h.connection hremote
      have hordered := ordered_step h.connection h.ordered hremote
      obtain rfl := answer_first hsent hremote
      refine ⟨h.serial, h.told, hconnection, hordered, h.tasks, h.outcomes, h.waiting,
        List.rel_append h.carried (.cons ⟨rfl, hrun⟩ .nil), ?_, fun _ x hx => ?_⟩
      · refine List.isChain_append.mpr ⟨h.chained, List.isChain_singleton _, fun x hx y hy => ?_⟩
        cases hy
        exact h.current hleft x hx
      · rw [List.getLast?_append, List.getLast?_singleton] at hx
        cases hx
        rfl
    · cases hs
      exact ⟨h.serial, h.told, h.connection, h.ordered, h.tasks, h.outcomes, h.waiting, h.carried, h.chained,
        fun hleft => by cases hleft⟩
  · cases hs

theorem step_inv {s' : System Rest} {e : Ev} (h : Inv host svc platform s) (hs : step host svc platform s e = some s') :
    Inv host svc platform s' := by
  cases e with
  | calls e =>
    simp only [step] at hs
    split at hs
    · next he =>
      obtain ⟨calls, hcalls, rfl⟩ := Option.map_eq_some_iff.mp hs
      exact calls_inv h he hcalls
    · cases hs
  | send i => exact send_inv h hs
  | finish i e =>
    simp only [step] at hs
    split at hs
    · next he => exact finish_inv h he hs
    · cases hs
  | remote e =>
    simp only [step] at hs
    split at hs
    · next he =>
      obtain ⟨remote, hremote, rfl⟩ := Option.map_eq_some_iff.mp hs
      exact remote_inv h he hremote
    · cases hs
  | execute => exact execute_inv h hs
  | leave =>
    cases hs
    exact ⟨h.serial, h.told, h.connection, h.ordered, h.tasks, h.outcomes, h.waiting, h.carried, h.chained,
      fun hleft => by cases hleft⟩

/-- Of the calls, a step moves one or none. -/
theorem calls_step {s' : System Rest} {e : Ev} (hs : step host svc platform s e = some s') :
    s'.calls = s.calls ∨ ∃ e, Lib.Serial.step (program svc platform) s.calls e = some s'.calls := by
  cases e with
  | calls e =>
    simp only [step] at hs
    split at hs
    · obtain ⟨calls, hcalls, rfl⟩ := Option.map_eq_some_iff.mp hs
      exact Or.inr ⟨e, hcalls⟩
    · cases hs
  | send i =>
    simp only [step, stepSend] at hs
    split at hs
    · cases hs
    · next calls hcalls =>
      split at hs
      · cases hs
      · obtain ⟨remote, -, rfl⟩ := Option.map_eq_some_iff.mp hs
        exact Or.inr ⟨_, hcalls⟩
  | finish i e =>
    simp only [step] at hs
    split at hs
    · unfold stepFinish at hs
      split at hs
      · cases hs
      · split at hs
        · cases hs
        · split at hs
          · obtain ⟨calls, hcalls, rfl⟩ := Option.map_eq_some_iff.mp hs
            exact Or.inr ⟨_, hcalls⟩
          · cases hs
    · cases hs
  | remote e =>
    simp only [step] at hs
    split at hs
    · obtain ⟨remote, -, rfl⟩ := Option.map_eq_some_iff.mp hs
      exact Or.inl rfl
    · cases hs
  | execute =>
    simp only [step, stepExecute] at hs
    split at hs
    · split at hs
      · obtain ⟨remote, -, rfl⟩ := Option.map_eq_some_iff.mp hs
        exact Or.inl rfl
      · cases hs; exact Or.inl rfl
    · cases hs
  | leave => cases hs; exact Or.inl rfl

/-- What the machine carried out is what the calls were answered. -/
theorem Inv.executed (h : Inv host svc platform s) : Executed (carryOut host) s.calls.shared s.executed where
  sorted := by
    have hruns : ∀ {l : List (Execution (Machine Rest))} {m : List (Cmd × CommandResponse)},
        List.Forall₂ (Carried host) l m → l.map (·.run) = m.map fun a => a.1.run := by
      intro l m hlm
      induction hlm with
      | nil => rfl
      | cons hxa _ ih => rw [List.map_cons, List.map_cons, ih, hxa.1]
    have hordered := h.ordered
    unfold Ordered cmds at hordered
    rw [List.map_append, List.map_map] at hordered
    have hanswered : (s.remote.answered.map fun a => a.1.run).Pairwise (· < ·) := (List.pairwise_append.mp hordered).1
    rw [← hruns h.carried] at hanswered
    exact List.pairwise_map.mp hanswered
  chained := h.chained
  answered n e a he ha := by
    obtain ⟨rsp, hrsp, hrun, hresult⟩ := h.connection.paired n a (h.outcomes n _ ha)
    obtain ⟨cmd, hcmd, hnumber⟩ := h.connection.answer rsp (List.mem_append_left _ hrsp)
    obtain ⟨task, htask, hrequest⟩ := h.connection.own cmd (List.mem_append_left _ (List.mem_map_of_mem hcmd))
    -- the command with the number of the request is the command of the request
    have hmine : task = e.request := by
      rw [hnumber, hrun, h.tasks, List.getElem?_map, he] at htask
      exact (Option.some.inj htask).symm
    obtain ⟨x, hx, hxrun, hxcarried⟩ := (forall₂_exists h.carried).2 _ hcmd
    refine ⟨x, hx, by rw [hxrun, hnumber, hrun], ?_⟩
    unfold carryOut
    rw [← hmine, ← hrequest, hxcarried]
    show (toRunnerResult rsp.response, x.after) = _
    rw [hresult]

/-- A call that can send a request finds no other call of `Run` under way. -/
theorem Inv.ready (h : Inv host svc platform s) {i : Nat} {calls : Exclusive.State}
    (hs : Lib.Serial.step (program svc platform) s.calls (.act i .send) = some calls) : s.remote.run = .idle := by
  have hnone : s.remote.run.call = none := by
    cases hcall : s.remote.run.call with
    | none => rfl
    | some n =>
      exfalso
      obtain ⟨j, hj⟩ := h.waiting n hcall
      obtain ⟨p, g', p', hp, hact, -⟩ := act_step hs
      obtain ⟨q, k, hq, hat⟩ := awaited_some hj
      have hholding := sends_holding h.serial hp hact
      have hij : i = j := h.serial.exclusive i j p q hp hq hholding (awaiting_holding h.serial hq hat)
      subst hij
      rw [hp] at hq
      cases hq
      simp only [stepProc, hat] at hact
      cases hact
  cases hrun : s.remote.run with
  | idle => rfl
  | writing n task | reading n => rw [hrun] at hnone; cases hnone

end Invariant

/-! ## Checks and runs -/

section Straight

variable {svc : CheckerService} {platform : Platform}

theorem straight_requestFor (configuration : CompilatorConfiguration) (task : RunnerTask) :
    Straight (svc.requestFor configuration task) := by
  unfold requestFor
  split
  · exact straight_request task
  · exact straight_throw _

theorem straight_checkTest (name : String) (configuration : CompilatorConfiguration) (checker : SimpleChecker)
    (input output : Bytes) (timeLimit : TimeSpan) (memoryLimitMb : Int) :
    Straight (svc.checkTest name configuration checker input output timeLimit memoryLimitMb) := by
  unfold checkTest
  refine straight_bind (fun result => ?_) (straight_requestFor _ _)
  exact straight_bind (fun status => straight_lift _) (straight_lift _)

theorem straight_testAttempts (request : CheckRequest) (checker : SimpleChecker) (test : CheckTest) :
    ∀ (retries : Nat) (acc : Progress), Straight (svc.testAttempts platform request checker test retries acc) := by
  intro retries
  induction retries with
  | zero =>
    intro acc
    unfold testAttempts
    exact straight_bind (fun x => straight_lift _) (straight_checkTest _ _ _ _ _ _ _)
  | succ retries ih =>
    intro acc
    unfold testAttempts
    refine straight_bind (fun x => ?_) (straight_checkTest _ _ _ _ _ _ _)
    simp only
    split
    · exact ih _
    · exact straight_lift _

theorem straight_testLoop (request : CheckRequest) (checker : SimpleChecker) :
    ∀ (tests : List CheckTest) (acc : Progress),
    Straight (svc.testLoop platform request checker tests acc) := by
  intro tests
  induction tests with
  | nil => intro acc; exact straight_lift _
  | cons test tests ih =>
    intro acc
    unfold testLoop
    refine straight_bind (fun x => ?_) (straight_testAttempts _ _ _ _ _)
    obtain ⟨status, result, acc⟩ := x
    simp only
    split
    · exact ih _
    · refine straight_bind (fun acc => ?_) (straight_lift _)
      split
      · exact ih _
      · exact straight_lift _

theorem straight_checkBody (request : CheckRequest) (elapsed : TimeSpan) :
    Straight (svc.checkBody platform request elapsed) := by
  unfold checkBody
  simp only
  split
  · exact straight_throw _
  · refine straight_bind (fun result => ?_) (straight_requestFor _ _)
    split
    · exact straight_bind (fun code => straight_lift _) (straight_lift _)
    · split
      · exact straight_throw _
      · exact straight_bind (fun acc => straight_lift _) (straight_testLoop _ _ _ _)

theorem straight_runBody (source : String) (configuration : CompilatorConfiguration) (input : String)
    (timeLimit : TimeSpan) (memoryLimitMb : Int) (guid : String) :
    Straight (svc.runBody source configuration input timeLimit memoryLimitMb guid) := by
  unfold runBody
  refine straight_bind (fun result => ?_) (straight_requestFor _ _)
  simp only
  split
  · exact straight_lift _
  · exact straight_bind (fun result => straight_lift _) (straight_requestFor _ _)

abbrev Clears (task : RunnerTask) : Prop := task.clearWorkdir = true

theorem starts_compile (name source : String) (configuration : CompilatorConfiguration) :
    Starts Clears (svc.compile name configuration source true) := by
  unfold compile requestFor
  split
  · rfl
  · exact ⟨_, rfl⟩

/-- Each begins with a compilation, in a work directory that is cleared. -/
theorem starts_checkBody (request : CheckRequest) (elapsed : TimeSpan) :
    Starts Clears (svc.checkBody platform request elapsed) := by
  unfold checkBody
  simp only
  split
  · exact ⟨_, rfl⟩
  · exact starts_bind (starts_compile _ _ _)

theorem starts_runBody (source : String) (configuration : CompilatorConfiguration) (input : String)
    (timeLimit : TimeSpan) (memoryLimitMb : Int) (guid : String) :
    Starts Clears (svc.runBody source configuration input timeLimit memoryLimitMb guid) :=
  starts_bind (starts_compile _ _ _)

end Straight

/-! ## The law -/

section Law

variable [Durations] {Rest : Type} {host : Host Rest} {svc : CheckerService} {platform : Platform}

theorem carryOut_withoutFiles {task : RunnerTask} (hclear : Clears task) {m : Machine Rest} {result : RunnerResult}
    (h : (carryOut host m task).1 = .ok result) : carryOut host m.withoutFiles task = carryOut host m task := by
  have hok : ∃ response, (runOn host (toCommandRequest task) m).1 = .ok response := by
    cases hresponse : (runOn host (toCommandRequest task) m).1 with
    | ok response => exact ⟨response, rfl⟩
    | error e =>
      unfold carryOut at h
      rw [hresponse] at h
      cases h
  obtain ⟨response, hresponse⟩ := hok
  unfold carryOut
  rw [runOn_withoutFiles hclear hresponse]

def Judges : Call → Prop
  | .check _ _ | .run _ _ _ _ _ _ => True
  | .loadCompilators | .runSelfTests => False

structure Law (host : Host Rest) (svc : CheckerService) (platform : Platform) (s : System Rest) : Prop where
  /-- A call that comes to a request can have it made: no two calls of `Run` are under way. -/
  apart : ∀ i calls, Lib.Serial.step (program svc platform) s.calls (.act i .send) = some calls → s.remote.run = .idle
  /-- A check, or a run of a page, that returned has returned what it returns alone, on the
      machine as it was when its first command came, without the files directly in the work
      directory. -/
  alone : ∀ i p output, s.calls.procs i = some p → Judges p.call → p.at_ = .running (.ret (.ok output)) →
    ∃ x ∈ s.executed, IsFirst s.calls.shared i x.run ∧
      ∃ m', served (carryOut host) (program svc platform p.call) svc.initialFields x.before.withoutFiles =
        (.ok output, m')

theorem Inv.law {s : System Rest} (h : Inv host svc platform s) : Law host svc platform s where
  apart i calls hs := h.ready hs
  alone i p output hp hjudges hended := by
    have hcleared : ∀ (m : Machine Rest) (task : RunnerTask) (result : RunnerResult), Clears task →
        (carryOut host m task).1 = .ok result → carryOut host m.withoutFiles task = carryOut host m task :=
      fun m task result hclear hok => carryOut_withoutFiles hclear hok
    cases hcall : p.call with
    | loadCompilators | runSelfTests => rw [hcall] at hjudges; cases hjudges
    | check request elapsed =>
      obtain ⟨x, hx, hmine, halone⟩ := returned_alone h.told h.serial.contiguous h.executed hp
        (straight_checkBody request elapsed) (starts_checkBody request elapsed)
        (by rw [hcall]; rfl : program svc platform p.call = locked _ Output.checked) hended svc.initialFields
      rw [hcall] at halone
      exact ⟨x, hx, hmine, halone _ (hcleared x.before)⟩
    | run source configuration input timeLimit memoryLimitMb guid =>
      obtain ⟨x, hx, hmine, halone⟩ := returned_alone h.told h.serial.contiguous h.executed hp
        (straight_runBody source configuration input timeLimit memoryLimitMb guid)
        (starts_runBody source configuration input timeLimit memoryLimitMb guid)
        (by rw [hcall]; rfl : program svc platform p.call = locked _ Output.ran) hended svc.initialFields
      rw [hcall] at halone
      exact ⟨x, hx, hmine, halone _ (hcleared x.before)⟩

/-- In every run of the calls of a service, of its connection and of the runner's machine, from
    a machine in any state. -/
theorem judged_alone (host : Host Rest) (svc : CheckerService) (platform : Platform) (m : Machine Rest) (es : List Ev) :
    Always (step host svc platform) (Law host svc platform) (init svc m) es :=
  (always_of_inv (fun _ _ _ h hs => step_inv h hs) (init_inv m) es).mono fun _ h => h.law

end Law

/-! ## Two page runs, one after the other -/

/-- A program writes a star for each file that is in the work directory, and one more. -/
def sampleHost : Host Unit where
  naming := ⟨false, .asciiOnly⟩
  isSeparator c := c == '/'
  inWorkDirectory name := some name
  delete _ _ := .ok ()
  create _ _ _ := .ok ()
  createElsewhere _ _ _ := (.ok (), ())
  readLines _ _ := .ok []
  execute _ m := (.ok ⟨0, 0, 0, 0, ⟨[0x2a :: List.replicate m.files.entries.length 0x2a], by simp⟩, ⟨[], by simp⟩⟩, m)

def sampleConfiguration : CompilatorConfiguration where
  name := "C"
  language := "C"
  configName := "gcc"
  useSlowTimeLimit := false
  memoryOverheadMb := 0
  getSourceFileName name := name ++ ".c"
  getCompileCommand _ := "gcc"
  runCommand _ _ := "run"
  getVersionCommand := "gcc --version"
  parseInfo output := .ok (output, none)

def pageService : CheckerService where
  runner := ⟨"A", "A", ["gcc"]⟩
  compilatorConfigurations := [sampleConfiguration]
  checkerTests := []
  simpleCheckers := []
  simpleCheckers_ids := List.nodup_nil

def thereAndBack (i : Nat) : List Ev :=
  [.send i, .remote .write, .remote .take, .remote .send, .execute, .remote .moveNext,
    .remote .respond, .finish i .read]

/-- The page compiles a program and runs it. -/
def pageRun (i : Nat) (guid : String) : List Ev :=
  [.calls (.start i (.run "main" sampleConfiguration "" 0 64 guid)), .calls (.act i .acquire)] ++ thereAndBack i ++
    thereAndBack i ++ [.calls (.act i .release)]

/-- What the call has returned to its page. -/
def pageLog (s : System Unit) (i : Nat) : Option String :=
  match s.calls.procs i with
  | none => none
  | some p =>
    match p.at_ with
    | .running (.ret (.ok (.ran log))) => some log
    | _ => none

section Sample

local instance sampleDurations : Durations := Runner.RunnerClientService.ticks

/-- The first run leaves its source, and the second returns the same. -/
def sampleRun : System Unit :=
  final (step sampleHost pageService ⟨"\n", fun _ => "", fun _ => ""⟩)
    (init pageService ⟨Dict.empty.set "left.c" [], ()⟩)
    (pageRun 0 "first" ++ pageRun 1 "second")

theorem judged_sample :
    (pageLog sampleRun 0 = pageLog sampleRun 1 ∧ (pageLog sampleRun 1).isSome = true) ∧
      Law sampleHost pageService ⟨"\n", fun _ => "", fun _ => ""⟩ sampleRun :=
  ⟨by decide +kernel, (judged_alone sampleHost pageService _ _ (pageRun 0 "first" ++ pageRun 1 "second")).last⟩

end Sample

end OlympSystem.Site.RemoteJudging
