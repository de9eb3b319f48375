/-
  OlympSystem.Site.RunnerService — how `RunnerService.Run` and `RunnerService.Connect`
  pair requests with responses.

  Actors. Calls of `Run` come one after another (`CheckerService` holds its semaphore
  around them). `Run` writes its request to `_request` (cancellable) and reads one
  response from `_response` (not cancellable). The loop of `Connect` takes a command
  from `_request`, sends it, waits for the stream's next message and writes it to
  `_response`; anything may end it, and then the finally block completes both channels,
  `_request` first. The remote runner answers each command it receives by one response,
  in order. Both channels are FIFO with capacity 1.

  A command and a response carry the number of the `Run` they come from. No step looks
  at it: the messages themselves have no correlation id.

  Proved, over every interleaving:
  - `inv_step`: the invariant `Inv`, in particular that at most one message of a live
    loop is under way, and that it is the current `Run`'s.
  - `run_pairs`: a `Run` that returns returns the answer to its own request; no two
    `Run`s end with one number and no two answers carry one; and after the finally block
    a `Run` that has not received its response never returns one: it can only throw, and
    can do so at once.
-/

import Mathlib.Data.List.Nodup
import OlympSystem.Lib.Channel
import OlympSystem.Lib.Runs
import OlympSystem.Site.RunnerMessages

namespace OlympSystem.Site.RunnerService

open Lib.Runs Lib.Channel OlympSystem.Checker

structure Cmd where
  run : Nat
  request : CommandRequest
  deriving DecidableEq, Repr

structure Rsp where
  run : Nat
  response : CommandResponse
  deriving DecidableEq, Repr

/-- Where the current call of `Run` is. -/
inductive RunAt where
  | idle
  /-- At `_request.Writer.WriteAsync`. -/
  | writing (n : Nat) (task : RunnerTask)
  /-- At `_response.Reader.ReadAsync`. -/
  | reading (n : Nat)
  deriving DecidableEq, Repr

/-- Where `Connect` is, from its command loop on. -/
inductive LoopAt where
  | taking
  | sending (cmd : Cmd)
  | awaiting
  | responding (rsp : Rsp)
  /-- In the finally block, before `_request` is completed. -/
  | closing
  /-- `_request` is completed, `_response` is not. -/
  | closingResponse
  | closed
  deriving DecidableEq, Repr

def LoopAt.live : LoopAt → Bool
  | .taking | .sending _ | .awaiting | .responding _ => true
  | _ => false

structure St where
  run : RunAt
  /-- The tasks of the calls so far: call `n` has task `tasks[n]`. -/
  tasks : List RunnerTask
  request : Chan 1 Cmd
  response : Chan 1 Rsp
  loop : LoopAt
  /-- Commands sent that the remote runner has not answered. -/
  sent : List Cmd
  /-- Responses of the remote runner that the loop has not read. -/
  received : List Rsp
  /-- What the remote runner answered to each command. -/
  answered : List (Cmd × CommandResponse)
  /-- The responses that calls of `Run` took from `_response`. -/
  taken : List Rsp
  outcomes : List (Nat × Except Exn RunnerResult)

def init : St := ⟨.idle, [], .empty, .empty, .taking, [], [], [], [], []⟩

inductive Ev where
  | call (task : RunnerTask)
  | write
  | cancelWrite
  | writeFails
  | read
  | readFails
  | take
  | send
  | answer (response : CommandResponse)
  | moveNext
  | respond
  /-- The connection ends, the call is cancelled, or a stream operation throws. -/
  | drop
  | completeRequest
  | completeResponse

def finish (s : St) (n : Nat) (result : Except Exn RunnerResult) : St :=
  { s with run := .idle, outcomes := s.outcomes ++ [(n, result)] }

variable [Durations]

def stepRun (s : St) : Ev → Option St
  | .call task =>
    match s.run with
    | .idle => some { s with run := .writing s.tasks.length task, tasks := s.tasks ++ [task] }
    | _ => none
  | .write =>
    match s.run with
    | .writing n task =>
      match s.request.write ⟨n, toCommandRequest task⟩ with
      | some request => some { s with run := .reading n, request := request }
      | none => none
    | _ => none
  | .cancelWrite =>
    match s.run with
    | .writing n _ => some (finish s n (.error .operationCanceled))
    | _ => none
  | .writeFails =>
    match s.run with
    | .writing n _ => if s.request.writeFails then some (finish s n (.error .channelClosed)) else none
    | _ => none
  | .read =>
    match s.run with
    | .reading n =>
      match s.response.read with
      | some (rsp, response) =>
        some (finish { s with response := response, taken := s.taken ++ [rsp] } n (toRunnerResult rsp.response))
      | none => none
    | _ => none
  | .readFails =>
    match s.run with
    | .reading n => if s.response.readFails then some (finish s n (.error .channelClosed)) else none
    | _ => none
  | _ => none

/-- The steps of `Connect` and of the remote runner. -/
def stepConnect (s : St) : Ev → Option St
  | .take =>
    match s.loop, s.request.read with
    | .taking, some (cmd, request) => some { s with loop := .sending cmd, request := request }
    | _, _ => none
  | .send =>
    match s.loop with
    | .sending cmd => some { s with loop := .awaiting, sent := s.sent ++ [cmd] }
    | _ => none
  | .answer response =>
    match s.sent with
    | cmd :: rest =>
      some { s with sent := rest, received := s.received ++ [⟨cmd.run, response⟩],
                    answered := s.answered ++ [(cmd, response)] }
    | [] => none
  | .moveNext =>
    match s.loop, s.received with
    | .awaiting, rsp :: rest => some { s with loop := .responding rsp, received := rest }
    | _, _ => none
  | .respond =>
    match s.loop with
    | .responding rsp =>
      match s.response.write rsp with
      | some response => some { s with loop := .taking, response := response }
      | none => none
    | _ => none
  | .drop => if s.loop.live then some { s with loop := .closing } else none
  | .completeRequest =>
    match s.loop with
    | .closing => some { s with loop := .closingResponse, request := s.request.complete }
    | _ => none
  | .completeResponse =>
    match s.loop with
    | .closingResponse => some { s with loop := .closed, response := s.response.complete }
    | _ => none
  | _ => none

def step (s : St) (e : Ev) : Option St :=
  match e with
  | .call _ | .write | .cancelWrite | .writeFails | .read | .readFails => stepRun s e
  | _ => stepConnect s e

/-! ## The invariant -/

def RunAt.call : RunAt → Option Nat
  | .idle => none
  | .writing n _ | .reading n => some n

def LoopAt.cmd : LoopAt → List Cmd
  | .sending cmd => [cmd]
  | _ => []

def LoopAt.rsp : LoopAt → List Rsp
  | .responding rsp => [rsp]
  | _ => []

/-- The commands on their way to the remote runner, oldest first. -/
def cmdsUnderWay (s : St) : List Cmd := s.sent ++ (s.loop.cmd ++ s.request.buf)

/-- Every command written, oldest first, but for those a dying loop dropped. -/
def cmds (s : St) : List Cmd := s.answered.map (·.1) ++ cmdsUnderWay s

/-- The responses on their way to `Run`, oldest first. -/
def rspsUnderWay (s : St) : List Rsp := s.response.buf ++ (s.loop.rsp ++ s.received)

/-- Every response given, oldest first, but for those a dying loop dropped. -/
def rsps (s : St) : List Rsp := s.taken ++ rspsUnderWay s

structure Inv (s : St) : Prop where
  task : ∀ n task, s.run = .writing n task → s.tasks[n]? = some task
  last : ∀ n, s.run.call = some n → n + 1 = s.tasks.length
  ended : ∀ o ∈ s.outcomes, o.1 < s.tasks.length ∧ s.run.call ≠ some o.1
  once : (s.outcomes.map (·.1)).Nodup
  own : ∀ cmd ∈ cmds s, ∃ task, s.tasks[cmd.run]? = some task ∧ cmd.request = toCommandRequest task
  cmdOnce : ((cmds s).map (·.run)).Nodup
  unwritten : ∀ n task, s.run = .writing n task → n ∉ (cmds s).map (·.run)
  answer : ∀ rsp ∈ rsps s, ∃ cmd, (cmd, rsp.response) ∈ s.answered ∧ cmd.run = rsp.run
  rspOnce : ((rsps s).map (·.run)).Nodup
  /-- What a live loop has under way is the current call's. -/
  liveCmd : s.loop.live = true → ∀ cmd ∈ cmdsUnderWay s, s.run = .reading cmd.run
  liveRsp : s.loop.live = true → ∀ rsp ∈ rspsUnderWay s, s.run = .reading rsp.run
  buffered : ∀ rsp ∈ s.response.buf, s.run = .reading rsp.run
  requestOpen : s.request.completed = true ↔ s.loop = .closingResponse ∨ s.loop = .closed
  responseOpen : s.response.completed = true ↔ s.loop = .closed
  paired : ∀ n r, (n, .ok r) ∈ s.outcomes → ∃ rsp ∈ s.taken, rsp.run = n ∧ toRunnerResult rsp.response = .ok r

theorem inv_init : Inv init := by
  constructor <;> simp [init, cmds, cmdsUnderWay, rsps, rspsUnderWay, LoopAt.cmd, LoopAt.rsp, RunAt.call, Chan.empty]

omit [Durations] in
theorem mem_rsps {s : St} {rsp : Rsp} (h : rsp ∈ rspsUnderWay s) : rsp ∈ rsps s := List.mem_append_right _ h

/-- An answered command is not under way. -/
theorem answered_not_underWay {s : St} (h : Inv s) {cmd cmd' : Cmd} {response : CommandResponse}
    (ha : (cmd, response) ∈ s.answered) (hu : cmd' ∈ cmdsUnderWay s) : cmd.run ≠ cmd'.run := by
  have := h.cmdOnce
  rw [cmds, List.map_append] at this
  exact (List.nodup_append.mp this).2.2 _ (List.mem_map_of_mem (List.mem_map_of_mem ha)) _ (List.mem_map_of_mem hu)

/-- A call that ends, not by a response, leaves the rest of the invariant as it is. -/
theorem inv_finish {s : St} (h : Inv s) {n : Nat} (hn : s.run.call = some n) {e : Exn}
    (hquiet : ∀ m, s.run = .reading m → s.loop.live = false ∧ s.response.buf = []) :
    Inv (finish s n (.error e)) where
  task _ _ hr := nomatch hr
  last _ hr := nomatch hr
  ended o ho := by
    refine ⟨?_, by simp [finish, RunAt.call]⟩
    rcases List.mem_append.mp ho with ho | ho
    · exact (h.ended o ho).1
    · rw [List.mem_singleton.mp ho]; have := h.last n hn; show n < s.tasks.length; omega
  once := by
    simp only [finish, List.map_append, List.map_cons, List.map_nil]
    refine List.nodup_append.mpr ⟨h.once, List.nodup_singleton _, fun a ha b hb => ?_⟩
    obtain ⟨o, ho, rfl⟩ := List.mem_map.mp ha
    rw [List.mem_singleton.mp hb]
    rintro rfl
    exact (h.ended o ho).2 hn
  own := h.own
  cmdOnce := h.cmdOnce
  unwritten _ _ hr := nomatch hr
  answer := h.answer
  rspOnce := h.rspOnce
  liveCmd hl cmd hc := by
    have hr := h.liveCmd hl cmd hc
    have hd : s.loop.live = false := (hquiet _ hr).1
    simp [show s.loop.live = true from hl] at hd
  liveRsp hl rsp hc := by
    have hr := h.liveRsp hl rsp hc
    have hd : s.loop.live = false := (hquiet _ hr).1
    simp [show s.loop.live = true from hl] at hd
  buffered rsp hb := by
    have hr := h.buffered rsp hb
    have hb' : rsp ∈ s.response.buf := hb
    rw [(hquiet _ hr).2] at hb'; cases hb'
  requestOpen := h.requestOpen
  responseOpen := h.responseOpen
  paired m r hm := by
    rcases List.mem_append.mp hm with hm | hm
    · exact h.paired m r hm
    · simp at hm

/-- The current call takes a response: it is its own, and nothing else is under way. -/
theorem inv_read {s : St} (h : Inv s) {n : Nat} (hn : s.run = .reading n) {rsp : Rsp} {response : Chan 1 Rsp}
    (hr : s.response.read = some (rsp, response)) :
    Inv (finish { s with response := response, taken := s.taken ++ [rsp] } n (toRunnerResult rsp.response)) := by
  obtain ⟨hbuf, hcompleted⟩ := Chan.read_some hr
  have hmine : rsp.run = n := by
    have := h.buffered rsp (by simp [hbuf])
    rw [hn] at this; exact (RunAt.reading.inj this).symm
  have hunder : rspsUnderWay s = rsp :: (response.buf ++ (s.loop.rsp ++ s.received)) := by
    simp [rspsUnderWay, hbuf]
  -- a second message of the call would carry its number a second time
  have hnoRsp : ∀ rsp' ∈ response.buf ++ (s.loop.rsp ++ s.received), rsp'.run ≠ n := by
    intro rsp' hm he
    have hd := h.rspOnce
    rw [rsps, hunder, List.map_append, List.map_cons] at hd
    have := (List.nodup_cons.mp (List.nodup_append.mp hd).2.1).1
    rw [hmine, ← he] at this
    exact this (List.mem_map_of_mem hm)
  have hnoCmd : ∀ cmd ∈ cmdsUnderWay s, cmd.run ≠ n := by
    intro cmd hm he
    obtain ⟨cmd', ha, hrun⟩ := h.answer rsp (mem_rsps (by rw [hunder]; exact List.mem_cons_self))
    exact answered_not_underWay h ha hm (by rw [hrun, hmine, he])
  have hrsps : rsps (finish { s with response := response, taken := s.taken ++ [rsp] } n
      (toRunnerResult rsp.response)) = rsps s := by
    simp [rsps, rspsUnderWay, finish, hbuf]
  refine ⟨fun _ _ hr' => (nomatch hr'), fun _ hr' => (nomatch hr'), fun o ho => ?_, ?_, h.own, h.cmdOnce,
    fun _ _ hr' => (nomatch hr'), ?_, ?_, fun hl cmd hm => ?_, fun hl rsp' hm => ?_, fun rsp' hm => ?_, h.requestOpen,
    ?_, fun m r hm => ?_⟩
  · refine ⟨?_, by simp [finish, RunAt.call]⟩
    rcases List.mem_append.mp ho with ho | ho
    · exact (h.ended o ho).1
    · rw [List.mem_singleton.mp ho]
      have := h.last n (by rw [hn]; rfl)
      show n < s.tasks.length; omega
  · simp only [finish, List.map_append, List.map_cons, List.map_nil]
    refine List.nodup_append.mpr ⟨h.once, List.nodup_singleton _, fun a ha b hb => ?_⟩
    obtain ⟨o, ho, rfl⟩ := List.mem_map.mp ha
    rw [List.mem_singleton.mp hb]
    rintro rfl
    exact (h.ended o ho).2 (by rw [hn]; rfl)
  · rw [hrsps]; exact h.answer
  · rw [hrsps]; exact h.rspOnce
  · have := h.liveCmd hl cmd hm
    rw [hn] at this; exact absurd (RunAt.reading.inj this).symm (hnoCmd cmd hm)
  · have hm' : rsp' ∈ response.buf ++ (s.loop.rsp ++ s.received) := hm
    have := h.liveRsp hl rsp' (by rw [hunder]; exact List.mem_cons_of_mem _ hm')
    rw [hn] at this; exact absurd (RunAt.reading.inj this).symm (hnoRsp rsp' hm')
  · have hm' : rsp' ∈ response.buf := hm
    have := h.buffered rsp' (by rw [hbuf]; exact List.mem_cons_of_mem _ hm')
    rw [hn] at this
    exact absurd (RunAt.reading.inj this).symm (hnoRsp rsp' (List.mem_append_left _ hm'))
  · show response.completed = true ↔ _
    rw [hcompleted]; exact h.responseOpen
  · rcases List.mem_append.mp hm with hm | hm
    · obtain ⟨rsp', hm', hp⟩ := h.paired m r hm
      exact ⟨rsp', List.mem_append_left _ hm', hp⟩
    · simp only [List.mem_singleton, Prod.mk.injEq] at hm
      exact ⟨rsp, List.mem_append_right _ (List.mem_singleton.mpr rfl), hmine.trans hm.1.symm, hm.2.symm⟩

/-- A new call starts with nothing of an earlier one under way in a live loop. -/
theorem inv_call {s : St} (h : Inv s) (hidle : s.run = .idle) (task : RunnerTask) :
    Inv { s with run := .writing s.tasks.length task, tasks := s.tasks ++ [task] } where
  task n t hr := by
    injection hr with hn ht
    subst hn ht
    simp
  last n hn := by
    have : s.tasks.length = n := Option.some.inj hn
    simp [this]
  ended o ho := by
    have hlt := (h.ended o ho).1
    refine ⟨by show o.1 < (s.tasks ++ [task]).length; rw [List.length_append]; omega, fun hc => ?_⟩
    have : s.tasks.length = o.1 := Option.some.inj hc
    omega
  once := h.once
  own cmd hm := by
    obtain ⟨t, ht, hq⟩ := h.own cmd hm
    refine ⟨t, ?_, hq⟩
    have hlt := (List.getElem?_eq_some_iff.mp ht).1
    show (s.tasks ++ [task])[cmd.run]? = some t
    rw [List.getElem?_append_left hlt]; exact ht
  cmdOnce := h.cmdOnce
  unwritten n t hr := by
    injection hr with hn _
    subst hn
    intro hm
    obtain ⟨cmd, hc, he⟩ := List.mem_map.mp hm
    obtain ⟨t, ht, -⟩ := h.own cmd hc
    have := (List.getElem?_eq_some_iff.mp ht).1
    omega
  answer := h.answer
  rspOnce := h.rspOnce
  liveCmd hl cmd hm := by have := h.liveCmd hl cmd hm; rw [hidle] at this; cases this
  liveRsp hl rsp hm := by have := h.liveRsp hl rsp hm; rw [hidle] at this; cases this
  buffered rsp hm := by have := h.buffered rsp hm; rw [hidle] at this; cases this
  requestOpen := h.requestOpen
  responseOpen := h.responseOpen
  paired := h.paired

/-- The request enters the channel as the only message under way. -/
theorem inv_write {s : St} (h : Inv s) {n : Nat} {task : RunnerTask} (hn : s.run = .writing n task)
    {request : Chan 1 Cmd} (hw : s.request.write ⟨n, toCommandRequest task⟩ = some request) :
    Inv { s with run := .reading n, request := request } := by
  obtain ⟨-, hbuf, hcompleted⟩ := Chan.write_some hw
  have hcmds : cmds { s with run := .reading n, request := request } = cmds s ++ [⟨n, toCommandRequest task⟩] := by
    simp [cmds, cmdsUnderWay, hbuf]
  refine ⟨fun _ _ hr => (nomatch hr), fun m hm => h.last m (by rw [hn]; exact hm),
    fun o ho => ⟨(h.ended o ho).1, ?_⟩, h.once, fun cmd hm => ?_, ?_, fun _ _ hr => (nomatch hr), h.answer, h.rspOnce,
    fun hl cmd hm => ?_, fun hl rsp hm => ?_, fun rsp hm => ?_, ?_, h.responseOpen, h.paired⟩
  · have := (h.ended o ho).2; rw [hn] at this; exact this
  · rw [hcmds] at hm
    rcases List.mem_append.mp hm with hm | hm
    · exact h.own cmd hm
    · rw [List.mem_singleton.mp hm]; exact ⟨task, h.task n task hn, rfl⟩
  · rw [hcmds, List.map_append]
    refine List.nodup_append.mpr ⟨h.cmdOnce, List.nodup_singleton _, fun a ha b hb => ?_⟩
    rw [List.mem_singleton.mp hb]
    rintro rfl
    exact h.unwritten _ task hn ha
  · have hm' : cmd ∈ cmdsUnderWay s ++ [⟨n, toCommandRequest task⟩] := by
      simpa [cmdsUnderWay, hbuf] using hm
    rcases List.mem_append.mp hm' with hm' | hm'
    · have := h.liveCmd hl cmd hm'; rw [hn] at this; cases this
    · rw [List.mem_singleton.mp hm']
  · have := h.liveRsp hl rsp hm; rw [hn] at this; cases this
  · have := h.buffered rsp hm; rw [hn] at this; cases this
  · show request.completed = true ↔ _
    rw [hcompleted]; exact h.requestOpen

theorem inv_stepRun {s s' : St} (h : Inv s) (e : Ev) (hs : stepRun s e = some s') : Inv s' := by
  unfold stepRun at hs
  split at hs
  · split at hs <;> cases hs
    exact inv_call h ‹_› _
  · split at hs
    · split at hs <;> cases hs
      exact inv_write h ‹_› ‹_›
    · cases hs
  · split at hs <;> cases hs
    rename_i hr
    exact inv_finish h (by rw [hr]; rfl) (fun m hm => by rw [hr] at hm; cases hm)
  · split at hs
    · rename_i hr
      split at hs <;> cases hs
      exact inv_finish h (by rw [hr]; rfl) (fun m hm => by rw [hr] at hm; cases hm)
    · cases hs
  · split at hs
    · split at hs <;> cases hs
      exact inv_read h ‹_› ‹_›
    · cases hs
  · split at hs
    · rename_i hr
      split at hs <;> cases hs
      rename_i hf
      simp only [Chan.readFails, Bool.and_eq_true, List.isEmpty_iff] at hf
      have hclosed := h.responseOpen.mp hf.1
      exact inv_finish h (by rw [hr]; rfl) (fun m _ => ⟨by rw [hclosed]; rfl, hf.2⟩)
    · cases hs
  · cases hs

/-- A step that moves messages along, or drops some, and touches no call. -/
theorem inv_move {s s' : St} (h : Inv s)
    (hcall : s'.run = s.run ∧ s'.tasks = s.tasks ∧ s'.answered = s.answered ∧ s'.taken = s.taken ∧
      s'.outcomes = s.outcomes)
    (hcmds : (cmdsUnderWay s').Sublist (cmdsUnderWay s)) (hrsps : (rspsUnderWay s').Sublist (rspsUnderWay s))
    (hlive : s'.loop.live = true → s.loop.live = true) (hbuf : ∀ rsp ∈ s'.response.buf, s.run = .reading rsp.run)
    (hreq : s'.request.completed = true ↔ s'.loop = .closingResponse ∨ s'.loop = .closed)
    (hresp : s'.response.completed = true ↔ s'.loop = .closed) : Inv s' := by
  obtain ⟨hrun, htasks, hanswered, htaken, houtcomes⟩ := hcall
  have hc : (cmds s').Sublist (cmds s) := by
    unfold cmds; rw [hanswered]; exact List.Sublist.append_left hcmds _
  have hr : (rsps s').Sublist (rsps s) := by
    unfold rsps; rw [htaken]; exact List.Sublist.append_left hrsps _
  refine ⟨?_, ?_, ?_, ?_, fun cmd hm => ?_, h.cmdOnce.sublist (hc.map _), fun n task hn hm => ?_, fun rsp hm => ?_,
    h.rspOnce.sublist (hr.map _), fun hl cmd hm => ?_, fun hl rsp hm => ?_, ?_, hreq, hresp, ?_⟩
  · rw [hrun, htasks]; exact h.task
  · rw [hrun, htasks]; exact h.last
  · rw [hrun, htasks, houtcomes]; exact h.ended
  · rw [houtcomes]; exact h.once
  · rw [htasks]; exact h.own cmd (hc.subset hm)
  · rw [hrun] at hn
    exact h.unwritten n task hn ((hc.map _).subset hm)
  · rw [hanswered]; exact h.answer rsp (hr.subset hm)
  · rw [hrun]; exact h.liveCmd (hlive hl) cmd (hcmds.subset hm)
  · rw [hrun]; exact h.liveRsp (hlive hl) rsp (hrsps.subset hm)
  · rw [hrun]; exact hbuf
  · rw [houtcomes, htaken]; exact h.paired

/-- While the loop is live both channels are open. -/
theorem live_open {s : St} (h : Inv s) (hl : s.loop.live = true) :
    s.request.completed = false ∧ s.response.completed = false := by
  constructor
  · cases hc : s.request.completed with
    | false => rfl
    | true => rcases h.requestOpen.mp hc with e | e <;> rw [e] at hl <;> cases hl
  · cases hc : s.response.completed with
    | false => rfl
    | true => rw [h.responseOpen.mp hc] at hl; cases hl

/-- The remote runner answers a command that has no answer yet. -/
theorem inv_answer {s : St} (h : Inv s) {cmd : Cmd} {rest : List Cmd} (hsent : s.sent = cmd :: rest)
    (response : CommandResponse) :
    Inv { s with sent := rest, received := s.received ++ [⟨cmd.run, response⟩],
                 answered := s.answered ++ [(cmd, response)] } := by
  have hcmds : cmds { s with sent := rest, received := s.received ++ [⟨cmd.run, response⟩],
                             answered := s.answered ++ [(cmd, response)] } = cmds s := by
    simp [cmds, cmdsUnderWay, hsent]
  have hrsps : rsps { s with sent := rest, received := s.received ++ [⟨cmd.run, response⟩],
                             answered := s.answered ++ [(cmd, response)] } = rsps s ++ [⟨cmd.run, response⟩] := by
    simp [rsps, rspsUnderWay]
  have hcmd : cmd ∈ cmdsUnderWay s := by simp [cmdsUnderWay, hsent]
  refine ⟨h.task, h.last, h.ended, h.once, ?_, ?_, ?_, fun rsp hm => ?_, ?_, fun hl c hm => ?_, fun hl rsp hm => ?_,
    h.buffered, h.requestOpen, h.responseOpen, h.paired⟩
  · rw [hcmds]; exact h.own
  · rw [hcmds]; exact h.cmdOnce
  · rw [hcmds]; exact h.unwritten
  · rw [hrsps] at hm
    rcases List.mem_append.mp hm with hm | hm
    · obtain ⟨c, hc, he⟩ := h.answer rsp hm
      exact ⟨c, List.mem_append_left _ hc, he⟩
    · rw [List.mem_singleton.mp hm]
      exact ⟨cmd, List.mem_append_right _ (List.mem_singleton.mpr rfl), rfl⟩
  · rw [hrsps, List.map_append]
    refine List.nodup_append.mpr ⟨h.rspOnce, List.nodup_singleton _, fun a ha b hb => ?_⟩
    obtain ⟨rsp, hm, rfl⟩ := List.mem_map.mp ha
    rw [List.mem_singleton.mp hb]
    obtain ⟨c, hc, he⟩ := h.answer rsp hm
    rw [← he]
    exact answered_not_underWay h hc hcmd
  · refine h.liveCmd hl c ?_
    have hm' : c ∈ rest ++ (s.loop.cmd ++ s.request.buf) := hm
    rw [cmdsUnderWay, hsent]
    exact List.mem_cons_of_mem _ hm'
  · have hm' : rsp ∈ rspsUnderWay s ++ [⟨cmd.run, response⟩] := by
      simpa [rspsUnderWay] using hm
    rcases List.mem_append.mp hm' with hm' | hm'
    · exact h.liveRsp hl rsp hm'
    · rw [List.mem_singleton.mp hm']; exact h.liveCmd hl cmd hcmd

/-- The loop writes the response it holds. -/
theorem inv_respond {s : St} (h : Inv s) {rsp : Rsp} {response : Chan 1 Rsp} (hloop : s.loop = .responding rsp)
    (hwrite : s.response.write rsp = some response) : Inv { s with loop := .taking, response := response } := by
  obtain ⟨-, hbuf, hcompleted⟩ := Chan.write_some hwrite
  have hl : s.loop.live = true := by rw [hloop]; rfl
  have ho := live_open h hl
  refine inv_move h ⟨rfl, rfl, rfl, rfl, rfl⟩ ?_ ?_ (fun _ => hl) (fun rsp' hm => ?_) ?_ ?_
  · simp [cmdsUnderWay, hloop, LoopAt.cmd]
  · simp [rspsUnderWay, hloop, LoopAt.rsp, hbuf]
  · have hm' : rsp' ∈ response.buf := hm
    rw [hbuf] at hm'
    refine h.liveRsp hl rsp' ?_
    rw [rspsUnderWay, hloop]
    rcases List.mem_append.mp hm' with hm' | hm'
    · exact List.mem_append_left _ hm'
    · exact List.mem_append_right _ (List.mem_append_left _ hm')
  · simp [ho.1]
  · simp [hcompleted, ho.2]

theorem inv_stepConnect {s s' : St} (h : Inv s) (e : Ev) (hs : stepConnect s e = some s') : Inv s' := by
  unfold stepConnect at hs
  split at hs
  · -- take
    split at hs <;> cases hs
    rename_i cmd request hloop hread
    obtain ⟨hbuf, hcompleted⟩ := Chan.read_some hread
    have ho := live_open h (by rw [hloop]; rfl)
    refine inv_move h ⟨rfl, rfl, rfl, rfl, rfl⟩ ?_ ?_ (fun _ => by rw [hloop]; rfl) h.buffered ?_ ?_
    · simp [cmdsUnderWay, hloop, LoopAt.cmd, hbuf]
    · simp [rspsUnderWay, hloop, LoopAt.rsp]
    · simp [hcompleted, ho.1]
    · simp [ho.2]
  · -- send
    split at hs <;> cases hs
    rename_i cmd hloop
    have ho := live_open h (by rw [hloop]; rfl)
    refine inv_move h ⟨rfl, rfl, rfl, rfl, rfl⟩ ?_ ?_ (fun _ => by rw [hloop]; rfl) h.buffered ?_ ?_
    · simp [cmdsUnderWay, hloop, LoopAt.cmd]
    · simp [rspsUnderWay, hloop, LoopAt.rsp]
    · simp [ho.1]
    · simp [ho.2]
  · -- answer
    split at hs <;> cases hs
    exact inv_answer h ‹_› _
  · -- moveNext
    split at hs <;> cases hs
    rename_i rsp rest hloop hreceived
    have ho := live_open h (by rw [hloop]; rfl)
    refine inv_move h ⟨rfl, rfl, rfl, rfl, rfl⟩ ?_ ?_ (fun _ => by rw [hloop]; rfl) h.buffered ?_ ?_
    · simp [cmdsUnderWay, hloop, LoopAt.cmd]
    · simp [rspsUnderWay, hloop, LoopAt.rsp, hreceived]
    · simp [ho.1]
    · simp [ho.2]
  · -- respond
    split at hs
    · split at hs <;> cases hs
      rename_i rsp hloop _ response hwrite
      exact inv_respond h hloop hwrite
    · cases hs
  · -- drop
    split at hs <;> cases hs
    rename_i hl
    have ho := live_open h hl
    refine inv_move h ⟨rfl, rfl, rfl, rfl, rfl⟩ ?_ ?_ (fun hc => by cases hc) h.buffered ?_ ?_
    · exact List.Sublist.append_left (List.sublist_append_right _ _) _
    · exact List.Sublist.append_left (List.sublist_append_right _ _) _
    · simp [ho.1]
    · simp [ho.2]
  · -- completeRequest
    split at hs <;> cases hs
    rename_i hloop
    have hr : s.response.completed = false := by
      cases hc : s.response.completed with
      | false => rfl
      | true => rw [h.responseOpen.mp hc] at hloop; cases hloop
    refine inv_move h ⟨rfl, rfl, rfl, rfl, rfl⟩ ?_ ?_ (fun hc => by cases hc) h.buffered ?_ ?_
    · simp [cmdsUnderWay, hloop, LoopAt.cmd]
    · simp [rspsUnderWay, hloop, LoopAt.rsp]
    · simp
    · simp [hr]
  · -- completeResponse
    split at hs <;> cases hs
    rename_i hloop
    refine inv_move h ⟨rfl, rfl, rfl, rfl, rfl⟩ ?_ ?_ (fun hc => by cases hc) h.buffered ?_ ?_
    · simp [cmdsUnderWay, hloop, LoopAt.cmd]
    · simp [rspsUnderWay, hloop, LoopAt.rsp]
    · simpa using h.requestOpen.mpr (Or.inl hloop)
    · simp
  · cases hs

theorem inv_step {s s' : St} {e : Ev} (h : Inv s) (hs : step s e = some s') : Inv s' := by
  unfold step at hs
  split at hs
  · exact inv_stepRun h _ hs
  · exact inv_stepRun h _ hs
  · exact inv_stepRun h _ hs
  · exact inv_stepRun h _ hs
  · exact inv_stepRun h _ hs
  · exact inv_stepRun h _ hs
  · exact inv_stepConnect h _ hs

theorem inv_run (es : List Ev) : Inv (final step init es) :=
  (always_of_inv (fun _ _ _ h hs => inv_step h hs) inv_init es).last

/-! ## After the finally block -/

/-- Call `n` has no response, and none can come. -/
structure Cut (n : Nat) (s : St) : Prop where
  closed : s.loop = .closed
  nothing : ∀ rsp ∈ s.response.buf, rsp.run ≠ n
  noResult : ∀ r, (n, .ok r) ∉ s.outcomes

omit [Durations] in
theorem finish_error_noResult {s : St} {n m : Nat} {e : Exn} (h : ∀ r, (n, .ok r) ∉ s.outcomes) (r : RunnerResult) :
    (n, .ok r) ∉ (finish s m (.error e)).outcomes := by
  intro hm
  rcases List.mem_append.mp hm with hm | hm
  · exact h r hm
  · simp at hm

theorem cut_step {n : Nat} {s s' : St} {e : Ev} (hi : Inv s) (h : Cut n s) (hs : step s e = some s') : Cut n s' := by
  have hconnect : ∀ e, stepConnect s e = some s' → Cut n s' := by
    intro e hs
    unfold stepConnect at hs
    simp only [h.closed, LoopAt.live] at hs
    split at hs <;> try cases hs
    split at hs <;> cases hs
    exact ⟨rfl, h.nothing, h.noResult⟩
  have hrun : ∀ e, stepRun s e = some s' → Cut n s' := by
    intro e hs
    unfold stepRun at hs
    split at hs
    · split at hs <;> cases hs
      exact ⟨h.closed, h.nothing, h.noResult⟩
    · -- a write to a completed channel is not possible
      split at hs
      · rw [Chan.write_completed (hi.requestOpen.mpr (Or.inr h.closed))] at hs; cases hs
      · cases hs
    · split at hs <;> cases hs
      exact ⟨h.closed, h.nothing, finish_error_noResult h.noResult⟩
    · split at hs
      · split at hs <;> cases hs
        exact ⟨h.closed, h.nothing, finish_error_noResult h.noResult⟩
      · cases hs
    · -- what is read belongs to the reader, so the reader is not `n`
      split at hs
      · rename_i m hm
        split at hs <;> cases hs
        rename_i rsp response hread
        obtain ⟨hbuf, -⟩ := Chan.read_some hread
        have hmine := hi.buffered rsp (by simp [hbuf])
        rw [hm] at hmine
        have hne : m ≠ n := by
          rw [RunAt.reading.inj hmine]; exact h.nothing rsp (by simp [hbuf])
        refine ⟨h.closed, fun rsp' hr => h.nothing rsp' (by rw [hbuf]; exact List.mem_cons_of_mem _ hr), fun r hr => ?_⟩
        rcases List.mem_append.mp hr with hr | hr
        · exact h.noResult r hr
        · exact hne (congrArg Prod.fst (List.mem_singleton.mp hr)).symm
      · cases hs
    · split at hs
      · split at hs <;> cases hs
        exact ⟨h.closed, h.nothing, finish_error_noResult h.noResult⟩
      · cases hs
    · cases hs
  unfold step at hs
  split at hs
  · exact hrun _ hs
  · exact hrun _ hs
  · exact hrun _ hs
  · exact hrun _ hs
  · exact hrun _ hs
  · exact hrun _ hs
  · exact hconnect _ hs

theorem cut_run {n : Nat} {s : St} (hi : Inv s) (h : Cut n s) (es : List Ev) : Cut n (final step s es) := by
  have hboth : Always step (fun s => Inv s ∧ Cut n s) s es :=
    always_of_inv (fun _ _ _ h hs => ⟨inv_step h.1 hs, cut_step h.1 h.2 hs⟩) ⟨hi, h⟩ es
  exact hboth.last.2

/-- After the finally block the current call, if it has no response, can end at once,
    and only by throwing. -/
theorem closed_throws {s : St} (hi : Inv s) (h : s.loop = .closed) :
    (∀ n task, s.run = .writing n task →
      step s .write = none ∧ step s .writeFails = some (finish s n (.error .channelClosed))) ∧
    ∀ n, s.run = .reading n → s.response.buf = [] →
      step s .read = none ∧ step s .readFails = some (finish s n (.error .channelClosed)) := by
  have hreq : s.request.completed = true := hi.requestOpen.mpr (Or.inr h)
  have hresp : s.response.completed = true := hi.responseOpen.mpr h
  refine ⟨fun n task hn => ?_, fun n hn hb => ?_⟩
  · simp [step, stepRun, hn, Chan.write_completed hreq, Chan.writeFails, hreq]
  · simp [step, stepRun, hn, Chan.read_none.mpr hb, Chan.readFails, hresp, hb]

/-- Requests and responses stay paired: in every state of every run,
    - a call that returned returned the answer to its own request;
    - no call ends twice, no command has two answers, no response is taken twice;
    - once the finally block has run, a call that has no response yet, current or later,
      never returns one, and what it can do at once is throw. -/
theorem run_pairs (es : List Ev) :
    let s := final step init es
    (∀ n r, (n, .ok r) ∈ s.outcomes → ∃ task response, s.tasks[n]? = some task ∧
      (⟨n, toCommandRequest task⟩, response) ∈ s.answered ∧ ⟨n, response⟩ ∈ s.taken ∧
      toRunnerResult response = .ok r) ∧
    ((s.outcomes.map (·.1)).Nodup ∧ (s.answered.map (·.1.run)).Nodup ∧ (s.taken.map (·.run)).Nodup) ∧
    (s.loop = .closed →
      (∀ n, n ∉ s.outcomes.map (·.1) → (∀ rsp ∈ s.response.buf, rsp.run ≠ n) →
        ∀ later r, (n, .ok r) ∉ (final step s later).outcomes) ∧
      (∀ n task, s.run = .writing n task →
        step s .write = none ∧ step s .writeFails = some (finish s n (.error .channelClosed))) ∧
      ∀ n, s.run = .reading n → s.response.buf = [] →
        step s .read = none ∧ step s .readFails = some (finish s n (.error .channelClosed))) := by
  intro s
  have hi : Inv s := inv_run es
  refine ⟨fun n r hm => ?_, ⟨hi.once, ?_, ?_⟩, fun hclosed => ⟨fun n hn hb later r => ?_, closed_throws hi hclosed⟩⟩
  · obtain ⟨rsp, htaken, hrun, hresult⟩ := hi.paired n r hm
    obtain ⟨cmd, hanswered, hcmd⟩ := hi.answer rsp (List.mem_append_left _ htaken)
    obtain ⟨task, htask, hrequest⟩ := hi.own cmd
      (List.mem_append_left _ (List.mem_map.mpr ⟨_, hanswered, rfl⟩))
    have hc : cmd = ⟨n, toCommandRequest task⟩ := by
      rw [← hrun, ← hcmd, ← hrequest]
    refine ⟨task, rsp.response, by rw [← hrun, ← hcmd]; exact htask, hc ▸ hanswered, ?_, hresult⟩
    rw [← hrun]; exact htaken
  · have := hi.cmdOnce
    rw [cmds, List.map_append] at this
    have hn := (List.nodup_append.mp this).1
    rw [List.map_map] at hn; exact hn
  · have := hi.rspOnce
    rw [rsps, List.map_append] at this
    exact (List.nodup_append.mp this).1
  · have hcut : Cut n s :=
      ⟨hclosed, hb, fun r hm => hn (List.mem_map.mpr ⟨_, hm, rfl⟩)⟩
    exact (cut_run hi hcut later).noResult r

end OlympSystem.Site.RunnerService
