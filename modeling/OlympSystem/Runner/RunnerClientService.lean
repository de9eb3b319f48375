/-
  OlympSystem.Runner.RunnerClientService — how a runner answers a command
  (`RunnerClientService.Run`).

  Preparing the work directory, writing the files and starting the process are effects
  whose result is the `ProcessOutcome`: how the process ended, and what it wrote. The two
  output pipes deliver their bytes in pieces of any size; a piece has at least one byte,
  since a read of none is the end.

  Proved:
  - `readToBuffer_eq`: the buffer is the first bytes of the output, and its limit is
    reported exactly if the output fills it, however the output is cut into pieces.
  - `ticks`: there are conversions of times as the code relies on them.
-/

import OlympSystem.Site.RunnerMessages

namespace OlympSystem.Runner

open OlympSystem.Checker OlympSystem.Site

structure Output where
  pieces : List Bytes
  nonempty : ∀ piece ∈ pieces, piece ≠ []
  deriving Repr

def Output.bytes (output : Output) : Bytes := output.pieces.flatten

structure ProcessOutcome where
  exitCode : Int
  totalUserTime : TimeSpan
  /-- `ExitTime - StartTime`. -/
  processTotalTime : TimeSpan
  peakJobMemoryUsed : Nat
  standardOutput : Output
  standardError : Output
  deriving Repr

namespace RunnerClientService

def readToBuffer (size : Nat) : (buffer : Bytes) → (pieces : List Bytes) → Bytes × Bool
  | buffer, [] => (buffer, false)
  | buffer, piece :: pieces =>
    -- a read into `buffer[cur..]` takes no more than fits
    let read := piece.take (size - buffer.length)
    if read.length = 0 then (buffer, false)
    else if buffer.length + read.length = size then (buffer ++ read, true)
    else readToBuffer size (buffer ++ read) pieces

/-- `(int)` of an `ulong`, unchecked. -/
def toInt32 (n : Nat) : Int := (n % 4294967296 + 2147483648) % 4294967296 - 2147483648

/-- `ReadToBuffer`: `new byte[size]` throws on a negative size. -/
def readOutput (limit : Nat) (output : Output) : Except Exn (Bytes × Bool) :=
  if toInt32 limit < 0 then .error .overflow else .ok (readToBuffer (toInt32 limit).toNat [] output.pieces)

def commandStatus (exitCode : Int) (userTime totalTime memory stdout stderr : Bool) : CommandStatus :=
  match exitCode, userTime, totalTime, memory, stdout, stderr with
  | _, _, _, true, _, _ => .memoryLimit
  | _, _, _, _, true, _ => .stdoutLimit
  | _, _, _, _, _, true => .stderrLimit
  | _, true, _, _, _, _ => .userTimeLimit
  | _, _, true, _, _, _ => .totalTimeLimit
  | exitCode, _, _, _, _, _ => if exitCode ≠ 0 then .error else .completed

def run [Durations] (request : CommandRequest) (process : ProcessOutcome) : Except Exn CommandResponse :=
  match request.resourceLimits with
  | none => .error .nullReference
  | some resourceLimits => do
    let userTimeLimit ← readDuration resourceLimits.userTime
    let totalTimeLimit ← readDuration resourceLimits.totalTime
    let (stdout, stdoutLimit) ← readOutput resourceLimits.stdoutBytes process.standardOutput
    let (stderr, stderrLimit) ← readOutput resourceLimits.stderrBytes process.standardError
    return {
      status := commandStatus process.exitCode (userTimeLimit < process.totalUserTime)
        (totalTimeLimit < process.processTotalTime) (resourceLimits.memoryBytes < process.peakJobMemoryUsed)
        stdoutLimit stderrLimit
      stdout := stdout
      stderr := stderr
      exitCode := process.exitCode
      resourceConsumption := some
        { userTime := some (Durations.fromTimeSpan process.totalUserTime)
          totalTime := some (Durations.fromTimeSpan process.processTotalTime)
          memoryBytes := process.peakJobMemoryUsed
          stdoutBytes := stdout.length
          stderrBytes := stderr.length } }

/-! ## The output that is read -/

theorem readToBuffer_from (size : Nat) : ∀ (pieces : List Bytes) (buffer : Bytes), (∀ piece ∈ pieces, piece ≠ []) →
    buffer.length < size →
    readToBuffer size buffer pieces =
      ((buffer ++ pieces.flatten).take size, decide (size ≤ (buffer ++ pieces.flatten).length)) := by
  intro pieces
  induction pieces with
  | nil =>
    intro buffer _ hlt
    have hnot : ¬size ≤ buffer.length := by omega
    simp [readToBuffer, List.take_of_length_le hlt.le, hnot]
  | cons piece pieces ih =>
    intro buffer hne hlt
    have hpos : 0 < piece.length := List.length_pos_of_ne_nil (hne piece List.mem_cons_self)
    simp only [readToBuffer, List.length_take, List.flatten_cons]
    rw [if_neg (by omega)]
    by_cases hfull : size - buffer.length ≤ piece.length
    · -- the piece fills the buffer: the rest is never read
      rw [if_pos (by omega), List.take_append, List.take_of_length_le hlt.le, List.take_append_of_le_length hfull]
      simp only [List.length_append, Prod.mk.injEq, true_and]
      exact (decide_eq_true (by omega)).symm
    · have htake : piece.take (size - buffer.length) = piece := List.take_of_length_le (by omega)
      rw [if_neg (by omega), htake, ih (buffer ++ piece) (fun p hp => hne p (List.mem_cons_of_mem _ hp))
        (by rw [List.length_append]; omega), List.append_assoc]

theorem readToBuffer_eq {size : Nat} (hsize : 0 < size) (output : Output) :
    readToBuffer size [] output.pieces = (output.bytes.take size, decide (size ≤ output.bytes.length)) :=
  readToBuffer_from size output.pieces [] output.nonempty hsize

/-! ## Times in a message -/

def fromTimeSpan (t : TimeSpan) : Duration := ⟨t.tdiv ticksPerSecond, t.tmod ticksPerSecond * 100⟩

/-- Within the range of a duration, with the nanoseconds of one sign with the seconds. -/
def isNormalized (d : Duration) : Bool :=
  -315576000000 ≤ d.seconds && d.seconds ≤ 315576000000 && -999999999 ≤ d.nanos && d.nanos ≤ 999999999 &&
    0 ≤ d.seconds.sign * d.nanos.sign

def toTimeSpan (d : Duration) : Except Exn TimeSpan :=
  if isNormalized d then .ok (d.seconds * ticksPerSecond + d.nanos.tdiv 100)
  else .error (.invalidOperation "Duration was not a valid normalized duration")

/-- Seconds and nanoseconds have the sign of the time. -/
theorem sign_fromTimeSpan (t : TimeSpan) : 0 ≤ (fromTimeSpan t).seconds.sign * (fromTimeSpan t).nanos.sign := by
  unfold fromTimeSpan
  rw [Int.sign_mul, Int.sign_tdiv, Int.sign_tmod]
  split
  · rw [Int.zero_mul]
  · split
    · rw [Int.zero_mul, Int.mul_zero]
    · rcases Int.sign_trichotomy t with h | h | h <;> rw [h] <;> decide

theorem isNormalized_fromTimeSpan (t : TimeSpan) : isNormalized (fromTimeSpan t) = true ↔ IsDuration t := by
  have hlow := Int.lt_tmod_of_pos t (by decide : 0 < ticksPerSecond)
  have hhigh := Int.tmod_lt_of_pos t (by decide : 0 < ticksPerSecond)
  have hnanos : -999999999 ≤ (fromTimeSpan t).nanos ∧ (fromTimeSpan t).nanos ≤ 999999999 := by
    show -999999999 ≤ Int.tmod t ticksPerSecond * 100 ∧ Int.tmod t ticksPerSecond * 100 ≤ 999999999
    unfold ticksPerSecond at *
    omega
  have hsign := sign_fromTimeSpan t
  unfold isNormalized IsDuration
  simp only [Bool.and_eq_true, decide_eq_true_eq, hnanos, hsign, and_true]
  rfl

/-- Conversions as the code relies on them. -/
@[reducible] def ticks : Durations where
  fromTimeSpan := fromTimeSpan
  toTimeSpan := toTimeSpan
  roundTrip t h := by
    unfold toTimeSpan
    rw [if_pos ((isNormalized_fromTimeSpan t).mpr h)]
    refine congrArg Except.ok ?_
    show Int.tdiv t ticksPerSecond * ticksPerSecond + (Int.tmod t ticksPerSecond * 100).tdiv 100 = t
    rw [Int.mul_tdiv_cancel _ (by decide), Int.tdiv_mul_add_tmod]
  outOfRange t h := by
    unfold toTimeSpan
    rw [if_neg fun hn => h ((isNormalized_fromTimeSpan t).mp hn)]

end RunnerClientService

end OlympSystem.Runner
