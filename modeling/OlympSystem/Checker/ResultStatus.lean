/-
  OlympSystem.Checker.ResultStatus — verdicts and their status codes
  (`CheckerResultStatus.cs`).
-/

import OlympSystem.Exceptions

namespace OlympSystem.Checker

inductive CheckerResultStatus where
  | accepted
  | compilationError
  | timeLimit
  | idlenessLimit
  | memoryLimit
  | runtimeError
  | presentationError
  | wrongAnswer
  | internalError
  deriving DecidableEq, Repr

def CheckerResultStatus.name : CheckerResultStatus → String
  | .accepted => "Accepted"
  | .compilationError => "CompilationError"
  | .timeLimit => "TimeLimit"
  | .idlenessLimit => "IdlenessLimit"
  | .memoryLimit => "MemoryLimit"
  | .runtimeError => "RuntimeError"
  | .presentationError => "PresentationError"
  | .wrongAnswer => "WrongAnswer"
  | .internalError => "InternalError"

def makeStatusCode (status : CheckerResultStatus) (test : Option Int) : Except Exn Int :=
  match status, test with
  | .compilationError, none => .ok (-1)
  | .accepted, none => .ok 2
  | .internalError, _ => .ok (-10)
  | _, none => .error (.argument "Invalid value" "test")
  | status, some t =>
    if t ≤ 0 ∨ 1000 ≤ t then .error (.argument "Invalid value" "test")
    else
      match status with
      | .wrongAnswer => .ok (-1000 - t)
      | .timeLimit => .ok (-2000 - t)
      | .runtimeError => .ok (-3000 - t)
      | .presentationError => .ok (-4000 - t)
      | .idlenessLimit => .ok (-5000 - t)
      | .memoryLimit => .ok (-6000 - t)
      | _ => .error (.argument "Invalid value" "status")

/-- A verdict a test can end with, other than `Accepted`. -/
def CheckerResultStatus.perTest : CheckerResultStatus → Bool
  | .wrongAnswer | .timeLimit | .runtimeError | .presentationError | .idlenessLimit | .memoryLimit => true
  | _ => false

/-- The code of a verdict on a test; it is below -1000, so neither 0, 1, 2 nor -1. -/
theorem makeStatusCode_perTest {status : CheckerResultStatus} (h : status.perTest = true) {t : Int} (ht : 1 ≤ t)
    (ht' : t ≤ 999) : ∃ code, makeStatusCode status (some t) = .ok code ∧ code < -1000 := by
  have hrange : ¬(t ≤ 0 ∨ 1000 ≤ t) := by omega
  cases status with
  | accepted => cases h
  | compilationError => cases h
  | internalError => cases h
  | wrongAnswer => exact ⟨-1000 - t, by simp only [makeStatusCode, if_neg hrange], by omega⟩
  | timeLimit => exact ⟨-2000 - t, by simp only [makeStatusCode, if_neg hrange], by omega⟩
  | runtimeError => exact ⟨-3000 - t, by simp only [makeStatusCode, if_neg hrange], by omega⟩
  | presentationError => exact ⟨-4000 - t, by simp only [makeStatusCode, if_neg hrange], by omega⟩
  | idlenessLimit => exact ⟨-5000 - t, by simp only [makeStatusCode, if_neg hrange], by omega⟩
  | memoryLimit => exact ⟨-6000 - t, by simp only [makeStatusCode, if_neg hrange], by omega⟩

/-- No code is that of a queued or a claimed submission. -/
theorem makeStatusCode_ne {status : CheckerResultStatus} {test : Option Int} {code : Int}
    (h : makeStatusCode status test = .ok code) : code ≠ 0 ∧ code ≠ 1 := by
  unfold makeStatusCode at h
  split at h
  · cases h; decide
  · cases h; decide
  · cases h; decide
  · cases h
  · split at h
    · cases h
    · split at h <;> cases h <;> omega

end OlympSystem.Checker
