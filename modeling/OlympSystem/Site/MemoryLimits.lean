/-
  OlympSystem.Site.MemoryLimits — the memory limit of a problem, as the runner gets it.

  `RunTest` adds the overhead of the configuration to the limit and computes the bytes in
  `uint`, although the field of the request is a `ulong`: 4096 MiB and more do not fit.

  Proved:
  - `memoryBytes_exact`: the product is the number of bytes exactly below 4096 MiB.
  - `memory_law_iff`: so for every test of every request of a check.
  - `four_gigabytes_are_none`: a limit of 4096 MiB leaves a program no memory.
-/

import OlympSystem.Site.CheckerManager
import OlympSystem.Site.Queue
import OlympSystem.Site.WithinLimits

namespace OlympSystem.Site.MemoryLimits

open Lib.Checked OlympSystem.Checker CheckerService CheckerManager
open WithinLimits (limits)

/-- What `RunTest` sends as the memory limit of this test if the problem's is `limit`. -/
def memoryOf (request : CheckRequest) (test : CheckTest) (limit : Int) : Nat :=
  (runTask request.name request.compilator.configuration test.input request.timeLimit limit).resourceLimits.memory

/-- The request has `limit` and the overhead of its configuration, in bytes, and no
    smaller limit gives a program more. -/
structure MemoryLaw (request : CheckRequest) (test : CheckTest) (limit : Int) : Prop where
  exact : ((limits request test).memory : Int) =
    (limit + request.compilator.configuration.memoryOverheadMb) * 2 ^ 20
  larger : ∀ smaller, 0 < smaller → smaller ≤ limit → memoryOf request test smaller ≤ (limits request test).memory

/-! ## The product -/

variable {limit overhead : Int}

/-- Between the ends of `uint` the cast does nothing. -/
theorem memoryBytes_eq (h : 0 ≤ limit + overhead) (hsum : limit + overhead ≤ int32Max) :
    (memoryBytes limit overhead : Int) = (limit + overhead) * 2 ^ 20 % 2 ^ 32 := by
  unfold memoryBytes
  unfold int32Max at hsum
  have hcast : (limit + overhead) % 4294967296 = limit + overhead := Int.emod_eq_of_lt h (by omega)
  rw [hcast]
  omega

theorem memoryBytes_exact (h : 0 ≤ limit + overhead) (hsum : limit + overhead ≤ int32Max) :
    (memoryBytes limit overhead : Int) = (limit + overhead) * 2 ^ 20 ↔ limit + overhead < 4096 := by
  rw [memoryBytes_eq h hsum]
  constructor
  · intro hexact
    have hbelow : (limit + overhead) * 2 ^ 20 % 2 ^ 32 < 2 ^ 32 := Int.emod_lt_of_pos _ (by decide)
    omega
  · intro hlt
    exact Int.emod_eq_of_lt (by omega) (by omega)

/-! ## The request -/

/-- For every problem with a positive limit, every configuration with an overhead that is
    not negative, and every test. -/
theorem memory_law_iff (culture : Domain.Culture) {checker : ConnectedChecker} {loaded : Loaded}
    {request : CheckRequest} (hrequest : createCheckRequest culture checker loaded = .ok request) (test : CheckTest)
    (hlimit : 0 < loaded.problem.memoryLimit) (hoverhead : 0 ≤ request.compilator.configuration.memoryOverheadMb)
    (hsum : loaded.problem.memoryLimit + request.compilator.configuration.memoryOverheadMb ≤ int32Max) :
    MemoryLaw request test loaded.problem.memoryLimit ↔
      loaded.problem.memoryLimit + request.compilator.configuration.memoryOverheadMb < 4096 := by
  have hmemory := (CheckerManager.createCheckRequest_made hrequest).memoryLimitMb
  have hsent : (limits request test).memory =
      memoryBytes loaded.problem.memoryLimit request.compilator.configuration.memoryOverheadMb := by
    rw [← hmemory]; rfl
  have hiff := memoryBytes_exact (by omega) hsum
  constructor
  · intro h
    exact hiff.mp (hsent ▸ h.exact)
  · intro hlt
    refine ⟨hsent ▸ hiff.mpr hlt, fun smaller hpos hle => ?_⟩
    have hsmaller := (memoryBytes_exact (by omega) (by omega)).mpr
      (show smaller + request.compilator.configuration.memoryOverheadMb < 4096 by omega)
    have hlarger := hiff.mpr hlt
    rw [hsent]
    show memoryBytes smaller request.compilator.configuration.memoryOverheadMb ≤ _
    omega

/-! ### A problem with this limit -/

def sampleLoaded (limit : Int) : Loaded where
  submission := ⟨1, "source", 1, 0, 0, none, none, 1, 1⟩
  compilator := ⟨1, "test", some "test 1", true⟩
  problem := ⟨1, 1, "Sum", none, true, 1, 2, limit, 1, 4, [Queue.sampleTest 1 1 [] 30]⟩
  tests := [Queue.sampleTest 1 1 [] 30]
  contest := ⟨1, "school"⟩

theorem sample_memory_law :
    ∃ request, createCheckRequest .ordinal Queue.sampleChecker (sampleLoaded 256) = .ok request ∧
    (MemoryLaw request ⟨1, [], [], some 30⟩ 256 ↔
      256 + request.compilator.configuration.memoryOverheadMb < 4096) := by
  refine ⟨_, rfl, ?_⟩
  exact @memory_law_iff .ordinal Queue.sampleChecker (sampleLoaded 256) _ rfl ⟨1, [], [], some 30⟩ (by decide)
    (by decide) (by decide)

/-- 4096 MiB are sent as no memory at all. -/
theorem four_gigabytes_are_none : ∃ request,
    createCheckRequest .ordinal Queue.sampleChecker (sampleLoaded 4096) = .ok request ∧
      request.compilator.configuration.memoryOverheadMb = 0 ∧ (limits request ⟨1, [], [], some 30⟩).memory = 0 ∧
      ¬MemoryLaw request ⟨1, [], [], some 30⟩ 4096 := by
  refine ⟨_, rfl, rfl, rfl, fun h => ?_⟩
  have hexact := h.exact
  revert hexact
  decide

end OlympSystem.Site.MemoryLimits
