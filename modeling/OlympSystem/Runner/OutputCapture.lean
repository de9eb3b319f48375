/-
  OlympSystem.Runner.OutputCapture — the loop of `ReadToBuffer` read by read.

  A pipe may hand over any part of what it has left, as long as a read that has room is
  given something; how much it is may depend on the read's number, the room it offers and
  what is left (`Delivery`). The loop keeps what it has read, what the stream still has
  and the rooms it offered.

  Proved:
  - `round_next`, `round_last`: one read either leaves the loop reading with less left to
    read, or it ends it with the first bytes of the content.
  - `capture_total`: the loop ends, whatever the delivery; its result is that of the
    content alone, and every read had room.
  - `capture_readToBuffer`: so the pieces of `readToBuffer` stand for every delivery.
-/

import OlympSystem.Runner.RunnerClientService

namespace OlympSystem.Runner

open OlympSystem.Checker

/-- How a stream answers its reads: `deliver reads offered left` bytes of the `left` ones it
    still has, to read number `reads` with room for `offered`. -/
structure Delivery where
  deliver : (reads offered left : Nat) → Nat
  deliver_le_offered : ∀ reads offered left, deliver reads offered left ≤ offered
  deliver_le_left : ∀ reads offered left, deliver reads offered left ≤ left
  deliver_pos : ∀ reads offered left, 0 < offered → 0 < left → 0 < deliver reads offered left

namespace OutputCapture

structure Capture where
  /-- `buffer[..cur]`. -/
  buffer : Bytes
  /-- What the stream has left. -/
  left : Bytes
  /-- The room each read was offered. -/
  offers : List Nat
  deriving Repr

def start (content : Bytes) : Capture := ⟨[], content, []⟩

/-- `ReadAsync(buffer.AsMemory(cur..))` and the tests of the loop on its length. -/
def round (d : Delivery) (size : Nat) (s : Capture) : Capture × Option (Bytes × Bool) :=
  let offered := size - s.buffer.length
  let len := d.deliver s.offers.length offered s.left.length
  let s' : Capture :=
    { buffer := s.buffer ++ s.left.take len, left := s.left.drop len, offers := s.offers ++ [offered] }
  if len = 0 then (s', some (s'.buffer, false))
  else if s'.buffer.length = size then (s', some (s'.buffer, true))
  else (s', none)

def readLoop (d : Delivery) (size : Nat) : (fuel : Nat) → Capture → Option (Capture × Bytes × Bool)
  | 0, _ => none
  | fuel + 1, s =>
    match round d size s with
    | (s', some result) => some (s', result)
    | (s', none) => readLoop d size fuel s'

/-- The loop at a read: it has the front of the content, and room. -/
structure Reading (content : Bytes) (size : Nat) (s : Capture) : Prop where
  split : s.buffer ++ s.left = content
  room : s.buffer.length < size
  offered : ∀ offer ∈ s.offers, 0 < offer

section
variable {d : Delivery} {content : Bytes} {size : Nat} {s s' : Capture} {result : Bytes × Bool}

theorem reading_start (h : 0 < size) : Reading content size (start content) :=
  ⟨rfl, h, fun _ hoffer => absurd hoffer List.not_mem_nil⟩

theorem round_offers (h : Reading content size s) : ∀ offer ∈ (round d size s).1.offers, 0 < offer := by
  have hoffers : (round d size s).1.offers = s.offers ++ [size - s.buffer.length] := by
    unfold round
    dsimp only
    split
    · rfl
    · split <;> rfl
  rw [hoffers]
  intro offer hoffer
  rcases List.mem_append.mp hoffer with hold | hnew
  · exact h.offered offer hold
  · have hroom := h.room
    have heq := List.mem_singleton.mp hnew
    omega

/-- A read after which the loop goes on has taken something and left room. -/
theorem round_next (h : Reading content size s) (hround : round d size s = (s', none)) :
    Reading content size s' ∧ s'.left.length < s.left.length := by
  have hoffers := round_offers (d := d) h
  rw [hround] at hoffers
  have hoffered := d.deliver_le_offered s.offers.length (size - s.buffer.length) s.left.length
  have hleft := d.deliver_le_left s.offers.length (size - s.buffer.length) s.left.length
  have hroom := h.room
  unfold round at hround
  dsimp only at hround
  generalize d.deliver s.offers.length (size - s.buffer.length) s.left.length = len at *
  by_cases hend : len = 0
  · rw [if_pos hend] at hround; cases hround
  rw [if_neg hend] at hround
  by_cases hfull : (s.buffer ++ s.left.take len).length = size
  · rw [if_pos hfull] at hround; cases hround
  rw [if_neg hfull] at hround
  cases hround
  rw [List.length_append, List.length_take] at hfull
  refine ⟨⟨?_, ?_, hoffers⟩, ?_⟩
  · show s.buffer ++ s.left.take len ++ s.left.drop len = content
    rw [List.append_assoc, List.take_append_drop, h.split]
  · show (s.buffer ++ s.left.take len).length < size
    rw [List.length_append, List.length_take]
    omega
  · show (s.left.drop len).length < s.left.length
    rw [List.length_drop]
    omega

/-- The read that ends the loop: nothing was left, or the room is filled. -/
theorem round_last (h : Reading content size s) (hround : round d size s = (s', some result)) :
    result = (content.take size, decide (size ≤ content.length)) := by
  have hoffered := d.deliver_le_offered s.offers.length (size - s.buffer.length) s.left.length
  have hleft := d.deliver_le_left s.offers.length (size - s.buffer.length) s.left.length
  have hpos := d.deliver_pos s.offers.length (size - s.buffer.length) s.left.length
  have hroom := h.room
  unfold round at hround
  dsimp only at hround
  generalize d.deliver s.offers.length (size - s.buffer.length) s.left.length = len at *
  rw [← h.split]
  by_cases hend : len = 0
  · rw [if_pos hend] at hround
    cases hround
    have hnil : s.left = [] := List.eq_nil_of_length_eq_zero (by omega)
    rw [hnil, List.take_nil, List.append_nil, List.take_of_length_le hroom.le]
    exact congrArg (Prod.mk s.buffer) (decide_eq_false (by omega)).symm
  rw [if_neg hend] at hround
  by_cases hfull : (s.buffer ++ s.left.take len).length = size
  · rw [if_pos hfull] at hround
    cases hround
    have hlen : len = size - s.buffer.length := by
      rw [List.length_append, List.length_take] at hfull
      omega
    have htake : (s.buffer ++ s.left).take size = s.buffer ++ s.left.take len := by
      rw [List.take_append, List.take_of_length_le hroom.le, hlen]
    rw [htake, decide_eq_true]
    rw [List.length_append]
    omega
  · rw [if_neg hfull] at hround; cases hround

end

/-- From any read on, the loop ends within as many reads as there are bytes left, and one. -/
theorem readLoop_ends (d : Delivery) {content : Bytes} {size : Nat} : ∀ (fuel : Nat) (s : Capture),
    Reading content size s → s.left.length < fuel →
    ∃ last, readLoop d size fuel s = some (last, content.take size, decide (size ≤ content.length)) ∧
      ∀ offer ∈ last.offers, 0 < offer := by
  intro fuel
  induction fuel with
  | zero =>
    intro s _ hlt
    omega
  | succ fuel ih =>
    intro s hs hlt
    have hoffers := round_offers (d := d) hs
    rcases hround : round d size s with ⟨s', _ | result⟩
    · obtain ⟨hs', hless⟩ := round_next hs hround
      obtain ⟨last, hlast, hroom⟩ := ih s' hs' (by omega)
      exact ⟨last, by rw [readLoop, hround]; exact hlast, hroom⟩
    · rw [hround] at hoffers
      exact ⟨s', by rw [readLoop, hround, round_last hs hround], hoffers⟩

theorem capture_total (d : Delivery) (content : Bytes) {size : Nat} (hsize : 0 < size) :
    ∀ fuel, content.length < fuel →
      ∃ last, readLoop d size fuel (start content) = some (last, content.take size, decide (size ≤ content.length)) ∧
        ∀ offer ∈ last.offers, 0 < offer :=
  fun fuel hfuel => readLoop_ends d fuel (start content) (reading_start hsize) hfuel

/-- A stream that gives at most two bytes to a read. -/
def twoByTwo : Delivery where
  deliver := fun _ offered left => min 2 (min offered left)
  deliver_le_offered := by intros; omega
  deliver_le_left := by intros; omega
  deliver_pos := by intros; omega

theorem capture_total_twoByTwo :
    0 < 3 ∧ ∃ last, readLoop twoByTwo 3 9 (start [7, 8, 9, 10, 11]) = some (last, [7, 8, 9], true) ∧
      ∀ offer ∈ last.offers, 0 < offer :=
  ⟨by decide, capture_total twoByTwo [7, 8, 9, 10, 11] (by decide) 9 (by decide)⟩

theorem capture_readToBuffer (d : Delivery) (output : Output) {size : Nat} (hsize : 0 < size) {fuel : Nat}
    (hfuel : output.bytes.length < fuel) :
    (readLoop d size fuel (start output.bytes)).map Prod.snd =
      some (RunnerClientService.readToBuffer size [] output.pieces) := by
  obtain ⟨last, hlast, _⟩ := readLoop_ends d fuel (start output.bytes) (reading_start hsize) hfuel
  rw [hlast, RunnerClientService.readToBuffer_eq hsize]
  rfl

end OutputCapture

end OlympSystem.Runner
