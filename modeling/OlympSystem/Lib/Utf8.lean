/-
  Lib.Utf8 — decoding of UTF-8 that replaces what is ill-formed.

  The decoder reads one byte at a time. Between bytes it is at a character boundary or
  inside a sequence (`Pending`): so many bytes still to come, the next one in a range,
  and the bits read so far. A byte outside the range ends the sequence with U+FFFD, one
  for the bytes read of it, and is read again as a first byte.
-/

namespace Lib.Utf8

def replacement : Char := Char.ofNat 0xFFFD

/-- Inside a sequence: `need` bytes to come, the next in `[lo, hi]`. -/
structure Pending where
  need : Nat
  lo : Nat
  hi : Nat
  bits : Nat
  deriving DecidableEq, Repr

/-- A first byte: the characters it gives, and the sequence it opens. -/
def first (b : Nat) : List Char × Option Pending :=
  if b < 0x80 then ([Char.ofNat b], none)
  else if 0xC2 ≤ b ∧ b ≤ 0xDF then ([], some ⟨1, 0x80, 0xBF, b - 0xC0⟩)
  else if b = 0xE0 then ([], some ⟨2, 0xA0, 0xBF, 0⟩)
  else if b = 0xED then ([], some ⟨2, 0x80, 0x9F, 0xD⟩)
  else if 0xE1 ≤ b ∧ b ≤ 0xEF then ([], some ⟨2, 0x80, 0xBF, b - 0xE0⟩)
  else if b = 0xF0 then ([], some ⟨3, 0x90, 0xBF, 0⟩)
  else if 0xF1 ≤ b ∧ b ≤ 0xF3 then ([], some ⟨3, 0x80, 0xBF, b - 0xF0⟩)
  else if b = 0xF4 then ([], some ⟨3, 0x80, 0x8F, 4⟩)
  else ([replacement], none)

def next (pending : Option Pending) (b : Nat) : List Char × Option Pending :=
  match pending with
  | none => first b
  | some p =>
    if p.lo ≤ b ∧ b ≤ p.hi then
      let bits := p.bits * 64 + (b - 0x80)
      if p.need = 1 then ([Char.ofNat bits], none) else ([], some ⟨p.need - 1, 0x80, 0xBF, bits⟩)
    else
      let (chars, pending) := first b
      (replacement :: chars, pending)

def decodeFrom (pending : Option Pending) : List UInt8 → List Char
  | [] => if pending.isSome then [replacement] else []
  | b :: bytes =>
    let (chars, pending) := next pending b.toNat
    chars ++ decodeFrom pending bytes

def decode (bytes : List UInt8) : String := String.ofList (decodeFrom none bytes)

-- "aж€😀", then a truncated sequence, a stray byte and a surrogate
example : decode [0x61, 0xD0, 0xB6, 0xE2, 0x82, 0xAC, 0xF0, 0x9F, 0x98, 0x80] = "aж€😀" := by decide
example : decodeFrom none [0xE2, 0x82, 0x61, 0xFF, 0xED, 0xA0, 0x80] =
    [replacement, 'a', replacement, replacement, replacement, replacement] := by decide

end Lib.Utf8
