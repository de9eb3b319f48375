/-
  OlympSystem.Site.LegacyPasswords — the check of a password against a stored hash
  (`OlympPasswordHasher`).

  Strings are UTF-16 code units; `Encoding.Unicode` writes two bytes a unit, the low one
  first, and replaces half a surrogate pair that stands alone. The salt is copied over the
  last byte of the password, so the high byte of the last unit is not hashed.

  Proved:
  - `hashBuffer_eq`: the buffer is the password without its last byte, the salt and a zero.
  - `getBytes_dropLast`: passwords that agree but for their last byte agree but for the high
    byte of their last unit.
  - `accepts_iff`: the candidates that are accepted.
  - `legacy_iff`: only the right password is accepted exactly if the candidate differs in
    more than that byte.
-/

import Mathlib.Data.List.Basic
import Mathlib.Data.List.Induction
import OlympSystem.Checker.Runner
import OlympSystem.Exceptions
import OlympSystem.Lib.CodeUnits

namespace OlympSystem.Site.LegacyPasswords

open Lib.CodeUnits OlympSystem.Checker

inductive PasswordVerificationResult where
  | failed
  | success
  | successRehashNeeded
  deriving DecidableEq, Repr

/-- What the hasher uses of the base library; `verifyHashedPassword` is that of its base
    class. -/
structure Crypto where
  sha1 : Bytes → Bytes
  toBase64String : Bytes → Units
  fromBase64String : Units → Except Exn Bytes
  verifyHashedPassword : Units → Units → Except Exn PasswordVerificationResult

/-! ## `Encoding.Unicode.GetBytes` -/

def isHighSurrogate (c : UInt16) : Bool := decide (0xD800 ≤ c.toNat) && decide (c.toNat ≤ 0xDBFF)

def isLowSurrogate (c : UInt16) : Bool := decide (0xDC00 ≤ c.toNat) && decide (c.toNat ≤ 0xDFFF)

def replacement : UInt16 := 0xFFFD

/-- Half a surrogate pair that stands alone is replaced. -/
def encodable : Units → Units
  | [] => []
  | a :: b :: rest =>
    if isHighSurrogate a then
      if isLowSurrogate b then a :: b :: encodable rest else replacement :: encodable (b :: rest)
    else if isLowSurrogate a then replacement :: encodable (b :: rest)
    else a :: encodable (b :: rest)
  | [a] => if isHighSurrogate a || isLowSurrogate a then [replacement] else [a]

def low (c : UInt16) : UInt8 := UInt8.ofNat (c.toNat % 256)

def high (c : UInt16) : UInt8 := UInt8.ofNat (c.toNat / 256)

def unitBytes (text : Units) : Bytes := text.flatMap fun c => [low c, high c]

def getBytes (text : Units) : Bytes := unitBytes (encodable text)

/-! ## The hasher -/

def blockCopy (src dst : Bytes) (dstOffset : Int) : Except Exn Bytes :=
  if dstOffset < 0 then .error (.argument "Non-negative number required." "dstOffset")
  else if dst.length < dstOffset.toNat + src.length then
    .error (.argument "Offset and length were out of bounds for the array." "")
  else .ok (dst.take dstOffset.toNat ++ src ++ dst.drop (dstOffset.toNat + src.length))

def hashBuffer (unencodedBytes saltBytes : Bytes) : Except Exn Bytes := do
  let buffer : Bytes := List.replicate (unencodedBytes.length + saltBytes.length) 0
  let buffer ← blockCopy unencodedBytes buffer 0
  blockCopy saltBytes buffer ((unencodedBytes.length : Int) - 1)

def hashPassword (crypto : Crypto) (password salt : Units) : Except Exn Units := do
  let unencodedBytes := getBytes password
  let saltBytes ← crypto.fromBase64String salt
  let buffer ← hashBuffer unencodedBytes saltBytes
  return crypto.toBase64String (crypto.sha1 buffer)

def bar : UInt16 := 124

/-- `VerifyHashedPassword`, with an exact comparison of the hashes. -/
def verifyHashedPassword (crypto : Crypto) (isCompetitor : Bool) (hashedPassword providedPassword : Units) :
    Except Exn PasswordVerificationResult :=
  if isCompetitor then .ok (if hashedPassword = providedPassword then .success else .failed)
  else
    match split bar hashedPassword with
    | [passwordHash, _, salt] => do
      let hash ← hashPassword crypto providedPassword salt
      return if hash = passwordHash then .successRehashNeeded else .failed
    | _ => crypto.verifyHashedPassword hashedPassword providedPassword

/-! ## The buffer -/

theorem hashBuffer_eq {unencodedBytes saltBytes : Bytes} (h : unencodedBytes ≠ []) (hsalt : saltBytes ≠ []) :
    hashBuffer unencodedBytes saltBytes = .ok (unencodedBytes.dropLast ++ saltBytes ++ [0]) := by
  have hlength := List.length_pos_of_ne_nil h
  have hsaltLength := List.length_pos_of_ne_nil hsalt
  unfold hashBuffer
  have hfirst : blockCopy unencodedBytes (List.replicate (unencodedBytes.length + saltBytes.length) 0) 0 =
      .ok (unencodedBytes ++ List.replicate saltBytes.length 0) := by
    unfold blockCopy
    rw [if_neg (by decide), if_neg (by rw [List.length_replicate]; omega)]
    simp
  have hoffset : ((unencodedBytes.length : Int) - 1).toNat = unencodedBytes.length - 1 := by omega
  dsimp only
  rw [hfirst]
  show blockCopy saltBytes (unencodedBytes ++ List.replicate saltBytes.length 0) _ = _
  unfold blockCopy
  rw [if_neg (by omega), hoffset, if_neg (by rw [List.length_append, List.length_replicate]; omega)]
  -- of the zeros behind the password the salt leaves the last one
  have hend : unencodedBytes.length - 1 + saltBytes.length = unencodedBytes.length + (saltBytes.length - 1) := by omega
  rw [List.take_append_of_le_length (by omega), ← List.dropLast_eq_take, hend, List.drop_length_add_append,
    List.drop_replicate]
  have hone : saltBytes.length - (saltBytes.length - 1) = 1 := by omega
  rw [hone]
  rfl

theorem length_unitBytes (text : Units) : (unitBytes text).length = 2 * text.length := by
  unfold unitBytes
  induction text with
  | nil => rfl
  | cons c text ih =>
    rw [List.flatMap_cons, List.length_append, ih, List.length_cons]
    simp
    omega

theorem unit_ext {a b : UInt16} (hlow : low a = low b) (hhigh : high a = high b) : a = b := by
  have hl := congrArg UInt8.toNat hlow
  have hh := congrArg UInt8.toNat hhigh
  have ha := a.toNat_lt
  have hb := b.toNat_lt
  unfold low at hl
  unfold high at hh
  rw [UInt8.toNat_ofNat', UInt8.toNat_ofNat'] at hl hh
  apply UInt16.toNat.inj
  omega

theorem unitBytes_injective : ∀ {a b : Units}, unitBytes a = unitBytes b → a = b := by
  intro a
  induction a with
  | nil =>
    intro b h
    cases b with
    | nil => rfl
    | cons d b => cases h
  | cons c a ih =>
    intro b h
    cases b with
    | nil => cases h
    | cons d b =>
      obtain ⟨hlow, h⟩ := List.cons.inj h
      obtain ⟨hhigh, h⟩ := List.cons.inj h
      rw [unit_ext hlow hhigh, ih h]

/-! ## What is not hashed -/

/-- The texts agree, but for the high byte of their last units. -/
def SameButHighByte (a b : Units) : Prop := ∃ front c d, a = front ++ [c] ∧ b = front ++ [d] ∧ low c = low d

theorem unitBytes_dropLast (front : Units) (c : UInt16) :
    (unitBytes (front ++ [c])).dropLast = unitBytes front ++ [low c] := by
  unfold unitBytes
  rw [List.flatMap_append, List.flatMap_singleton, List.dropLast_append_of_ne_nil (by simp)]
  rfl

theorem unitBytes_dropLast_iff {a b : Units} (ha : a ≠ []) (hb : b ≠ []) :
    (unitBytes a).dropLast = (unitBytes b).dropLast ↔ SameButHighByte a b := by
  constructor
  · intro h
    rw [← List.dropLast_append_getLast ha, ← List.dropLast_append_getLast hb, unitBytes_dropLast,
      unitBytes_dropLast] at h
    obtain ⟨hfront, hlast⟩ := List.append_inj' h rfl
    refine ⟨a.dropLast, a.getLast ha, b.getLast hb, (List.dropLast_append_getLast ha).symm, ?_, (List.cons.inj hlast).1⟩
    rw [unitBytes_injective hfront, List.dropLast_append_getLast hb]
  · intro h
    obtain ⟨front, c, d, rfl, rfl, hlow⟩ := h
    rw [unitBytes_dropLast, unitBytes_dropLast, hlow]

theorem encodable_ne_nil {text : Units} (h : text ≠ []) : encodable text ≠ [] := by
  unfold encodable
  split
  · exact absurd rfl h
  · split
    · split <;> exact List.cons_ne_nil _ _
    · split <;> exact List.cons_ne_nil _ _
  · split <;> exact List.cons_ne_nil _ _

theorem getBytes_ne_nil {text : Units} (h : text ≠ []) : getBytes text ≠ [] := by
  intro hnil
  have hlength := congrArg List.length hnil
  have hpos := List.length_pos_of_ne_nil (encodable_ne_nil h)
  unfold getBytes at hlength
  rw [length_unitBytes, List.length_nil] at hlength
  omega

theorem getBytes_dropLast {a b : Units} (ha : a ≠ []) (hb : b ≠ []) :
    (getBytes a).dropLast = (getBytes b).dropLast ↔ SameButHighByte (encodable a) (encodable b) :=
  unitBytes_dropLast_iff (encodable_ne_nil ha) (encodable_ne_nil hb)

/-- Two passwords are hashed from the same buffer. -/
theorem hashBuffer_same {a b : Units} (ha : a ≠ []) (hb : b ≠ []) {saltBytes : Bytes} (hsalt : saltBytes ≠ []) :
    hashBuffer (getBytes a) saltBytes = hashBuffer (getBytes b) saltBytes ↔
      SameButHighByte (encodable a) (encodable b) := by
  rw [hashBuffer_eq (getBytes_ne_nil ha) hsalt, hashBuffer_eq (getBytes_ne_nil hb) hsalt, ← getBytes_dropLast ha hb]
  constructor
  · intro h
    have hbuffers := Except.ok.inj h
    exact List.append_cancel_right (List.append_cancel_right hbuffers)
  · intro h
    rw [h]

/-! ## The candidates that are accepted -/

section Legacy

variable {crypto : Crypto} {p q salt middle hash stored : Units} {saltBytes : Bytes}

theorem hashPassword_eq (hsalt : crypto.fromBase64String salt = .ok saltBytes) (hne : saltBytes ≠ []) (hq : q ≠ []) :
    hashPassword crypto q salt =
      .ok (crypto.toBase64String (crypto.sha1 ((getBytes q).dropLast ++ saltBytes ++ [0]))) := by
  unfold hashPassword
  dsimp only
  rw [hsalt]
  show (do let buffer ← hashBuffer (getBytes q) saltBytes; return crypto.toBase64String (crypto.sha1 buffer)) = _
  rw [hashBuffer_eq (getBytes_ne_nil hq) hne]
  rfl

/-- A legacy hash of `p` in three parts accepts `q`. -/
theorem accepts_iff (hsha : Function.Injective crypto.sha1) (hbase : Function.Injective crypto.toBase64String)
    (hsalt : crypto.fromBase64String salt = .ok saltBytes) (hne : saltBytes ≠ []) (hp : p ≠ []) (hq : q ≠ [])
    (hstored : split bar stored = [hash, middle, salt]) (hhash : hashPassword crypto p salt = .ok hash) :
    (∃ result, verifyHashedPassword crypto false stored q = .ok result ∧ result ≠ .failed) ↔
      SameButHighByte (encodable p) (encodable q) := by
  rw [hashPassword_eq hsalt hne hp] at hhash
  have hhash := Except.ok.inj hhash
  have hverify : verifyHashedPassword crypto false stored q =
      .ok (if crypto.toBase64String (crypto.sha1 ((getBytes q).dropLast ++ saltBytes ++ [0])) = hash then
        .successRehashNeeded else .failed) := by
    unfold verifyHashedPassword
    rw [if_neg (by decide), hstored]
    dsimp only
    rw [hashPassword_eq hsalt hne hq]
    rfl
  rw [hverify, ← getBytes_dropLast hp hq]
  by_cases hsame : (getBytes p).dropLast = (getBytes q).dropLast
  · rw [← hsame, if_pos hhash]
    exact ⟨fun _ => rfl, fun _ => ⟨_, rfl, by decide⟩⟩
  · have hother : ¬crypto.toBase64String (crypto.sha1 ((getBytes q).dropLast ++ saltBytes ++ [0])) = hash := by
      intro heq
      have hbuffers := hsha (hbase (heq.trans hhash.symm))
      exact hsame (List.append_cancel_right (List.append_cancel_right hbuffers)).symm
    rw [if_neg hother]
    refine ⟨fun h => ?_, fun h => absurd h hsame⟩
    obtain ⟨result, hresult, hfailed⟩ := h
    exact absurd (Except.ok.inj hresult).symm hfailed

theorem legacy_iff (hsha : Function.Injective crypto.sha1) (hbase : Function.Injective crypto.toBase64String)
    (hsalt : crypto.fromBase64String salt = .ok saltBytes) (hne : saltBytes ≠ []) (hp : p ≠ []) (hq : q ≠ [])
    (hstored : split bar stored = [hash, middle, salt]) (hhash : hashPassword crypto p salt = .ok hash) :
    ((∃ result, verifyHashedPassword crypto false stored q = .ok result ∧ result ≠ .failed) → q = p) ∧
        (hashBuffer (getBytes p) saltBytes = hashBuffer (getBytes q) saltBytes → q = p) ↔
      q = p ∨ ¬SameButHighByte (encodable p) (encodable q) := by
  rw [accepts_iff hsha hbase hsalt hne hp hq hstored hhash, hashBuffer_same hp hq hne, and_self]
  by_cases hsame : SameButHighByte (encodable p) (encodable q)
  · simp [hsame]
  · simp [hsame]

end Legacy

/-! ## A salt of one byte -/

def digestA : Bytes := [121, 81, 72, 255, 116, 147, 131, 115, 184, 207, 223, 208, 229, 235, 162, 180, 148, 36, 99, 125]

def digestB : Bytes := [141, 114, 161, 93, 153, 121, 60, 90, 160, 202, 198, 39, 39, 184, 86, 92, 8, 68, 159, 6]

/-- The values at two arguments, and longer ones elsewhere. -/
def valuesAt {α β : Type} [DecidableEq α] (a b : α) (ya yb : List β) (other : α → List β) (x : α) : List β :=
  if x = a then ya else if x = b then yb else other x

theorem valuesAt_injective {α β : Type} [DecidableEq α] {a b : α} {ya yb : List β} {other : α → List β}
    (hne : ya ≠ yb) (hother : Function.Injective other)
    (hlong : ∀ x, ya.length < (other x).length ∧ yb.length < (other x).length) :
    Function.Injective (valuesAt a b ya yb other) := by
  intro x y h
  have hapart : ∀ z, other z ≠ ya ∧ other z ≠ yb := by
    intro z
    obtain ⟨ha, hb⟩ := hlong z
    constructor
    · intro heq
      rw [heq] at ha
      omega
    · intro heq
      rw [heq] at hb
      omega
  unfold valuesAt at h
  by_cases hxa : x = a
  · rw [if_pos hxa] at h
    split at h
    · rw [hxa]
      symm
      assumption
    · split at h
      · exact absurd h hne
      · exact absurd h.symm (hapart y).1
  · rw [if_neg hxa] at h
    by_cases hxb : x = b
    · rw [if_pos hxb] at h
      split at h
      · exact absurd h.symm hne
      · split at h
        · rw [hxb]
          symm
          assumption
        · exact absurd h.symm (hapart y).2
    · rw [if_neg hxb] at h
      split at h
      · exact absurd h (hapart x).1
      · split at h
        · exact absurd h (hapart x).2
        · exact hother h

/-- SHA-1 and Base64 as they are on what is hashed here. -/
def sampleCrypto : Crypto where
  sha1 := valuesAt [0x61, 7, 0] [0x62, 7, 0] digestA digestB fun bytes => bytes ++ List.replicate 21 0
  toBase64String := valuesAt digestA digestB (units "eVFI/3STg3O4z9/Q5euitJQkY30=")
    (units "jXKhXZl5PFqgysYnJ7hWXAhEnwY=")
    fun bytes => bytes.map (fun b => UInt16.ofNat b.toNat) ++ List.replicate 29 0
  fromBase64String text := if text = units "Bw==" then .ok [7] else .error
    (.format "The input is not a valid Base-64 string.")
  verifyHashedPassword _ _ := .ok .failed

theorem sampleCrypto_injective :
    Function.Injective sampleCrypto.sha1 ∧ Function.Injective sampleCrypto.toBase64String := by
  constructor
  · apply valuesAt_injective (by decide)
    · exact fun x y h => List.append_cancel_right h
    · intro x
      rw [List.length_append, List.length_replicate, show digestA.length = 20 from rfl,
        show digestB.length = 20 from rfl]
      omega
  · apply valuesAt_injective (by decide)
    · intro x y h
      apply List.map_injective_iff.mpr _ (List.append_cancel_right h)
      intro b c hbytes
      have hnats := congrArg UInt16.toNat hbytes
      have hb := b.toNat_lt
      have hc := c.toNat_lt
      rw [UInt16.toNat_ofNat', UInt16.toNat_ofNat'] at hnats
      apply UInt8.toNat.inj
      omega
    · intro x
      rw [List.length_append, List.length_replicate, show (units "eVFI/3STg3O4z9/Q5euitJQkY30=").length = 28 by decide,
        show (units "jXKhXZl5PFqgysYnJ7hWXAhEnwY=").length = 28 by decide]
      omega

theorem legacy_oneByte :
    ((∃ result, verifyHashedPassword sampleCrypto false (units "eVFI/3STg3O4z9/Q5euitJQkY30=|1|Bw==")
      (units "b") = .ok result ∧
        result ≠ .failed) → units "b" = units "a") ∧
        (hashBuffer (getBytes (units "a")) [7] = hashBuffer (getBytes (units "b")) [7] → units "b" = units "a") ↔
      units "b" = units "a" ∨ ¬SameButHighByte (encodable (units "a")) (encodable (units "b")) := by
  have hsalt : sampleCrypto.fromBase64String (units "Bw==") = .ok [7] := by decide
  have hstored : split bar (units "eVFI/3STg3O4z9/Q5euitJQkY30=|1|Bw==") =
      [units "eVFI/3STg3O4z9/Q5euitJQkY30=", units "1", units "Bw=="] := by decide
  have hhash : hashPassword sampleCrypto (units "a") (units "Bw==") = .ok (units "eVFI/3STg3O4z9/Q5euitJQkY30=") := by
    decide
  obtain ⟨hsha, hbase⟩ := sampleCrypto_injective
  exact legacy_iff hsha hbase hsalt (by decide) (by decide) (by decide) hstored hhash

/-- The two units differ in the high byte only. -/
theorem legacy_accepts_other :
    Function.Injective sampleCrypto.sha1 ∧ Function.Injective sampleCrypto.toBase64String ∧
      split bar (units "eVFI/3STg3O4z9/Q5euitJQkY30=|1|Bw==") =
        [units "eVFI/3STg3O4z9/Q5euitJQkY30=", units "1", units "Bw=="] ∧
      hashPassword sampleCrypto (units "a") (units "Bw==") = .ok (units "eVFI/3STg3O4z9/Q5euitJQkY30=") ∧
      verifyHashedPassword sampleCrypto false (units "eVFI/3STg3O4z9/Q5euitJQkY30=|1|Bw==") (units "š") =
        .ok .successRehashNeeded ∧
      units "š" ≠ units "a" :=
  ⟨sampleCrypto_injective.1, sampleCrypto_injective.2, by decide, by decide, by decide, by decide⟩

end OlympSystem.Site.LegacyPasswords
