/-
  Lib.Text — strings as the base library treats them.

  Strings are lists of characters where a function looks inside; the ordinal order
  compares UTF-16 code units.

  Proved:
  - `split_join` / `join_pairs`: fields without the separator come back from their join.
  - `join_split`: joining the parts of a text gives the text.
  - `split_one` / `split_two`: a text that is split into one or two parts.
  - `first_part`: a text tells what is before its first separator.
  - `decimal_noSeparator`: a decimal number has only digits and a sign.
  - `trim_trim` / `isBlank_trim`: trimming once is enough, and leaves nothing of blank texts only.
  - `trimEndOf_append`: a character that is not trimmed keeps what is before it.
  - `equals_lower`: equality without case with a text of small ASCII letters.
  - `tryParseInt_toString` / `tryParseInt_range`: a number that fits is read back, and what is
    read fits.
  - `padded_injective` / `toString_injective`: different numbers are different texts, also
    in at least so many digits.
-/

import Mathlib.Data.List.Basic
import Mathlib.Data.List.DropRight
import Mathlib.Data.List.Flatten
import Mathlib.Data.List.Lex
import Mathlib.Data.List.TakeWhile
import Mathlib.Order.Lattice

namespace Lib.Text

def isWhiteSpace (c : Char) : Bool :=
  let n := c.toNat
  (0x09 ≤ n && n ≤ 0x0D) || n == 0x20 || n == 0x85 || n == 0xA0 || n == 0x1680 || (0x2000 ≤ n && n ≤ 0x200A) ||
    n == 0x2028 || n == 0x2029 || n == 0x202F || n == 0x205F || n == 0x3000

def trim (text : String) : String :=
  String.ofList ((text.toList.dropWhile isWhiteSpace).reverse.dropWhile isWhiteSpace).reverse

/-- `string.IsNullOrWhiteSpace` of a string that is not null. -/
def isBlank (text : String) : Bool := text.toList.all isWhiteSpace

def utf16 (c : Char) : List Nat :=
  let n := c.toNat
  if n < 0x10000 then [n] else [0xD800 + (n - 0x10000) / 0x400, 0xDC00 + (n - 0x10000) % 0x400]

/-- What `StringComparer.Ordinal` compares. -/
def ordinal (text : String) : List Nat := text.toList.flatMap utf16

def split (separator : Char) (text : String) : List String :=
  (text.toList.splitOn separator).map String.ofList

theorem split_join {separator : Char} {fields : List String} (hne : fields ≠ [])
    (h : ∀ field ∈ fields, separator ∉ field.toList) :
    split separator (String.intercalate (String.singleton separator) fields) = fields := by
  unfold split
  rw [String.toList_intercalate, String.toList_singleton, List.splitOn_intercalate]
  · rw [List.map_map]
    exact List.map_id'' (fun field => String.ofList_toList) fields
  · intro l hl
    obtain ⟨field, hfield, rfl⟩ := List.mem_map.mp hl
    exact h field hfield
  · simpa using hne

theorem join_split (separator : Char) (text : String) :
    String.intercalate (String.singleton separator) (split separator text) = text := by
  refine String.toList_injective ?_
  unfold split
  have hpieces : (text.toList.splitOn separator).map (String.toList ∘ String.ofList) = text.toList.splitOn separator :=
    List.map_id'' (fun piece => String.toList_ofList) _
  rw [String.toList_intercalate, String.toList_singleton, List.map_map, hpieces, List.intercalate_splitOn]

theorem intercalate_pairs {α : Type*} (separator : α) (fields : List (List α × List α)) :
    [separator].intercalate (fields.map fun f => f.1 ++ separator :: f.2) =
      [separator].intercalate (fields.flatMap fun f => [f.1, f.2]) := by
  induction fields with
  | nil => rfl
  | cons f fields ih =>
    cases fields with
    | nil => simp
    | cons g fields =>
      simp only [List.map_cons, List.flatMap_cons, List.cons_append, List.nil_append] at ih ⊢
      rw [List.intercalate_cons_cons, List.intercalate_cons_cons, List.intercalate_cons_cons, ih]
      simp

/-- Fields that hold the separator once are two fields each. -/
theorem join_pairs (separator : Char) (fields : List (String × String)) :
    String.intercalate (String.singleton separator) (fields.map fun f => f.1 ++ String.singleton separator ++ f.2) =
      String.intercalate (String.singleton separator) (fields.flatMap fun f => [f.1, f.2]) := by
  refine String.toList_injective ?_
  have h := intercalate_pairs separator (fields.map fun f => (f.1.toList, f.2.toList))
  rw [List.map_map, List.flatMap_map] at h
  rw [String.toList_intercalate, String.toList_intercalate, String.toList_singleton, List.map_map, List.map_flatMap]
  simpa [Function.comp_def] using h

theorem not_mem_splitOn {c : Char} : ∀ {l piece : List Char}, piece ∈ l.splitOn c → c ∉ piece := by
  intro l
  induction l with
  | nil => intro piece h; rw [List.splitOn_nil, List.mem_singleton] at h; rw [h]; exact List.not_mem_nil
  | cons a l ih =>
    intro piece h
    rw [List.splitOn_cons_eq_if_modifyHead] at h
    split at h
    · rcases List.mem_cons.mp h with rfl | h
      · exact List.not_mem_nil
      · exact ih h
    · next hne =>
      cases hl : l.splitOn c with
      | nil => exact absurd hl (List.splitOn_ne_nil c l)
      | cons first rest =>
        rw [hl, List.modifyHead_cons] at h
        rcases List.mem_cons.mp h with rfl | h
        · rintro hmem
          rcases List.mem_cons.mp hmem with rfl | hmem
          · exact hne (beq_self_eq_true _)
          · exact ih (hl ▸ List.mem_cons_self) hmem
        · exact ih (hl ▸ List.mem_cons_of_mem _ h)

/-- What is before the first separator, and after it. -/
theorem first_part {α : Type*} {separator : α} : ∀ {a a' b b' : List α}, separator ∉ a → separator ∉ a' →
    a ++ separator :: b = a' ++ separator :: b' → a = a' ∧ b = b' := by
  intro a
  induction a with
  | nil =>
    intro a' b b' _ ha' h
    cases a' with
    | nil => exact ⟨rfl, (List.cons.inj h).2⟩
    | cons c a' => exact absurd ((List.cons.inj h).1 ▸ List.mem_cons_self) ha'
  | cons c a ih =>
    intro a' b b' ha ha' h
    cases a' with
    | nil => exact absurd ((List.cons.inj h).1 ▸ List.mem_cons_self) ha
    | cons c' a' =>
      obtain ⟨rfl, hrest⟩ := List.cons.inj h
      obtain ⟨rfl, rfl⟩ := ih (List.not_mem_of_not_mem_cons ha) (List.not_mem_of_not_mem_cons ha') hrest
      exact ⟨rfl, rfl⟩

/-- A text that is split into one part does not have the separator. -/
theorem split_one {separator : Char} {text part : String} (h : split separator text = [part]) :
    part = text ∧ separator ∉ text.toList := by
  unfold split at h
  obtain ⟨piece, hpiece, rfl⟩ := List.map_eq_singleton_iff.mp h
  have htext : text.toList = piece := by
    have : [separator].intercalate (text.toList.splitOn separator) = text.toList :=
      List.intercalate_splitOn separator
    rw [hpiece] at this
    simpa using this.symm
  refine ⟨by rw [← htext, String.ofList_toList], htext ▸ not_mem_splitOn (hpiece ▸ List.mem_cons_self)⟩

/-- A text that is split into two parts has the separator once. -/
theorem split_two {separator : Char} {text a b : String} (h : split separator text = [a, b]) :
    text = a ++ String.singleton separator ++ b ∧ separator ∉ a.toList ∧ separator ∉ b.toList := by
  unfold split at h
  obtain ⟨first, rest, hl, rfl, hrest⟩ := List.map_eq_cons_iff.mp h
  obtain ⟨second, rfl, rfl⟩ := List.map_eq_singleton_iff.mp hrest
  have htext : text.toList = first ++ separator :: second := by
    have : [separator].intercalate (text.toList.splitOn separator) = text.toList :=
      List.intercalate_splitOn separator
    rw [hl] at this
    simpa using this.symm
  have hmem : ∀ piece ∈ [first, second], separator ∉ piece := fun piece hp => not_mem_splitOn (hl ▸ hp)
  simp only [String.toList_ofList]
  refine ⟨String.toList_injective ?_, hmem _ (by simp), hmem _ (by simp)⟩
  simp [htext]

theorem decimal_noSeparator {separator : Char} (hd : separator.isDigit = false) (hs : separator ≠ '-') (n : Int) :
    separator ∉ (toString n).toList := by
  have digits : ∀ m : Nat, separator ∉ (toString m).toList := by
    intro m hm
    have h : separator ∈ (String.ofList (Nat.toDigits 10 m)).toList := hm
    rw [String.toList_ofList] at h
    rw [Nat.isDigit_of_mem_toDigits (by decide) (by decide) h] at hd
    cases hd
  cases n with
  | ofNat m => exact digits m
  | negSucc m =>
    show separator ∉ ("-" ++ toString (m + 1)).toList
    rw [String.toList_append]
    intro hm
    rcases List.mem_append.mp hm with hm | hm
    · exact hs (by simpa using hm)
    · exact digits _ hm

def trimEnd (c : Char) (text : String) : String :=
  String.ofList (text.toList.reverse.dropWhile (· == c)).reverse

/-- What is trimmed are the characters at the end, if the text ends in one. -/
theorem trimEnd_eq (c : Char) (text : String) : ∃ n, text.toList = (trimEnd c text).toList ++ List.replicate n c ∧
    (text.toList.getLast? = some c ↔ n ≠ 0) := by
  have hall : ∀ a ∈ text.toList.reverse.takeWhile (· == c), a = c := fun a ha =>
    beq_iff_eq.mp (List.all_eq_true.mp List.all_takeWhile a ha)
  have hends : ∃ n, text.toList.reverse.takeWhile (· == c) = List.replicate n c :=
    ⟨_, List.eq_replicate_of_mem hall⟩
  obtain ⟨n, hends⟩ := hends
  have hsplit : text.toList.reverse = List.replicate n c ++ text.toList.reverse.dropWhile (· == c) := by
    rw [← hends, List.takeWhile_append_dropWhile]
  refine ⟨n, ?_, ?_⟩
  · have hreverse := congrArg List.reverse hsplit
    rw [List.reverse_reverse, List.reverse_append, List.reverse_replicate] at hreverse
    unfold trimEnd
    rwa [String.toList_ofList]
  · rw [← List.head?_reverse, ← List.length_replicate (n := n) (a := c), ← hends, Ne, List.length_eq_zero_iff]
    cases text.toList.reverse with
    | nil => simp
    | cons a l => by_cases ha : a = c <;> simp [ha]

def trimEndOf (chars : List Char) (text : String) : String := String.ofList (text.toList.rdropWhile chars.contains)

/-- The end is trimmed no further than a character that stays. -/
theorem trimEndOf_append {chars a b : List Char} {c : Char} (h : chars.contains c = false) :
    (trimEndOf chars (String.ofList (a ++ c :: b))).toList = a ++ c :: b.rdropWhile chars.contains := by
  have hstay : (a ++ [c]).rdropWhile chars.contains = a ++ [c] :=
    List.rdropWhile_concat_neg _ _ _ (Bool.eq_false_iff.mp h)
  have hsplit : a ++ c :: b = (a ++ [c]) ++ b := by simp
  unfold trimEndOf
  rw [String.toList_ofList, String.toList_ofList, hsplit]
  unfold List.rdropWhile at hstay ⊢
  rw [List.reverse_append, List.dropWhile_append]
  split
  · next hnil => rw [hstay, List.isEmpty_iff.mp hnil]; rfl
  · simp

/-- `int.TryParse` of decimal digits. -/
def tryParseDigits (max : Nat) (digits : String) : Option Nat :=
  let n := digits.toList.foldl (fun acc c => 10 * acc + (c.toNat - '0'.toNat)) 0
  if n ≤ max then some n else none

def isNumberSpace (c : Char) : Bool := c == ' ' || (9 ≤ c.toNat && c.toNat ≤ 13)

/-- A sign, if there is one, and the rest. -/
def signOf : List Char → Bool × List Char
  | '-' :: rest => (true, rest)
  | '+' :: rest => (false, rest)
  | rest => (false, rest)

/-- `int.TryParse`: digits with a sign before, in white space; null characters may follow. -/
def tryParseInt (text : String) : Option Int :=
  let (negative, rest) := signOf (text.toList.dropWhile isNumberSpace)
  let digits := rest.takeWhile Char.isDigit
  let tail := ((rest.dropWhile Char.isDigit).dropWhile isNumberSpace).dropWhile (·.toNat == 0)
  if digits.isEmpty || !tail.isEmpty then none
  else (tryParseDigits (if negative then 2147483648 else 2147483647) (String.ofList digits)).map fun n =>
    if negative then -(n : Int) else n

/-! ## Letter case -/

theorem of_ascii {P : Char → Prop} (h : ∀ n < 128, P (Char.ofNat n)) {c : Char} (hc : c.toNat < 128) : P c :=
  Char.ofNat_toNat c ▸ h c.toNat hc

theorem toLower_toUpper {c : Char} (hc : c.toNat < 128) : c.toUpper.toLower = c.toLower :=
  of_ascii (P := fun c => c.toUpper.toLower = c.toLower) (by decide) hc

theorem toUpper_toLower {c : Char} (hc : c.toNat < 128) : c.toLower.toUpper = c.toUpper :=
  of_ascii (P := fun c => c.toLower.toUpper = c.toUpper) (by decide) hc

theorem toUpper_ascii {c : Char} (hc : c.toNat < 128) : c.toUpper.toNat < 128 :=
  of_ascii (P := fun c => c.toUpper.toNat < 128) (by decide) hc

theorem ascii_of_toLower {c : Char} (h : c.toLower.toNat < 128) : c.toNat < 128 := by
  unfold Char.toLower at h
  split at h
  · rename_i hc
    have : c.toNat ≤ 90 := hc.2
    omega
  · exact h

theorem digit_ascii {c : Char} (h : c.isDigit = true) : c.toNat < 128 := by
  simp only [Char.isDigit, Bool.and_eq_true, decide_eq_true_eq] at h
  have : c.toNat ≤ 57 := h.2
  omega

/-- The simple upper-case mapping of `OrdinalIgnoreCase`: ASCII is mapped as usual, and
    nothing else is mapped to ASCII. -/
structure UpperCase where
  upper : Char → Char
  ascii : ∀ c, c.toNat < 128 → upper c = c.toUpper
  other : ∀ c, 128 ≤ c.toNat → 128 ≤ (upper c).toNat

namespace UpperCase

def fold (u : UpperCase) (text : String) : List Char := text.toList.map u.upper

def equals (u : UpperCase) (a b : String) : Bool := u.fold a == u.fold b

/-- Of a small ASCII letter, or an ASCII character without case, those equal to it. -/
theorem upper_eq_iff (u : UpperCase) {c d : Char} (hd : d.toNat < 128) (hlower : d.toLower = d) :
    u.upper c = u.upper d ↔ c.toLower = d := by
  rw [u.ascii d hd]
  constructor
  · intro h
    have hc : c.toNat < 128 := by
      by_contra hc
      have := u.other c (not_lt.mp hc)
      rw [h] at this
      exact absurd (toUpper_ascii hd) (not_lt.mpr this)
    rw [u.ascii c hc] at h
    rw [← toLower_toUpper hc, h, toLower_toUpper hd, hlower]
  · intro h
    have hc : c.toNat < 128 := ascii_of_toLower (h ▸ hd)
    rw [u.ascii c hc, ← toUpper_toLower hc, h]

/-- A small ASCII letter, or an ASCII character without case. -/
def isSmall (c : Char) : Bool := decide (c.toNat < 128) && c.toLower == c

/-- Equality without case with a text of small ASCII letters. -/
theorem equals_lower (u : UpperCase) (text : String) {word : String} (h : word.toList.all isSmall = true) :
    u.equals text word = true ↔ text.toList.map Char.toLower = word.toList := by
  unfold equals fold
  rw [beq_iff_eq]
  rw [List.all_eq_true] at h
  generalize text.toList = l
  generalize word.toList = m at h
  induction l generalizing m with
  | nil => cases m <;> simp
  | cons c l ih =>
    cases m with
    | nil => simp
    | cons d m =>
      have hsmall := h d List.mem_cons_self
      simp only [isSmall, Bool.and_eq_true, decide_eq_true_eq, beq_iff_eq] at hsmall
      obtain ⟨hd, hlower⟩ := hsmall
      rw [List.map_cons, List.map_cons, List.map_cons, List.cons.injEq, List.cons.injEq,
        upper_eq_iff u hd hlower, ih m fun c hc => h c (List.mem_cons_of_mem _ hc)]

/-- The slash is no letter. -/
theorem upper_slash (u : UpperCase) {c : Char} : u.upper c = '/' ↔ c = '/' := by
  have hslash : u.upper '/' = '/' := u.ascii '/' (by decide)
  have hlower : ∀ n < 128, (Char.ofNat n).toLower = '/' → Char.ofNat n = '/' := by decide
  constructor
  · intro h
    rw [← hslash, upper_eq_iff u (by decide) (by decide)] at h
    exact of_ascii (P := fun c => c.toLower = '/' → c = '/') hlower (ascii_of_toLower (h ▸ (by decide))) h
  · rintro rfl; exact hslash

theorem slash_not_mem_fold (u : UpperCase) {text : String} (h : '/' ∉ text.toList) : '/' ∉ u.fold text := by
  intro hmem
  obtain ⟨c, hc, heq⟩ := List.mem_map.mp hmem
  exact h (u.upper_slash.mp heq ▸ hc)

/-- Nor is the dot. -/
theorem upper_dot (u : UpperCase) {c : Char} : u.upper c = '.' ↔ c = '.' := by
  have hdot : u.upper '.' = '.' := u.ascii '.' (by decide)
  have hlower : ∀ n < 128, (Char.ofNat n).toLower = '.' → Char.ofNat n = '.' := by decide
  constructor
  · intro h
    rw [← hdot, upper_eq_iff u (by decide) (by decide)] at h
    exact of_ascii (P := fun c => c.toLower = '.' → c = '.') hlower (ascii_of_toLower (h ▸ (by decide))) h
  · rintro rfl; exact hdot

theorem fold_append (u : UpperCase) (a b : String) : u.fold (a ++ b) = u.fold a ++ u.fold b := by
  unfold fold
  rw [String.toList_append, List.map_append]

/-- Two segments of a path. -/
theorem fold_slash (u : UpperCase) (a b : String) : u.fold (a ++ "/" ++ b) = u.fold a ++ '/' :: u.fold b := by
  have hslash : u.fold "/" = ['/'] := congrArg (fun c => [c]) (u.upper_slash.mpr rfl)
  rw [fold_append, fold_append, hslash, List.append_assoc]; rfl

/-- Digits have no case. -/
theorem fold_digits (u : UpperCase) {text : String} (h : ∀ c ∈ text.toList, c.isDigit = true) :
    u.fold text = text.toList := by
  have hdigit : ∀ n < 128, (Char.ofNat n).isDigit = true → (Char.ofNat n).toUpper = Char.ofNat n := by decide
  refine (List.map_congr_left fun c hc => ?_).trans (List.map_id _)
  have hc := h c hc
  have hascii := digit_ascii hc
  rw [u.ascii c hascii]
  exact of_ascii (P := fun c => c.isDigit = true → c.toUpper = c) hdigit hascii hc

/-- The mapping of ASCII alone. -/
def asciiOnly : UpperCase where
  upper := Char.toUpper
  ascii _ _ := rfl
  other c hc := by
    have h : c.toUpper = c := by
      unfold Char.toUpper
      split
      · rename_i h
        have : c.toNat ≤ 122 := h.2
        omega
      · rfl
    rw [h]; exact hc

end UpperCase

/-! ## Trimmed texts -/

theorem trim_toList (text : String) :
    (trim text).toList = (text.toList.dropWhile isWhiteSpace).rdropWhile isWhiteSpace := by
  unfold trim List.rdropWhile
  rw [String.toList_ofList]

theorem trim_sublist (text : String) : (trim text).toList.Sublist text.toList := by
  rw [trim_toList]
  exact (List.rdropWhile_prefix isWhiteSpace _).sublist.trans (List.dropWhile_sublist _)

theorem ordinal_trim_length (text : String) : (ordinal (trim text)).length ≤ (ordinal text).length :=
  ((trim_sublist text).flatMap utf16).length_le

/-- A text that does not begin or end with white space is not trimmed. -/
theorem trim_trim (text : String) : trim (trim text) = trim text := by
  refine String.toList_injective ?_
  have hstart : ((trim text).toList).dropWhile isWhiteSpace = (trim text).toList := by
    rw [List.dropWhile_eq_self_iff]
    intro hpos
    have hinit : (trim text).toList <+: text.toList.dropWhile isWhiteSpace := by
      rw [trim_toList]; exact List.rdropWhile_prefix isWhiteSpace _
    have hlong : 0 < (text.toList.dropWhile isWhiteSpace).length := lt_of_lt_of_le hpos hinit.length_le
    rw [hinit.getElem hpos]
    exact List.dropWhile_get_zero_not isWhiteSpace text.toList hlong
  rw [trim_toList (trim text), hstart, trim_toList, List.rdropWhile_idempotent]

theorem trim_plain {text : String} (h : ∀ c ∈ text.toList, isWhiteSpace c = false) : trim text = text := by
  refine String.toList_injective ?_
  have hstart : text.toList.dropWhile isWhiteSpace = text.toList := by
    rw [List.dropWhile_eq_self_iff]
    intro hpos
    rw [h _ (List.getElem_mem hpos)]
    exact Bool.false_ne_true
  rw [trim_toList, hstart, List.rdropWhile_eq_self_iff]
  intro hne
  rw [h _ (List.getLast_mem hne)]
  exact Bool.false_ne_true

theorem isBlank_trim (text : String) : isBlank (trim text) = isBlank text := by
  unfold isBlank
  rw [Bool.eq_iff_iff, List.all_eq_true, List.all_eq_true]
  refine ⟨fun h => ?_, fun h c hc => h c ((trim_sublist text).subset hc)⟩
  by_contra hnot
  -- what is not white space is not trimmed away
  have hstart : text.toList.dropWhile isWhiteSpace ≠ [] := by
    rw [Ne, List.dropWhile_eq_nil_iff]
    exact hnot
  rw [trim_toList] at h
  have hend : (text.toList.dropWhile isWhiteSpace).rdropWhile isWhiteSpace ≠ [] := by
    rw [Ne, List.rdropWhile_eq_nil_iff]
    intro hall
    have hpos := List.length_pos_of_ne_nil hstart
    exact List.dropWhile_get_zero_not isWhiteSpace text.toList hpos (hall _ (List.getElem_mem hpos))
  exact List.rdropWhile_last_not isWhiteSpace _ hend (h _ (List.getLast_mem hend))

/-! ## Numbers -/

theorem digits_head (m : Nat) : ∃ c rest, Nat.toDigits 10 m = c :: rest ∧ c.isDigit = true := by
  cases h : Nat.toDigits 10 m with
  | nil => exact absurd h Nat.toDigits_ne_nil
  | cons c rest =>
    have hc : c ∈ Nat.toDigits 10 m := by
      rw [h]
      exact List.mem_cons_self
    exact ⟨c, rest, rfl, Nat.isDigit_of_mem_toDigits (by decide) (by decide) hc⟩

/-- A digit is no white space and no sign. -/
theorem digit_plain {c : Char} (h : c.isDigit = true) : isNumberSpace c = false ∧ c ≠ '-' ∧ c ≠ '+' := by
  have hplain : ∀ n < 128, (Char.ofNat n).isDigit = true →
      isNumberSpace (Char.ofNat n) = false ∧ Char.ofNat n ≠ '-' ∧ Char.ofNat n ≠ '+' := by decide
  exact of_ascii (P := fun c => c.isDigit = true → isNumberSpace c = false ∧ c ≠ '-' ∧ c ≠ '+') hplain (digit_ascii h) h

theorem signOf_digits (m : Nat) : signOf (Nat.toDigits 10 m) = (false, Nat.toDigits 10 m) := by
  obtain ⟨c, rest, hdigits, hc⟩ := digits_head m
  obtain ⟨-, hminus, hplus⟩ := digit_plain hc
  rw [hdigits]
  unfold signOf
  split
  · next heq => cases heq; exact absurd rfl hminus
  · next heq => cases heq; exact absurd rfl hplus
  · rfl

theorem skip_digits (m : Nat) : (Nat.toDigits 10 m).dropWhile isNumberSpace = Nat.toDigits 10 m := by
  obtain ⟨c, rest, hdigits, hc⟩ := digits_head m
  rw [hdigits]
  exact List.dropWhile_cons_of_neg (by simp [(digit_plain hc).1])

theorem take_digits (m : Nat) : (Nat.toDigits 10 m).takeWhile Char.isDigit = Nat.toDigits 10 m ∧
    (Nat.toDigits 10 m).dropWhile Char.isDigit = [] := by
  have hall : ∀ c ∈ Nat.toDigits 10 m, c.isDigit = true := fun c => Nat.isDigit_of_mem_toDigits (by decide) (by decide)
  exact ⟨List.takeWhile_eq_self_iff.mpr hall, List.dropWhile_eq_nil_iff.mpr hall⟩

theorem tryParseDigits_digits {max m : Nat} (h : m ≤ max) :
    tryParseDigits max (String.ofList (Nat.toDigits 10 m)) = some m := by
  unfold tryParseDigits
  rw [String.toList_ofList, ← Nat.ofDigitChars_eq_foldl, Nat.ofDigitChars_ten_toDigits]
  exact if_pos h

theorem tryParseDigits_le {max m : Nat} {digits : String} (h : tryParseDigits max digits = some m) : m ≤ max := by
  simp only [tryParseDigits] at h
  split at h
  · next hle => cases h; exact hle
  · cases h

/-- The digits of a number, after a sign or none. -/
theorem tryParseInt_digits {text : String} {negative : Bool} {m : Nat}
    (h : signOf (text.toList.dropWhile isNumberSpace) = (negative, Nat.toDigits 10 m))
    (hm : m ≤ if negative then 2147483648 else 2147483647) :
    tryParseInt text = some (if negative then -(m : Int) else m) := by
  obtain ⟨htake, hdrop⟩ := take_digits m
  have hne : (Nat.toDigits 10 m).isEmpty = false := List.isEmpty_eq_false_iff.mpr Nat.toDigits_ne_nil
  unfold tryParseInt
  rw [h]
  simp only [htake, hdrop, hne, List.dropWhile_nil, tryParseDigits_digits hm]
  rfl

/-- A number that fits is read back. -/
theorem tryParseInt_toString {n : Int} (hlow : -2147483648 ≤ n) (hhigh : n ≤ 2147483647) :
    tryParseInt (toString n) = some n := by
  cases n with
  | ofNat m =>
    have hdigits : (toString (Int.ofNat m)).toList = Nat.toDigits 10 m := by
      show (toString m).toList = _
      rw [Nat.toString_eq_ofList_toDigits, String.toList_ofList]
    have hbound : m ≤ 2147483647 := Int.ofNat_le.mp hhigh
    have hsign : signOf ((toString (Int.ofNat m)).toList.dropWhile isNumberSpace) = (false, Nat.toDigits 10 m) := by
      rw [hdigits, skip_digits, signOf_digits]
    exact tryParseInt_digits hsign hbound
  | negSucc m =>
    have hdigits : (toString (Int.negSucc m)).toList = '-' :: Nat.toDigits 10 (m + 1) := by
      show ("-" ++ toString (m + 1)).toList = _
      rw [String.toList_append, Nat.toString_eq_ofList_toDigits, String.toList_ofList]
      simp
    have hbound : m + 1 ≤ 2147483648 := by omega
    have hsign : signOf ((toString (Int.negSucc m)).toList.dropWhile isNumberSpace) =
        (true, Nat.toDigits 10 (m + 1)) := by
      rw [hdigits, List.dropWhile_cons_of_neg (by decide)]
      rfl
    exact tryParseInt_digits hsign hbound

theorem tryParseInt_range {text : String} {n : Int} (h : tryParseInt text = some n) :
    -2147483648 ≤ n ∧ n ≤ 2147483647 := by
  simp only [tryParseInt] at h
  split at h
  · cases h
  · next hdigits =>
    generalize hnegative : (signOf (text.toList.dropWhile isNumberSpace)).1 = negative at h
    cases hparse : tryParseDigits (if negative then 2147483648 else 2147483647) (String.ofList
        ((signOf (text.toList.dropWhile isNumberSpace)).2.takeWhile Char.isDigit)) with
    | none => rw [hparse] at h; cases h
    | some m =>
      rw [hparse] at h
      have hle := tryParseDigits_le hparse
      have hvalue : (if negative then -(m : Int) else m) = n := Option.some.inj h
      rw [← hvalue]
      cases negative with
      | true => simp only [if_true] at hle ⊢; omega
      | false => simp only [Bool.false_eq_true, if_false] at hle ⊢; omega

def padded (width : Nat) (n : Nat) : String :=
  let digits := (toString n).toList
  String.ofList (List.replicate (width - digits.length) '0' ++ digits)

theorem padded_toList (width n : Nat) :
    ∃ k, (padded width n).toList = List.replicate k '0' ++ Nat.toDigits 10 n := by
  refine ⟨width - (toString n).toList.length, ?_⟩
  show (String.ofList (List.replicate _ '0' ++ (toString n).toList)).toList = _
  rw [String.toList_ofList, Nat.toString_eq_ofList_toDigits, String.toList_ofList]

theorem padded_digits (width n : Nat) : ∀ c ∈ (padded width n).toList, c.isDigit = true := by
  intro c hc
  obtain ⟨k, hpadded⟩ := padded_toList width n
  rw [hpadded] at hc
  rcases List.mem_append.mp hc with hzero | hdigit
  · rw [List.eq_of_mem_replicate hzero]; decide
  · exact Nat.isDigit_of_mem_toDigits (by decide) (by decide) hdigit

/-- The zeros in front do not change the number. -/
theorem padded_injective {width m n : Nat} (h : padded width m = padded width n) : m = n := by
  have hvalue : ∀ n, Nat.ofDigitChars 10 (padded width n).toList 0 = n := by
    intro n
    obtain ⟨k, hpadded⟩ := padded_toList width n
    rw [hpadded, Nat.ofDigitChars_append, Nat.ofDigitChars_replicate_zero, Nat.mul_zero, Nat.ofDigitChars_ten_toDigits]
  rw [← hvalue m, h, hvalue n]

theorem toString_injective {m n : Nat} (h : toString m = toString n) : m = n := by
  have hdigits : Nat.toDigits 10 m = Nat.toDigits 10 n := by
    have htext := congrArg String.toList h
    rw [Nat.toString_eq_ofList_toDigits, Nat.toString_eq_ofList_toDigits, String.toList_ofList,
      String.toList_ofList] at htext
    exact htext
  have hvalue : ∀ n, Nat.ofDigitChars 10 (Nat.toDigits 10 n) 0 = n := fun n => Nat.ofDigitChars_ten_toDigits
  rw [← hvalue m, hdigits, hvalue n]

/-- `char.IsUpper` and `char.IsDigit`: the tables are known on ASCII. -/
structure CharClasses where
  isUpper : Char → Bool
  isDigit : Char → Bool
  isUpper_ascii : ∀ c, c.toNat < 128 → isUpper c = c.isUpper
  isDigit_ascii : ∀ c, c.toNat < 128 → isDigit c = c.isDigit

example : trim " \t1.5\n\r" = "1.5" := by decide
example : padded 2 7 = "07" := by decide
example : tryParseInt " +007" = some 7 := by decide

end Lib.Text
