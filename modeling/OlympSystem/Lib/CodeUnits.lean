/-
  Lib.CodeUnits — strings as sequences of UTF-16 code units, and their lines.

  A code unit need not be part of a character: half of a surrogate pair may stand alone.
  `Break` is what ends a line: `EnumerateLines` and `StringReader.ReadLine` differ in the
  units that do, and in the line after the last break. CR LF is one break in both.

  Proved:
  - `cutLine_filter`: a cut loses nothing but the break.
  - `moveNext_nil` / `moveNext_cons`: the enumerator goes through `enumerateLines`.
  - `enumerateLines_filter`: the lines together are the text, breaks apart.
  - `readLines_blank`: a text is blank when its lines are.
  - `splitOnP_snoc`: a unit at the end goes to the last entry.
  - `toLineFeeds_append`: a replacement of CR LF takes one CR from each line that ends in LF.
  - `lines_induction`: induction over the lines that LF ends.
-/

import OlympSystem.Lib.Text

namespace Lib.CodeUnits

abbrev Units := List UInt16

def units (text : String) : Units := (Text.ordinal text).map UInt16.ofNat

/-- `char.IsWhiteSpace`; half of a surrogate pair is none. -/
def isWhiteSpace (c : UInt16) : Bool := Text.isWhiteSpace (Char.ofNat c.toNat)

def isBlank (text : Units) : Bool := text.all isWhiteSpace

def carriageReturn : UInt16 := 13

def lineFeed : UInt16 := 10

def space : UInt16 := 32

def split (separator : UInt16) (text : Units) : List Units := text.splitOn separator

/-- `Split` with `RemoveEmptyEntries`. -/
def splitEntries (isSeparator : UInt16 → Bool) (text : Units) : List Units :=
  (text.splitOnP isSeparator).filter fun entry => !entry.isEmpty

def trimEnd (c : UInt16) (text : Units) : Units := (text.reverse.dropWhile (· == c)).reverse

/-! ## Lines -/

/-- What follows the break that begins with `c`. -/
def afterBreak (c : UInt16) (rest : Units) : Units :=
  if c = carriageReturn then
    match rest with
    | d :: rest' => if d = lineFeed then rest' else rest
    | [] => rest
  else rest

/-- The text before the first break, and what follows the break, if there is one. -/
def cutLine (isBreak : UInt16 → Bool) : Units → Units × Option Units
  | [] => ([], none)
  | c :: rest =>
    if isBreak c then ([], some (afterBreak c rest))
    else (c :: (cutLine isBreak rest).1, (cutLine isBreak rest).2)

theorem afterBreak_length (c : UInt16) (rest : Units) : (afterBreak c rest).length ≤ rest.length := by
  unfold afterBreak
  split
  · split
    · split
      · simp
      · exact Nat.le_refl _
    · exact Nat.le_refl _
  · exact Nat.le_refl _

theorem cutLine_length {isBreak : UInt16 → Bool} {text rest : Units} (h : (cutLine isBreak text).2 = some rest) :
    rest.length < text.length := by
  induction text with
  | nil => cases h
  | cons c text ih =>
    unfold cutLine at h
    split at h
    · cases h
      exact Nat.lt_succ_of_le (afterBreak_length c text)
    · exact Nat.lt_succ_of_lt (ih h)

/-- `p` holds of no unit of a break. -/
def Skips (isBreak p : UInt16 → Bool) : Prop := p lineFeed = false ∧ ∀ c, isBreak c = true → p c = false

theorem afterBreak_filter {p : UInt16 → Bool} (h : p lineFeed = false) (c : UInt16) (rest : Units) :
    (afterBreak c rest).filter p = rest.filter p := by
  unfold afterBreak
  split
  · split
    · split
      · next heq =>
        rw [heq, List.filter_cons_of_neg (by simp [h])]
      · rfl
    · rfl
  · rfl

/-- Nothing is lost but the break. -/
theorem cutLine_filter {isBreak p : UInt16 → Bool} (h : Skips isBreak p) (text : Units) :
    text.filter p = (cutLine isBreak text).1.filter p ++ ((cutLine isBreak text).2.getD []).filter p := by
  induction text with
  | nil => rfl
  | cons c text ih =>
    unfold cutLine
    by_cases hc : isBreak c = true
    · rw [if_pos hc, List.filter_cons_of_neg (by simp [h.2 c hc])]
      exact (afterBreak_filter h.1 c text).symm
    · rw [if_neg hc, List.filter_cons, List.filter_cons, ih]
      split <;> rfl

/-! ### `MemoryExtensions.EnumerateLines` -/

/-- The units at which `EnumerateLines` ends a line: LF, FF, CR, NEL, LS and PS. -/
def isNewLine (c : UInt16) : Bool := c == 10 || c == 12 || c == 13 || c == 0x85 || c == 0x2028 || c == 0x2029

/-- All lines: one more than there are breaks. -/
def enumerateLines (text : Units) : List Units :=
  match _h : cutLine isNewLine text with
  | (line, none) => [line]
  | (line, some rest) => line :: enumerateLines rest
termination_by text.length
decreasing_by exact cutLine_length (congrArg Prod.snd _h)

theorem enumerateLines_eq (text : Units) : enumerateLines text = (cutLine isNewLine text).1 ::
    match (cutLine isNewLine text).2 with
    | none => []
    | some rest => enumerateLines rest := by
  rw [enumerateLines]
  split <;> next h => rw [h]

/-- `SpanLineEnumerator`: what is left of the text, until the last line has been given. -/
structure LineEnumerator where
  remaining : Option Units
  current : Units

def LineEnumerator.ofText (text : Units) : LineEnumerator := ⟨some text, []⟩

namespace LineEnumerator

def moveNext (e : LineEnumerator) : Bool × LineEnumerator :=
  match e.remaining with
  | none => (false, ⟨none, []⟩)
  | some text => (true, ⟨(cutLine isNewLine text).2, (cutLine isNewLine text).1⟩)

def rest (e : LineEnumerator) : List Units :=
  match e.remaining with
  | none => []
  | some text => enumerateLines text

/-- What a `MoveNext` makes smaller. -/
def size (e : LineEnumerator) : Nat :=
  match e.remaining with
  | none => 0
  | some text => text.length + 1

theorem moveNext_size {e : LineEnumerator} (h : e.moveNext.1 = true) : e.moveNext.2.size < e.size := by
  unfold moveNext size at *
  cases hr : e.remaining with
  | none => rw [hr] at h; cases h
  | some text =>
    simp only
    cases hcut : (cutLine isNewLine text).2 with
    | none => exact Nat.succ_pos _
    | some rest => exact Nat.succ_lt_succ (cutLine_length hcut)

@[simp] theorem rest_ofText (text : Units) : (ofText text).rest = enumerateLines text := rfl

/-- A `MoveNext` gives the next line, or there is none. -/
theorem moveNext_rest (e : LineEnumerator) :
    (e.moveNext.1 = false ∧ e.rest = []) ∨
    (e.moveNext.1 = true ∧ e.rest = e.moveNext.2.current :: e.moveNext.2.rest) := by
  unfold moveNext rest
  cases e.remaining with
  | none => exact Or.inl ⟨rfl, rfl⟩
  | some text => exact Or.inr ⟨rfl, enumerateLines_eq text⟩

end LineEnumerator

/-- Of the units outside breaks, the lines have those of the text. -/
theorem enumerateLines_filter {p : UInt16 → Bool} (h : Skips isNewLine p) (text : Units) :
    (enumerateLines text).flatten.filter p = text.filter p := by
  induction text using (measure List.length).wf.induction with
  | _ text ih =>
    rw [enumerateLines_eq, List.flatten_cons, List.filter_append, cutLine_filter h text]
    congr 1
    cases hcut : (cutLine isNewLine text).2 with
    | none => rfl
    | some rest => exact ih rest (cutLine_length hcut)

/-! ### `StringReader` -/

/-- The units at which `ReadLine` ends a line. -/
def isReaderBreak (c : UInt16) : Bool := c == lineFeed || c == carriageReturn

/-- `ReadLine`, with the text that is left; there is no line after the last break. -/
def readLine (text : Units) : Option (Units × Units) :=
  if text.isEmpty then none else some ((cutLine isReaderBreak text).1, (cutLine isReaderBreak text).2.getD [])

theorem readLine_length {text line rest : Units} (h : readLine text = some (line, rest)) :
    rest.length < text.length := by
  unfold readLine at h
  split at h
  · cases h
  · next hne =>
    cases h
    cases hcut : (cutLine isReaderBreak text).2 with
    | none => exact List.length_pos_iff.mpr (by simpa using hne)
    | some rest => exact cutLine_length hcut

def readLines (text : Units) : List Units :=
  match _h : readLine text with
  | none => []
  | some (line, rest) => line :: readLines rest
termination_by text.length
decreasing_by exact readLine_length _h

theorem readLines_none {text : Units} (h : readLine text = none) : readLines text = [] := by
  rw [readLines]
  split
  · rfl
  · next heq => rw [h] at heq; cases heq

theorem readLines_some {text line rest : Units} (h : readLine text = some (line, rest)) :
    readLines text = line :: readLines rest := by
  rw [readLines]
  split
  · next heq => rw [h] at heq; cases heq
  · next heq => rw [h] at heq; cases heq; rfl

theorem isBlank_iff {text : Units} : isBlank text = true ↔ text.filter (fun c => !isWhiteSpace c) = [] := by
  simp [isBlank, List.filter_eq_nil_iff]

theorem readLine_blank {text line rest : Units} (h : readLine text = some (line, rest)) :
    isBlank text = true ↔ isBlank line = true ∧ isBlank rest = true := by
  have hskips : Skips isReaderBreak fun c => !isWhiteSpace c := by
    refine ⟨by decide, fun c hc => ?_⟩
    simp only [isReaderBreak, Bool.or_eq_true, beq_iff_eq] at hc
    rcases hc with rfl | rfl <;> decide
  unfold readLine at h
  split at h
  · cases h
  · cases h
    rw [isBlank_iff, isBlank_iff, isBlank_iff, cutLine_filter hskips text, List.append_eq_nil_iff]

/-- A text is blank when its lines are. -/
theorem readLines_blank (text : Units) : isBlank text = true ↔ ∀ line ∈ readLines text, isBlank line = true := by
  induction text using (measure List.length).wf.induction with
  | _ text ih =>
    cases hread : readLine text with
    | none =>
      have hempty : text = [] := by
        unfold readLine at hread
        split at hread
        · simpa using ‹text.isEmpty = true›
        · cases hread
      rw [readLines_none hread, hempty]
      simp [isBlank]
    | some x =>
      obtain ⟨line, rest⟩ := x
      rw [readLines_some hread, List.forall_mem_cons, readLine_blank hread, ih rest (readLine_length hread)]

/-! ## Entries -/

/-- A unit at the end that is no separator goes to the last entry. -/
theorem splitOnP_snoc {p : UInt16 → Bool} {c : UInt16} (hc : p c = false) (text : Units) :
    ∃ init last, text.splitOnP p = init ++ [last] ∧ (text ++ [c]).splitOnP p = init ++ [last ++ [c]] := by
  induction text with
  | nil => exact ⟨[], [], List.splitOnP_nil, List.splitOnP_eq_singleton (by simp [hc])⟩
  | cons d text ih =>
    obtain ⟨init, last, htext, hsnoc⟩ := ih
    rw [List.cons_append, List.splitOnP_cons_eq_if_modifyHead, List.splitOnP_cons_eq_if_modifyHead, htext, hsnoc]
    by_cases hd : p d = true
    · exact ⟨[] :: init, last, by rw [if_pos hd]; rfl, by rw [if_pos hd]; rfl⟩
    · rw [if_neg hd, if_neg hd]
      cases init with
      | nil => exact ⟨[], d :: last, rfl, rfl⟩
      | cons first init => exact ⟨(d :: first) :: init, last, rfl, rfl⟩

theorem splitEntries_append {p : UInt16 → Bool} {c : UInt16} (hc : p c = true) (text rest : Units) :
    splitEntries p (text ++ c :: rest) = splitEntries p text ++ splitEntries p rest := by
  unfold splitEntries
  rw [List.splitOnP_append_cons _ _ hc, List.filter_append]

/-! ## Line ends -/

def toLineFeeds : Units → Units
  | [] => []
  | [c] => [c]
  | c :: d :: rest =>
    if c = carriageReturn ∧ d = lineFeed then lineFeed :: toLineFeeds rest else c :: toLineFeeds (d :: rest)

/-- A line without the CR at its end. -/
def dropReturn : Units → Units
  | [] => []
  | [c] => if c = carriageReturn then [] else [c]
  | c :: d :: rest => c :: dropReturn (d :: rest)

theorem toLineFeeds_line {line : Units} (h : lineFeed ∉ line) : toLineFeeds line = line := by
  induction line using toLineFeeds.induct with
  | case1 => rfl
  | case2 c => rfl
  | case3 c d rest hpair ih =>
    rw [hpair.2] at h
    exact absurd (List.mem_cons_of_mem _ List.mem_cons_self) h
  | case4 c d rest hnot ih =>
    unfold toLineFeeds
    rw [if_neg hnot, ih fun hmem => h (List.mem_cons_of_mem _ hmem)]

theorem toLineFeeds_cons (rest : Units) : toLineFeeds (lineFeed :: rest) = lineFeed :: toLineFeeds rest := by
  cases rest with
  | nil => rfl
  | cons d rest => exact if_neg fun hpair => absurd hpair.1 (by decide)

theorem toLineFeeds_append {line : Units} (h : lineFeed ∉ line) (rest : Units) :
    toLineFeeds (line ++ lineFeed :: rest) = dropReturn line ++ lineFeed :: toLineFeeds rest := by
  induction line using dropReturn.induct with
  | case1 => exact toLineFeeds_cons rest
  | case2 => exact if_pos ⟨rfl, rfl⟩
  | case3 c hc =>
    show (if c = carriageReturn ∧ lineFeed = lineFeed then lineFeed :: toLineFeeds rest
      else c :: toLineFeeds (lineFeed :: rest)) = (if c = carriageReturn then [] else [c]) ++
        lineFeed :: toLineFeeds rest
    rw [if_neg fun hpair => hc hpair.1, if_neg hc, toLineFeeds_cons]
    rfl
  | case4 c d line ih =>
    have hd : d ≠ lineFeed := fun heq => h (heq ▸ List.mem_cons_of_mem _ List.mem_cons_self)
    show (if c = carriageReturn ∧ d = lineFeed then _ else c :: toLineFeeds (d :: line ++ lineFeed :: rest)) =
      c :: (dropReturn (d :: line) ++ lineFeed :: toLineFeeds rest)
    rw [if_neg fun hpair => hd hpair.2, ih fun hmem => h (List.mem_cons_of_mem _ hmem)]

/-- A line that ends in CR, or one that does not. -/
theorem dropReturn_cases (line : Units) : dropReturn line = line ∨ line = dropReturn line ++ [carriageReturn] := by
  induction line using dropReturn.induct with
  | case1 => exact Or.inl rfl
  | case2 => exact Or.inr rfl
  | case3 c hc => exact Or.inl (if_neg hc)
  | case4 c d rest ih =>
    show c :: dropReturn (d :: rest) = c :: d :: rest ∨
        c :: d :: rest = c :: (dropReturn (d :: rest) ++ [carriageReturn])
    rcases ih with h | h
    · exact Or.inl (by rw [h])
    · exact Or.inr (congrArg _ h)

/-- A text is a line, or a line before LF and a text. -/
theorem lines_induction {P : Units → Prop} (last : ∀ line, lineFeed ∉ line → P line)
    (next : ∀ line rest, lineFeed ∉ line → P rest → P (line ++ lineFeed :: rest)) (text : Units) : P text := by
  induction text using (measure List.length).wf.induction with
  | _ text ih =>
    by_cases h : lineFeed ∈ text
    · obtain ⟨line, rest, rfl, hline⟩ := List.eq_append_cons_of_mem h
      refine next line rest hline (ih rest ?_)
      show rest.length < (line ++ lineFeed :: rest).length
      simp only [List.length_append, List.length_cons]
      omega
    · exact last text h

end Lib.CodeUnits
