/-
  OlympSystem.Checker.EditDistances — `EditDistances.cs` and
  `SimpleSubmissionSimilarityService.cs`, over rational numbers.

  The row of the dynamic programme is updated in place: while it goes from row `i` to row
  `i + 1`, it holds the new row up to `j` and the old one after it, and `prevAbove` the old
  value at `j`. The first column and the first row are written without `insertCost`, so
  that the distance is that of a table whose borders cost 1 (`Lib.EditScripts.tableCost`).

  Proved:
  - `levenshteinDistance_eq`: the loops compute the last cell of that table.
  - `distance_least_iff`: when the distance is the least cost of a script; of all strings only
    where an insertion costs 1.
  - `similarity_laws`: bounds, symmetry and value of the similarities, and what the comparison
    of submissions does not depend on.
-/

import OlympSystem.Lib.CodeUnits
import OlympSystem.Lib.EditScripts

namespace OlympSystem.Checker.EditDistances

open Lib.CodeUnits Lib.EditScripts

/-! ## The code -/

def innerLoop (source2 : Units) (insertCost replaceCost : ℚ) (c : UInt16) (j : Nat)
    (row : Vector ℚ (source2.length + 1)) (prevAbove : ℚ) : Vector ℚ (source2.length + 1) :=
  if _h : j < source2.length then
    let prevDiag := prevAbove
    let prevAbove := row[j + 1]
    let row := row.set (j + 1)
      (min (min prevAbove row[j] + insertCost) (prevDiag + if c ≠ source2[j] then replaceCost else 0))
    innerLoop source2 insertCost replaceCost c (j + 1) row prevAbove
  else row
termination_by source2.length - j

def outerLoop (source1 source2 : Units) (insertCost replaceCost : ℚ) (i : Nat) (row : Vector ℚ (source2.length + 1)) :
    Vector ℚ (source2.length + 1) :=
  if _h : i < source1.length then
    outerLoop source1 source2 insertCost replaceCost (i + 1)
      (innerLoop source2 insertCost replaceCost source1[i] 0 (row.set 0 (i + 1)) i)
  else row
termination_by source1.length - i

def levenshteinDistance (source1 source2 : Units) (insertCost replaceCost : ℚ) : ℚ :=
  (outerLoop source1 source2 insertCost replaceCost 0 (Vector.ofFn fun j => (j : ℚ)))[source2.length]

def levenshteinSimilarity (source1 source2 : Units) : ℚ :=
  if source1.length = 0 ∧ source2.length = 0 then 0
  else 1 - levenshteinDistance source1 source2 1 1 / max source1.length source2.length

def longestCommonSubsequenceSimilarity (source1 source2 : Units) : ℚ :=
  if source1.length = 0 ∧ source2.length = 0 then 0
  else 1 - levenshteinDistance source1 source2 1 2 / (source1.length + source2.length)

/-! ## The loops fill the table -/

/-- The first `i` characters, the last one first. -/
def before (source : Units) (i : Nat) : Units := (source.take i).reverse

theorem before_zero (source : Units) : before source 0 = [] := rfl

theorem before_succ {source : Units} {i : Nat} (h : i < source.length) :
    before source (i + 1) = source[i] :: before source i := by
  unfold before
  rw [List.take_succ_eq_append_getElem h, List.reverse_append]
  rfl

theorem before_length {source : Units} {i : Nat} (h : i ≤ source.length) : (before source i).length = i := by
  unfold before
  rw [List.length_reverse, List.length_take, Nat.min_eq_left h]

theorem before_all (source : Units) : before source source.length = source.reverse := by
  unfold before
  rw [List.take_length]

section Loops

variable (costs : Costs) (source1 source2 : Units)

def cell (i j : Nat) : ℚ := tableCost costs 1 (before source1 i) (before source2 j)

variable {costs source1 source2}

theorem cell_zero_left {j : Nat} (h : j ≤ source2.length) : cell costs source1 source2 0 j = j := by
  unfold cell
  rw [before_zero, table_nil, before_length h, one_mul]

theorem cell_zero_right {i : Nat} (h : i ≤ source1.length) : cell costs source1 source2 i 0 = i := by
  unfold cell
  rw [before_zero, table_nil_right, before_length h, one_mul]

theorem cell_succ {i j : Nat} (hi : i < source1.length) (hj : j < source2.length) :
    cell costs source1 source2 (i + 1) (j + 1) =
      min (min (cell costs source1 source2 i (j + 1)) (cell costs source1 source2 (i + 1) j) + costs.insert)
        (cell costs source1 source2 i j + if source1[i] ≠ source2[j] then costs.replace else 0) := by
  unfold cell
  rw [before_succ hi, before_succ hj, table_cons, ite_not]
  rfl

/-- The row between row `i` and row `i + 1`. -/
structure Between (costs : Costs) (source1 source2 : Units) (i j : Nat) (row : Vector ℚ (source2.length + 1))
    (prevAbove : ℚ) : Prop where
  new : ∀ t (h : t ≤ source2.length), t ≤ j → row[t] = cell costs source1 source2 (i + 1) t
  old : ∀ t (h : t ≤ source2.length), j < t → row[t] = cell costs source1 source2 i t
  above : prevAbove = cell costs source1 source2 i j

/-- One pass of the inner loop. -/
theorem Between.step {i j : Nat} {row : Vector ℚ (source2.length + 1)} {prevAbove : ℚ} (hi : i < source1.length)
    (hj : j < source2.length) (h : Between costs source1 source2 i j row prevAbove) :
    Between costs source1 source2 i (j + 1)
      (row.set (j + 1) (min (min row[j + 1] row[j] + costs.insert)
        (prevAbove + if source1[i] ≠ source2[j] then costs.replace else 0))) row[j + 1] := by
  refine ⟨fun t ht hle => ?_, fun t ht hlt => ?_, h.old (j + 1) hj (Nat.lt_succ_self j)⟩
  · by_cases heq : j + 1 = t
    · subst heq
      rw [Vector.getElem_set_self, cell_succ hi hj, h.old (j + 1) hj (Nat.lt_succ_self j),
        h.new j hj.le (Nat.le_refl j),
        h.above]
    · rw [Vector.getElem_set_ne _ _ heq]
      exact h.new t ht (by omega)
  · rw [Vector.getElem_set_ne _ _ (by omega)]
    exact h.old t ht (by omega)

theorem innerLoop_row {i j : Nat} {row : Vector ℚ (source2.length + 1)} {prevAbove : ℚ} (hi : i < source1.length)
    (hj : j ≤ source2.length) (h : Between costs source1 source2 i j row prevAbove) :
    ∀ t (ht : t ≤ source2.length),
      (innerLoop source2 costs.insert costs.replace source1[i] j row prevAbove)[t] = cell costs source1 source2
      (i + 1) t := by
  induction j using (measure fun j => source2.length - j).wf.induction generalizing row prevAbove with
  | _ j ih =>
    intro t ht
    by_cases hlt : j < source2.length
    · rw [innerLoop]
      simp only [dif_pos hlt]
      exact ih (j + 1) (by show source2.length - (j + 1) < source2.length - j; omega) hlt (h.step hi hlt) t ht
    · rw [innerLoop]
      simp only [dif_neg hlt]
      exact h.new t ht (by omega)

theorem outerLoop_row {i : Nat} {row : Vector ℚ (source2.length + 1)} (hi : i ≤ source1.length)
    (h : ∀ t (ht : t ≤ source2.length), row[t] = cell costs source1 source2 i t) :
    ∀ t (ht : t ≤ source2.length),
      (outerLoop source1 source2 costs.insert costs.replace i row)[t] =
        cell costs source1 source2 source1.length t := by
  induction i using (measure fun i => source1.length - i).wf.induction generalizing row with
  | _ i ih =>
    intro t ht
    by_cases hlt : i < source1.length
    · have hbetween : Between costs source1 source2 i 0 (row.set 0 (i + 1)) i := by
        refine ⟨fun t ht hle => ?_, fun t ht hlt' => ?_, (cell_zero_right hi).symm⟩
        · obtain rfl := Nat.le_zero.mp hle
          rw [Vector.getElem_set_self, cell_zero_right hlt, Nat.cast_succ]
        · rw [Vector.getElem_set_ne _ _ (by omega)]
          exact h t ht
      rw [outerLoop]
      simp only [dif_pos hlt]
      exact ih (i + 1) (by show source1.length - (i + 1) < source1.length - i; omega) hlt
        (innerLoop_row hlt (Nat.zero_le _) hbetween) t ht
    · obtain rfl : i = source1.length := by omega
      rw [outerLoop]
      simp only [dif_neg hlt]
      exact h t ht

/-- The distance is the last cell of the table with borders that cost 1. -/
theorem levenshteinDistance_eq (costs : Costs) (source1 source2 : Units) :
    levenshteinDistance source1 source2 costs.insert costs.replace =
      tableCost costs 1 source1.reverse source2.reverse := by
  have hfirst : ∀ t (ht : t ≤ source2.length),
      (Vector.ofFn fun j : Fin (source2.length + 1) => (j : ℚ))[t] = cell costs source1 source2 0 t := by
    intro t ht
    rw [Vector.getElem_ofFn, cell_zero_left ht]
  have hlast := outerLoop_row (Nat.zero_le _) hfirst source2.length (Nat.le_refl _)
  unfold levenshteinDistance
  rw [hlast]
  unfold cell
  rw [before_all, before_all]

end Loops

/-! ## A table whose borders cost 1

A way through the table that begins on a border pays 1 for each element there, and from
then on what a script does. The lists stand backwards, as in `before`: they begin at their
ends. -/

section Borders

variable {α : Type} [DecidableEq α] (costs : Costs)

omit [DecidableEq α] in
theorem length_le_inserts (h : 1 ≤ costs.insert) (l : List α) : (l.length : ℚ) ≤ costs.insert * l.length := by
  have hmul := mul_le_mul_of_nonneg_right h (Nat.cast_nonneg l.length)
  rwa [one_mul] at hmul

/-- On the border of the first list, then down its column. -/
theorem table_le_border (h : 1 ≤ costs.insert) (start ys : List α) :
    tableCost costs 1 start ys ≤ start.length + costs.insert * ys.length := by
  induction ys with
  | nil =>
    rw [table_nil_right, one_mul]
    simp
  | cons y ys ih =>
    cases start with
    | nil =>
      rw [table_nil, one_mul, List.length_nil, Nat.cast_zero, zero_add]
      exact length_le_inserts costs h (y :: ys)
    | cons x start =>
      have hstep := table_le_insert costs 1 x start y ys
      have hlength : ((y :: ys).length : ℚ) = ys.length + 1 := Nat.cast_succ _
      rw [hlength, mul_add, mul_one]
      linarith

/-- An insertion costs at least 1: the table may take the start of a list on the border. -/
theorem table_le_drop (h : 1 ≤ costs.insert) (rest start ys : List α) :
    tableCost costs 1 (rest ++ start) ys ≤ start.length + leastCost costs rest ys := by
  induction rest, ys using tableCost.induct with
  | case1 ys =>
    rw [List.nil_append, least_nil]
    exact table_le_border costs h start ys
  | case2 x xs =>
    rw [table_nil_right, least_nil_right, one_mul, List.length_append, Nat.cast_add]
    have hrest := length_le_inserts costs h (x :: xs)
    linarith
  | case3 x xs y ys ihdelete ihinsert ihpair =>
    have hdelete := table_le_delete costs 1 x (xs ++ start) y ys
    have hinsert := table_le_insert costs 1 x (xs ++ start) y ys
    have hpair := table_le_pair costs 1 x (xs ++ start) y ys
    rw [List.cons_append] at ihinsert ⊢
    rcases least_cases costs x xs y ys with heq | heq | heq
    · rw [heq]
      linarith
    · rw [heq]
      linarith
    · rw [heq]
      linarith

/-- Every way through the table takes the start of one of the lists on the border. -/
theorem table_ge_drop (xs ys : List α) :
    (∃ rest start, xs = rest ++ start ∧ start.length + leastCost costs rest ys ≤ tableCost costs 1 xs ys) ∨
      ∃ rest start, ys = rest ++ start ∧ start.length + leastCost costs xs rest ≤ tableCost costs 1 xs ys := by
  induction xs, ys using tableCost.induct with
  | case1 ys =>
    refine Or.inr ⟨[], ys, rfl, ?_⟩
    rw [table_nil, least_nil, one_mul, List.length_nil, Nat.cast_zero, mul_zero, add_zero]
  | case2 x xs =>
    refine Or.inl ⟨[], x :: xs, rfl, ?_⟩
    rw [table_nil_right, least_nil, one_mul, List.length_nil, Nat.cast_zero, mul_zero, add_zero]
  | case3 x xs y ys ihdelete ihinsert ihpair =>
    rcases table_cases costs 1 x xs y ys with heq | heq | heq
    · rw [heq]
      rcases ihdelete with ⟨rest, start, rfl, hle⟩ | ⟨rest, start, hys, hle⟩
      · have hstep := least_le_delete costs x rest (y :: ys)
        exact Or.inl ⟨x :: rest, start, rfl, by linarith⟩
      · have hstep := least_le_delete costs x xs rest
        exact Or.inr ⟨rest, start, hys, by linarith⟩
    · rw [heq]
      rcases ihinsert with ⟨rest, start, hxs, hle⟩ | ⟨rest, start, rfl, hle⟩
      · have hstep := least_le_insert costs rest y ys
        exact Or.inl ⟨rest, start, hxs, by linarith⟩
      · have hstep := least_le_insert costs (x :: xs) y rest
        exact Or.inr ⟨y :: rest, start, rfl, by linarith⟩
    · rw [heq]
      rcases ihpair with ⟨rest, start, rfl, hle⟩ | ⟨rest, start, rfl, hle⟩
      · have hstep := least_le_pair costs x rest y ys
        exact Or.inl ⟨x :: rest, start, rfl, by linarith⟩
      · have hstep := least_le_pair costs x xs y rest
        exact Or.inr ⟨y :: rest, start, rfl, by linarith⟩

theorem table_le_snoc_nil (ys : List α) (x y : α) :
    tableCost costs 1 [x] (ys ++ [y]) ≤ leastCost costs [] ys + costs.pair x y := by
  induction ys with
  | nil =>
    have hpair := table_le_pair costs 1 x [] y []
    rw [table_nil, List.length_nil, Nat.cast_zero, mul_zero] at hpair
    rw [least_nil, List.length_nil, Nat.cast_zero, mul_zero]
    exact hpair
  | cons y' ys ih =>
    have hinsert := table_le_insert costs 1 x [] y' (ys ++ [y])
    rw [List.cons_append]
    rw [least_nil] at ih ⊢
    rw [List.length_cons, Nat.cast_succ, mul_add, mul_one]
    linarith

/-- The first elements of both lists may be paired. -/
theorem table_le_snoc (xs ys : List α) (x y : α) :
    tableCost costs 1 (xs ++ [x]) (ys ++ [y]) ≤ leastCost costs xs ys + costs.pair x y := by
  induction xs, ys using tableCost.induct with
  | case1 ys => exact table_le_snoc_nil costs ys x y
  | case2 x' xs =>
    rw [List.nil_append, table_comm, leastCost_comm, pair_comm]
    exact table_le_snoc_nil costs (x' :: xs) y x
  | case3 x' xs y' ys ihdelete ihinsert ihpair =>
    have hdelete := table_le_delete costs 1 x' (xs ++ [x]) y' (ys ++ [y])
    have hinsert := table_le_insert costs 1 x' (xs ++ [x]) y' (ys ++ [y])
    have hpair := table_le_pair costs 1 x' (xs ++ [x]) y' (ys ++ [y])
    rw [List.cons_append] at ihdelete ihinsert
    rw [List.cons_append, List.cons_append]
    rcases least_cases costs x' xs y' ys with heq | heq | heq
    · rw [heq]
      linarith
    · rw [heq]
      linarith
    · rw [heq]
      linarith

/-- An insertion costs less than 1: the table is dearer than a script, unless the first elements of
    both lists are paired. -/
theorem table_ge_snoc (h : costs.insert < 1) (xs ys : List α) :
    leastCost costs xs ys < tableCost costs 1 xs ys ∨ (xs = [] ∧ ys = []) ∨
      ∃ xs' ys' x y, xs = xs' ++ [x] ∧ ys = ys' ++ [y] ∧
        leastCost costs xs' ys' + costs.pair x y ≤ tableCost costs 1 xs ys := by
  have hborder : ∀ (z : α) (zs : List α), costs.insert * (z :: zs).length < 1 * ((z :: zs).length : ℚ) := by
    intro z zs
    exact mul_lt_mul_of_pos_right h (Nat.cast_pos.mpr (Nat.succ_pos _))
  induction xs, ys using tableCost.induct with
  | case1 ys =>
    cases ys with
    | nil => exact Or.inr (Or.inl ⟨rfl, rfl⟩)
    | cons y ys =>
      rw [least_nil, table_nil]
      exact Or.inl (hborder y ys)
  | case2 x xs =>
    rw [least_nil_right, table_nil_right]
    exact Or.inl (hborder x xs)
  | case3 x xs y ys ihdelete ihinsert ihpair =>
    have hdelete := least_le_delete costs x xs (y :: ys)
    have hinsert := least_le_insert costs (x :: xs) y ys
    have hpair := least_le_pair costs x xs y ys
    rcases table_cases costs 1 x xs y ys with heq | heq | heq
    · rw [heq]
      rcases ihdelete with hlt | ⟨-, hnil⟩ | ⟨xs', ys', a, b, rfl, hys, hle⟩
      · exact Or.inl (by linarith)
      · cases hnil
      · have hstep := least_le_delete costs x xs' ys'
        exact Or.inr (Or.inr ⟨x :: xs', ys', a, b, rfl, hys, by linarith⟩)
    · rw [heq]
      rcases ihinsert with hlt | ⟨hnil, -⟩ | ⟨xs', ys', a, b, hxs, rfl, hle⟩
      · exact Or.inl (by linarith)
      · cases hnil
      · have hstep := least_le_insert costs xs' y ys'
        exact Or.inr (Or.inr ⟨xs', y :: ys', a, b, hxs, rfl, by linarith⟩)
    · rw [heq]
      rcases ihpair with hlt | ⟨rfl, rfl⟩ | ⟨xs', ys', a, b, rfl, rfl, hle⟩
      · exact Or.inl (by linarith)
      · refine Or.inr (Or.inr ⟨[], [], x, y, rfl, rfl, ?_⟩)
        rw [least_nil, table_nil, List.length_nil, Nat.cast_zero, mul_zero, mul_zero]
      · have hstep := least_le_pair costs x xs' y ys'
        exact Or.inr (Or.inr ⟨x :: xs', y :: ys', a, b, rfl, rfl, by linarith⟩)

end Borders

/-! ## When the distance is right -/

/-- What the borders must not change: an insertion costs 1; or it costs less, and a cheapest script
    pairs the first characters; or it costs more, and no start of a string is cheaper at 1 for
    each character. -/
structure BordersFit (costs : Costs) (source1 source2 : Units) : Prop where
  cheap : costs.insert < 1 → (source1 = [] ∧ source2 = []) ∨ ∃ a rest1 b rest2, source1 = a :: rest1 ∧
    source2 = b :: rest2 ∧ leastCost costs source1 source2 = leastCost costs rest1 rest2 + costs.pair a b
  dear1 : 1 < costs.insert → ∀ start rest, source1 = start ++ rest →
    leastCost costs source1 source2 ≤ start.length + leastCost costs rest source2
  dear2 : 1 < costs.insert → ∀ start rest, source2 = start ++ rest →
    leastCost costs source1 source2 ≤ start.length + leastCost costs source1 rest

section Right

variable {costs : Costs} {source1 source2 : Units}

/-- Reversed, the end of a list is the start of its reverse. -/
theorem reverse_split {source rest start : Units} (h : source.reverse = rest ++ start) :
    source = start.reverse ++ rest.reverse := by
  rw [← List.reverse_append, ← h, List.reverse_reverse]

theorem reverse_snoc {source rest : Units} {a : UInt16} (h : source.reverse = rest ++ [a]) :
    source = a :: rest.reverse :=
  reverse_split h

theorem cheap_iff (h : costs.insert < 1) :
    tableCost costs 1 source1.reverse source2.reverse = leastCost costs source1 source2 ↔
      (source1 = [] ∧ source2 = []) ∨ ∃ a rest1 b rest2, source1 = a :: rest1 ∧ source2 = b :: rest2 ∧
        leastCost costs source1 source2 = leastCost costs rest1 rest2 + costs.pair a b := by
  have hback := leastCost_reverse costs source1 source2
  have hmono : leastCost costs source1.reverse source2.reverse ≤ tableCost costs 1 source1.reverse source2.reverse :=
    table_mono h.le _ _
  constructor
  · intro hsame
    rcases table_ge_snoc costs h source1.reverse source2.reverse with hlt | ⟨hnil1, hnil2⟩ |
      ⟨xs, ys, a, b, hxs, hys, hle⟩
    · rw [hback, hsame] at hlt
      exact absurd hlt (lt_irrefl _)
    · exact Or.inl ⟨List.reverse_eq_nil_iff.mp hnil1, List.reverse_eq_nil_iff.mp hnil2⟩
    · refine Or.inr ⟨a, xs.reverse, b, ys.reverse, reverse_snoc hxs, reverse_snoc hys, le_antisymm ?_ ?_⟩
      · rw [reverse_snoc hxs, reverse_snoc hys]
        exact least_le_pair costs a xs.reverse b ys.reverse
      · rw [leastCost_reverse, ← hsame]
        exact hle
  · rintro (⟨rfl, rfl⟩ | ⟨a, rest1, b, rest2, rfl, rfl, heq⟩)
    · simp
    · refine le_antisymm ?_ (by rw [← hback]; exact hmono)
      rw [heq, List.reverse_cons, List.reverse_cons, ← leastCost_reverse costs rest1 rest2]
      exact table_le_snoc costs rest1.reverse rest2.reverse a b

theorem dear_iff (h : 1 < costs.insert) :
    tableCost costs 1 source1.reverse source2.reverse = leastCost costs source1 source2 ↔
      (∀ start rest, source1 = start ++ rest →
        leastCost costs source1 source2 ≤ start.length + leastCost costs rest source2) ∧
      ∀ start rest, source2 = start ++ rest →
        leastCost costs source1 source2 ≤ start.length + leastCost costs source1 rest := by
  have hback := leastCost_reverse costs source1 source2
  have hmono : tableCost costs 1 source1.reverse source2.reverse ≤ leastCost costs source1.reverse source2.reverse :=
    table_mono h.le _ _
  constructor
  · intro hsame
    constructor
    · intro start rest hsplit
      have hle := table_le_drop costs h.le rest.reverse start.reverse source2.reverse
      rwa [← List.reverse_append, ← hsplit, hsame, List.length_reverse, leastCost_reverse] at hle
    · intro start rest hsplit
      have hle := table_le_drop costs h.le rest.reverse start.reverse source1.reverse
      rwa [← List.reverse_append, ← hsplit, table_comm, hsame, List.length_reverse, leastCost_reverse,
        leastCost_comm costs rest source1] at hle
  · rintro ⟨hfirst, hsecond⟩
    refine le_antisymm (by rw [← hback]; exact hmono) ?_
    rcases table_ge_drop costs source1.reverse source2.reverse with ⟨rest, start, hsplit, hle⟩ |
      ⟨rest, start, hsplit, hle⟩
    · have hbound := hfirst start.reverse rest.reverse (reverse_split hsplit)
      rw [List.length_reverse, ← leastCost_reverse costs rest.reverse source2, List.reverse_reverse] at hbound
      exact hbound.trans hle
    · have hbound := hsecond start.reverse rest.reverse (reverse_split hsplit)
      rw [List.length_reverse, ← leastCost_reverse costs source1 rest.reverse, List.reverse_reverse] at hbound
      exact hbound.trans hle

theorem fits_of_one (h : costs.insert = 1) : BordersFit costs source1 source2 :=
  ⟨fun hlt => absurd h hlt.ne, fun hgt => absurd h hgt.ne', fun hgt => absurd h hgt.ne'⟩

theorem table_least_iff (costs : Costs) (source1 source2 : Units) :
    tableCost costs 1 source1.reverse source2.reverse = leastCost costs source1 source2 ↔
      BordersFit costs source1 source2 := by
  rcases lt_trichotomy costs.insert 1 with h | h | h
  · rw [cheap_iff h]
    constructor
    · intro hcheap
      exact ⟨fun _ => hcheap, fun hdear => absurd hdear h.le.not_gt, fun hdear => absurd hdear h.le.not_gt⟩
    · intro hfit
      exact hfit.cheap h
  · refine ⟨fun _ => fits_of_one h, fun _ => ?_⟩
    rw [← leastCost_reverse]
    unfold leastCost
    rw [h]
  · rw [dear_iff h]
    constructor
    · intro hdear
      exact ⟨fun hlt => absurd hlt h.le.not_gt, fun _ => hdear.1, fun _ => hdear.2⟩
    · intro hfit
      exact ⟨hfit.dear1 h, hfit.dear2 h⟩

/-- One inserted character shows what the border costs. -/
theorem one_of_fits {c : UInt16} (h : BordersFit costs [] [c]) : costs.insert = 1 := by
  rcases lt_trichotomy costs.insert 1 with hlt | heq | hgt
  · rcases h.cheap hlt with ⟨-, hnil⟩ | ⟨a, rest1, b, rest2, hcons, -⟩
    · cases hnil
    · cases hcons
  · exact heq
  · have hle := h.dear2 hgt [c] [] rfl
    rw [least_nil, least_nil, List.length_singleton, List.length_nil, Nat.cast_zero, Nat.cast_one, mul_one, mul_zero,
      add_zero] at hle
    exact absurd hle hgt.not_ge

end Right

/-- The distance of two strings is the least cost of a script exactly when the borders fit; of all
    strings it is when an insertion costs 1. -/
theorem distance_least_iff (costs : Costs) :
    (∀ source1 source2 : Units,
      IsLeast {c | Script costs source1 source2 c} (levenshteinDistance source1 source2 costs.insert costs.replace) ↔
        BordersFit costs source1 source2) ∧
    ((∀ source1 source2 : Units,
      IsLeast {c | Script costs source1 source2 c} (levenshteinDistance source1 source2 costs.insert costs.replace)) ↔
        costs.insert = 1) := by
  have hfits : ∀ source1 source2 : Units,
      IsLeast {c | Script costs source1 source2 c} (levenshteinDistance source1 source2 costs.insert costs.replace) ↔
        BordersFit costs source1 source2 := by
    intro source1 source2
    rw [levenshteinDistance_eq, ← table_least_iff]
    constructor
    · intro hleast
      exact hleast.unique (leastCost_isLeast costs source1 source2)
    · intro hsame
      rw [hsame]
      exact leastCost_isLeast costs source1 source2
  refine ⟨hfits, fun hall => ?_, fun hone source1 source2 => ?_⟩
  · exact one_of_fits (c := 97) ((hfits [] [97]).mp (hall [] [97]))
  · exact (hfits source1 source2).mpr (fits_of_one hone)

/-! ### An insertion of cost 2 -/

def sampleCosts : Costs := ⟨2, 1, by norm_num, by norm_num⟩

/-- The insertion of one character costs 2, and the distance is 1. -/
theorem an_insertion_costs_one : levenshteinDistance (units "") (units "a") 2 1 = 1 ∧
    IsLeast {c | Script sampleCosts (units "") (units "a") c} 2 := by
  have hempty : units "" = [] := by decide
  have ha : units "a" = [97] := by decide
  rw [hempty, ha]
  constructor
  · refine (levenshteinDistance_eq sampleCosts [] [97]).trans ?_
    rw [List.reverse_nil, List.reverse_singleton, table_nil, List.length_singleton, Nat.cast_one, mul_one]
  · have hleast := leastCost_isLeast sampleCosts [] ([97] : Units)
    rw [least_nil, List.length_singleton, Nat.cast_one, mul_one] at hleast
    exact hleast

/-! ## The similarities -/

def unitCosts : Costs := ⟨1, 1, zero_le_one, zero_le_one⟩

/-- A replacement costs a deletion and an insertion. -/
def subsequenceCosts : Costs := ⟨1, 2, zero_le_one, zero_le_two⟩

/-- Where an insertion costs 1, the distance is the least cost. -/
theorem distance_of_one (costs : Costs) (h : costs.insert = 1) (source1 source2 : Units) :
    levenshteinDistance source1 source2 costs.insert costs.replace = leastCost costs source1 source2 := by
  rw [levenshteinDistance_eq]
  exact (table_least_iff costs source1 source2).mpr (fits_of_one h)

theorem unit_distance (source1 source2 : Units) :
    levenshteinDistance source1 source2 1 1 = leastCost unitCosts source1 source2 :=
  distance_of_one unitCosts rfl source1 source2

theorem both_empty {source1 source2 : Units} : (source1.length = 0 ∧ source2.length = 0) ↔
    source1 = [] ∧ source2 = [] :=
  and_congr List.length_eq_zero_iff List.length_eq_zero_iff

/-- The distance in relation to the longer string. -/
theorem levenshteinSimilarity_eq {source1 source2 : Units} (h : ¬(source1 = [] ∧ source2 = [])) :
    levenshteinSimilarity source1 source2 =
      1 - leastCost unitCosts source1 source2 / (max source1.length source2.length : Nat) := by
  unfold levenshteinSimilarity
  rw [if_neg fun hempty => h (both_empty.mp hempty), unit_distance, Nat.cast_max]

theorem longer_pos {source1 source2 : Units} (h : ¬(source1 = [] ∧ source2 = [])) :
    0 < ((max source1.length source2.length : Nat) : ℚ) := by
  rw [Nat.cast_pos]
  by_contra hzero
  refine h (both_empty.mp ?_)
  omega

theorem levenshteinSimilarity_bounds (source1 source2 : Units) :
    0 ≤ levenshteinSimilarity source1 source2 ∧ levenshteinSimilarity source1 source2 ≤ 1 := by
  by_cases h : source1 = [] ∧ source2 = []
  · unfold levenshteinSimilarity
    rw [if_pos (both_empty.mpr h)]
    exact ⟨le_refl _, zero_le_one⟩
  · have hpos := longer_pos h
    have hnonneg := leastCost_nonneg unitCosts source1 source2
    have hle : leastCost unitCosts source1 source2 ≤ 1 * (max source1.length source2.length : Nat) :=
      leastCost_le (le_refl _) (le_refl _) source1 source2
    rw [levenshteinSimilarity_eq h]
    constructor
    · have hratio := (div_le_iff₀ hpos).mpr hle
      linarith
    · have hratio := div_nonneg hnonneg hpos.le
      linarith

theorem levenshteinSimilarity_comm (source1 source2 : Units) :
    levenshteinSimilarity source1 source2 = levenshteinSimilarity source2 source1 := by
  by_cases h : source1 = [] ∧ source2 = []
  · rw [h.1, h.2]
  · rw [levenshteinSimilarity_eq h, levenshteinSimilarity_eq fun h' => h h'.symm, leastCost_comm, max_comm]

theorem levenshteinSimilarity_eq_one (source1 source2 : Units) :
    levenshteinSimilarity source1 source2 = 1 ↔ source1 = source2 ∧ source1 ≠ [] := by
  by_cases h : source1 = [] ∧ source2 = []
  · unfold levenshteinSimilarity
    rw [if_pos (both_empty.mpr h)]
    exact ⟨fun hone => absurd hone zero_ne_one, fun hne => absurd h.1 hne.2⟩
  · rw [levenshteinSimilarity_eq h, sub_eq_self, div_eq_zero_iff, or_iff_left (longer_pos h).ne',
      leastCost_eq_zero zero_lt_one zero_lt_one]
    constructor
    · intro hsame
      exact ⟨hsame, fun hempty => h ⟨hempty, hsame ▸ hempty⟩⟩
    · intro hsame
      exact hsame.1

/-- Twice the part of a longest common subsequence. -/
theorem subsequenceSimilarity_eq (source1 source2 : Units) : ∃ n, IsGreatest (commonLengths source1 source2) n ∧
    (¬(source1 = [] ∧ source2 = []) →
      longestCommonSubsequenceSimilarity source1 source2 = 2 * n / (source1.length + source2.length)) := by
  have hreplace : subsequenceCosts.replace = 2 * subsequenceCosts.insert := by norm_num [subsequenceCosts]
  obtain ⟨n, hgreatest, hcost⟩ := leastCost_common hreplace zero_lt_one source1 source2
  refine ⟨n, hgreatest, fun h => ?_⟩
  have hdistance : levenshteinDistance source1 source2 1 2 = source1.length + source2.length - 2 * n :=
    ((distance_of_one subsequenceCosts rfl source1 source2).trans hcost).trans (one_mul _)
  have hpos : (source1.length : ℚ) + source2.length ≠ 0 := by
    have hlonger := longer_pos h
    rw [Nat.cast_pos] at hlonger
    have hsum : source1.length + source2.length ≠ 0 := by omega
    exact_mod_cast hsum
  unfold longestCommonSubsequenceSimilarity
  rw [if_neg fun hempty => h (both_empty.mp hempty), hdistance, eq_div_iff hpos, sub_mul, one_mul,
    div_mul_cancel₀ _ hpos]
  ring

end OlympSystem.Checker.EditDistances

namespace OlympSystem.Checker.SimpleSubmissionSimilarityService

open Lib.CodeUnits Lib.EditScripts EditDistances

/-- `CompareSimilarity`; `isFiltered` are the characters that match `[\w\s]`. -/
def compareSimilarity (isFiltered : UInt16 → Bool) (source1 source2 : Units) : ℚ :=
  levenshteinSimilarity (source1.filter fun c => !isFiltered c) (source2.filter fun c => !isFiltered c)

/-- One more character that matches. -/
inductive Inserted (isFiltered : UInt16 → Bool) : Units → Units → Prop
  | mk (before : Units) (c : UInt16) (after : Units) (h : isFiltered c = true) :
    Inserted isFiltered (before ++ after) (before ++ c :: after)

/-- Any such characters inserted and removed. -/
abbrev SameStructure (isFiltered : UInt16 → Bool) : Units → Units → Prop := Relation.EqvGen (Inserted isFiltered)

variable {isFiltered : UInt16 → Bool}

theorem filter_sameStructure {source source' : Units} (h : SameStructure isFiltered source source') :
    (source.filter fun c => !isFiltered c) = source'.filter fun c => !isFiltered c := by
  induction h with
  | rel _ _ hinserted =>
    obtain ⟨before, c, after, hc⟩ := hinserted
    rw [List.filter_append, List.filter_append, List.filter_cons_of_neg (by simp [hc])]
  | refl _ => rfl
  | symm _ _ _ ih => exact ih.symm
  | trans _ _ _ _ _ ih ih' => exact ih.trans ih'

theorem compareSimilarity_comm (isFiltered : UInt16 → Bool) (source1 source2 : Units) :
    compareSimilarity isFiltered source1 source2 = compareSimilarity isFiltered source2 source1 :=
  levenshteinSimilarity_comm _ _

theorem compareSimilarity_congr {source1 source1' source2 source2' : Units}
    (h1 : SameStructure isFiltered source1 source1') (h2 : SameStructure isFiltered source2 source2') :
    compareSimilarity isFiltered source1 source2 = compareSimilarity isFiltered source1' source2' := by
  unfold compareSimilarity
  rw [filter_sameStructure h1, filter_sameStructure h2]

structure SimilarityLaws (isFiltered : UInt16 → Bool) (a b : Units) : Prop where
  bounds : 0 ≤ levenshteinSimilarity a b ∧ levenshteinSimilarity a b ≤ 1
  symmetric : levenshteinSimilarity a b = levenshteinSimilarity b a
  equal : levenshteinSimilarity a b = 1 ↔ a = b ∧ a ≠ []
  subsequence : ¬(a = [] ∧ b = []) → ∃ n, IsGreatest (commonLengths a b) n ∧
    longestCommonSubsequenceSimilarity a b = 2 * n / (a.length + b.length)
  compared : compareSimilarity isFiltered a b = compareSimilarity isFiltered b a
  structural : ∀ a' b', SameStructure isFiltered a a' → SameStructure isFiltered b b' →
    compareSimilarity isFiltered a b = compareSimilarity isFiltered a' b'

theorem similarity_laws (isFiltered : UInt16 → Bool) (a b : Units) : SimilarityLaws isFiltered a b where
  bounds := levenshteinSimilarity_bounds a b
  symmetric := levenshteinSimilarity_comm a b
  equal := levenshteinSimilarity_eq_one a b
  subsequence h := by
    obtain ⟨n, hgreatest, hvalue⟩ := subsequenceSimilarity_eq a b
    exact ⟨n, hgreatest, hvalue h⟩
  compared := compareSimilarity_comm isFiltered a b
  structural a' b' ha hb := compareSimilarity_congr ha hb

end OlympSystem.Checker.SimpleSubmissionSimilarityService
