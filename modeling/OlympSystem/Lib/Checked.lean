/-
  Lib.Checked — sums in checked machine arithmetic.

  `checkedSum lo hi l` adds the elements of `l` from the left, starting at 0, and fails
  as soon as a partial sum leaves `[lo, hi]`.

  Proved:
  - `checkedSum_eq`: a sum that does not fail is the sum.
  - `checkedSum_of_nonneg`: of non-negative elements whose sum is at most `hi` it does
    not fail.
  - `sum_le_of_sublist`: part of a list of non-negative elements sums to no more.
-/

import Mathlib.Algebra.BigOperators.Group.List.Basic
import Mathlib.Algebra.GroupWithZero.Nat
import Mathlib.Algebra.Order.Group.Int
import Mathlib.Algebra.Ring.Int.Defs
import Mathlib.Order.Interval.Set.Basic

namespace Lib.Checked

/-- The sum of `l` added to `acc`, while every partial sum lies in `[lo, hi]`. -/
def addChecked (lo hi : Int) : Int → List Int → Option Int
  | acc, [] => some acc
  | acc, x :: l => if lo ≤ acc + x ∧ acc + x ≤ hi then addChecked lo hi (acc + x) l else none

def checkedSum (lo hi : Int) (l : List Int) : Option Int := addChecked lo hi 0 l

variable {lo hi : Int}

theorem addChecked_eq : ∀ {l : List Int} {acc s : Int}, addChecked lo hi acc l = some s → s = acc + l.sum := by
  intro l
  induction l with
  | nil => intro acc s h; simpa [addChecked] using h.symm
  | cons x l ih =>
    intro acc s h
    simp only [addChecked] at h
    split at h
    · rw [ih h, List.sum_cons]; omega
    · cases h

theorem checkedSum_eq {l : List Int} {s : Int} (h : checkedSum lo hi l = some s) : s = l.sum := by
  have := addChecked_eq h; omega

theorem sum_nonneg {l : List Int} (h : ∀ x ∈ l, 0 ≤ x) : 0 ≤ l.sum := by
  induction l with
  | nil => simp
  | cons x l ih =>
    have hx := h x List.mem_cons_self
    have hl := ih fun y hy => h y (List.mem_cons_of_mem _ hy)
    rw [List.sum_cons]; omega

theorem addChecked_of_nonneg : ∀ {l : List Int} {acc : Int}, (∀ x ∈ l, 0 ≤ x) → lo ≤ acc → acc + l.sum ≤ hi →
    addChecked lo hi acc l = some (acc + l.sum) := by
  intro l
  induction l with
  | nil => intro acc _ _ _; simp [addChecked]
  | cons x l ih =>
    intro acc hl hlo hhi
    have hx := hl x List.mem_cons_self
    have hrest := sum_nonneg fun y hy => hl y (List.mem_cons_of_mem _ hy)
    rw [List.sum_cons] at hhi ⊢
    simp only [addChecked]
    rw [if_pos ⟨by omega, by omega⟩, ih (fun y hy => hl y (List.mem_cons_of_mem _ hy)) (by omega) (by omega)]
    congr 1; omega

theorem checkedSum_of_nonneg {l : List Int} (hl : ∀ x ∈ l, 0 ≤ x) (hlo : lo ≤ 0) (hhi : l.sum ≤ hi) :
    checkedSum lo hi l = some l.sum := by
  have := addChecked_of_nonneg hl hlo (by omega : (0 : Int) + l.sum ≤ hi)
  rw [zero_add] at this; exact this

/-- A sum of indicators counts. -/
theorem sum_indicator {α : Type*} (p : α → Bool) (l : List α) :
    (l.map fun a => if p a then (1 : Int) else 0).sum = l.countP p := by
  induction l with
  | nil => rfl
  | cons a l ih =>
    rw [List.map_cons, List.sum_cons, List.countP_cons, ih]
    by_cases hp : p a = true
    · rw [if_pos hp, if_pos hp]; omega
    · rw [if_neg hp, if_neg hp]; omega

/-- What is left out adds nothing. -/
theorem sum_filter {α : Type*} (p : α → Bool) (f : α → Int) (l : List α) :
    ((l.filter p).map f).sum = (l.map fun a => if p a then f a else 0).sum := by
  induction l with
  | nil => rfl
  | cons a l ih =>
    rw [List.map_cons, List.sum_cons, ← ih, List.filter_cons]
    by_cases hp : p a = true
    · rw [if_pos hp, if_pos hp, List.map_cons, List.sum_cons]
    · rw [if_neg hp, if_neg hp, zero_add]

theorem sum_le_of_sublist {l m : List Int} (h : l.Sublist m) (hm : ∀ x ∈ m, 0 ≤ x) : l.sum ≤ m.sum := by
  induction h with
  | slnil => simp
  | cons x _ ih =>
    have hx := hm x List.mem_cons_self
    have := ih fun y hy => hm y (List.mem_cons_of_mem _ hy)
    rw [List.sum_cons]; omega
  | cons_cons x _ ih =>
    have := ih fun y hy => hm y (List.mem_cons_of_mem _ hy)
    rw [List.sum_cons, List.sum_cons]; omega

/-! ## `Int32` -/

def int32Min : Int := -2147483648

def int32Max : Int := 2147483647

def sumInt32 (l : List Int) : Option Int := checkedSum int32Min int32Max l

end Lib.Checked
