/-
  Lib.EditScripts — scripts of single edits between lists, and the table of the dynamic
  programme that gives the least cost of one.

  An edit inserts, deletes or replaces one element; `Script s t c` says that a sequence of
  edits of total cost `c` turns `s` into `t`. In a table the two borders, where one list is
  empty, have a cost for each element of their own: with the cost of an insertion there the
  table is `leastCost`.

  Proved:
  - `Script.symm` / `Script.reverse`: scripts backwards, and of reversed lists.
  - `leastCost_isLeast`: the least cost of a script.
  - `leastCost_comm` / `leastCost_reverse` / `leastCost_eq_zero` / `leastCost_le`: its laws.
  - `leastCost_common`: where a replacement costs as much as a deletion and an insertion, a cheapest
    script keeps a longest common subsequence.
-/

import Mathlib.Algebra.Order.Ring.Rat
import Mathlib.Order.Bounds.Basic
import Mathlib.Tactic.Linarith
import Mathlib.Tactic.Ring

namespace Lib.EditScripts

variable {α : Type}

/-- An insertion and a deletion cost the same. -/
structure Costs where
  insert : ℚ
  replace : ℚ
  insert_nonneg : 0 ≤ insert
  replace_nonneg : 0 ≤ replace

inductive Edit (costs : Costs) : List α → List α → ℚ → Prop
  | insert (before : List α) (a : α) (after : List α) : Edit costs (before ++ after) (before ++ a :: after) costs.insert
  | delete (before : List α) (a : α) (after : List α) : Edit costs (before ++ a :: after) (before ++ after) costs.insert
  | replace (before : List α) (a b : α) (after : List α) :
    Edit costs (before ++ a :: after) (before ++ b :: after) costs.replace

inductive Script (costs : Costs) : List α → List α → ℚ → Prop
  | done (s : List α) : Script costs s s 0
  | edit {s t u : List α} {c d : ℚ} (first : Edit costs s t c) (rest : Script costs t u d) : Script costs s u (c + d)

/-! ## Scripts -/

section Scripts

variable {costs : Costs} {s t u : List α} {c d : ℚ}

theorem Edit.nonneg (h : Edit costs s t c) : 0 ≤ c := by
  cases h with
  | insert => exact costs.insert_nonneg
  | delete => exact costs.insert_nonneg
  | replace => exact costs.replace_nonneg

theorem Edit.symm (h : Edit costs s t c) : Edit costs t s c := by
  cases h with
  | insert before a after => exact .delete before a after
  | delete before a after => exact .insert before a after
  | replace before a b after => exact .replace before b a after

theorem Edit.cons (a : α) (h : Edit costs s t c) : Edit costs (a :: s) (a :: t) c := by
  cases h with
  | insert before b after => exact .insert (a :: before) b after
  | delete before b after => exact .delete (a :: before) b after
  | replace before b b' after => exact .replace (a :: before) b b' after

theorem Edit.reverse (h : Edit costs s t c) : Edit costs s.reverse t.reverse c := by
  cases h with
  | insert before a after =>
    have hedit : Edit costs _ _ _ := .insert after.reverse a before.reverse
    simpa using hedit
  | delete before a after =>
    have hedit : Edit costs _ _ _ := .delete after.reverse a before.reverse
    simpa using hedit
  | replace before a b after =>
    have hedit : Edit costs _ _ _ := .replace after.reverse a b before.reverse
    simpa using hedit

theorem Script.nonneg (h : Script costs s t c) : 0 ≤ c := by
  induction h with
  | done => exact le_refl _
  | edit first _ ih => exact add_nonneg first.nonneg ih

theorem Script.trans (h : Script costs s t c) (h' : Script costs t u d) : Script costs s u (c + d) := by
  induction h with
  | done => rwa [zero_add]
  | edit first _ ih =>
    rw [add_assoc]
    exact .edit first (ih h')

theorem Script.single (h : Edit costs s t c) : Script costs s t c := by
  have hscript := Script.edit h (.done t)
  rwa [add_zero] at hscript

/-- The edits backwards. -/
theorem Script.symm (h : Script costs s t c) : Script costs t s c := by
  induction h with
  | done => exact .done _
  | edit first _ ih =>
    rw [add_comm]
    exact ih.trans (.single first.symm)

theorem Script.cons (a : α) (h : Script costs s t c) : Script costs (a :: s) (a :: t) c := by
  induction h with
  | done => exact .done _
  | edit first _ ih => exact .edit (first.cons a) ih

theorem Script.reverse (h : Script costs s t c) : Script costs s.reverse t.reverse c := by
  induction h with
  | done => exact .done _
  | edit first _ ih => exact .edit first.reverse ih

/-- Where edits cost something, a script of no cost has none. -/
theorem Script.eq_of_zero (hinsert : 0 < costs.insert) (hreplace : 0 < costs.replace) (h : Script costs s t c)
    (hc : c = 0) : s = t := by
  cases h with
  | done => rfl
  | edit first rest =>
    have hpos : ∀ {s t : List α} {c : ℚ}, Edit costs s t c → 0 < c := by
      intro s t c h
      cases h with
      | insert => exact hinsert
      | delete => exact hinsert
      | replace => exact hreplace
    have hfirst := hpos first
    have hrest := rest.nonneg
    linarith

end Scripts

/-! ## The table -/

variable [DecidableEq α]

def Costs.pair (costs : Costs) (a b : α) : ℚ := if a = b then 0 else costs.replace

/-- The table of the lists, with `border` for each element where one list is empty. -/
def tableCost (costs : Costs) (border : ℚ) : List α → List α → ℚ
  | [], ys => border * ys.length
  | x :: xs, [] => border * (x :: xs).length
  | x :: xs, y :: ys =>
    min (min (tableCost costs border xs (y :: ys)) (tableCost costs border (x :: xs) ys) + costs.insert)
      (tableCost costs border xs ys + costs.pair x y)
termination_by xs ys => xs.length + ys.length

def leastCost (costs : Costs) : List α → List α → ℚ := tableCost costs costs.insert

section Table

variable {costs : Costs} {border : ℚ}

theorem pair_nonneg (costs : Costs) (a b : α) : 0 ≤ costs.pair a b := by
  unfold Costs.pair
  split
  · exact le_refl _
  · exact costs.replace_nonneg

theorem pair_le (costs : Costs) (a b : α) : costs.pair a b ≤ costs.replace := by
  unfold Costs.pair
  split
  · exact costs.replace_nonneg
  · exact le_refl _

@[simp] theorem pair_self (a : α) : costs.pair a a = 0 := if_pos rfl

theorem pair_comm (a b : α) : costs.pair a b = costs.pair b a := if_congr eq_comm rfl rfl

@[simp] theorem table_nil (ys : List α) : tableCost costs border [] ys = border * ys.length := by rw [tableCost]

@[simp] theorem table_nil_right (xs : List α) : tableCost costs border xs [] = border * xs.length := by
  cases xs with
  | nil => rw [tableCost]
  | cons x xs => rw [tableCost]

theorem table_cons (x : α) (xs : List α) (y : α) (ys : List α) : tableCost costs border (x :: xs) (y :: ys) =
    min (min (tableCost costs border xs (y :: ys)) (tableCost costs border (x :: xs) ys) + costs.insert)
      (tableCost costs border xs ys + costs.pair x y) := by rw [tableCost]

theorem table_le_delete (costs : Costs) (border : ℚ) (x : α) (xs : List α) (y : α) (ys : List α) :
    tableCost costs border (x :: xs) (y :: ys) ≤ tableCost costs border xs (y :: ys) + costs.insert := by
  rw [table_cons]
  exact (min_le_left _ _).trans (add_le_add_left (min_le_left _ _) _)

theorem table_le_insert (costs : Costs) (border : ℚ) (x : α) (xs : List α) (y : α) (ys : List α) :
    tableCost costs border (x :: xs) (y :: ys) ≤ tableCost costs border (x :: xs) ys + costs.insert := by
  rw [table_cons]
  exact (min_le_left _ _).trans (add_le_add_left (min_le_right _ _) _)

theorem table_le_pair (costs : Costs) (border : ℚ) (x : α) (xs : List α) (y : α) (ys : List α) :
    tableCost costs border (x :: xs) (y :: ys) ≤ tableCost costs border xs ys + costs.pair x y := by
  rw [table_cons]
  exact min_le_right _ _

/-- A cell comes from one of the three before it. -/
theorem table_cases (costs : Costs) (border : ℚ) (x : α) (xs : List α) (y : α) (ys : List α) :
    tableCost costs border (x :: xs) (y :: ys) = tableCost costs border xs (y :: ys) + costs.insert ∨
      tableCost costs border (x :: xs) (y :: ys) = tableCost costs border (x :: xs) ys + costs.insert ∨
        tableCost costs border (x :: xs) (y :: ys) = tableCost costs border xs ys + costs.pair x y := by
  rw [table_cons]
  rcases min_choice (min (tableCost costs border xs (y :: ys)) (tableCost costs border (x :: xs) ys) + costs.insert)
    (tableCost costs border xs ys + costs.pair x y) with h | h
  · rw [h]
    rcases min_choice (tableCost costs border xs (y :: ys)) (tableCost costs border (x :: xs) ys) with h' | h'
    · rw [h']
      exact Or.inl rfl
    · rw [h']
      exact Or.inr (Or.inl rfl)
  · rw [h]
    exact Or.inr (Or.inr rfl)

theorem table_comm (xs ys : List α) : tableCost costs border xs ys = tableCost costs border ys xs := by
  induction xs, ys using tableCost.induct with
  | case1 ys => rw [table_nil, table_nil_right]
  | case2 x xs => rw [table_nil, table_nil_right]
  | case3 x xs y ys ihdelete ihinsert ihpair =>
    rw [table_cons, table_cons, ihdelete, ihinsert, ihpair, pair_comm, min_comm (tableCost costs border (y :: ys) xs)]

/-- A dearer border makes no cell cheaper. -/
theorem table_mono {border' : ℚ} (h : border ≤ border') (xs ys : List α) :
    tableCost costs border xs ys ≤ tableCost costs border' xs ys := by
  induction xs, ys using tableCost.induct with
  | case1 ys =>
    rw [table_nil, table_nil]
    exact mul_le_mul_of_nonneg_right h (Nat.cast_nonneg _)
  | case2 x xs =>
    rw [table_nil_right, table_nil_right]
    exact mul_le_mul_of_nonneg_right h (Nat.cast_nonneg _)
  | case3 x xs y ys ihdelete ihinsert ihpair =>
    rw [table_cons, table_cons]
    exact min_le_min (add_le_add_left (min_le_min ihdelete ihinsert) _) (add_le_add_left ihpair _)

end Table

/-! ## The least cost -/

section Least

variable (costs : Costs)

@[simp] theorem least_nil (ys : List α) : leastCost costs [] ys = costs.insert * ys.length := table_nil ys

@[simp] theorem least_nil_right (xs : List α) : leastCost costs xs [] = costs.insert * xs.length := table_nil_right xs

theorem least_le_delete (x : α) (xs ys : List α) :
    leastCost costs (x :: xs) ys ≤ leastCost costs xs ys + costs.insert := by
  cases ys with
  | nil =>
    rw [least_nil_right, least_nil_right, List.length_cons, Nat.cast_succ, mul_add, mul_one]
  | cons y ys => exact table_le_delete costs _ x xs y ys

theorem least_le_insert (xs : List α) (y : α) (ys : List α) :
    leastCost costs xs (y :: ys) ≤ leastCost costs xs ys + costs.insert := by
  cases xs with
  | nil =>
    rw [least_nil, least_nil, List.length_cons, Nat.cast_succ, mul_add, mul_one]
  | cons x xs => exact table_le_insert costs _ x xs y ys

theorem least_le_pair (x : α) (xs : List α) (y : α) (ys : List α) :
    leastCost costs (x :: xs) (y :: ys) ≤ leastCost costs xs ys + costs.pair x y := table_le_pair costs _ x xs y ys

theorem least_cases (x : α) (xs : List α) (y : α) (ys : List α) :
    leastCost costs (x :: xs) (y :: ys) = leastCost costs xs (y :: ys) + costs.insert ∨
      leastCost costs (x :: xs) (y :: ys) = leastCost costs (x :: xs) ys + costs.insert ∨
        leastCost costs (x :: xs) (y :: ys) = leastCost costs xs ys + costs.pair x y := table_cases costs _ x xs y ys

theorem leastCost_comm (xs ys : List α) : leastCost costs xs ys = leastCost costs ys xs := table_comm xs ys

/-- Some script has the least cost. -/
theorem script_least (xs ys : List α) : Script costs xs ys (leastCost costs xs ys) := by
  have hinsert : ∀ ys : List α, Script costs [] ys (costs.insert * ys.length) := by
    intro ys
    induction ys with
    | nil =>
      rw [List.length_nil, Nat.cast_zero, mul_zero]
      exact .done []
    | cons y ys ih =>
      rw [List.length_cons, Nat.cast_succ, mul_add, mul_one]
      exact ih.trans (.single (.insert [] y ys))
  induction xs, ys using tableCost.induct with
  | case1 ys =>
    rw [least_nil]
    exact hinsert ys
  | case2 x xs =>
    rw [least_nil_right]
    exact (hinsert (x :: xs)).symm
  | case3 x xs y ys ihdelete ihinsert ihpair =>
    rcases least_cases costs x xs y ys with h | h | h
    · rw [h, add_comm]
      exact .edit (.delete [] x xs) ihdelete
    · rw [h, add_comm]
      exact .edit (.insert [] y (x :: xs)) (ihinsert.cons y)
    · rw [h, add_comm]
      by_cases hxy : x = y
      · rw [hxy, pair_self, zero_add]
        exact ihpair.cons y
      · have hpair : costs.pair x y = costs.replace := if_neg hxy
        rw [hpair]
        exact .edit (.replace [] x y xs) (ihpair.cons y)

/-- What one edit adds at most, it adds after an element more. -/
theorem least_cons_le {costs : Costs} {s t : List α} {c : ℚ} (h : ∀ u, leastCost costs s u ≤ c + leastCost costs t u)
    (x : α) :
    ∀ u, leastCost costs (x :: s) u ≤ c + leastCost costs (x :: t) u := by
  intro u
  induction u with
  | nil =>
    have hnil := h []
    rw [least_nil_right, least_nil_right] at hnil ⊢
    rw [List.length_cons, List.length_cons, Nat.cast_succ, Nat.cast_succ]
    linarith
  | cons y u ih =>
    have hdelete := least_le_delete costs x s (y :: u)
    have hinsert := least_le_insert costs (x :: s) y u
    have hpair := least_le_pair costs x s y u
    have hlong := h (y :: u)
    have hshort := h u
    rcases least_cases costs x t y u with heq | heq | heq
    · rw [heq]
      linarith
    · rw [heq]
      linarith
    · rw [heq]
      linarith

theorem least_append_le {costs : Costs} {s t : List α} {c : ℚ}
    (h : ∀ u, leastCost costs s u ≤ c + leastCost costs t u) (before : List α) :
    ∀ u, leastCost costs (before ++ s) u ≤ c + leastCost costs (before ++ t) u := by
  induction before with
  | nil => exact h
  | cons x before ih => exact least_cons_le ih x

/-- One element more of the first list saves its deletion at most. -/
theorem least_le_skip (a : α) (s : List α) : ∀ u, leastCost costs s u ≤ costs.insert + leastCost costs (a :: s) u := by
  intro u
  have hinsert := costs.insert_nonneg
  induction u with
  | nil =>
    rw [least_nil_right, least_nil_right, List.length_cons, Nat.cast_succ]
    linarith
  | cons y u ih =>
    have hnext := least_le_insert costs s y u
    have hpair := pair_nonneg costs a y
    rcases least_cases costs a s y u with heq | heq | heq
    · rw [heq]
      linarith
    · rw [heq]
      linarith
    · rw [heq]
      linarith

/-- Another first element saves its replacement at most. -/
theorem least_le_replace (a b : α) (s : List α) :
    ∀ u, leastCost costs (a :: s) u ≤ costs.replace + leastCost costs (b :: s) u := by
  intro u
  have hreplace := costs.replace_nonneg
  induction u with
  | nil =>
    rw [least_nil_right, least_nil_right]
    exact le_add_of_nonneg_left hreplace
  | cons y u ih =>
    have hdelete := least_le_delete costs a s (y :: u)
    have hinsert := least_le_insert costs (a :: s) y u
    have hpair := least_le_pair costs a s y u
    have hupper := pair_le costs a y
    have hlower := pair_nonneg costs b y
    rcases least_cases costs b s y u with heq | heq | heq
    · rw [heq]
      linarith
    · rw [heq]
      linarith
    · rw [heq]
      linarith

/-- An edit takes at most its cost off the least cost. -/
theorem Edit.least_le {costs : Costs} {s t : List α} {c : ℚ} (h : Edit costs s t c) :
    ∀ u, leastCost costs s u ≤ c + leastCost costs t u := by
  cases h with
  | insert before a after => exact least_append_le (least_le_skip costs a after) before
  | delete before a after =>
    refine least_append_le (fun u => ?_) before
    rw [add_comm]
    exact least_le_delete costs a after u
  | replace before a b after => exact least_append_le (least_le_replace costs a b after) before

theorem least_self (s : List α) : leastCost costs s s ≤ 0 := by
  induction s with
  | nil => rw [least_nil, List.length_nil, Nat.cast_zero, mul_zero]
  | cons a s ih =>
    have hpair := least_le_pair costs a s a s
    rw [pair_self, add_zero] at hpair
    exact hpair.trans ih

/-- No script costs less. -/
theorem Script.least_le {costs : Costs} {s t : List α} {c : ℚ} (h : Script costs s t c) : leastCost costs s t ≤ c := by
  induction h with
  | done s => exact least_self costs s
  | edit first _ ih => exact (first.least_le _).trans (add_le_add_right ih _)

theorem leastCost_isLeast (s t : List α) : IsLeast {c | Script costs s t c} (leastCost costs s t) :=
  ⟨script_least costs s t, fun _ hc => hc.least_le⟩

theorem leastCost_nonneg (s t : List α) : 0 ≤ leastCost costs s t := (script_least costs s t).nonneg

theorem leastCost_reverse (s t : List α) : leastCost costs s.reverse t.reverse = leastCost costs s t := by
  refine le_antisymm (script_least costs s t).reverse.least_le ?_
  have hback := (script_least costs s.reverse t.reverse).reverse.least_le
  rwa [List.reverse_reverse, List.reverse_reverse] at hback

/-- Where edits cost something, only equal lists have a script of no cost. -/
theorem leastCost_eq_zero {costs : Costs} (hinsert : 0 < costs.insert) (hreplace : 0 < costs.replace) {s t : List α} :
    leastCost costs s t = 0 ↔ s = t := by
  constructor
  · intro h
    exact (script_least costs s t).eq_of_zero hinsert hreplace h
  · rintro rfl
    exact le_antisymm (least_self costs s) (leastCost_nonneg costs s s)

/-- As many edits as the longer list has elements are enough. -/
theorem leastCost_le {costs : Costs} {c : ℚ} (hinsert : costs.insert ≤ c)
    (hreplace : costs.replace ≤ c) (s t : List α) :
    leastCost costs s t ≤ c * max s.length t.length := by
  have hc : 0 ≤ c := costs.insert_nonneg.trans hinsert
  induction s generalizing t with
  | nil =>
    rw [least_nil, List.length_nil, max_eq_right (Nat.zero_le _)]
    exact mul_le_mul_of_nonneg_right hinsert (Nat.cast_nonneg _)
  | cons a s ih =>
    cases t with
    | nil =>
      rw [least_nil_right, List.length_nil, max_eq_left (Nat.zero_le _)]
      exact mul_le_mul_of_nonneg_right hinsert (Nat.cast_nonneg _)
    | cons b t =>
      calc leastCost costs (a :: s) (b :: t) ≤ leastCost costs s t + costs.pair a b := least_le_pair costs a s b t
        _ ≤ c * max s.length t.length + c := add_le_add (ih t) ((pair_le costs a b).trans hreplace)
        _ = c * max (a :: s).length (b :: t).length := by
          rw [List.length_cons, List.length_cons, Nat.add_max_add_right, Nat.cast_succ, mul_add, mul_one]

/-! ## Common subsequences -/

/-- A common subsequence is what a script can keep. -/
theorem least_le_common {s t l : List α} (hs : l.Sublist s) (ht : l.Sublist t) :
    leastCost costs s t ≤ costs.insert * (s.length + t.length - 2 * l.length) := by
  induction s, t using tableCost.induct generalizing l with
  | case1 t =>
    rw [List.sublist_nil.mp hs, least_nil]
    simp
  | case2 x xs =>
    rw [List.sublist_nil.mp ht, least_nil_right]
    simp
  | case3 x xs y ys ihdelete ihinsert ihpair =>
    cases hs with
    | cons _ hs =>
      calc leastCost costs (x :: xs) (y :: ys) ≤ leastCost costs xs (y :: ys) + costs.insert :=
        least_le_delete costs x xs _
        _ ≤ costs.insert * (xs.length + (y :: ys).length - 2 * l.length) + costs.insert :=
          add_le_add_left (ihdelete hs ht) _
        _ = costs.insert * ((x :: xs).length + (y :: ys).length - 2 * l.length) := by
          rw [List.length_cons, List.length_cons, Nat.cast_succ, Nat.cast_succ]
          ring
    | @cons_cons l _ _ hs' =>
      cases ht with
      | cons _ ht =>
        have hs := hs'.cons_cons x
        calc leastCost costs (x :: xs) (y :: ys) ≤ leastCost costs (x :: xs) ys + costs.insert :=
          least_le_insert costs _ y ys
          _ ≤ costs.insert * ((x :: xs).length + ys.length - 2 * (x :: l).length) + costs.insert :=
            add_le_add_left (ihinsert hs ht) _
          _ = costs.insert * ((x :: xs).length + (y :: ys).length - 2 * (x :: l).length) := by
            rw [List.length_cons, List.length_cons, List.length_cons, Nat.cast_succ, Nat.cast_succ, Nat.cast_succ]
            ring
      | cons_cons _ ht =>
        calc leastCost costs (x :: xs) (x :: ys) ≤ leastCost costs xs ys + costs.pair x x :=
          least_le_pair costs x xs x ys
          _ ≤ costs.insert * (xs.length + ys.length - 2 * l.length) + costs.pair x x :=
            add_le_add_left (ihpair hs' ht) _
          _ = costs.insert * ((x :: xs).length + (x :: ys).length - 2 * (x :: l).length) := by
            rw [pair_self, List.length_cons, List.length_cons, List.length_cons, Nat.cast_succ, Nat.cast_succ,
              Nat.cast_succ]
            ring

/-- What a cheapest script keeps is a common subsequence. -/
theorem exists_common {costs : Costs} (hreplace : costs.replace = 2 * costs.insert) (s t : List α) :
    ∃ l : List α, l.Sublist s ∧ l.Sublist t ∧
      leastCost costs s t = costs.insert * (s.length + t.length - 2 * l.length) := by
  induction s, t using tableCost.induct with
  | case1 t => exact ⟨[], List.nil_sublist _, List.nil_sublist _, by rw [least_nil]; simp⟩
  | case2 x xs => exact ⟨[], List.nil_sublist _, List.nil_sublist _, by rw [least_nil_right]; simp⟩
  | case3 x xs y ys ihdelete ihinsert ihpair =>
    rcases least_cases costs x xs y ys with h | h | h
    · obtain ⟨l, hs, ht, hcost⟩ := ihdelete
      refine ⟨l, hs.cons x, ht, h.trans ?_⟩
      show leastCost costs xs (y :: ys) + costs.insert = _
      rw [hcost, List.length_cons, List.length_cons, Nat.cast_succ, Nat.cast_succ]
      ring
    · obtain ⟨l, hs, ht, hcost⟩ := ihinsert
      refine ⟨l, hs, ht.cons y, h.trans ?_⟩
      show leastCost costs (x :: xs) ys + costs.insert = _
      rw [hcost, List.length_cons, List.length_cons, Nat.cast_succ, Nat.cast_succ]
      ring
    · obtain ⟨l, hs, ht, hcost⟩ := ihpair
      by_cases hxy : x = y
      · refine ⟨x :: l, hs.cons_cons x, hxy ▸ ht.cons_cons x, h.trans ?_⟩
        show leastCost costs xs ys + costs.pair x y = _
        rw [hcost, hxy, pair_self, List.length_cons, List.length_cons, List.length_cons, Nat.cast_succ, Nat.cast_succ,
          Nat.cast_succ]
        ring
      · refine ⟨l, hs.cons x, ht.cons y, h.trans ?_⟩
        have hpair : costs.pair x y = 2 * costs.insert := (if_neg hxy).trans hreplace
        show leastCost costs xs ys + costs.pair x y = _
        rw [hcost, hpair, List.length_cons, List.length_cons, Nat.cast_succ, Nat.cast_succ]
        ring

/-- The lengths of common subsequences. -/
def commonLengths (s t : List α) : Set Nat := {n | ∃ l : List α, l.Sublist s ∧ l.Sublist t ∧ l.length = n}

/-- What a cheapest script keeps is a longest common subsequence. -/
theorem leastCost_common {costs : Costs} (hreplace : costs.replace = 2 * costs.insert)
    (hinsert : 0 < costs.insert) (s t : List α) :
    ∃ n, IsGreatest (commonLengths s t) n ∧ leastCost costs s t = costs.insert * (s.length + t.length - 2 * n) := by
  obtain ⟨l, hs, ht, hcost⟩ := exists_common hreplace s t
  refine ⟨l.length, ⟨⟨l, hs, ht, rfl⟩, ?_⟩, hcost⟩
  rintro _ ⟨l', hs', ht', rfl⟩
  have hle := least_le_common costs hs' ht'
  rw [hcost] at hle
  have hcast : (l'.length : ℚ) ≤ l.length := by
    have hdivided := le_of_mul_le_mul_left hle hinsert
    linarith
  exact Nat.cast_le.mp hcast

end Least

end Lib.EditScripts
