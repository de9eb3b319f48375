/-
  Lib.Tables — tables of rows under keys the table gives out.

  A table knows the next key it gives; keys of its rows are distinct and below that, so
  an inserted row is new. An `Update` leaves keys alone; a `Maker` makes the row of a
  key. `saved` is what a unit of work writes to a column it tracks.

  Proved:
  - `find?_some` / `find?_of_mem`: a lookup finds the row of the table under the key.
  - `find?_update` / `find?_made`: a lookup after an update, or in a table made of another.
  - `row_unique`: one row for each key.
  - `rows_insertAll`: the rows of several inserts.
  - `saved_fresh`: over the value it was read with, a column is written as it is now.
-/

import Mathlib.Data.List.Nodup

namespace Lib.Tables

variable {α β : Type}

structure Table (α : Type) (key : α → Int) where
  rows : List α
  next : Int
  below : ∀ a ∈ rows, key a < next
  keys : (rows.map key).Nodup

structure Update (key : α → Int) where
  apply : α → α
  keeps : ∀ a, key (apply a) = key a

structure Maker (β : Type) (key : α → Int) where
  make : β → Int → α
  keyed : ∀ b k, key (make b k) = k

variable {key : α → Int}

/-- The update of the rows that meet `p`. -/
def Update.restrict (u : Update key) (p : α → Bool) : Update key where
  apply a := if p a then u.apply a else a
  keeps a := by
    split
    · exact u.keeps a
    · rfl

theorem Update.restrict_apply (u : Update key) (p : α → Bool) (a : α) :
    (u.restrict p).apply a = if p a then u.apply a else a := rfl

namespace Table

def empty (next : Int) : Table α key where
  rows := []
  next := next
  below _ ha := absurd ha List.not_mem_nil
  keys := List.nodup_nil

def find? (t : Table α key) (k : Int) : Option α := t.rows.find? (key · == k)

def update (t : Table α key) (u : Update key) : Table α key where
  rows := t.rows.map u.apply
  next := t.next
  below a ha := by
    obtain ⟨b, hb, rfl⟩ := List.mem_map.mp ha
    rw [u.keeps]; exact t.below b hb
  keys := by
    have hkeys : t.rows.map (key ∘ u.apply) = t.rows.map key := List.map_congr_left fun a _ => u.keeps a
    rw [List.map_map, hkeys]
    exact t.keys

def insert (t : Table α key) (m : Maker β key) (b : β) : Table α key where
  rows := t.rows ++ [m.make b t.next]
  next := t.next + 1
  below a ha := by
    rcases List.mem_append.mp ha with ha | ha
    · have := t.below a ha; omega
    · rw [List.mem_singleton.mp ha, m.keyed]; omega
  keys := by
    rw [List.map_append, List.map_singleton, m.keyed]
    refine List.nodup_append.mpr ⟨t.keys, List.nodup_singleton _, fun k hk k' hk' => ?_⟩
    obtain ⟨a, ha, rfl⟩ := List.mem_map.mp hk
    rw [List.mem_singleton.mp hk']
    have := t.below a ha; omega

/-- The rows of several inserts stand in their order after those before. -/
theorem rows_insertAll (m : Maker β key) : ∀ (bs : List β) (t : Table α key),
    (bs.foldl (fun t b => t.insert m b) t).rows = t.rows ++ bs.mapIdx fun i b => m.make b (t.next + i) := by
  intro bs
  induction bs with
  | nil => intro t; simp
  | cons b bs ih =>
    intro t
    have hfirst : t.next + ((0 : Nat) : Int) = t.next := by omega
    have hnext : ∀ i : Nat, t.next + 1 + (i : Int) = t.next + ((i + 1 : Nat) : Int) := fun i => by omega
    rw [List.foldl_cons, ih, List.mapIdx_cons]
    simp only [insert, hfirst, hnext, List.append_assoc, List.singleton_append]

/-- The table of what is made of each row, under its key. -/
def map {key' : β → Int} (t : Table β key') (m : Maker β key) : Table α key where
  rows := t.rows.map fun b => m.make b (key' b)
  next := t.next
  below a ha := by
    obtain ⟨b, hb, rfl⟩ := List.mem_map.mp ha
    rw [m.keyed]
    exact t.below b hb
  keys := by
    have hkeys : t.rows.map (key ∘ fun b => m.make b (key' b)) = t.rows.map key' :=
      List.map_congr_left fun b _ => m.keyed b (key' b)
    rw [List.map_map, hkeys]
    exact t.keys

def remove (t : Table α key) (p : α → Bool) : Table α key where
  rows := t.rows.filter (!p ·)
  next := t.next
  below a ha := t.below a (List.mem_filter.mp ha).1
  keys := t.keys.sublist (List.filter_sublist.map key)

/-! ## Lookups -/

theorem row_unique {t : Table α key} {a b : α} (ha : a ∈ t.rows) (hb : b ∈ t.rows) (h : key a = key b) : a = b :=
  List.inj_on_of_nodup_map t.keys ha hb h

theorem find?_some {t : Table α key} {k : Int} {a : α} (h : t.find? k = some a) : a ∈ t.rows ∧ key a = k :=
  ⟨List.mem_of_find?_eq_some h, by simpa using List.find?_some h⟩

theorem find?_of_mem {t : Table α key} {a : α} (ha : a ∈ t.rows) : t.find? (key a) = some a := by
  cases h : t.find? (key a) with
  | none =>
    have hnone := List.find?_eq_none.mp h a ha
    simp at hnone
  | some b =>
    obtain ⟨hb, hk⟩ := find?_some h
    rw [row_unique hb ha hk]

theorem find?_update (t : Table α key) (u : Update key) (k : Int) : (t.update u).find? k = (t.find? k).map u.apply := by
  unfold find? update
  rw [List.find?_map]
  refine congrArg (Option.map u.apply) (congrArg (List.find? · t.rows) ?_)
  funext a
  rw [Function.comp_apply, u.keeps]

theorem find?_made {key' : β → Int} (t : Table β key') (m : Maker β key) (k : Int) :
    (t.map m).find? k = (t.find? k).map fun b => m.make b (key' b) := by
  unfold find? map
  rw [List.find?_map]
  refine congrArg (Option.map _) (congrArg (List.find? · t.rows) ?_)
  funext b
  rw [Function.comp_apply, m.keyed]

end Table

/-! ## Change tracking -/

/-- What a unit of work leaves in a column that holds `stored`: it writes the column only
    if its value changed since it was read. -/
def saved {γ : Type} [DecidableEq γ] (original current stored : γ) : γ :=
  if current = original then stored else current

@[simp] theorem saved_fresh {γ : Type} [DecidableEq γ] (original current : γ) :
    saved original current original = current := by
  unfold saved
  split
  · exact Eq.symm ‹_›
  · rfl

theorem saved_eq_current {γ : Type} [DecidableEq γ] {original current stored : γ} :
    saved original current stored = current ↔ (current = original → stored = original) := by
  unfold saved
  split
  · rename_i h; subst h; simp
  · rename_i h; simp [h]

end Lib.Tables
