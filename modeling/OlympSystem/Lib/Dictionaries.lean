/-
  Lib.Dictionaries — dictionaries, whose keys are distinct.

  `Dict` compares keys by a normal form and lists its entries in the order they were
  added; `SortedDict` lists them in the order of their keys. Both carry the distinctness
  of their keys. `tryAdd` is none exactly when the key is there; `set` replaces its value.

  Proved:
  - `Dict.mem_tryAdd` / `SortedDict.tryAdd_perm`: the entries of a dictionary with one
    more entry.
  - `Dict.get?_set`: what a key finds after an assignment.
  - `Dict.entry_unique` / `SortedDict.value_unique`: a key has one entry.
  - `Dict.remove_head` / `Dict.length_remove`: what a removal leaves.
  - `sum_lookup_le`: distinct keys find entries that sum to no more than all entries.
-/

import Mathlib.Data.List.Nodup
import Mathlib.Order.Defs.LinearOrder
import OlympSystem.Lib.Checked

namespace Lib.Dictionaries

variable {κ κ' ν : Type}

structure Dict (κ : Type) {κ' : Type} (ν : Type) (norm : κ → κ') where
  entries : List (κ × ν)
  keys : (entries.map fun e => norm e.1).Nodup

namespace Dict

variable [DecidableEq κ'] {norm : κ → κ'}

def empty : Dict κ ν norm := ⟨[], List.nodup_nil⟩

def get? (d : Dict κ ν norm) (k : κ) : Option ν := (d.entries.find? fun e => norm e.1 == norm k).map Prod.snd

def tryAdd (d : Dict κ ν norm) (k : κ) (v : ν) : Option (Dict κ ν norm) :=
  if h : norm k ∈ d.entries.map fun e => norm e.1 then none
  else some {
    entries := d.entries ++ [(k, v)]
    keys := by
      rw [List.map_append, List.map_singleton]
      refine List.nodup_append.mpr ⟨d.keys, List.nodup_singleton _, fun a ha b hb => ?_⟩
      rw [List.mem_singleton.mp hb]
      rintro rfl; exact h ha }

def remove (d : Dict κ ν norm) (k : κ) : Dict κ ν norm where
  entries := d.entries.filter (norm ·.1 != norm k)
  keys := d.keys.sublist (List.filter_sublist.map _)

/-- The indexer: a key that is there keeps its place and its spelling. -/
def set (d : Dict κ ν norm) (k : κ) (v : ν) : Dict κ ν norm :=
  if h : norm k ∈ d.entries.map fun e => norm e.1 then {
    entries := d.entries.map fun e => if norm e.1 = norm k then (e.1, v) else e
    keys := by
      rw [List.map_map]
      have hkeys : ((fun e => norm e.1) ∘ fun e : κ × ν => if norm e.1 = norm k then (e.1, v) else e) =
          fun e => norm e.1 := by
        funext e
        simp only [Function.comp]
        split <;> rfl
      rw [hkeys]
      exact d.keys }
  else {
    entries := d.entries ++ [(k, v)]
    keys := by
      rw [List.map_append, List.map_singleton]
      refine List.nodup_append.mpr ⟨d.keys, List.nodup_singleton _, fun a ha b hb => ?_⟩
      rw [List.mem_singleton.mp hb]
      rintro rfl; exact h ha }

theorem find?_set_self {k : κ} {v : ν} : ∀ {entries : List (κ × ν)}, norm k ∈ entries.map (fun e => norm e.1) →
    ((entries.map fun e => if norm e.1 = norm k then (e.1, v) else e).find? fun e => norm e.1 == norm k).map Prod.snd =
      some v := by
  intro entries
  induction entries with
  | nil => intro h; cases h
  | cons e entries ih =>
    intro h
    rw [List.map_cons, List.find?_cons]
    by_cases he : norm e.1 = norm k
    · simp [he]
    · have hfalse : (norm e.1 == norm k) = false := beq_false_of_ne he
      rw [if_neg he, hfalse]
      rcases List.mem_cons.mp h with heq | h
      · exact absurd heq.symm he
      · exact ih h

theorem find?_set {entries : List (κ × ν)} {k k' : κ} {v : ν} (h : norm k' ≠ norm k) :
    (entries.map fun e => if norm e.1 = norm k then (e.1, v) else e).find? (fun e => norm e.1 == norm k') =
      entries.find? fun e => norm e.1 == norm k' := by
  induction entries with
  | nil => rfl
  | cons e entries ih =>
    rw [List.map_cons, List.find?_cons, List.find?_cons, ih]
    by_cases he : norm e.1 = norm k
    · have hne : (norm e.1 == norm k') = false := by
        rw [he]
        exact beq_false_of_ne fun heq => h heq.symm
      rw [if_pos he, hne]
    · rw [if_neg he]

/-- What a key finds after an assignment. -/
theorem get?_set (d : Dict κ ν norm) (k k' : κ) (v : ν) :
    (d.set k v).get? k' = if norm k' = norm k then some v else d.get? k' := by
  unfold set get?
  split
  · next hmem =>
    simp only
    by_cases h : norm k' = norm k
    · rw [if_pos h, h]
      exact find?_set_self hmem
    · rw [if_neg h, find?_set h]
  · next hmem =>
    simp only
    rw [List.find?_append]
    by_cases h : norm k' = norm k
    · rw [if_pos h, h]
      have hnone : d.entries.find? (fun e => norm e.1 == norm k) = none := by
        rw [List.find?_eq_none]
        intro e he heq
        exact hmem (List.mem_map.mpr ⟨e, he, eq_of_beq heq⟩)
      rw [hnone]
      simp
    · rw [if_neg h]
      have hlast : [(k, v)].find? (fun e => norm e.1 == norm k') = none := by
        simp [Ne.symm h]
      rw [hlast, Option.or_none]

theorem mem_tryAdd {d d' : Dict κ ν norm} {k : κ} {v : ν} (h : d.tryAdd k v = some d') :
    d'.entries = d.entries ++ [(k, v)] := by
  unfold tryAdd at h
  split at h
  · cases h
  · cases h; rfl

theorem tryAdd_eq_none {d : Dict κ ν norm} {k : κ} {v : ν} :
    d.tryAdd k v = none ↔ norm k ∈ d.entries.map fun e => norm e.1 := by
  unfold tryAdd
  split
  · next h => exact ⟨fun _ => h, fun _ => rfl⟩
  · next h => exact ⟨fun hnone => (Option.some_ne_none _ hnone).elim, fun hmem => absurd hmem h⟩

/-- Without its first key, a dictionary is what comes after it. -/
theorem remove_head {d : Dict κ ν norm} {e : κ × ν} {rest : List (κ × ν)} (h : d.entries = e :: rest) :
    (d.remove e.1).entries = rest := by
  have hkeys := d.keys
  rw [h, List.map_cons] at hkeys
  have hfresh := (List.nodup_cons.mp hkeys).1
  show d.entries.filter _ = rest
  rw [h, List.filter_cons_of_neg (by simp)]
  refine List.filter_eq_self.mpr fun x hx => ?_
  have hne : norm x.1 ≠ norm e.1 := fun heq => hfresh (heq ▸ List.mem_map_of_mem (f := fun e => norm e.1) hx)
  exact bne_iff_ne.mpr hne

/-- Removing a key takes at most one entry. -/
theorem length_remove (d : Dict κ ν norm) (k : κ) : d.entries.length ≤ (d.remove k).entries.length + 1 := by
  have hcount : (d.entries.map fun e => norm e.1).count (norm k) ≤ 1 := List.nodup_iff_count_le_one.mp d.keys _
  have hsplit := List.length_eq_countP_add_countP (fun e : κ × ν => norm e.1 != norm k) (l := d.entries)
  have hone : d.entries.countP (fun e => ¬(norm e.1 != norm k) = true) =
      (d.entries.map fun e => norm e.1).count (norm k) := by
    unfold List.count
    rw [List.countP_map]
    exact List.countP_congr fun e _ => by simp
  show d.entries.length ≤ (d.entries.filter _).length + 1
  rw [← List.countP_eq_length_filter]
  omega

theorem get?_mem {d : Dict κ ν norm} {k : κ} {v : ν} (h : d.get? k = some v) :
    ∃ e ∈ d.entries, norm e.1 = norm k ∧ e.2 = v := by
  obtain ⟨e, he, hv⟩ := Option.map_eq_some_iff.mp h
  have hkey := List.find?_some he
  exact ⟨e, List.mem_of_find?_eq_some he, beq_iff_eq.mp hkey, hv⟩

omit [DecidableEq κ'] in
/-- A key has one entry. -/
theorem entry_unique {d : Dict κ ν norm} {e e' : κ × ν} (h : e ∈ d.entries) (h' : e' ∈ d.entries)
    (hk : norm e.1 = norm e'.1) : e = e' := List.inj_on_of_nodup_map d.keys h h' hk

end Dict

/-! ## Sorted dictionaries -/

structure SortedDict (κ ν : Type) [LT κ] where
  entries : List (κ × ν)
  sorted : (entries.map Prod.fst).Pairwise (· < ·)

namespace SortedDict

variable [LinearOrder κ]

def empty : SortedDict κ ν := ⟨[], List.Pairwise.nil⟩

def keys (d : SortedDict κ ν) : List κ := d.entries.map Prod.fst

/-- The entries with one more entry in its place. -/
def place (k : κ) (v : ν) : List (κ × ν) → Option (List (κ × ν))
  | [] => some [(k, v)]
  | e :: l => if k < e.1 then some ((k, v) :: e :: l) else if k = e.1 then none else (place k v l).map (e :: ·)

theorem place_perm {k : κ} {v : ν} : ∀ {l l' : List (κ × ν)}, place k v l = some l' → l'.Perm ((k, v) :: l) := by
  intro l
  induction l with
  | nil => intro l' h; cases h; exact .refl _
  | cons a l ih =>
    intro l' h
    unfold place at h
    split at h
    · cases h; exact .refl _
    · split at h
      · cases h
      · obtain ⟨m, hm, rfl⟩ := Option.map_eq_some_iff.mp h
        exact ((ih hm).cons a).trans (List.Perm.swap _ _ _)

theorem mem_place {k : κ} {v : ν} {l l' : List (κ × ν)} (h : place k v l = some l') (e : κ × ν) :
    e ∈ l' ↔ e = (k, v) ∨ e ∈ l := (place_perm h).mem_iff.trans List.mem_cons

theorem place_sorted {k : κ} {v : ν} : ∀ {l l' : List (κ × ν)}, place k v l = some l' →
    (l.map Prod.fst).Pairwise (· < ·) → (l'.map Prod.fst).Pairwise (· < ·) := by
  intro l
  induction l with
  | nil => intro l' h _; cases h; exact List.pairwise_singleton _ _
  | cons a l ih =>
    intro l' h hs
    obtain ⟨ha, hl⟩ := List.pairwise_cons.mp hs
    unfold place at h
    split at h
    · rename_i hlt
      cases h
      refine List.pairwise_cons.mpr ⟨fun x hx => ?_, hs⟩
      rcases List.mem_cons.mp hx with rfl | hx
      · exact hlt
      · exact lt_trans hlt (ha x hx)
    · split at h
      · cases h
      · rename_i hge hne
        obtain ⟨m, hm, rfl⟩ := Option.map_eq_some_iff.mp h
        refine List.pairwise_cons.mpr ⟨fun x hx => ?_, ih hm hl⟩
        obtain ⟨e, he, rfl⟩ := List.mem_map.mp hx
        rcases (mem_place hm e).mp he with rfl | he
        · exact lt_of_le_of_ne (not_lt.mp hge) (Ne.symm hne)
        · exact ha _ (List.mem_map_of_mem he)

def tryAdd (d : SortedDict κ ν) (k : κ) (v : ν) : Option (SortedDict κ ν) :=
  match h : place k v d.entries with
  | none => none
  | some entries => some ⟨entries, place_sorted h d.sorted⟩

def single (k : κ) (v : ν) : SortedDict κ ν := ⟨[(k, v)], List.pairwise_singleton _ _⟩

theorem tryAdd_empty (k : κ) (v : ν) : empty.tryAdd k v = some (single k v) := rfl

theorem tryAdd_perm {d d' : SortedDict κ ν} {k : κ} {v : ν} (h : d.tryAdd k v = some d') :
    d'.entries.Perm ((k, v) :: d.entries) := by
  unfold tryAdd at h
  split at h
  · cases h
  · rename_i hp
    cases h; exact place_perm hp

theorem mem_tryAdd {d d' : SortedDict κ ν} {k : κ} {v : ν} (h : d.tryAdd k v = some d') (e : κ × ν) :
    e ∈ d'.entries ↔ e = (k, v) ∨ e ∈ d.entries := (tryAdd_perm h).mem_iff.trans List.mem_cons

/-- A key has one value. -/
theorem value_unique {d : SortedDict κ ν} {k : κ} {v v' : ν} (h : (k, v) ∈ d.entries) (h' : (k, v') ∈ d.entries) :
    v = v' := by
  have hnodup : (d.entries.map Prod.fst).Nodup := d.sorted.imp fun hlt => ne_of_lt hlt
  exact congrArg Prod.snd (List.inj_on_of_nodup_map hnodup h h' rfl)

end SortedDict

/-! ## Sums -/

def lookupD [DecidableEq κ] (entries : List (κ × Int)) (k : κ) : Int := (entries.lookup k).getD 0

theorem lookupD_nonneg [DecidableEq κ] {entries : List (κ × Int)} (h : ∀ e ∈ entries, 0 ≤ e.2) (k : κ) :
    0 ≤ lookupD entries k := by
  induction entries with
  | nil => exact Int.le_refl 0
  | cons e l ih =>
    unfold lookupD at *
    rw [List.lookup_cons]
    split
    · exact h e List.mem_cons_self
    · exact ih fun x hx => h x (List.mem_cons_of_mem _ hx)

/-- Distinct keys find distinct entries. -/
theorem sum_lookup_le [DecidableEq κ] {entries : List (κ × Int)} (h : ∀ e ∈ entries, 0 ≤ e.2) :
    ∀ {ks : List κ}, ks.Nodup → (ks.map (lookupD entries)).sum ≤ (entries.map Prod.snd).sum := by
  induction entries with
  | nil =>
    intro ks _
    have hzero : ks.map (lookupD ([] : List (κ × Int))) = ks.map fun _ => (0 : Int) := rfl
    rw [hzero]; simp
  | cons e l ih =>
    intro ks hks
    have hl : ∀ x ∈ l, 0 ≤ x.2 := fun x hx => h x (List.mem_cons_of_mem _ hx)
    have he : 0 ≤ e.2 := h e List.mem_cons_self
    have hne : ∀ k, k ≠ e.1 → lookupD (e :: l) k = lookupD l k := by
      intro k hk
      have hbeq : (k == e.1) = false := beq_eq_false_iff_ne.mpr hk
      unfold lookupD
      rw [List.lookup_cons, hbeq]
    rw [List.map_cons, List.sum_cons]
    by_cases hmem : e.1 ∈ ks
    · -- the key of `e` finds `e`, the other keys look in the rest
      have hperm := List.perm_cons_erase hmem
      have hsum : (ks.map (lookupD (e :: l))).sum =
          lookupD (e :: l) e.1 + ((ks.erase e.1).map (lookupD (e :: l))).sum := by
        rw [(hperm.map _).sum_eq, List.map_cons, List.sum_cons]
      have hrest : (ks.erase e.1).map (lookupD (e :: l)) = (ks.erase e.1).map (lookupD l) :=
        List.map_congr_left fun k hk => hne k fun heq => (hks.not_mem_erase (heq ▸ hk))
      have hhead : lookupD (e :: l) e.1 = e.2 := by
        unfold lookupD
        rw [List.lookup_cons, beq_self_eq_true]; rfl
      have := ih hl (hks.erase e.1)
      rw [hsum, hrest, hhead]; omega
    · have hsame : ks.map (lookupD (e :: l)) = ks.map (lookupD l) :=
        List.map_congr_left fun k hk => hne k fun heq => hmem (heq ▸ hk)
      have := ih hl hks
      rw [hsame]; omega

end Lib.Dictionaries
