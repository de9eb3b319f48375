/-
  Lib.Query — the operators of a query language over sequences.

  `orderBy le l` is the stable sort of `l` under a total preorder `le` (a Boolean
  comparison). It is Mathlib's `insertionSort`, which keeps equal elements in their
  order. `lastOrDefault` is the last element or none; `unionBy key l m` is `l`
  followed by `m`, each key once, first occurrence kept; `joinOn` pairs outer with
  inner elements of one key, in outer and then inner order; `groupBy` lists the groups
  in the order of their first elements; `except` is the difference of two sets, each
  element once.

  Proved:
  - `orderBy_perm` / `mem_orderBy` / `orderBy_sorted`: the same elements, in order.
  - `orderBy_filter` / `orderBy_map`: a filter, or a map the comparison does not see
    through, commutes with the sort.
  - `orderBy_eq_of_perm`: without ties between different elements the sort forgets the
    order of the list.
  - `first_orderBy` / `last_orderBy`: the first element of a sort is a minimum, the last
    a maximum.
  - `mem_unionBy` / `unionBy_keys`: what a union holds, and that its keys are distinct.
  - `groupBy_perm` / `groupBy_keys`: groups have distinct keys and hold each element once.
  - `eraseDups_of_nodup` / `length_eraseDups_iff`: nothing is erased where nothing is twice.
  - `mapM_eq_ok` / `mapM_eq_error`: what a query over a list gives, element by element.
-/

import Mathlib.Data.List.Perm.Subperm
import Mathlib.Data.List.Sort

namespace Lib.Query

variable {α β : Type*}

/-! ## Total preorders -/

structure TotalPreorder (le : α → α → Bool) : Prop where
  total : ∀ a b, le a b = true ∨ le b a = true
  trans : ∀ {a b c}, le a b = true → le b c = true → le a c = true

def byKey {κ : Type*} [LE κ] [DecidableLE κ] (key : α → κ) (a b : α) : Bool := decide (key a ≤ key b)

/-- Comparison of a nullable key: null is below every value. -/
def byNullable (key : α → Option Int) (a b : α) : Bool :=
  match key a, key b with
  | none, _ => true
  | some _, none => false
  | some x, some y => decide (x ≤ y)

/-- The comparison the other way round: a descending order. -/
def descending (le : α → α → Bool) (a b : α) : Bool := le b a

/-- `le` first, `next` among the elements `le` does not tell apart. -/
def thenBy (le next : α → α → Bool) (a b : α) : Bool := le a b && (!le b a || next a b)

theorem byKey_totalPreorder {κ : Type*} [LinearOrder κ] (key : α → κ) : TotalPreorder (byKey key) where
  total a b := by simpa [byKey] using le_total (key a) (key b)
  trans h h' := by simp only [byKey, decide_eq_true_eq] at *; exact le_trans h h'

theorem byNullable_totalPreorder (key : α → Option Int) : TotalPreorder (byNullable key) where
  total a b := by
    unfold byNullable
    cases key a <;> cases key b <;> simp
    exact le_total _ _
  trans {a b c} := by
    unfold byNullable
    cases key a <;> cases key b <;> cases key c <;> simp
    exact le_trans

theorem descending_totalPreorder {le : α → α → Bool} (h : TotalPreorder le) : TotalPreorder (descending le) where
  total a b := h.total b a
  trans hab hbc := h.trans hbc hab

theorem thenBy_true {le next : α → α → Bool} {a b : α} :
    thenBy le next a b = true ↔ le a b = true ∧ (le b a = true → next a b = true) := by
  simp [thenBy, imp_iff_not_or]

theorem thenBy_totalPreorder {le next : α → α → Bool} (h : TotalPreorder le) (h' : TotalPreorder next) :
    TotalPreorder (thenBy le next) where
  total a b := by
    rw [thenBy_true, thenBy_true]
    rcases h.total a b with hab | hba
    · by_cases hba : le b a = true
      · rcases h'.total a b with hn | hn
        · exact Or.inl ⟨hab, fun _ => hn⟩
        · exact Or.inr ⟨hba, fun _ => hn⟩
      · exact Or.inl ⟨hab, fun h => absurd h hba⟩
    · by_cases hab : le a b = true
      · rcases h'.total a b with hn | hn
        · exact Or.inl ⟨hab, fun _ => hn⟩
        · exact Or.inr ⟨hba, fun _ => hn⟩
      · exact Or.inr ⟨hba, fun h => absurd h hab⟩
  trans := by
    intro a b c hab hbc
    rw [thenBy_true] at *
    exact ⟨h.trans hab.1 hbc.1, fun hca => h'.trans (hab.2 (h.trans hbc.1 hca)) (hbc.2 (h.trans hca hab.1))⟩

/-! ## The stable sort -/

/-- The stable sort of `l` under `le`. -/
def orderBy (le : α → α → Bool) (l : List α) : List α := l.insertionSort (fun a b => le a b = true)

theorem orderBy_perm (le : α → α → Bool) (l : List α) : (orderBy le l).Perm l := List.perm_insertionSort _ _

@[simp] theorem mem_orderBy {le : α → α → Bool} {l : List α} {a : α} : a ∈ orderBy le l ↔ a ∈ l :=
  (orderBy_perm le l).mem_iff

@[simp] theorem orderBy_nil (le : α → α → Bool) : orderBy le ([] : List α) = [] := rfl

@[simp] theorem orderBy_length (le : α → α → Bool) (l : List α) : (orderBy le l).length = l.length :=
  (orderBy_perm le l).length_eq

theorem orderBy_sorted {le : α → α → Bool} (h : TotalPreorder le) (l : List α) :
    (orderBy le l).Pairwise (fun a b => le a b = true) := by
  have : Std.Total (fun a b => le a b = true) := ⟨h.total⟩
  have : IsTrans α (fun a b => le a b = true) := ⟨fun _ _ _ => h.trans⟩
  exact List.pairwise_insertionSort _ l

theorem orderBy_of_sorted {le : α → α → Bool} {l : List α} (h : l.Pairwise (fun a b => le a b = true)) :
    orderBy le l = l := h.insertionSort_eq

theorem orderedInsert_filter {le : α → α → Bool} (h : TotalPreorder le) (p : α → Bool) (a : α) :
    ∀ l : List α, l.Pairwise (fun a b => le a b = true) →
      (l.orderedInsert (fun a b => le a b = true) a).filter p =
        if p a then (l.filter p).orderedInsert (fun a b => le a b = true) a else l.filter p := by
  intro l
  induction l with
  | nil => intro _; by_cases hp : p a <;> simp [hp]
  | cons b l ih =>
    intro hs
    obtain ⟨hb, hs⟩ := List.pairwise_cons.mp hs
    by_cases hab : le a b = true
    · -- everything after `b` is above `a` too, so `a` goes in front with or without `b`
      have front : ∀ m : List α, (∀ c ∈ m, le a c = true) →
          m.orderedInsert (fun a b => le a b = true) a = a :: m := by
        intro m hm
        cases m with
        | nil => rfl
        | cons c m => simp [hm c (by simp)]
      have hfront := front ((b :: l).filter p) (by
        intro c hc
        rcases List.mem_cons.mp (List.mem_filter.mp hc).1 with rfl | hc
        · exact hab
        · exact h.trans hab (hb c hc))
      rw [hfront, List.orderedInsert_cons, if_pos hab]
      by_cases hp : p a <;> simp [List.filter_cons, hp]
    · rw [List.orderedInsert_cons, if_neg hab, List.filter_cons, ih hs]
      by_cases hp : p a <;> by_cases hpb : p b <;> simp [hp, hpb, hab]

/-- A filter commutes with the sort. -/
theorem orderBy_filter {le : α → α → Bool} (h : TotalPreorder le) (p : α → Bool) (l : List α) :
    (orderBy le l).filter p = orderBy le (l.filter p) := by
  induction l with
  | nil => rfl
  | cons a l ih =>
    have hs := orderBy_sorted h l
    unfold orderBy at *
    rw [List.insertionSort_cons, orderedInsert_filter h p a _ hs, ih]
    by_cases hp : p a <;> simp [hp]

/-- A map the comparison does not see through commutes with the sort. -/
theorem orderBy_map {le : α → α → Bool} {le' : β → β → Bool} (f : α → β) (hf : ∀ a b, le' (f a) (f b) = le a b)
    (l : List α) : (orderBy le l).map f = orderBy le' (l.map f) :=
  List.map_insertionSort _ _ f l fun a _ b _ => by simp [hf]

/-- Where elements that tie are equal, the order of the list does not matter. -/
theorem orderBy_eq_of_perm {le : α → α → Bool} (h : TotalPreorder le) {l m : List α} (hperm : l.Perm m)
    (hties : ∀ a ∈ l, ∀ b ∈ l, le a b = true → le b a = true → a = b) : orderBy le l = orderBy le m := by
  refine List.Perm.eq_of_pairwise (fun a b ha hb => ?_) (orderBy_sorted h l) (orderBy_sorted h m)
    (((orderBy_perm le l).trans hperm).trans (orderBy_perm le m).symm)
  exact hties a (mem_orderBy.mp ha) b (hperm.mem_iff.mpr (mem_orderBy.mp hb))

theorem orderedInsert_forall₂ {R : α → β → Prop} {le : α → α → Bool} {le' : β → β → Bool}
    (hle : ∀ a a' b b', R a b → R a' b' → le a a' = le' b b') {a : α} {b : β} (hab : R a b) :
    ∀ {l : List α} {m : List β}, List.Forall₂ R l m →
      List.Forall₂ R (l.orderedInsert (fun x y => le x y = true) a)
        (m.orderedInsert (fun x y => le' x y = true) b) := by
  intro l m h
  induction h with
  | nil => exact .cons hab .nil
  | cons hcd htail ih =>
    rw [List.orderedInsert_cons, List.orderedInsert_cons, hle _ _ _ _ hab hcd]
    split
    · exact .cons hab (.cons hcd htail)
    · exact .cons hcd ih

/-- Lists related element by element are sorted alike, if the relation preserves the order. -/
theorem orderBy_forall₂ {R : α → β → Prop} {le : α → α → Bool} {le' : β → β → Bool}
    (hle : ∀ a a' b b', R a b → R a' b' → le a a' = le' b b') {l : List α} {m : List β} (h : List.Forall₂ R l m) :
    List.Forall₂ R (orderBy le l) (orderBy le' m) := by
  induction h with
  | nil => exact .nil
  | cons hab _ ih => exact orderedInsert_forall₂ hle hab ih

/-! ## The last element -/

def lastOrDefault (l : List α) : Option α := l.getLast?

theorem lastOrDefault_eq_none {l : List α} : lastOrDefault l = none ↔ l = [] := List.getLast?_eq_none_iff

theorem lastOrDefault_mem {l : List α} {a : α} (h : lastOrDefault l = some a) : a ∈ l :=
  List.mem_of_getLast? h

/-- The last element of a sort is an element above all others. -/
theorem last_orderBy {le : α → α → Bool} (h : TotalPreorder le) {l : List α} {a : α}
    (ha : lastOrDefault (orderBy le l) = some a) : a ∈ l ∧ ∀ b ∈ l, le b a = true := by
  refine ⟨mem_orderBy.mp (lastOrDefault_mem ha), fun b hb => ?_⟩
  obtain ⟨m, hm⟩ := List.getLast?_eq_some_iff.mp ha
  have hs := orderBy_sorted h l
  rw [hm] at hs
  have hbm : b ∈ m ++ [a] := hm ▸ mem_orderBy.mpr hb
  rcases List.mem_append.mp hbm with hbm | hbm
  · exact (List.pairwise_append.mp hs).2.2 b hbm a (by simp)
  · rw [List.mem_singleton.mp hbm]
    exact (h.total a a).elim id id

/-- The first element of a sort is an element below all others. -/
theorem first_orderBy {le : α → α → Bool} (h : TotalPreorder le) {l : List α} {a : α}
    (ha : (orderBy le l).head? = some a) : a ∈ l ∧ ∀ b ∈ l, le a b = true := by
  refine ⟨mem_orderBy.mp (List.mem_of_head? ha), fun b hb => ?_⟩
  obtain ⟨m, hm⟩ := List.head?_eq_some_iff.mp ha
  have hs := orderBy_sorted h l
  rw [hm] at hs
  have hbm : b ∈ a :: m := hm ▸ mem_orderBy.mpr hb
  rcases List.mem_cons.mp hbm with rfl | hbm
  · exact (h.total b b).elim id id
  · exact (List.pairwise_cons.mp hs).1 b hbm

/-- There is a last element exactly when there is an element. -/
theorem last_orderBy_isSome (le : α → α → Bool) {l : List α} :
    (lastOrDefault (orderBy le l)).isSome = true ↔ l ≠ [] := by
  rw [Option.isSome_iff_ne_none, Ne, lastOrDefault_eq_none, ← List.length_eq_zero_iff, orderBy_length,
    List.length_eq_zero_iff]

/-! ## Union -/

variable {κ : Type*} [DecidableEq κ]

/-- `l` followed by `m`, each key once: the first occurrence is kept. -/
def unionBy (key : α → κ) (l m : List α) : List α :=
  (l ++ m).foldl (fun acc a => if acc.any (key · == key a) then acc else acc ++ [a]) []

theorem unionBy_fold (key : α → κ) : ∀ (l acc : List α), (acc.map key).Nodup →
    let r := l.foldl (fun acc a => if acc.any (key · == key a) then acc else acc ++ [a]) acc
    (r.map key).Nodup ∧ (∀ a ∈ r, a ∈ acc ∨ a ∈ l) ∧ ∀ a, (a ∈ acc ∨ a ∈ l) → key a ∈ r.map key := by
  intro l
  induction l with
  | nil => intro acc h; exact ⟨h, fun a ha => Or.inl ha, fun a ha => List.mem_map_of_mem (by simpa using ha)⟩
  | cons b l ih =>
    intro acc h
    simp only [List.foldl_cons]
    by_cases hb : acc.any (key · == key b) = true
    · rw [if_pos hb]
      obtain ⟨h1, h2, h3⟩ := ih acc h
      obtain ⟨c, hc, hcb⟩ := List.any_eq_true.mp hb
      refine ⟨h1, fun a ha => (h2 a ha).imp id (List.mem_cons_of_mem _), ?_⟩
      rintro a (ha | ha)
      · exact h3 a (Or.inl ha)
      · rcases List.mem_cons.mp ha with rfl | ha
        · rw [← beq_iff_eq.mp hcb]; exact h3 c (Or.inl hc)
        · exact h3 a (Or.inr ha)
    · rw [if_neg hb]
      have hnew : key b ∉ acc.map key := by
        intro hm
        obtain ⟨c, hc, hcb⟩ := List.mem_map.mp hm
        exact hb (List.any_eq_true.mpr ⟨c, hc, by simp [hcb]⟩)
      obtain ⟨h1, h2, h3⟩ := ih (acc ++ [b]) (by
        rw [List.map_append, List.map_singleton]
        exact List.nodup_append.mpr ⟨h, List.nodup_singleton _, fun x hx y hy => by
          rw [List.mem_singleton.mp hy]; rintro rfl; exact hnew hx⟩)
      refine ⟨h1, fun a ha => ?_, ?_⟩
      · rcases h2 a ha with ha | ha
        · rcases List.mem_append.mp ha with ha | ha
          · exact Or.inl ha
          · exact Or.inr (List.mem_singleton.mp ha ▸ List.mem_cons_self)
        · exact Or.inr (List.mem_cons_of_mem _ ha)
      · rintro a (ha | ha)
        · exact h3 a (Or.inl (List.mem_append_left _ ha))
        · rcases List.mem_cons.mp ha with rfl | ha
          · exact h3 a (Or.inl (by simp))
          · exact h3 a (Or.inr ha)

theorem unionBy_keys (key : α → κ) (l m : List α) : ((unionBy key l m).map key).Nodup :=
  (unionBy_fold key (l ++ m) [] List.nodup_nil).1

theorem unionBy_mem {key : α → κ} {l m : List α} {a : α} (h : a ∈ unionBy key l m) : a ∈ l ∨ a ∈ m := by
  rcases (unionBy_fold key (l ++ m) [] List.nodup_nil).2.1 a h with h | h
  · cases h
  · exact List.mem_append.mp h

/-- Its keys are those of the two lists. -/
theorem mem_unionBy_keys {key : α → κ} {l m : List α} {k : κ} :
    k ∈ (unionBy key l m).map key ↔ k ∈ l.map key ∨ k ∈ m.map key := by
  simp only [List.mem_map]
  constructor
  · rintro ⟨a, ha, rfl⟩
    exact (unionBy_mem ha).imp (fun h => ⟨a, h, rfl⟩) fun h => ⟨a, h, rfl⟩
  · intro h
    obtain ⟨a, ha, rfl⟩ : ∃ a ∈ l ++ m, key a = k := by
      rcases h with ⟨a, ha, rfl⟩ | ⟨a, ha, rfl⟩
      · exact ⟨a, List.mem_append_left _ ha, rfl⟩
      · exact ⟨a, List.mem_append_right _ ha, rfl⟩
    exact List.mem_map.mp ((unionBy_fold key (l ++ m) [] List.nodup_nil).2.2 a (Or.inr ha))

/-- Where elements of one key are equal, a union holds every element. -/
theorem mem_unionBy {key : α → κ} {l m : List α} (h : ∀ a ∈ l ++ m, ∀ b ∈ l ++ m, key a = key b → a = b) {a : α} :
    a ∈ unionBy key l m ↔ a ∈ l ∨ a ∈ m := by
  refine ⟨unionBy_mem, fun ha => ?_⟩
  have hkey := (unionBy_fold key (l ++ m) [] List.nodup_nil).2.2 a (Or.inr (List.mem_append.mpr ha))
  obtain ⟨b, hb, hba⟩ := List.mem_map.mp hkey
  rwa [← h b (List.mem_append.mpr (unionBy_mem hb)) a (List.mem_append.mpr ha) hba]

/-- Where elements of one key are equal, the order of the lists does not matter to a union. -/
theorem unionBy_perm {key : α → κ} {l l' m m' : List α} (hl : l.Perm l') (hm : m.Perm m')
    (h : ∀ a ∈ l ++ m, ∀ b ∈ l ++ m, key a = key b → a = b) : (unionBy key l m).Perm (unionBy key l' m') := by
  have hperm := hl.append hm
  have h' : ∀ a ∈ l' ++ m', ∀ b ∈ l' ++ m', key a = key b → a = b :=
    fun a ha b hb => h a (hperm.mem_iff.mpr ha) b (hperm.mem_iff.mpr hb)
  rw [List.perm_ext_iff_of_nodup (unionBy_keys key l m).of_map (unionBy_keys key l' m').of_map]
  intro a
  rw [mem_unionBy h, mem_unionBy h', hl.mem_iff, hm.mem_iff]

/-! ## Duplicates -/

section Duplicates

variable {η : Type*} [BEq η] [LawfulBEq η]

theorem eraseDups_nodup (l : List η) : l.eraseDups.Nodup := by
  -- what is left after the first element is shorter
  induction hn : l.length using Nat.strong_induction_on generalizing l with
  | h n ih =>
    cases l with
    | nil => exact List.nodup_nil
    | cons a l =>
      have hlength : (l.filter fun b => !b == a).length < n := by
        rw [← hn, List.length_cons]
        exact Nat.lt_succ_of_le (List.length_filter_le _ l)
      rw [List.eraseDups_cons]
      refine List.nodup_cons.mpr ⟨fun hmem => ?_, ih _ hlength _ rfl⟩
      have := (List.mem_filter.mp (List.mem_eraseDups.mp hmem)).2
      simp at this

/-- Nothing was erased: there are no duplicates. -/
theorem nodup_of_eraseDups {l : List η} (h : l.eraseDups.length = l.length) : l.Nodup := by
  have hsub : l.eraseDups.Subperm l := (eraseDups_nodup l).subperm fun _ ha => List.mem_eraseDups.mp ha
  exact (hsub.perm_of_length_le h.ge).nodup_iff.mp (eraseDups_nodup l)

theorem eraseDups_of_nodup {l : List η} (h : l.Nodup) : l.eraseDups = l := by
  induction l with
  | nil => rfl
  | cons a l ih =>
    obtain ⟨ha, hl⟩ := List.nodup_cons.mp h
    have hother : ∀ b ∈ l, (!b == a) = true := fun b hb => by simpa using fun heq : b = a => ha (heq ▸ hb)
    rw [List.eraseDups_cons, List.filter_eq_self.mpr hother, ih hl]

def except (first second : List η) : List η := (first.filter fun a => !second.contains a).eraseDups

theorem length_eraseDups_iff {l : List η} : l.eraseDups.length = l.length ↔ l.Nodup :=
  ⟨nodup_of_eraseDups, fun h => by rw [eraseDups_of_nodup h]⟩

/-- Of elements with distinct keys, one has the key of `a`. -/
theorem filter_key_unique {key : α → η} {l : List α} (h : (l.map key).Nodup) {a : α} (ha : a ∈ l) :
    l.filter (key · == key a) = [a] := by
  obtain ⟨before, after, rfl⟩ := List.append_of_mem ha
  rw [List.map_append, List.map_cons] at h
  obtain ⟨-, hafter, hbefore⟩ := List.nodup_append.mp h
  have hother : ∀ x ∈ before, ¬(key x == key a) = true := fun x hx heq =>
    hbefore _ (List.mem_map_of_mem hx) _ List.mem_cons_self (beq_iff_eq.mp heq)
  have hrest : ∀ x ∈ after, ¬(key x == key a) = true := fun x hx heq =>
    (List.nodup_cons.mp hafter).1 (beq_iff_eq.mp heq ▸ List.mem_map_of_mem hx)
  rw [List.filter_append, List.filter_cons_of_pos (by simp), List.filter_eq_nil_iff.mpr hother,
    List.filter_eq_nil_iff.mpr hrest]
  rfl

end Duplicates

/-! ## Joins and groups -/

/-- The inner elements that have the key `k`: what a group join gives an outer element. -/
def groupJoin {γ : Type*} (k : κ) (innerKey : γ → κ) (inner : List γ) : List γ := inner.filter (k == innerKey ·)

/-- The inner elements of the pairs of a join, in outer and then inner order. -/
def joinOn {γ : Type*} (outerKey : α → κ) (innerKey : γ → κ) (outer : List α) (inner : List γ) : List γ :=
  outer.flatMap fun a => groupJoin (outerKey a) innerKey inner

def groupBy (key : α → κ) (l : List α) : List (κ × List α) :=
  (l.map key).eraseDups.map fun k => (k, l.filter (key · == k))

/-- Elements of one key are one group. -/
theorem groupBy_single {key : α → κ} {k : κ} {a : α} {l : List α} (h : ∀ x ∈ a :: l, key x = k) :
    groupBy key (a :: l) = [(k, a :: l)] := by
  have hkeys : (a :: l).map key = List.replicate (l.length + 1) k :=
    List.eq_replicate_iff.mpr ⟨by simp, fun _ hmem => by
      obtain ⟨x, hx, rfl⟩ := List.mem_map.mp hmem
      exact h x hx⟩
  have hall : (a :: l).filter (key · == k) = a :: l :=
    List.filter_eq_self.mpr fun x hx => by rw [h x hx]; exact beq_self_eq_true _
  have hothers : (List.replicate l.length k).filter (fun b => !b == k) = [] := by simp
  unfold groupBy
  rw [hkeys, List.replicate_succ, List.eraseDups_cons, hothers, List.eraseDups_nil, List.map_singleton, hall]

/-- No group has two elements exactly when keys are distinct. -/
theorem groupBy_distinct (key : α → κ) (l : List α) :
    ((groupBy key l).any fun group => decide (1 < group.2.length)) = false ↔ (l.map key).Nodup := by
  have hcount : ∀ k, (l.filter (key · == k)).length = (l.map key).count k := by
    intro k; rw [List.count_eq_countP, List.countP_map, ← List.countP_eq_length_filter]; rfl
  rw [List.nodup_iff_count_le_one]
  simp only [groupBy, List.any_map, List.any_eq_false, Function.comp_apply, decide_eq_true_eq, not_lt, hcount,
    List.mem_eraseDups]
  refine ⟨fun h k => ?_, fun h k _ => h k⟩
  by_cases hk : k ∈ l.map key
  · exact h k hk
  · rw [List.count_eq_zero.mpr hk]; omega

theorem groupBy_fst (key : α → κ) (l : List α) : (groupBy key l).map Prod.fst = (l.map key).eraseDups := by
  unfold groupBy
  rw [List.map_map]
  exact List.map_id _

theorem groupBy_keys (key : α → κ) (l : List α) : ((groupBy key l).map Prod.fst).Nodup := by
  rw [groupBy_fst]
  exact eraseDups_nodup _

theorem mem_groupBy {key : α → κ} {l : List α} {group : κ × List α} :
    group ∈ groupBy key l ↔ (∃ a ∈ l, key a = group.1) ∧ group.2 = l.filter (key · == group.1) := by
  unfold groupBy
  simp only [List.mem_map, List.mem_eraseDups]
  constructor
  · rintro ⟨k, hk, rfl⟩; exact ⟨hk, rfl⟩
  · rintro ⟨hk, hg⟩; exact ⟨group.1, hk, by rw [← hg]⟩

theorem groupBy_key_mem {key : α → κ} {l : List α} {a : α} (h : a ∈ l) : key a ∈ (groupBy key l).map Prod.fst := by
  rw [groupBy_fst]
  exact List.mem_eraseDups.mpr (List.mem_map_of_mem h)

/-- The elements of a group have its key. -/
theorem groupBy_elements {key : α → κ} {l : List α} {group : κ × List α} (h : group ∈ groupBy key l) :
    group.2 ≠ [] ∧ ∀ a ∈ group.2, a ∈ l ∧ key a = group.1 := by
  obtain ⟨⟨a, ha, hkey⟩, hgroup⟩ := mem_groupBy.mp h
  rw [hgroup]
  refine ⟨List.ne_nil_of_mem (List.mem_filter.mpr ⟨ha, beq_iff_eq.mpr hkey⟩), fun b hb => ?_⟩
  obtain ⟨hb, hkey⟩ := List.mem_filter.mp hb
  exact ⟨hb, beq_iff_eq.mp hkey⟩

/-- Distinct keys that cover a list cut it into the elements of each. -/
theorem flatMap_filter_perm (key : α → κ) : ∀ (ks : List κ) (l : List α), ks.Nodup → (∀ a ∈ l, key a ∈ ks) →
    (ks.flatMap fun k => l.filter (key · == k)).Perm l := by
  intro ks
  induction ks with
  | nil => intro l _ h; rw [List.eq_nil_iff_forall_not_mem.mpr fun a ha => List.not_mem_nil (h a ha)]; exact .refl _
  | cons k ks ih =>
    intro l hks h
    obtain ⟨hk, hks⟩ := List.nodup_cons.mp hks
    have hrest : ∀ k' ∈ ks, l.filter (key · == k') = (l.filter (!key · == k)).filter (key · == k') := by
      intro k' hk'
      rw [List.filter_filter]
      refine List.filter_congr fun a _ => ?_
      by_cases ha : key a = k'
      · have hne : k' ≠ k := fun heq => hk (heq ▸ hk')
        simp [ha, hne]
      · simp [ha]
    have hothers := ih (l.filter (!key · == k)) hks fun a ha => by
      obtain ⟨hmem, hne⟩ := List.mem_filter.mp ha
      exact (List.mem_cons.mp (h a hmem)).resolve_left (by simpa using hne)
    rw [List.flatMap_cons, List.flatMap_congr hrest]
    exact (hothers.append_left _).trans (List.filter_append_perm _ l)

/-- The groups hold each element once. -/
theorem groupBy_perm (key : α → κ) (l : List α) : ((groupBy key l).flatMap Prod.snd).Perm l := by
  have h := flatMap_filter_perm key (l.map key).eraseDups l (eraseDups_nodup _) fun a ha =>
    List.mem_eraseDups.mpr (List.mem_map_of_mem ha)
  unfold groupBy
  rwa [List.flatMap_map]

/-- Where every element of `inner a` has the key of `a` and keys are distinct, the group
    join of all inner elements gives each `a` its own. -/
theorem groupJoin_flatMap {γ : Type*} {outerKey : α → κ} {innerKey : γ → κ} {inner : α → List γ} :
    ∀ {l : List α}, (l.map outerKey).Nodup → (∀ a ∈ l, ∀ c ∈ inner a, innerKey c = outerKey a) →
      ∀ a ∈ l, groupJoin (outerKey a) innerKey (l.flatMap inner) = inner a := by
  intro l
  induction l with
  | nil => intro _ _ a ha; cases ha
  | cons b l ih =>
    intro hk hi a ha
    obtain ⟨hb, hk⟩ := List.nodup_cons.mp hk
    have hi' : ∀ a ∈ l, ∀ c ∈ inner a, innerKey c = outerKey a := fun a ha => hi a (List.mem_cons_of_mem _ ha)
    have none_of : ∀ (k : κ) (m : List γ), (∀ c ∈ m, innerKey c ≠ k) → groupJoin k innerKey m = [] := by
      intro k m hm
      refine List.filter_eq_nil_iff.mpr fun c hc h => hm c hc ?_
      exact (beq_iff_eq.mp h).symm
    have all_of : groupJoin (outerKey b) innerKey (inner b) = inner b :=
      List.filter_eq_self.mpr fun c hc => beq_iff_eq.mpr (hi b List.mem_cons_self c hc).symm
    have split : ∀ k, groupJoin k innerKey ((b :: l).flatMap inner) =
        groupJoin k innerKey (inner b) ++ groupJoin k innerKey (l.flatMap inner) := by
      intro k; simp [groupJoin]
    rcases List.mem_cons.mp ha with rfl | ha
    · rw [split, all_of, none_of _ (l.flatMap inner), List.append_nil]
      intro c hc hck
      obtain ⟨a', ha', hc⟩ := List.mem_flatMap.mp hc
      exact hb (hck ▸ hi' a' ha' c hc ▸ List.mem_map_of_mem ha')
    · rw [split, ih hk hi' a ha, none_of _ (inner b), List.nil_append]
      intro c hc hck
      have hab : outerKey a = outerKey b := hck ▸ hi b List.mem_cons_self c hc
      exact hb (hab ▸ List.mem_map_of_mem ha)

/-! ## Queries that can fail -/

/-- Lists related element by element: each element has a related one in the other. -/
theorem forall₂_exists {γ δ : Type*} {R : γ → δ → Prop} {l : List γ} {m : List δ} (h : List.Forall₂ R l m) :
    (∀ a ∈ l, ∃ b ∈ m, R a b) ∧ ∀ b ∈ m, ∃ a ∈ l, R a b := by
  induction h with
  | nil => exact ⟨fun _ h => (nomatch h), fun _ h => (nomatch h)⟩
  | cons hab _ ih =>
    constructor
    · intro a ha
      rcases List.mem_cons.mp ha with rfl | ha
      · exact ⟨_, List.mem_cons_self, hab⟩
      · obtain ⟨b, hb, h⟩ := ih.1 a ha
        exact ⟨b, List.mem_cons_of_mem _ hb, h⟩
    · intro b hb
      rcases List.mem_cons.mp hb with rfl | hb
      · exact ⟨_, List.mem_cons_self, hab⟩
      · obtain ⟨a, ha, h⟩ := ih.2 b hb
        exact ⟨a, List.mem_cons_of_mem _ ha, h⟩

/-- Its elements are elements of the lists. -/
theorem forall₂_mem {γ δ : Type*} {R : γ → δ → Prop} {l : List γ} {m : List δ} (h : List.Forall₂ R l m) :
    List.Forall₂ (fun a b => a ∈ l ∧ b ∈ m ∧ R a b) l m := by
  induction h with
  | nil => exact .nil
  | cons hab _ ih =>
    refine .cons ⟨List.mem_cons_self, List.mem_cons_self, hab⟩ (ih.imp ?_)
    intro a b ⟨ha, hb, hr⟩
    exact ⟨List.mem_cons_of_mem _ ha, List.mem_cons_of_mem _ hb, hr⟩

theorem map_eq_of_forall₂ {γ δ η : Type*} {f : γ → η} {g : δ → η} {l : List γ} {m : List δ}
    (h : List.Forall₂ (fun a b => f a = g b) l m) : l.map f = m.map g := by
  rw [← List.forall₂_eq_eq_eq, List.forall₂_map_left_iff, List.forall₂_map_right_iff]
  exact h

/-- Where a partial map is defined on all elements, its values are related to them. -/
theorem filterMap_forall₂ {γ δ : Type*} {R : γ → δ → Prop} {f : γ → Option δ} :
    ∀ {l : List γ}, (∀ a ∈ l, ∃ b, f a = some b ∧ R a b) → List.Forall₂ R l (l.filterMap f) := by
  intro l
  induction l with
  | nil => exact fun _ => .nil
  | cons a l ih =>
    intro h
    obtain ⟨b, hb, hr⟩ := h a List.mem_cons_self
    rw [List.filterMap_cons_some hb]
    exact .cons hr (ih fun c hc => h c (List.mem_cons_of_mem _ hc))

theorem bind_eq_ok {ε : Type} {γ δ : Type} {x : Except ε γ} {f : γ → Except ε δ} {b : δ} :
    x >>= f = .ok b ↔ ∃ a, x = .ok a ∧ f a = .ok b := by
  cases x with
  | error e => exact ⟨fun h => (nomatch h), fun ⟨_, h, _⟩ => (nomatch h)⟩
  | ok a => exact ⟨fun h => ⟨a, rfl, h⟩, fun ⟨_, h, h'⟩ => by cases h; exact h'⟩

theorem bind_eq_error {ε : Type} {γ δ : Type} {x : Except ε γ} {f : γ → Except ε δ} {e : ε} :
    x >>= f = .error e ↔ x = .error e ∨ ∃ a, x = .ok a ∧ f a = .error e := by
  cases x with
  | error e' =>
    constructor
    · intro h; cases h; exact Or.inl rfl
    · rintro (h | ⟨_, h, _⟩)
      · cases h; rfl
      · cases h
  | ok a =>
    constructor
    · intro h; exact Or.inr ⟨a, rfl, h⟩
    · rintro (h | ⟨_, h, h'⟩)
      · cases h
      · cases h; exact h'

theorem mapM_ok {ε : Type} {γ : Type} {δ : Type} {f : γ → Except ε δ} {g : γ → δ} :
    ∀ {l : List γ}, (∀ a ∈ l, f a = .ok (g a)) → l.mapM f = .ok (l.map g) := by
  intro l
  induction l with
  | nil => intro _; rfl
  | cons a l ih =>
    intro h
    rw [List.mapM_cons, h a List.mem_cons_self, ih fun b hb => h b (List.mem_cons_of_mem _ hb)]
    rfl

/-- A query that succeeds has a result for each element, in their order. -/
theorem mapM_eq_ok {ε : Type} {γ δ : Type} {f : γ → Except ε δ} :
    ∀ {l : List γ} {m : List δ}, l.mapM f = .ok m → List.Forall₂ (fun a b => f a = .ok b) l m := by
  intro l
  induction l with
  | nil => intro m h; cases h; exact List.Forall₂.nil
  | cons a l ih =>
    intro m h
    rw [List.mapM_cons, bind_eq_ok] at h
    obtain ⟨b, hb, h⟩ := h
    rw [bind_eq_ok] at h
    obtain ⟨m', hm', h⟩ := h
    cases h
    exact List.Forall₂.cons hb (ih hm')

/-- A query that fails does so at an element. -/
theorem mapM_eq_error {ε : Type} {γ δ : Type} {f : γ → Except ε δ} {e : ε} :
    ∀ {l : List γ}, l.mapM f = .error e → ∃ a ∈ l, f a = .error e := by
  intro l
  induction l with
  | nil => intro h; cases h
  | cons a l ih =>
    intro h
    rw [List.mapM_cons] at h
    cases ha : f a with
    | error e' =>
      rw [ha] at h
      cases h
      exact ⟨a, List.mem_cons_self, ha⟩
    | ok b =>
      cases hl : l.mapM f with
      | error e' =>
        rw [ha, hl] at h
        cases h
        obtain ⟨c, hc, hfail⟩ := ih hl
        exact ⟨c, List.mem_cons_of_mem _ hc, hfail⟩
      | ok m => rw [ha, hl] at h; cases h

/-- A query that succeeds does so in any order, with the same results. -/
theorem mapM_perm {ε : Type} {γ δ : Type} {f : γ → Except ε δ} {l m : List γ} (h : l.Perm m) :
    ∀ {r : List δ}, l.mapM f = .ok r → ∃ r', m.mapM f = .ok r' ∧ r'.Perm r := by
  induction h with
  | nil => intro r hr; exact ⟨r, hr, .refl r⟩
  | cons a _ ih =>
    intro r hr
    rw [List.mapM_cons, bind_eq_ok] at hr
    obtain ⟨b, hb, hr⟩ := hr
    rw [bind_eq_ok] at hr
    obtain ⟨rest, hrest, hr⟩ := hr
    cases hr
    obtain ⟨rest', hrest', hperm⟩ := ih hrest
    refine ⟨b :: rest', ?_, hperm.cons b⟩
    rw [List.mapM_cons, hb, hrest']
    rfl
  | swap a b l =>
    intro r hr
    simp only [List.mapM_cons, bind_eq_ok] at hr
    obtain ⟨x, hx, y, ⟨z, hz, rest, hrest, hy⟩, hr⟩ := hr
    cases hy
    cases hr
    refine ⟨z :: x :: rest, ?_, List.Perm.swap x z rest⟩
    simp only [List.mapM_cons, hz, hx, hrest]
    rfl
  | trans _ _ ih ih' =>
    intro r hr
    obtain ⟨r', hr', hperm⟩ := ih hr
    obtain ⟨r'', hr'', hperm'⟩ := ih' hr'
    exact ⟨r'', hr'', hperm'.trans hperm⟩

/-- A view of the results is the results of the viewed elements. -/
theorem mapM_map {ε : Type} {γ δ η : Type} (f : γ → Except ε δ) (v : δ → η) (l : List γ) :
    (l.mapM f).map (List.map v) = l.mapM fun a => (f a).map v := by
  induction l with
  | nil => rfl
  | cons a l ih =>
    rw [List.mapM_cons, List.mapM_cons, ← ih]
    cases f a with
    | error e => rfl
    | ok b => cases l.mapM f <;> rfl

end Lib.Query
