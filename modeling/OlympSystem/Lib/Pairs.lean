/-
  Lib.Pairs — each unordered pair once.

  `pairs` goes over the selected elements and, for each, over all elements it is related
  to. A pair of two selected elements would come twice, so it is taken from the one with
  the smaller key; a pair with one selected element comes once by itself.

  Proved:
  - `mem_unordered`: the pairs are those of related elements, one of them selected.
  - `unordered_nodup`: none comes twice, in either order.
-/

import Mathlib.Data.Sym.Sym2

namespace Lib.Pairs

variable {α κ : Type*} [LinearOrder κ] (key : α → κ) (selected all : List α) (related : α → α → Bool)

/-- Related, and not left to the other element. -/
def taken (a b : α) : Bool :=
  related a b && !((selected.map key).contains (key b) && decide (key b < key a))

def pairs : List (α × α) := selected.flatMap fun a => (all.filter (taken key selected related a)).map (a, ·)

abbrev unordered (p : α × α) : Sym2 α := s(p.1, p.2)

variable {key selected all related}

theorem mem_pairs {a b : α} : (a, b) ∈ pairs key selected all related ↔
    a ∈ selected ∧ b ∈ all ∧ taken key selected related a b = true := by
  simp only [pairs, List.mem_flatMap, List.mem_map, List.mem_filter, Prod.mk.injEq]
  constructor
  · intro ⟨a', ha, b', ⟨hb, htaken⟩, heq, heq'⟩
    subst heq heq'
    exact ⟨ha, hb, htaken⟩
  · intro ⟨ha, hb, htaken⟩
    exact ⟨a, ha, b, ⟨hb, htaken⟩, rfl, rfl⟩

theorem pairs_nodup (hselected : selected.Nodup) (hall : all.Nodup) : (pairs key selected all related).Nodup := by
  refine List.nodup_flatMap.mpr ⟨fun a _ => ?_, hselected.imp fun hne => ?_⟩
  · exact (hall.filter _).map fun b b' heq => congrArg Prod.snd heq
  · intro p hp hp'
    obtain ⟨b, -, rfl⟩ := List.mem_map.mp hp
    obtain ⟨b', -, heq⟩ := List.mem_map.mp hp'
    exact hne (congrArg Prod.fst heq).symm

variable (hkeys : ∀ a ∈ all, ∀ b ∈ all, key a = key b → a = b) (hsub : ∀ a ∈ selected, a ∈ all)

include hkeys hsub

/-- Whether an element is selected can be read off its key. -/
theorem contains_key {b : α} (hb : b ∈ all) : (selected.map key).contains (key b) = true ↔ b ∈ selected := by
  rw [List.contains_iff_mem, List.mem_map]
  constructor
  · intro ⟨a, ha, heq⟩
    rwa [hkeys a (hsub a ha) b hb heq] at ha
  · intro hb
    exact ⟨b, hb, rfl⟩

theorem taken_iff {a b : α} (hb : b ∈ all) :
    taken key selected related a b = true ↔ related a b = true ∧ (b ∈ selected → key a ≤ key b) := by
  have hcontains := contains_key hkeys hsub hb
  unfold taken
  by_cases hs : b ∈ selected
  · rw [hcontains.mpr hs]
    simp [hs]
  · have hnot : (selected.map key).contains (key b) = false := by
      rw [Bool.eq_false_iff]
      exact fun h => hs (hcontains.mp h)
    rw [hnot]
    simp [hs]

/-- No pair is missed, and none is added. -/
theorem mem_unordered (hsymm : ∀ a b, related a b = related b a) {a b : α} :
    s(a, b) ∈ (pairs key selected all related).map unordered ↔
    a ∈ all ∧ b ∈ all ∧ related a b = true ∧ (a ∈ selected ∨ b ∈ selected) := by
  constructor
  · intro h
    obtain ⟨⟨c, d⟩, hmem, heq⟩ := List.mem_map.mp h
    obtain ⟨hc, hd, htaken⟩ := mem_pairs.mp hmem
    have hrelated := ((taken_iff hkeys hsub hd).mp htaken).1
    rcases Sym2.eq_iff.mp heq with ⟨rfl, rfl⟩ | ⟨rfl, rfl⟩
    · exact ⟨hsub c hc, hd, hrelated, Or.inl hc⟩
    · exact ⟨hd, hsub c hc, hsymm c d ▸ hrelated, Or.inr hc⟩
  · intro ⟨ha, hb, hrelated, hselected⟩
    have hfrom : ∀ c d, c ∈ selected → d ∈ all → related c d = true → (d ∈ selected → key c ≤ key d) →
        s(c, d) ∈ (pairs key selected all related).map unordered := by
      intro c d hc hd hr hle
      exact List.mem_map.mpr ⟨(c, d), mem_pairs.mpr ⟨hc, hd, (taken_iff hkeys hsub hd).mpr ⟨hr, hle⟩⟩, rfl⟩
    by_cases hba : b ∈ selected ∧ (a ∈ selected → key b ≤ key a)
    · rw [Sym2.eq_swap]
      exact hfrom b a hba.1 ha (hsymm a b ▸ hrelated) hba.2
    · have ha' : a ∈ selected := by
        by_contra hnot
        exact hba ⟨hselected.resolve_left hnot, fun h => absurd h hnot⟩
      refine hfrom a b ha' hb hrelated fun hb' => ?_
      by_contra hlt
      exact hba ⟨hb', fun _ => le_of_not_ge hlt⟩

theorem unordered_nodup (hirrefl : ∀ a, related a a = false) (hselected : selected.Nodup) (hall : all.Nodup) :
    ((pairs key selected all related).map unordered).Nodup := by
  refine List.Nodup.map_on ?_ (pairs_nodup hselected hall)
  intro ⟨a, b⟩ hab ⟨c, d⟩ hcd heq
  obtain ⟨ha, hb, htaken⟩ := mem_pairs.mp hab
  obtain ⟨hc, hd, htaken'⟩ := mem_pairs.mp hcd
  obtain ⟨hrelated, hle⟩ := (taken_iff hkeys hsub hb).mp htaken
  obtain ⟨-, hle'⟩ := (taken_iff hkeys hsub hd).mp htaken'
  rcases Sym2.eq_iff.mp heq with ⟨hac, hbd⟩ | ⟨had, hbc⟩
  · simp only at hac hbd
    rw [hac, hbd]
  · -- both are selected, and each key is the smaller one
    simp only at had hbc
    subst had hbc
    have hsame := hkeys a (hsub a ha) b hb (le_antisymm (hle hc) (hle' ha))
    rw [hsame, hirrefl] at hrelated
    cases hrelated

end Lib.Pairs
