/-
  Lib.Search — the first occurrence of a word in a text.

  A word can only begin in front of a separator it does not contain if it ends there too:
  a text of pieces that end in such separators is searched piece by piece.

  Proved:
  - `prefix_of_separator`: no occurrence reaches over such a separator.
  - `indexOf_append`: the search goes on behind a piece without the word.
  - `indexOf_pieces`: and behind any number of them.
  - `splitOn_pieces`: the split of pieces without the separator.
-/

import Mathlib.Data.List.Infix

namespace Lib.Search

variable {α : Type*}

/-- Pieces, each with the separator behind it. -/
def joined (pieces : List (List α × α)) : List α := pieces.flatMap fun piece => piece.1 ++ [piece.2]

theorem joined_cons (piece : List α × α) (pieces : List (List α × α)) (text : List α) :
    joined (piece :: pieces) ++ text = piece.1 ++ piece.2 :: (joined pieces ++ text) := by
  simp [joined]

/-- An occurrence does not reach over the separator. -/
theorem prefix_of_separator {word : List α} {c : α} (hc : c ∉ word) : ∀ {a b : List α},
    word <+: a ++ c :: b → word <+: a := by
  intro a b h
  rcases List.prefix_or_prefix_of_prefix h (List.prefix_append a (c :: b)) with hshort | hlong
  · exact hshort
  · -- longer than `a`, the word would contain the separator
    obtain ⟨rest, rfl⟩ := hlong
    cases rest with
    | nil => rw [List.append_nil]
    | cons d rest =>
      obtain ⟨hd, -⟩ := List.cons_prefix_cons.mp ((List.prefix_append_right_inj a).mp h)
      exact absurd (by simp [hd]) hc

variable [DecidableEq α]

def indexOf (word : List α) : List α → Option Nat
  | [] => if word = [] then some 0 else none
  | c :: text => if word.isPrefixOf (c :: text) then some 0 else (indexOf word text).map (· + 1)

theorem indexOf_prefix {word text : List α} (h : word <+: text) : indexOf word text = some 0 := by
  cases text with
  | nil => exact if_pos (List.prefix_nil.mp h)
  | cons c text => exact if_pos (List.isPrefixOf_iff_prefix.mpr h)

theorem indexOf_append {word a : List α} {c : α} (hword : word ≠ []) (hc : c ∉ word) (ha : ¬word <:+: a) (b : List α) :
    indexOf word (a ++ c :: b) = (indexOf word b).map (· + (a.length + 1)) := by
  induction a with
  | nil =>
    have hnot : ¬word.isPrefixOf (c :: b) = true := by
      intro h
      exact hword (List.prefix_nil.mp (prefix_of_separator hc (List.isPrefixOf_iff_prefix.mp h)))
    exact if_neg hnot
  | cons d a ih =>
    have hnot : ¬word.isPrefixOf (d :: (a ++ c :: b)) = true := by
      intro h
      exact ha (prefix_of_separator hc (List.isPrefixOf_iff_prefix.mp h)).isInfix
    have hrest := ih fun h => ha (List.infix_cons h)
    show (if word.isPrefixOf (d :: (a ++ c :: b)) then some 0 else (indexOf word (a ++ c :: b)).map (· + 1)) = _
    rw [if_neg hnot, hrest, Option.map_map]
    rfl

theorem indexOf_pieces {word : List α} (hword : word ≠ []) {pieces : List (List α × α)}
    (h : ∀ piece ∈ pieces, ¬word <:+: piece.1 ∧ piece.2 ∉ word) (text : List α) :
    indexOf word (joined pieces ++ text) = (indexOf word text).map (· + (joined pieces).length) := by
  induction pieces with
  | nil => simp [joined]
  | cons piece pieces ih =>
    obtain ⟨hfirst, hrest⟩ := List.forall_mem_cons.mp h
    rw [joined_cons, indexOf_append hword hfirst.2 hfirst.1, ih hrest, Option.map_map]
    congr 1
    funext n
    simp [joined]
    omega

theorem splitOn_pieces {c : α} {pieces : List (List α)} (h : ∀ piece ∈ pieces, c ∉ piece) (text : List α) :
    (joined (pieces.map fun piece => (piece, c)) ++ text).splitOn c = pieces ++ text.splitOn c := by
  induction pieces with
  | nil => rfl
  | cons piece pieces ih =>
    obtain ⟨hfirst, hrest⟩ := List.forall_mem_cons.mp h
    rw [List.map_cons, joined_cons, List.cons_append, ← ih hrest]
    exact List.splitOn_append_cons_self_of_not_mem hfirst _

end Lib.Search
