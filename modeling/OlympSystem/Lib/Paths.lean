/-
  Lib.Paths — file names and their extensions (`System.IO.Path`).

  A path ends in its extension, the last `.` after the last separator and what follows;
  which characters separate is the platform's.

  Proved:
  - `dropExtension_extension` / `fileName_append`: an extension that was put on is taken off,
    and the name before it is found.
  - `dropExtension_plain` / `dropExtension_shorter`: a name without a dot has no extension,
    one with a dot loses its last part.
-/

import Mathlib.Data.List.Basic

namespace Lib.Paths

variable (isSeparator : Char → Bool)

/-- The path up to its extension. -/
def dropExtension (path : List Char) : List Char :=
  match path.reverse.dropWhile fun c => c != '.' && !isSeparator c with
  | '.' :: rest => rest.reverse
  | _ => path

def changeExtension (path extension : String) : String :=
  if path.toList = [] then ""
  else
    let dotted := if extension.toList.head? = some '.' then extension else "." ++ extension
    String.ofList (dropExtension isSeparator path.toList) ++ dotted

def fileName (path : List Char) : List Char := (path.reverse.takeWhile fun c => !isSeparator c).reverse

def getFileNameWithoutExtension (path : String) : String :=
  String.ofList (dropExtension isSeparator (fileName isSeparator path.toList))

variable {isSeparator}

/-- An extension of a name, without its dot. -/
def IsExtension (isSeparator : Char → Bool) (extension : List Char) : Prop :=
  '.' ∉ extension ∧ ∀ c ∈ extension, isSeparator c = false

theorem dropWhile_extension {extension : List Char} (h : IsExtension isSeparator extension) (rest : List Char) :
    (extension ++ rest).dropWhile (fun c => c != '.' && !isSeparator c) =
      rest.dropWhile fun c => c != '.' && !isSeparator c := by
  induction extension with
  | nil => rfl
  | cons c extension ih =>
    have hdot : c ≠ '.' := fun heq => h.1 (heq ▸ List.mem_cons_self)
    have hc : (c != '.' && !isSeparator c) = true := by
      simp [hdot, h.2 c List.mem_cons_self]
    rw [List.cons_append, List.dropWhile_cons, if_pos hc]
    exact ih ⟨fun hmem => h.1 (List.mem_cons_of_mem _ hmem), fun d hd => h.2 d (List.mem_cons_of_mem _ hd)⟩

theorem IsExtension.reverse {extension : List Char} (h : IsExtension isSeparator extension) :
    IsExtension isSeparator extension.reverse :=
  ⟨fun hmem => h.1 (List.mem_reverse.mp hmem), fun c hc => h.2 c (List.mem_reverse.mp hc)⟩

/-- The extension that was put on is taken off. -/
theorem dropExtension_extension {extension : List Char} (h : IsExtension isSeparator extension) (stem : List Char) :
    dropExtension isSeparator (stem ++ '.' :: extension) = stem := by
  unfold dropExtension
  have hreverse : (stem ++ '.' :: extension).reverse = extension.reverse ++ ('.' :: stem.reverse) := by simp
  rw [hreverse, dropWhile_extension h.reverse, List.dropWhile_cons, if_neg (by simp)]
  exact List.reverse_reverse stem

theorem dropExtension_plain {path : List Char} (h : '.' ∉ path) : dropExtension isSeparator path = path := by
  unfold dropExtension
  split
  · next rest hrest =>
    have hmem : '.' ∈ path.reverse.dropWhile fun c => c != '.' && !isSeparator c := by
      rw [hrest]; exact List.mem_cons_self
    exact absurd (List.mem_reverse.mp ((List.dropWhile_sublist _).subset hmem)) h
  · rfl

theorem dropExtension_shorter {path : List Char} (hdot : '.' ∈ path) (hwhole : ∀ c ∈ path, isSeparator c = false) :
    (dropExtension isSeparator path).length < path.length := by
  obtain ⟨after, before, hpath, hlast⟩ := List.eq_append_cons_of_mem (List.mem_reverse.mpr hdot)
  have heq : path = before.reverse ++ '.' :: after.reverse := by
    rw [← List.reverse_reverse path, hpath]; simp
  have hextension : IsExtension isSeparator after.reverse := by
    refine ⟨fun hmem => hlast (List.mem_reverse.mp hmem), fun c hc => hwhole c ?_⟩
    rw [heq]
    exact List.mem_append_right _ (List.mem_cons_of_mem _ hc)
  rw [heq, dropExtension_extension hextension]
  simp

/-- What follows the last separator is the name. -/
theorem fileName_append {name : List Char} (h : ∀ c ∈ name, isSeparator c = false) (path : List Char) :
    fileName isSeparator (path ++ name) = fileName isSeparator path ++ name := by
  unfold fileName
  rw [List.reverse_append, List.takeWhile_append_of_pos fun c hc => by simp [h c (List.mem_reverse.mp hc)],
    List.reverse_append, List.reverse_reverse]

end Lib.Paths
