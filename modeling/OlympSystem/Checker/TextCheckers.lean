/-
  OlympSystem.Checker.TextCheckers — the checkers that compare texts
  (`DefaultStrictChecker.cs`, `LegacyChecker.cs`).

  Both loops walk over the two outputs at once: the strict one with line enumerators, the
  legacy one with indices. An index outside a string is an exception of the model, as it
  is of the code.

  Proved:
  - `strict_verdict`: the verdict of the strict checker, from the lines of the outputs.
  - `legacy_verdict`: the legacy checker ends, with no index outside, and compares the
    outputs without white space.
  - `strict_refines_legacy`: what the strict checker accepts, the legacy checker accepts.
-/

import OlympSystem.Checker.Verdict
import OlympSystem.Lib.CodeUnits

namespace OlympSystem.Checker

open Lib.CodeUnits

/-! ## `DefaultStrictChecker` -/

namespace DefaultStrictChecker

theorem both_lines : ∀ {a b : Bool}, ¬(a ^^ b) = true → ¬(!a && !b) = true → a = true := by decide

def compareLines (juryLines userLines : LineEnumerator) : CheckerResultStatus :=
  if _h₁ : (juryLines.moveNext.1 ^^ userLines.moveNext.1) = true then
    if juryLines.moveNext.1 && juryLines.moveNext.2.current.isEmpty && !juryLines.moveNext.2.moveNext.1 then .accepted
    else .presentationError
  else if _h₂ : (!juryLines.moveNext.1 && !userLines.moveNext.1) = true then .accepted
  else if juryLines.moveNext.2.current ≠ userLines.moveNext.2.current then .wrongAnswer
  else compareLines juryLines.moveNext.2 userLines.moveNext.2
termination_by juryLines.size
decreasing_by exact LineEnumerator.moveNext_size (both_lines _h₁ _h₂)

def check (_juryInput juryOutput userOutput : Units) : CheckerResultStatus :=
  compareLines (.ofText juryOutput) (.ofText userOutput)

def simpleChecker : SimpleChecker :=
  ⟨4, fun juryInput juryOutput userOutput => .ok (check (units juryInput) (units juryOutput) (units userOutput))⟩

/-- Lines that stand at one place in both outputs and differ. -/
def Differ (jury user : List Units) : Prop := ∃ (i : Nat) (a b : Units), jury[i]? = some a ∧ user[i]? = some b ∧ a ≠ b

theorem differ_nil_left {user : List Units} : ¬Differ [] user := by
  intro h
  obtain ⟨i, a, b, ha, -, -⟩ := h
  simp at ha

theorem differ_nil_right {jury : List Units} : ¬Differ jury [] := by
  intro h
  obtain ⟨i, a, b, -, hb, -⟩ := h
  simp at hb

theorem differ_cons {a b : Units} {jury user : List Units} : Differ (a :: jury) (b :: user) ↔
    a ≠ b ∨ Differ jury user := by
  constructor
  · intro h
    obtain ⟨i, x, y, hx, hy, hne⟩ := h
    cases i with
    | zero =>
      cases hx; cases hy
      exact Or.inl hne
    | succ i => exact Or.inr ⟨i, x, y, hx, hy, hne⟩
  · intro h
    rcases h with hne | ⟨i, x, y, hx, hy, hne⟩
    · exact ⟨0, a, b, rfl, rfl, hne⟩
    · exact ⟨i + 1, x, y, hx, hy, hne⟩

/-- Where one output goes on after the other, no line differs. -/
theorem not_differ_append (lines more : List Units) :
    ¬Differ lines (lines ++ more) ∧ ¬Differ (lines ++ more) lines := by
  induction lines with
  | nil => exact ⟨differ_nil_left, differ_nil_right⟩
  | cons a lines ih =>
    rw [List.cons_append, differ_cons, differ_cons]
    exact ⟨by simp [ih.1], by simp [ih.2]⟩

/-- Equal lines, but for one empty line at the end that only the jury has. -/
def Matches (jury user : List Units) : Prop := jury = user ∨ jury = user ++ [[]]

theorem matches_cons {a : Units} {jury user : List Units} : Matches (a :: jury) (a :: user) ↔ Matches jury user := by
  simp [Matches]

structure Verdict (jury user : List Units) (status : CheckerResultStatus) : Prop where
  wrongAnswer : status = .wrongAnswer ↔ Differ jury user
  accepted : status = .accepted ↔ ¬Differ jury user ∧ Matches jury user
  presentationError : status = .presentationError ↔ ¬Differ jury user ∧ ¬Matches jury user

theorem Verdict.of_accepted {jury user : List Units} (h : Matches jury user) (hsame : ¬Differ jury user) :
    Verdict jury user .accepted :=
  ⟨⟨nofun, fun hd => absurd hd hsame⟩, ⟨fun _ => ⟨hsame, h⟩, fun _ => rfl⟩, ⟨nofun, fun hn => absurd h hn.2⟩⟩

theorem Verdict.of_presentation {jury user : List Units} (h : ¬Matches jury user) (hsame : ¬Differ jury user) :
    Verdict jury user .presentationError :=
  ⟨⟨nofun, fun hd => absurd hd hsame⟩, ⟨nofun, fun hm => absurd hm.2 h⟩, ⟨fun _ => ⟨hsame, h⟩, fun _ => rfl⟩⟩

theorem Verdict.of_differ {jury user : List Units} (h : Differ jury user) : Verdict jury user .wrongAnswer :=
  ⟨⟨fun _ => h, fun _ => rfl⟩, ⟨nofun, fun hn => absurd h hn.1⟩, ⟨nofun, fun hn => absurd h hn.1⟩⟩

theorem Verdict.cons {a : Units} {jury user : List Units} {status : CheckerResultStatus}
    (h : Verdict jury user status) :
    Verdict (a :: jury) (a :: user) status := by
  have hdiffer : Differ (a :: jury) (a :: user) ↔ Differ jury user := by simp [differ_cons]
  refine ⟨?_, ?_, ?_⟩
  · rw [hdiffer]; exact h.wrongAnswer
  · rw [hdiffer, matches_cons]; exact h.accepted
  · rw [hdiffer, matches_cons]; exact h.presentationError

/-- The verdict on the lines that the enumerators still have. -/
theorem compareLines_verdict (juryLines userLines : LineEnumerator) :
    Verdict juryLines.rest userLines.rest (compareLines juryLines userLines) := by
  induction juryLines using (measure LineEnumerator.size).wf.induction generalizing userLines with
  | _ juryLines ih =>
    rw [compareLines]
    rcases juryLines.moveNext_rest with ⟨hj, hjury⟩ | ⟨hj, hjury⟩
    · rcases userLines.moveNext_rest with ⟨hu, huser⟩ | ⟨hu, huser⟩
      · rw [hj, hu, hjury, huser]
        exact .of_accepted (Or.inl rfl) differ_nil_left
      · -- a line too many of the user
        rw [hj, hu, hjury, huser]
        exact .of_presentation (by simp [Matches]) differ_nil_left
    · rcases userLines.moveNext_rest with ⟨hu, huser⟩ | ⟨hu, huser⟩
      · -- a line too many of the jury: it may be the empty one after a last break
        have hmatches : Matches juryLines.rest [] ↔
            (juryLines.moveNext.2.current.isEmpty && !juryLines.moveNext.2.moveNext.1) = true := by
          rw [hjury]
          rcases juryLines.moveNext.2.moveNext_rest with ⟨hnext, hrest⟩ | ⟨hnext, hrest⟩
          · rw [hnext, hrest]; simp [Matches]
          · rw [hnext, hrest]; simp [Matches]
        rw [hj, hu, huser]
        simp only [Bool.true_bne, Bool.not_false, Bool.true_and, dite_true]
        split
        · next hlast => exact .of_accepted (hmatches.mpr hlast) differ_nil_right
        · next hlast => exact .of_presentation (fun h => hlast (hmatches.mp h)) differ_nil_right
      · rw [dif_neg (by simp [hj, hu]), dif_neg (by simp [hj]), hjury, huser]
        split
        · next hne => exact .of_differ (differ_cons.mpr (Or.inl hne))
        · next heq =>
          rw [not_not.mp heq]
          exact (ih _ (LineEnumerator.moveNext_size hj) _).cons

/-- The verdict of the strict checker. A last break that only the jury has is tolerated; one
    that only the user has is not, nor are two of the jury. -/
theorem strict_verdict (juryInput juryOutput userOutput : Units) :
    Verdict (enumerateLines juryOutput) (enumerateLines userOutput) (check juryInput juryOutput userOutput) ∧
      (enumerateLines userOutput = enumerateLines juryOutput ++ [[]] →
        check juryInput juryOutput userOutput = .presentationError) ∧
      (enumerateLines juryOutput = enumerateLines userOutput ++ [[], []] →
        check juryInput juryOutput userOutput = .presentationError) := by
  have hverdict : Verdict (enumerateLines juryOutput) (enumerateLines userOutput)
      (check juryInput juryOutput userOutput) :=
    compareLines_verdict (.ofText juryOutput) (.ofText userOutput)
  refine ⟨hverdict, fun huser => hverdict.presentationError.mpr ⟨?_, ?_⟩,
    fun hjury => hverdict.presentationError.mpr ⟨?_, ?_⟩⟩
  · rw [huser]; exact (not_differ_append _ _).1
  · rw [huser]; simp [Matches]
  · rw [hjury]; exact (not_differ_append _ _).2
  · rw [hjury]; simp [Matches]

end DefaultStrictChecker

/-! ## `LegacyChecker` -/

namespace LegacyChecker

def charAt (text : Units) (i : Nat) : Except Exn UInt16 :=
  match text[i]? with
  | some c => .ok c
  | none => .error .indexOutOfRange

theorem charAt_lt {text : Units} {i : Nat} {c : UInt16} (h : charAt text i = .ok c) : i < text.length := by
  unfold charAt at h
  split at h
  · next hsome => exact (List.getElem?_eq_some_iff.mp hsome).1
  · cases h

/-- `while (i < text.Length && char.IsWhiteSpace(text[i])) i++`. -/
def skipWhiteSpace (text : Units) (i : Nat) : Except Exn Nat :=
  if i < text.length then
    match _h : charAt text i with
    | .error e => .error e
    | .ok c => if isWhiteSpace c then skipWhiteSpace text (i + 1) else .ok i
  else .ok i
termination_by text.length - i

theorem charAt_ok {text : Units} {i : Nat} (h : i < text.length) : charAt text i = .ok text[i] := by
  unfold charAt
  rw [List.getElem?_eq_getElem h]

/-- A skip ends where the white space does, at the end at the latest. -/
structure Skipped (text : Units) (i i' : Nat) : Prop where
  ok : skipWhiteSpace text i = .ok i'
  forward : i ≤ i'
  inside : i' ≤ text.length
  rest : text.drop i' = (text.drop i).dropWhile isWhiteSpace

theorem skipWhiteSpace_skipped {text : Units} {i : Nat} (hi : i ≤ text.length) : ∃ i', Skipped text i i' := by
  induction i using (measure fun i => text.length - i).wf.induction with
  | _ i ih =>
    by_cases hlt : i < text.length
    · have hdrop := List.drop_eq_getElem_cons hlt
      by_cases hspace : isWhiteSpace text[i] = true
      · obtain ⟨i', hok, hforward, hinside, hrest⟩ :=
          ih (i + 1) (by show text.length - (i + 1) < text.length - i; omega) (by omega)
        refine ⟨i', ?_, by omega, hinside, ?_⟩
        · rw [skipWhiteSpace, if_pos hlt, charAt_ok hlt]
          simp only [if_pos hspace, hok]
        · rw [hrest, hdrop, List.dropWhile_cons_of_pos hspace]
      · refine ⟨i, ?_, Nat.le_refl _, hi, ?_⟩
        · rw [skipWhiteSpace, if_pos hlt, charAt_ok hlt]
          simp only [if_neg hspace]
        · rw [hdrop, List.dropWhile_cons_of_neg hspace]
    · refine ⟨i, by rw [skipWhiteSpace, if_neg hlt], Nat.le_refl _, hi, ?_⟩
      rw [List.drop_eq_nil_of_le (by omega), List.dropWhile_nil]

theorem skipWhiteSpace_le {text : Units} {i i' : Nat} (h : skipWhiteSpace text i = .ok i') : i ≤ i' := by
  by_cases hi : i ≤ text.length
  · obtain ⟨j, hj⟩ := skipWhiteSpace_skipped hi
    have heq : i' = j := Except.ok.inj (h.symm.trans hj.ok)
    rw [heq]; exact hj.forward
  · rw [skipWhiteSpace, if_neg (by omega)] at h
    exact Nat.le_of_eq (Except.ok.inj h)

def compareChars (juryOutput userOutput : Units) (i j : Nat) : Except Exn CheckerResultStatus :=
  match _hskip : skipWhiteSpace userOutput i, skipWhiteSpace juryOutput j with
  | .error e, _ => .error e
  | .ok _, .error e => .error e
  | .ok i', .ok j' =>
    if i' = userOutput.length ∧ j' = juryOutput.length then .ok .accepted
    else if i' = userOutput.length ∨ j' = juryOutput.length then .ok .wrongAnswer
    else
      match _hchar : charAt userOutput i', charAt juryOutput j' with
      | .error e, _ => .error e
      | .ok _, .error e => .error e
      | .ok a, .ok b => if a ≠ b then .ok .wrongAnswer else compareChars juryOutput userOutput (i' + 1) (j' + 1)
termination_by userOutput.length - i
decreasing_by
  have hle := skipWhiteSpace_le _hskip
  have hlt := charAt_lt _hchar
  omega

def check (_juryInput juryOutput userOutput : Units) : Except Exn CheckerResultStatus :=
  compareChars juryOutput userOutput 0 0

def simpleChecker : SimpleChecker :=
  ⟨1, fun juryInput juryOutput userOutput => check (units juryInput) (units juryOutput) (units userOutput)⟩

def deleteWhiteSpace (text : Units) : Units := text.filter fun c => !isWhiteSpace c

theorem deleteWhiteSpace_dropWhile (text : Units) :
    deleteWhiteSpace (text.dropWhile isWhiteSpace) = deleteWhiteSpace text := by
  induction text with
  | nil => rfl
  | cons c text ih =>
    by_cases hc : isWhiteSpace c = true
    · rw [List.dropWhile_cons_of_pos hc, ih]
      simp [deleteWhiteSpace, hc]
    · rw [List.dropWhile_cons_of_neg hc]

/-- The first unit after a skip is no white space. -/
theorem Skipped.head {text : Units} {i i' : Nat} (h : Skipped text i i') (hlt : i' < text.length) :
    deleteWhiteSpace (text.drop i) = text[i'] :: deleteWhiteSpace (text.drop (i' + 1)) := by
  have hdrop := List.drop_eq_getElem_cons hlt
  have hhead : isWhiteSpace text[i'] = false := by
    have hnot := List.head?_dropWhile_not isWhiteSpace (text.drop i)
    rwa [← h.rest, hdrop, List.head?_cons] at hnot
  rw [← deleteWhiteSpace_dropWhile, ← h.rest, hdrop]
  exact List.filter_cons_of_pos (by rw [hhead]; rfl)

theorem Skipped.end {text : Units} {i : Nat} (h : Skipped text i text.length) :
    deleteWhiteSpace (text.drop i) = [] := by
  rw [← deleteWhiteSpace_dropWhile, ← h.rest, List.drop_length]; rfl

/-- The verdict of the loop on what both outputs still have. -/
theorem compareChars_verdict (jury user : Units) {i j : Nat} (hi : i ≤ user.length) (hj : j ≤ jury.length) :
    compareChars jury user i j =
      .ok (if deleteWhiteSpace (jury.drop j) = deleteWhiteSpace (user.drop i) then .accepted else .wrongAnswer) := by
  induction i using (measure fun i => user.length - i).wf.induction generalizing j with
  | _ i ih =>
    obtain ⟨i', hskip⟩ := skipWhiteSpace_skipped hi
    obtain ⟨j', hskip'⟩ := skipWhiteSpace_skipped hj
    rw [compareChars, hskip.ok, hskip'.ok]
    simp only
    by_cases hend : i' = user.length
    · subst hend
      by_cases hend' : j' = jury.length
      · subst hend'
        rw [if_pos ⟨rfl, rfl⟩, hskip.end, hskip'.end, if_pos rfl]
      · have hhead := hskip'.head (Nat.lt_of_le_of_ne hskip'.inside hend')
        rw [if_neg (fun h => hend' h.2), if_pos (Or.inl rfl), hskip.end, hhead, if_neg (List.cons_ne_nil _ _)]
    · have hlt := Nat.lt_of_le_of_ne hskip.inside hend
      by_cases hend' : j' = jury.length
      · subst hend'
        rw [if_neg (fun h => hend h.1), if_pos (Or.inr rfl), hskip'.end, hskip.head hlt,
          if_neg (List.cons_ne_nil _ _).symm]
      · have hlt' := Nat.lt_of_le_of_ne hskip'.inside hend'
        rw [if_neg (fun h => hend h.1), if_neg (fun h => h.elim hend hend'), charAt_ok hlt,
          charAt_ok hlt', hskip.head hlt,
          hskip'.head hlt']
        simp only [List.cons.injEq]
        by_cases hsame : user[i'] = jury[j']
        · have hforward := hskip.forward
          rw [if_neg (not_not.mpr hsame),
            ih (i' + 1) (by show user.length - (i' + 1) < user.length - i; omega) (by omega)
            (by omega)]
          simp only [hsame, true_and]
        · rw [if_pos hsame, if_neg (fun h => hsame h.1.symm)]

/-- The legacy checker ends on every input, without an index outside, and compares the outputs
    without their white space. -/
theorem legacy_verdict (juryInput juryOutput userOutput : Units) :
    check juryInput juryOutput userOutput =
      .ok (if deleteWhiteSpace juryOutput = deleteWhiteSpace userOutput then .accepted else .wrongAnswer) :=
  compareChars_verdict juryOutput userOutput (Nat.zero_le _) (Nat.zero_le _)

end LegacyChecker

/-! ## Strict and legacy -/

/-- Every line break is white space. -/
theorem newLine_skips : Skips isNewLine fun c => !isWhiteSpace c := by
  refine ⟨by decide, fun c hc => ?_⟩
  simp only [isNewLine, Bool.or_eq_true, beq_iff_eq] at hc
  rcases hc with ((((rfl | rfl) | rfl) | rfl) | rfl) | rfl <;> decide

/-- The lines of an output have its text without white space. -/
theorem deleteWhiteSpace_lines (text : Units) :
    LegacyChecker.deleteWhiteSpace (enumerateLines text).flatten = LegacyChecker.deleteWhiteSpace text :=
  enumerateLines_filter newLine_skips text

theorem matches_deleteWhiteSpace {jury user : List Units} (h : DefaultStrictChecker.Matches jury user) :
    LegacyChecker.deleteWhiteSpace jury.flatten = LegacyChecker.deleteWhiteSpace user.flatten := by
  rcases h with rfl | rfl
  · rfl
  · rw [List.flatten_append]; simp

/-- What the strict checker accepts, the legacy checker accepts; and so the strict checker does
    not accept what is a wrong answer for the legacy checker. -/
theorem strict_refines_legacy (juryInput juryOutput userOutput : Units) :
    (DefaultStrictChecker.check juryInput juryOutput userOutput = .accepted →
      LegacyChecker.check juryInput juryOutput userOutput = .ok .accepted) ∧
    (LegacyChecker.check juryInput juryOutput userOutput = .ok .wrongAnswer →
      DefaultStrictChecker.check juryInput juryOutput userOutput ≠ .accepted) := by
  have hlegacy : LegacyChecker.check juryInput juryOutput userOutput = .ok _ :=
    LegacyChecker.compareChars_verdict juryOutput userOutput (Nat.zero_le _) (Nat.zero_le _)
  have hrefines : DefaultStrictChecker.check juryInput juryOutput userOutput = .accepted →
      LegacyChecker.check juryInput juryOutput userOutput = .ok .accepted := by
    intro haccepted
    have hverdict := DefaultStrictChecker.compareLines_verdict (.ofText juryOutput) (.ofText userOutput)
    have hsame := matches_deleteWhiteSpace (hverdict.accepted.mp haccepted).2
    rw [LineEnumerator.rest_ofText, LineEnumerator.rest_ofText, deleteWhiteSpace_lines, deleteWhiteSpace_lines] at hsame
    rw [hlegacy, List.drop_zero, List.drop_zero, if_pos hsame]
  refine ⟨hrefines, fun hwrong haccepted => ?_⟩
  rw [hrefines haccepted] at hwrong
  cases hwrong

theorem break_refined : LegacyChecker.check [] [52, 50, 13, 10] [52, 50] = .ok .accepted :=
  (strict_refines_legacy [] [52, 50, 13, 10] [52, 50]).1 (by decide +kernel)

/-! ## Every text gets a verdict -/

/-- The three answers of a simple checker. -/
def IsVerdict (status : CheckerResultStatus) : Prop :=
  status = .accepted ∨ status = .wrongAnswer ∨ status = .presentationError

/-- The checker answers whatever the texts are. -/
def GivesVerdict (checker : SimpleChecker) : Prop :=
  ∀ juryInput juryOutput userOutput, ∃ verdict, checker.check juryInput juryOutput userOutput = .ok verdict ∧
    IsVerdict verdict

theorem strict_gives : GivesVerdict DefaultStrictChecker.simpleChecker := by
  intro juryInput juryOutput userOutput
  refine ⟨_, rfl, ?_⟩
  have hverdict := DefaultStrictChecker.compareLines_verdict (.ofText (units juryOutput)) (.ofText (units userOutput))
  by_cases hdiffer : DefaultStrictChecker.Differ (enumerateLines (units juryOutput)) (enumerateLines (units userOutput))
  · exact Or.inr (Or.inl (hverdict.wrongAnswer.mpr hdiffer))
  · by_cases hmatches : DefaultStrictChecker.Matches (enumerateLines (units juryOutput))
      (enumerateLines (units userOutput))
    · exact Or.inl (hverdict.accepted.mpr ⟨hdiffer, hmatches⟩)
    · exact Or.inr (Or.inr (hverdict.presentationError.mpr ⟨hdiffer, hmatches⟩))

theorem legacy_gives : GivesVerdict LegacyChecker.simpleChecker := by
  intro juryInput juryOutput userOutput
  refine ⟨_, LegacyChecker.compareChars_verdict _ _ (Nat.zero_le _) (Nat.zero_le _), ?_⟩
  split
  · exact Or.inl rfl
  · exact Or.inr (Or.inl rfl)

end OlympSystem.Checker
