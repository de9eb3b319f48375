/-
  OlympSystem.Checker.SimpleCheckers — the checkers of the repository, as the site registers
  them (`BuilderExtensions.AddSimpleCheckers`).

  The site finds them by reflection, in no particular order: `Registered` is any order. How
  numbers are parsed and compared is a parameter, as in the checkers.

  Proved:
  - `registered_nodup`: they have different ids, so that a service can be built with them.
  - `registered_gives`: each answers whatever the texts are.
  - `proper`: a request for one of the four ids is proper if its compilator and its test
    numbers are.
  - `check_ends`: a check of such a request returns a result, or the sum of its scores
    overflows.
-/

import OlympSystem.Checker.FloatArrayChecker
import OlympSystem.Checker.MuseumChecker

namespace OlympSystem.Checker.SimpleCheckers

open Lib.CodeUnits Lib.Program

variable {β : Type} (toInt32 : Units → Except Exn Int) (toDouble : Units → Except Exn β) (near : β → β → Bool)

def simpleCheckers : List SimpleChecker :=
  [DefaultStrictChecker.simpleChecker, FloatArrayChecker.simpleChecker toDouble near, LegacyChecker.simpleChecker,
    MuseumChecker.simpleChecker toInt32]

def Registered (checkers : List SimpleChecker) : Prop := checkers.Perm (simpleCheckers toInt32 toDouble near)

variable {toInt32 toDouble near} {checkers : List SimpleChecker}

theorem registered_ids (h : Registered toInt32 toDouble near checkers) :
    (checkers.map SimpleChecker.id).Perm [4, 2, 1, 3] :=
  h.map SimpleChecker.id

theorem registered_nodup (h : Registered toInt32 toDouble near checkers) : (checkers.map SimpleChecker.id).Nodup :=
  (registered_ids h).nodup_iff.mpr (by decide)

theorem registered_gives (h : Registered toInt32 toDouble near checkers) :
    ∀ checker ∈ checkers, GivesVerdict checker := by
  intro checker hchecker
  have hmem := h.mem_iff.mp hchecker
  simp only [simpleCheckers, List.mem_cons, List.not_mem_nil, or_false] at hmem
  rcases hmem with rfl | rfl | rfl | rfl
  · exact strict_gives
  · exact FloatArrayChecker.float_gives toDouble near
  · exact legacy_gives
  · exact MuseumChecker.museum_gives toInt32

variable {svc : CheckerService} {request : CheckRequest}

theorem proper (h : Registered toInt32 toDouble near svc.simpleCheckers)
    (hid : 1 ≤ request.checkerId ∧ request.checkerId ≤ 4)
    (havailable : request.compilator.error = none) (hsupported : svc.supports request.compilator.configuration = true)
    (hnumbers : ∀ test ∈ request.tests, 1 ≤ test.number ∧ test.number ≤ 999) :
    ∃ checker, Verdict.Proper svc request checker := by
  have hids : request.checkerId ∈ svc.simpleCheckers.map SimpleChecker.id := by
    rw [(registered_ids h).mem_iff]
    simp only [List.mem_cons, List.not_mem_nil, or_false]
    omega
  obtain ⟨x, hx, hxid⟩ := List.mem_map.mp hids
  cases hfind : svc.findChecker request.checkerId with
  | none =>
    have hnone := List.find?_eq_none.mp hfind x hx
    simp [hxid] at hnone
  | some checker =>
    have hgives := registered_gives h checker (List.mem_of_find?_eq_some hfind)
    exact ⟨checker, havailable, hsupported, hfind, hgives, hnumbers⟩

/-- No checker makes a check fail. -/
theorem check_ends (platform : Platform) (elapsed : TimeSpan) (h : Registered toInt32 toDouble near svc.simpleCheckers)
    (hid : 1 ≤ request.checkerId ∧ request.checkerId ≤ 4) (havailable : request.compilator.error = none)
    (hsupported : svc.supports request.compilator.configuration = true)
    (hnumbers : ∀ test ∈ request.tests, 1 ≤ test.number ∧ test.number ≤ 999) (s : Fields) (answers : Nat → RunnerResult)
    (hanswers : ∀ n, (answers n).status ≠ .unspecified) :
    (∃ result, (Prog.solo (svc.check platform request elapsed) s fun n => .ok (answers n)).result = .ok result) ∨
      (Prog.solo (svc.check platform request elapsed) s fun n => .ok (answers n)).result = .error .overflow := by
  obtain ⟨checker, hproper⟩ := proper h hid havailable hsupported hnumbers
  by_cases hstatus : (answers 0).status = .completed
  · have hspecified : Verdict.Specified fun n => .ok (answers (n + 1)) := fun n => ⟨_, rfl, hanswers (n + 1)⟩
    obtain ⟨runs, code, hjudged⟩ := Verdict.check_judged platform elapsed hproper s (a := fun n => .ok (answers n)) rfl
      hstatus hspecified
    rcases hjudged.result with ⟨log, score, testResults, hresult⟩ | ⟨hoverflow, -⟩
    · exact Or.inl ⟨_, hresult⟩
    · exact Or.inr hoverflow
  · obtain ⟨-, log, hresult⟩ := Verdict.check_uncompiled platform elapsed hproper s (a := fun n => .ok (answers n)) rfl
      hstatus
    exact Or.inl ⟨_, hresult⟩

end OlympSystem.Checker.SimpleCheckers
