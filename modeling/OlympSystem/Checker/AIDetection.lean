/-
  OlympSystem.Checker.AIDetection — the comment counts of
  `SimpleAIDetectionService.DetectAI`.

  The regular expressions are parameters: which comments a source has, and which comments
  look like code, have a Cyrillic letter, have a Latin letter. The score is the sigmoid of
  `argument`.

  The English comments are a set difference, so one that is repeated counts once.

  Proved:
  - `englishCount_iff`: the English count is the number of such comments exactly if no two
    are equal.
  - `argument_insert`: what one more comment makes of the argument.
  - `counted_iff`: the counts are those of all occurrences, and one more occurrence raises
    the argument, exactly if no English comment of the source is repeated.
-/

import Mathlib.Data.List.Infix
import Mathlib.Data.Rat.Defs
import Mathlib.Tactic.Linarith
import OlympSystem.Lib.Query
import OlympSystem.Lib.Text

namespace OlympSystem.Checker.AIDetection

open Lib.Query

/-- `PythonComments`, `CppStyleComments` (the first group of each match), `CodeRegex`,
    `CyrillicRegex` and `EnglishRegex`. -/
structure Regexes where
  pythonComments : String → List String
  cppStyleComments : String → List String
  code : String → Bool
  cyrillic : String → Bool
  english : String → Bool

structure AIDetectionResult where
  /-- The score is its sigmoid. -/
  argument : Rat
  cyrillicComments : Nat
  englishComments : Nat
  suspiciousFragments : List String
  deriving DecidableEq, Repr

def template : String :=
  "Этот файл содержит функцию \"main\". Здесь начинается и заканчивается выполнение программы."

def isTemplate (comment : String) : Bool := decide (template.toList <:+: comment.toList)

variable (regexes : Regexes)

def comments (source language : String) : List String :=
  (if language = "Python" then regexes.pythonComments else regexes.cppStyleComments) source

def detectAI (source language : String) : AIDetectionResult :=
  let comments := (comments regexes source language).filter fun x => !isTemplate x
  let cyrillicComments := comments.filter regexes.cyrillic
  let englishComments := except (comments.filter fun x => !regexes.code x && regexes.english x) cyrillicComments
  { argument := (cyrillicComments.length : Rat) / 2 + (englishComments.length : Rat) / 4
    cyrillicComments := cyrillicComments.length
    englishComments := englishComments.length
    suspiciousFragments := cyrillicComments ++ englishComments }

/-! ## The two classes -/

/-- A comment that is not the template and has a Cyrillic letter. -/
def isCyrillic (comment : String) : Bool := !isTemplate comment && regexes.cyrillic comment

/-- A comment that is not the template, does not look like code and has Latin letters only. -/
def isEnglish (comment : String) : Bool :=
  !isTemplate comment && !regexes.cyrillic comment && !regexes.code comment && regexes.english comment

def isSuspicious (comment : String) : Bool :=
  !isTemplate comment && (regexes.cyrillic comment || (regexes.english comment && !regexes.code comment))

/-- Every occurrence is in one of the classes. -/
theorem isSuspicious_eq (comment : String) :
    isSuspicious regexes comment = (isCyrillic regexes comment || isEnglish regexes comment) ∧
      (isCyrillic regexes comment && isEnglish regexes comment) = false := by
  unfold isSuspicious isCyrillic isEnglish
  cases isTemplate comment <;> cases regexes.cyrillic comment <;> cases regexes.code comment <;>
    cases regexes.english comment <;> decide

def englishOf (all : List String) : List String := all.filter (isEnglish regexes)

theorem cyrillicComments_eq (source language : String) :
    (detectAI regexes source language).cyrillicComments =
      ((comments regexes source language).filter (isCyrillic regexes)).length := by
  unfold detectAI
  dsimp only
  rw [List.filter_filter]
  refine congrArg List.length ?_
  apply List.filter_congr
  intro comment _
  exact Bool.and_comm _ _

/-- Taking the Cyrillic comments away leaves those without a Cyrillic letter. -/
theorem except_cyrillic (all : List String) :
    except ((all.filter fun x => !isTemplate x).filter fun x => !regexes.code x && regexes.english x)
        ((all.filter fun x => !isTemplate x).filter regexes.cyrillic) =
      (englishOf regexes all).eraseDups := by
  unfold except englishOf
  refine congrArg List.eraseDups ?_
  rw [List.filter_filter, List.filter_filter]
  apply List.filter_congr
  intro comment hcomment
  unfold isEnglish
  cases htemplate : isTemplate comment with
  | true => simp
  | false =>
    have hcontains : ((all.filter fun x => !isTemplate x).filter regexes.cyrillic).contains comment =
        regexes.cyrillic comment := by
      rw [Bool.eq_iff_iff, List.contains_iff_mem]
      simp [hcomment, htemplate]
    rw [hcontains]
    simp [Bool.and_assoc]

theorem englishComments_eq (source language : String) :
    (detectAI regexes source language).englishComments =
      (englishOf regexes (comments regexes source language)).eraseDups.length :=
  congrArg List.length (except_cyrillic regexes _)

theorem argument_eq (source language : String) :
    (detectAI regexes source language).argument =
      ((detectAI regexes source language).cyrillicComments : Rat) / 2 +
        ((detectAI regexes source language).englishComments : Rat) / 4 := rfl

/-! ## Repeated comments -/

theorem englishCount_iff (source language : String) :
    (detectAI regexes source language).englishComments = (englishOf regexes (comments regexes source language)).length ↔
      (englishOf regexes (comments regexes source language)).Nodup := by
  rw [englishComments_eq]
  exact length_eraseDups_iff

/-- Where no English comment is repeated, the argument is that of all occurrences. -/
theorem argument_of_nodup {source language : String}
    (h : (englishOf regexes (comments regexes source language)).Nodup) :
    (detectAI regexes source language).argument =
      (((comments regexes source language).filter (isCyrillic regexes)).length : Rat) / 2 +
        ((englishOf regexes (comments regexes source language)).length : Rat) / 4 := by
  rw [argument_eq, cyrillicComments_eq, (englishCount_iff regexes source language).mpr h]

/-- One more comment among those of a source in which no English comment is repeated. -/
theorem argument_insert {source smaller language comment : String} {before after : List String}
    (hsource : comments regexes source language = before ++ comment :: after)
    (hsmaller : comments regexes smaller language = before ++ after)
    (hnodup : (englishOf regexes (comments regexes source language)).Nodup)
    (hcomment : isSuspicious regexes comment = true) :
    (detectAI regexes smaller language).argument < (detectAI regexes source language).argument := by
  have hnodup' : (englishOf regexes (comments regexes smaller language)).Nodup := by
    refine hnodup.sublist ?_
    rw [hsource, hsmaller]
    exact ((List.sublist_cons_self comment after).append_left before).filter _
  rw [argument_of_nodup regexes hnodup, argument_of_nodup regexes hnodup', hsource, hsmaller]
  unfold englishOf
  rw [List.filter_append, List.filter_append, List.filter_append, List.filter_append,
    List.filter_cons, List.filter_cons]
  obtain ⟨hclass, hone⟩ := isSuspicious_eq regexes comment
  rw [hclass] at hcomment
  cases hcyrillic : isCyrillic regexes comment with
  | true =>
    rw [hcyrillic, Bool.true_and] at hone
    rw [hone]
    simp only [if_true, Bool.false_eq_true, if_false, List.length_append, List.length_cons, Nat.cast_add, Nat.cast_one]
    linarith
  | false =>
    rw [hcyrillic, Bool.false_or] at hcomment
    rw [hcomment]
    simp only [if_true, Bool.false_eq_true, if_false, List.length_append, List.length_cons, Nat.cast_add, Nat.cast_one]
    linarith

/-- The counts of a source are those of the occurrences of its comments, each in one class,
    and a source with one suspicious comment less has a smaller argument. -/
structure Counted (source language : String) : Prop where
  total : (detectAI regexes source language).cyrillicComments + (detectAI regexes source language).englishComments =
    ((comments regexes source language).filter (isSuspicious regexes)).length
  cyrillic : (detectAI regexes source language).cyrillicComments =
    ((comments regexes source language).filter (isCyrillic regexes)).length
  english : (detectAI regexes source language).englishComments =
    ((comments regexes source language).filter (isEnglish regexes)).length
  increases : ∀ (smaller comment : String) (before after : List String),
    comments regexes source language = before ++ comment :: after →
      comments regexes smaller language = before ++ after →
      isSuspicious regexes comment = true →
      (detectAI regexes smaller language).argument < (detectAI regexes source language).argument

/-- The two classes hold each suspicious occurrence once. -/
theorem classes_length (all : List String) :
    (all.filter (isCyrillic regexes)).length + (all.filter (isEnglish regexes)).length =
      (all.filter (isSuspicious regexes)).length := by
  induction all with
  | nil => rfl
  | cons comment all ih =>
    obtain ⟨hclass, hone⟩ := isSuspicious_eq regexes comment
    rw [List.filter_cons, List.filter_cons, List.filter_cons, hclass]
    cases hcyrillic : isCyrillic regexes comment with
    | true =>
      rw [hcyrillic, Bool.true_and] at hone
      rw [hone]
      simp only [Bool.or_false, if_true, Bool.false_eq_true, if_false, List.length_cons]
      omega
    | false =>
      cases isEnglish regexes comment with
      | true =>
        simp only [Bool.or_true, if_true, Bool.false_eq_true, if_false, List.length_cons]
        omega
      | false =>
        simp only [Bool.or_false, Bool.false_eq_true, if_false]
        exact ih

theorem counted_iff (source language : String) :
    Counted regexes source language ↔ ((comments regexes source language).filter (isEnglish regexes)).Nodup := by
  constructor
  · intro h
    exact (englishCount_iff regexes source language).mp h.english
  · intro h
    have hcyrillic := cyrillicComments_eq regexes source language
    have henglish := (englishCount_iff regexes source language).mpr h
    refine ⟨?_, hcyrillic, henglish, fun smaller comment before after hsource hsmaller hcomment => ?_⟩
    · rw [hcyrillic, henglish]
      exact classes_length regexes _
    · exact argument_insert regexes hsource hsmaller h hcomment

/-! ## The expressions on texts -/

/-- What follows the first `marker` of a line. -/
def afterMarker (marker : List Char) : List Char → Option String
  | [] => none
  | c :: rest =>
    if marker.isPrefixOf (c :: rest) then some (String.ofList ((c :: rest).drop marker.length))
    else afterMarker marker rest

/-- `#(.*)$` or `//(.*)$` over the lines of a source. -/
def lineComments (marker source : String) : List String :=
  (source.toList.splitOn '\n').filterMap (afterMarker marker.toList)

/-- `CodeRegex` on one line: its last character closes code, or it is a brace. -/
def looksLikeCode (comment : String) : Bool :=
  let body := comment.toList.rdropWhile Lib.Text.isWhiteSpace
  let closed := body.getLast?.any fun c => [';', ':', '{', ')', '>', ']'].contains c
  (2 ≤ body.length && closed) || [['{'], ['}']].contains (body.dropWhile Lib.Text.isWhiteSpace)

def lineRegexes : Regexes where
  pythonComments := lineComments "#"
  cppStyleComments := lineComments "//"
  code := looksLikeCode
  cyrillic comment := comment.toList.any fun c => 0x400 ≤ c.toNat && c.toNat ≤ 0x4FF
  english comment := comment.toList.any Char.isAlpha

example : (detectAI lineRegexes "# Да\n# Yes" "Python").argument = 3 / 4 := by
  decide +kernel

/-- One of two equal comments is not counted. -/
theorem counted_repeated : ¬Counted lineRegexes "// English explanation\n// English explanation" "C++" := by
  intro h
  have htwo := h.english
  revert htwo
  decide +kernel

end OlympSystem.Checker.AIDetection
