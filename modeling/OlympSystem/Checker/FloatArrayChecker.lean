/-
  OlympSystem.Checker.FloatArrayChecker — `FloatArrayChecker.cs`.

  The lines of an output are counted apart from its numbers. A line that only has a CR is
  no empty entry for the count, and no number: with CR LF an empty line counts.

  The numbers are a parameter: `toDouble` is `Convert.ToDouble` with the invariant culture,
  `near a b` is `Math.Abs(a - b) <= 1e-3`.

  Proved:
  - `answer_toLineFeeds`: the numbers do not depend on the line ends.
  - `stringCount_toLineFeeds`: of the lines, those that only have a CR are lost.
  - `line_ends_ignored_iff`: when the verdict does not depend on the line ends.
-/

import OlympSystem.Checker.TextCheckers
import OlympSystem.Lib.Query

namespace OlympSystem.Checker.FloatArrayChecker

open Lib.CodeUnits Lib.Query

variable {β : Type} (toDouble : Units → Except Exn β) (near : β → β → Bool)

/-- `Split(['\\n'], RemoveEmptyEntries).Length`. -/
def stringCount (output : Units) : Nat := (splitEntries (· == lineFeed) output).length

def isSeparator (c : UInt16) : Bool := c == space || c == lineFeed

def answer (output : Units) : Except Exn (List β) :=
  ((splitEntries isSeparator output).filter fun t => !isBlank t).mapM toDouble

def checkInternal (juryOutput userOutput : Units) : Except Exn CheckerResultStatus := do
  if stringCount juryOutput ≠ stringCount userOutput then return .presentationError
  let juryAnswer ← answer toDouble juryOutput
  let userAnswer ← answer toDouble userOutput
  if juryAnswer.length ≠ userAnswer.length then return .presentationError
  return if (List.zipWith near juryAnswer userAnswer).all id then .accepted else .wrongAnswer

def check (_juryInput juryOutput userOutput : Units) : Except Exn CheckerResultStatus :=
  match checkInternal toDouble near juryOutput userOutput with
  | .ok status => .ok status
  | .error _ => .ok .presentationError

def simpleChecker : SimpleChecker :=
  ⟨2, fun juryInput juryOutput userOutput => check toDouble near (units juryInput) (units juryOutput)
    (units userOutput)⟩

/-! ## The oracle -/

/-- White space around a number is not read. -/
def IgnoresWhiteSpace : Prop :=
  ∀ before text after, isBlank before = true → isBlank after = true → toDouble (before ++ text ++ after) = toDouble text

/-- A CR after a number is not read. -/
def IgnoresReturns : Prop := ∀ text v, toDouble (text ++ [carriageReturn]) = .ok v ↔ toDouble text = .ok v

variable {toDouble near}

theorem IgnoresWhiteSpace.returns (h : IgnoresWhiteSpace toDouble) : IgnoresReturns toDouble := by
  intro text v
  have hsame := h [] text [carriageReturn] rfl (by decide)
  rw [List.nil_append] at hsame
  rw [hsame]

/-! ## Lines -/

/-- The lines that only have a CR before their LF. -/
def returnLines (output : Units) : Nat := (split lineFeed output).dropLast.count [carriageReturn]

theorem splitEntries_line {line : Units} (h : lineFeed ∉ line) :
    splitEntries (· == lineFeed) line = if line = [] then [] else [line] := by
  have hsplit : line.splitOnP (· == lineFeed) = [line] :=
    List.splitOnP_eq_singleton fun c hc => beq_eq_false_iff_ne.mpr fun heq => h (heq ▸ hc)
  unfold splitEntries
  rw [hsplit]
  by_cases hline : line = []
  · rw [if_pos hline, hline]; rfl
  · rw [if_neg hline, List.filter_cons_of_pos (by simpa using hline), List.filter_nil]

theorem stringCount_line {line : Units} (h : lineFeed ∉ line) : stringCount line = if line = [] then 0 else 1 := by
  unfold stringCount
  rw [splitEntries_line h]
  split <;> rfl

theorem stringCount_append {line : Units} (h : lineFeed ∉ line) (rest : Units) :
    stringCount (line ++ lineFeed :: rest) = (if line = [] then 0 else 1) + stringCount rest := by
  rw [← stringCount_line h]
  unfold stringCount
  rw [splitEntries_append (p := (· == lineFeed)) (beq_self_eq_true lineFeed), List.length_append]

theorem returnLines_line {line : Units} (h : lineFeed ∉ line) : returnLines line = 0 := by
  unfold returnLines split
  rw [List.splitOn_eq_singleton h]
  rfl

theorem returnLines_append {line : Units} (h : lineFeed ∉ line) (rest : Units) :
    returnLines (line ++ lineFeed :: rest) = (if line = [carriageReturn] then 1 else 0) + returnLines rest := by
  unfold returnLines split
  rw [List.splitOn_append_cons_self_of_not_mem h, List.dropLast_cons_of_ne_nil (List.splitOn_ne_nil _ _),
    List.count_cons, Nat.add_comm]
  simp only [beq_iff_eq]

/-- A replacement of the line ends loses the lines that only have a CR. -/
theorem stringCount_toLineFeeds (output : Units) :
    stringCount output = stringCount (toLineFeeds output) + returnLines output := by
  induction output using lines_induction with
  | last line h => rw [toLineFeeds_line h, returnLines_line h, Nat.add_zero]
  | next line rest h ih =>
    have hdrop : lineFeed ∉ dropReturn line := by
      rcases dropReturn_cases line with heq | heq
      · rw [heq]; exact h
      · intro hmem
        rw [heq] at h
        exact h (List.mem_append_left _ hmem)
    have hlost : (if line = [] then 0 else 1) =
        (if dropReturn line = [] then 0 else 1) + if line = [carriageReturn] then 1 else 0 := by
      rcases dropReturn_cases line with heq | heq
      · have hne : line ≠ [carriageReturn] := by
          intro hline
          rw [hline] at heq
          cases heq
        rw [heq, if_neg hne, Nat.add_zero]
      · have hne : line ≠ [] := by
          rw [heq]
          simp
        have hiff : line = [carriageReturn] ↔ dropReturn line = [] := by
          constructor
          · intro hline
            rw [hline]; rfl
          · intro hnil
            rw [heq, hnil]; rfl
        rw [if_neg hne]
        by_cases hnil : dropReturn line = []
        · rw [if_pos hnil, if_pos (hiff.mpr hnil)]
        · rw [if_neg hnil, if_neg fun hline => hnil (hiff.mp hline)]
    rw [toLineFeeds_append h, stringCount_append h, stringCount_append hdrop, returnLines_append h, ih, hlost]
    omega

/-! ## Numbers -/

def tokens (output : Units) : List Units := (splitEntries isSeparator output).filter fun t => !isBlank t

/-- An entry that is not blank is not empty. -/
theorem tokens_eq (output : Units) : tokens output = (output.splitOnP isSeparator).filter fun t => !isBlank t := by
  unfold tokens splitEntries
  rw [List.filter_filter]
  refine List.filter_congr fun t _ => ?_
  cases t with
  | nil => rfl
  | cons c t => simp

theorem tokens_append {c : UInt16} (hc : isSeparator c = true) (text rest : Units) :
    tokens (text ++ c :: rest) = tokens text ++ tokens rest := by
  unfold tokens
  rw [splitEntries_append hc, List.filter_append]

theorem mapM_append_ok {f : Units → Except Exn β} {l m : List Units} {vs : List β} :
    (l ++ m).mapM f = .ok vs ↔ ∃ us ws, l.mapM f = .ok us ∧ m.mapM f = .ok ws ∧ vs = us ++ ws := by
  rw [List.mapM_append, bind_eq_ok]
  refine exists_congr fun us => ?_
  rw [bind_eq_ok]
  constructor
  · rintro ⟨hus, ws, hws, h⟩
    cases h
    exact ⟨ws, hus, hws, rfl⟩
  · rintro ⟨ws, hus, hws, rfl⟩
    exact ⟨hus, ws, hws, rfl⟩

/-- A CR at the end changes no number. -/
theorem answer_snoc (h : IgnoresReturns toDouble) (text : Units) (vs : List β) :
    answer toDouble (text ++ [carriageReturn]) = .ok vs ↔ answer toDouble text = .ok vs := by
  show (tokens (text ++ [carriageReturn])).mapM toDouble = .ok vs ↔ (tokens text).mapM toDouble = .ok vs
  obtain ⟨init, last, htext, hsnoc⟩ := splitOnP_snoc (p := isSeparator) (c := carriageReturn) (by decide) text
  rw [tokens_eq, tokens_eq, htext, hsnoc, List.filter_append, List.filter_append, mapM_append_ok, mapM_append_ok]
  have hblank : isBlank (last ++ [carriageReturn]) = isBlank last := by
    unfold isBlank
    rw [List.all_append]
    simp [show isWhiteSpace carriageReturn = true by decide]
  have hlast : ∀ ws, ([last ++ [carriageReturn]].filter fun t => !isBlank t).mapM toDouble = .ok ws ↔
      ([last].filter fun t => !isBlank t).mapM toDouble = .ok ws := by
    intro ws
    by_cases hb : isBlank last = true
    · rw [List.filter_cons_of_neg (by simp [hblank, hb]), List.filter_cons_of_neg (by simp [hb])]
    · rw [List.filter_cons_of_pos (by simp [hblank, hb]), List.filter_cons_of_pos (by simp [hb])]
      simp only [List.filter_nil, List.mapM_cons, List.mapM_nil, bind_eq_ok, h last]
  simp only [hlast]

/-- The numbers of an output are the same with every line end. -/
theorem answer_toLineFeeds (h : IgnoresReturns toDouble) (output : Units) (vs : List β) :
    answer toDouble (toLineFeeds output) = .ok vs ↔ answer toDouble output = .ok vs := by
  induction output using lines_induction generalizing vs with
  | last line hline => rw [toLineFeeds_line hline]
  | next line rest hline ih =>
    have hfirst : ∀ us, answer toDouble (dropReturn line) = .ok us ↔ answer toDouble line = .ok us := by
      intro us
      rcases dropReturn_cases line with heq | heq
      · rw [heq]
      · have hsame := answer_snoc h (dropReturn line) us
        rwa [← heq, iff_comm] at hsame
    have hsplit : ∀ first tail us, answer toDouble (first ++ lineFeed :: tail) = .ok us ↔
        ∃ vs ws, answer toDouble first = .ok vs ∧ answer toDouble tail = .ok ws ∧ us = vs ++ ws := by
      intro first tail us
      show (tokens (first ++ lineFeed :: tail)).mapM toDouble = .ok us ↔ _
      rw [tokens_append (by decide), mapM_append_ok]
      exact Iff.rfl
    rw [toLineFeeds_append hline, hsplit, hsplit]
    simp only [hfirst, ih]

/-! ## The verdict -/

def Comparable (toDouble : Units → Except Exn β) (juryOutput userOutput : Units) : Prop :=
  ∃ us vs, answer toDouble juryOutput = .ok us ∧ answer toDouble userOutput = .ok vs ∧ us.length = vs.length

theorem comparable_congr {jury jury' user user' : Units}
    (hjury : ∀ vs, answer toDouble jury' = .ok vs ↔ answer toDouble jury = .ok vs)
    (huser : ∀ vs, answer toDouble user' = .ok vs ↔ answer toDouble user = .ok vs) :
    Comparable toDouble jury' user' ↔ Comparable toDouble jury user := by
  unfold Comparable
  simp only [hjury, huser]

/-- The verdict on equally many numbers, in equally many lines. -/
def compared (near : β → β → Bool) (us vs : List β) : CheckerResultStatus :=
  if (List.zipWith near us vs).all id then .accepted else .wrongAnswer

theorem check_answers {juryInput jury user : Units} {us vs : List β} (hcount : stringCount jury = stringCount user)
    (hjury : answer toDouble jury = .ok us) (huser : answer toDouble user = .ok vs) :
    check toDouble near juryInput jury user =
      .ok (if us.length = vs.length then compared near us vs else .presentationError) := by
  unfold check checkInternal
  rw [if_neg (not_not.mpr hcount), hjury, huser]
  show (match (if us.length ≠ vs.length then Except.ok CheckerResultStatus.presentationError
    else Except.ok (compared near us vs) : Except Exn CheckerResultStatus) with
    | .ok status => .ok status
    | .error _ => .ok CheckerResultStatus.presentationError : Except Exn CheckerResultStatus) = _
  by_cases hlength : us.length = vs.length
  · rw [if_neg (not_not.mpr hlength), if_pos hlength]
  · rw [if_pos hlength, if_neg hlength]

/-- The numbers are not looked at. -/
theorem check_counts {juryInput jury user : Units} (hcount : stringCount jury ≠ stringCount user) :
    check toDouble near juryInput jury user = .ok .presentationError := by
  unfold check checkInternal
  rw [if_pos hcount]
  rfl

theorem check_comparable {juryInput jury user : Units} {us vs : List β} (hjury : answer toDouble jury = .ok us)
    (huser : answer toDouble user = .ok vs) (hlength : us.length = vs.length) :
    check toDouble near juryInput jury user =
      .ok (if stringCount jury = stringCount user then compared near us vs else .presentationError) := by
  by_cases hcount : stringCount jury = stringCount user
  · rw [check_answers hcount hjury huser, if_pos hlength, if_pos hcount]
  · rw [check_counts hcount, if_neg hcount]

theorem check_incomparable {juryInput jury user : Units} (h : ¬Comparable toDouble jury user) :
    check toDouble near juryInput jury user = .ok .presentationError := by
  by_cases hcount : stringCount jury = stringCount user
  · cases hjury : answer toDouble jury with
    | error e =>
      unfold check checkInternal
      rw [if_neg (not_not.mpr hcount), hjury]
      rfl
    | ok us =>
      cases huser : answer toDouble user with
      | error e =>
        unfold check checkInternal
        rw [if_neg (not_not.mpr hcount), hjury, huser]
        rfl
      | ok vs =>
        have hlength : us.length ≠ vs.length := fun heq => h ⟨us, vs, hjury, huser, heq⟩
        rw [check_answers hcount hjury huser, if_neg hlength]
  · exact check_counts hcount

theorem compared_ne {us vs : List β} : compared near us vs ≠ .presentationError := by
  unfold compared
  split <;> nofun

/-- The verdict on other texts of the same numbers is the same when both pairs have equally many
    lines, or neither has. -/
theorem check_same_iff {juryInput jury jury' user user' : Units} (h : Comparable toDouble jury user)
    (hjury : ∀ vs, answer toDouble jury' = .ok vs ↔ answer toDouble jury = .ok vs)
    (huser : ∀ vs, answer toDouble user' = .ok vs ↔ answer toDouble user = .ok vs) :
    check toDouble near juryInput jury' user' = check toDouble near juryInput jury user ↔
      (stringCount jury' = stringCount user' ↔ stringCount jury = stringCount user) := by
  obtain ⟨us, vs, hus, hvs, hlength⟩ := h
  rw [check_comparable hus hvs hlength, check_comparable ((hjury us).mpr hus) ((huser vs).mpr hvs) hlength,
    Except.ok.injEq]
  have hne : compared near us vs ≠ .presentationError := compared_ne
  by_cases hcount : stringCount jury = stringCount user
  · by_cases hcount' : stringCount jury' = stringCount user'
    · simp [hcount, hcount']
    · simp [hcount, hcount', hne.symm]
  · by_cases hcount' : stringCount jury' = stringCount user'
    · simp [hcount, hcount', hne]
    · simp [hcount, hcount']

/-- The verdict does not depend on the line ends of the outputs. -/
def LineEndsIgnored (toDouble : Units → Except Exn β) (near : β → β → Bool) (juryInput jury user : Units) : Prop :=
  check toDouble near juryInput jury (toLineFeeds user) = check toDouble near juryInput jury user ∧
  check toDouble near juryInput (toLineFeeds jury) user = check toDouble near juryInput jury user ∧
  check toDouble near juryInput (toLineFeeds jury) (toLineFeeds user) = check toDouble near juryInput jury user

/-- The outputs have different numbers of lines, counting the lines that only have a CR or not. -/
def CountsDiffer (jury user : Units) : Prop :=
  stringCount jury ≠ stringCount user ∧ stringCount jury ≠ stringCount user - returnLines user ∧
    stringCount jury - returnLines jury ≠ stringCount user ∧
      stringCount jury - returnLines jury ≠ stringCount user - returnLines user

/-- When the verdict does not depend on the line ends: the numbers do not fit anyway, or no output
    has an empty line that CR LF ends, or the lines do not fit however such lines count. -/
theorem line_ends_ignored_iff (toDouble : Units → Except Exn β) (near : β → β → Bool) (h : IgnoresReturns toDouble)
    (juryInput jury user : Units) :
    LineEndsIgnored toDouble near juryInput jury user ↔
      ¬Comparable toDouble jury user ∨ (returnLines jury = 0 ∧ returnLines user = 0) ∨ CountsDiffer jury user := by
  have hjury := answer_toLineFeeds h jury
  have huser := answer_toLineFeeds h user
  have hsame : ∀ (text : Units) vs, answer toDouble text = .ok vs ↔ answer toDouble text = .ok vs := fun _ _ => Iff.rfl
  by_cases hcomparable : Comparable toDouble jury user
  · unfold LineEndsIgnored
    rw [check_same_iff hcomparable (hsame jury) huser, check_same_iff hcomparable hjury (hsame user),
      check_same_iff hcomparable hjury huser]
    have hj := stringCount_toLineFeeds jury
    have hu := stringCount_toLineFeeds user
    unfold CountsDiffer
    simp only [hcomparable, not_true_eq_false, false_or]
    omega
  · refine ⟨fun _ => Or.inl hcomparable, fun _ => ?_⟩
    unfold LineEndsIgnored
    rw [check_incomparable hcomparable, check_incomparable fun hc =>
      hcomparable ((comparable_congr (hsame jury) huser).mp hc),
      check_incomparable fun hc => hcomparable ((comparable_congr hjury (hsame user)).mp hc),
      check_incomparable fun hc => hcomparable ((comparable_congr hjury huser).mp hc)]
    exact ⟨rfl, rfl, rfl⟩

theorem float_gives (toDouble : Units → Except Exn β) (near : β → β → Bool) :
    GivesVerdict (simpleChecker toDouble near) := by
  intro juryInput juryOutput userOutput
  show ∃ verdict, check toDouble near (units juryInput) (units juryOutput) (units userOutput) = .ok verdict ∧ _
  by_cases h : Comparable toDouble (units juryOutput) (units userOutput)
  · obtain ⟨us, vs, hus, hvs, hlength⟩ := h
    refine ⟨_, check_comparable hus hvs hlength, ?_⟩
    unfold compared
    split
    · split
      · exact Or.inl rfl
      · exact Or.inr (Or.inl rfl)
    · exact Or.inr (Or.inr rfl)
  · exact ⟨_, check_incomparable h, Or.inr (Or.inr rfl)⟩

/-! ### An empty line that CR LF ends -/

def trim (text : Units) : Units := ((text.dropWhile isWhiteSpace).reverse.dropWhile isWhiteSpace).reverse

theorem trim_surrounded {before text after : Units} (hbefore : isBlank before = true) (hafter : isBlank after = true) :
    trim (before ++ text ++ after) = trim text := by
  have hleft : ∀ c ∈ before, isWhiteSpace c = true := List.all_eq_true.mp hbefore
  have hright : ∀ c ∈ after, isWhiteSpace c = true := List.all_eq_true.mp hafter
  unfold trim
  rw [List.append_assoc, List.dropWhile_append_of_pos hleft, List.dropWhile_append]
  cases htext : text.dropWhile isWhiteSpace with
  | nil => rw [List.dropWhile_eq_nil_iff.mpr hright]; rfl
  | cons c rest =>
    have hreverse : ∀ d ∈ after.reverse, isWhiteSpace d = true := fun d hd => hright d (List.mem_reverse.mp hd)
    show ((c :: rest ++ after).reverse.dropWhile isWhiteSpace).reverse = _
    rw [List.reverse_append, List.dropWhile_append_of_pos hreverse]

def sampleDouble (text : Units) : Except Exn Int :=
  match Lib.Text.tryParseInt (String.ofList ((trim text).map fun c => Char.ofNat c.toNat)) with
  | some v => .ok v
  | none => .error (.format "The input string was not in a correct format.")

theorem sampleDouble_ignores : IgnoresWhiteSpace sampleDouble := by
  intro before text after hbefore hafter
  unfold sampleDouble
  rw [trim_surrounded hbefore hafter]

/-- 1 and 2 are the right answer, with an empty line between them as well as without; not so where
    CR LF ends the lines. -/
theorem an_empty_line_counts : IgnoresWhiteSpace sampleDouble ∧
    check sampleDouble (· == ·) [] (units "1\n2") (toLineFeeds (units "1\r\n\r\n2")) = .ok .accepted ∧
    check sampleDouble (· == ·) [] (units "1\n2") (units "1\r\n\r\n2") = .ok .presentationError := by
  refine ⟨sampleDouble_ignores, ?_, ?_⟩
  · decide +kernel
  · decide +kernel

theorem sample_line_ends : LineEndsIgnored sampleDouble (· == ·) [] (units "1\r\n2\r\n") (units "1\n2\n") ↔
    ¬Comparable sampleDouble (units "1\r\n2\r\n") (units "1\n2\n") ∨
      (returnLines (units "1\r\n2\r\n") = 0 ∧ returnLines (units "1\n2\n") = 0) ∨
        CountsDiffer (units "1\r\n2\r\n") (units "1\n2\n") :=
  line_ends_ignored_iff sampleDouble (· == ·) sampleDouble_ignores.returns [] (units "1\r\n2\r\n") (units "1\n2\n")

end OlympSystem.Checker.FloatArrayChecker
