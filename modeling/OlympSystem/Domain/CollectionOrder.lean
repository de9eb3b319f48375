/-
  OlympSystem.Domain.CollectionOrder — the standings and the order of the collections they
  are computed from.

  `NewStanding` sorts stably, unites, and takes first and last elements, and each of these
  can choose by position. `Reordered` relates contests that differ in the order of their
  competitors, of their problems and of the submissions of each problem.

  Proved:
  - `cell_perm`: a cell is the same for any order of the submissions it gets.
  - `marks_reordered`: the first successes are, where different users' times differ.
  - `standing_of_reordered`: the rows show the same, in the same order, where no two rows
    tie in the comparison that sorts them.
  - `a_hidden_hyphen_ties`: names that differ can tie.
-/

import Mathlib.Data.List.Pairwise
import OlympSystem.Domain.FirstSuccess
import OlympSystem.Domain.Freeze

namespace OlympSystem.Domain.CollectionOrder

open Lib.Query Standing
open Freeze (CellView RowView cellView rowView rowOfCells viewOrder newStanding_view)
open FirstSuccess (Candidate firstSuccess_earliest firstSuccess_exists)
open IcpcRules (counts contestStart counts_eq)
open Rows (UsersById knownUsers read shown)

/-! ## Reordered contests -/

structure SameProblem (p p' : Problem) : Prop where
  id : p'.id = p.id
  number : p'.number = p.number
  submissions : p'.submissions.Perm p.submissions

structure Reordered (c c' : Contest) : Prop where
  abbr : c'.abbr = c.abbr
  startTime : c'.startTime = c.startTime
  endTime : c'.endTime = c.endTime
  freezeTime : c'.freezeTime = c.freezeTime
  competitors : c'.competitors.Perm c.competitors
  problems : ∃ problems, List.Forall₂ SameProblem c.problems problems ∧ problems.Perm c'.problems

/-- Accepted submissions that count, of different users to one problem, have different times. -/
def DistinctAcceptances (now : Int) (contest : Contest) (notFreeze : Bool) (startTime : Option Int) : Prop :=
  ∀ problem ∈ contest.problems, ∀ s ∈ problem.submissions, ∀ s' ∈ problem.submissions,
    counts now contest notFreeze startTime s = true → counts now contest notFreeze startTime s' = true →
      s.statusCode = 2 → s'.statusCode = 2 → s.userId ≠ s'.userId → s.commitTime ≠ s'.commitTime

/-- The culture does not tell the names apart. -/
def CompareEqual (culture : Culture) (name name' : String) : Prop :=
  culture.compareLe name name' = true ∧ culture.compareLe name' name = true

/-- No two rows tie in score, summary time and name. -/
def Untied (culture : Culture) (rows : List UserResult) : Prop :=
  rows.Pairwise fun a b => ¬(a.score = b.score ∧ a.summaryTime = b.summaryTime ∧
    CompareEqual culture a.user.name b.user.name)

instance (culture : Culture) (rows : List UserResult) : Decidable (Untied culture rows) :=
  inferInstanceAs (Decidable (rows.Pairwise fun a b => ¬(a.score = b.score ∧ a.summaryTime = b.summaryTime ∧
    culture.compareLe a.user.name b.user.name = true ∧ culture.compareLe b.user.name a.user.name = true)))

/-! ## One cell -/

section Cells

variable {l m : List Submission}

/-- The successes of two orders tie. -/
theorem success_perm (h : l.Perm m) :
    (success l).map (fun s => (s.score, s.commitTime)) = (success m).map fun s => (s.score, s.commitTime) := by
  cases hl : success l with
  | none =>
    have hm : success m = none :=
      success_eq_none.mpr fun s hs => success_eq_none.mp hl s (h.mem_iff.mpr hs)
    rw [hm]
  | some s =>
    cases hm : success m with
    | none =>
      have hl' := success_eq_none.mpr fun s hs => success_eq_none.mp hm s (h.mem_iff.mp hs)
      rw [hl] at hl'; cases hl'
    | some s' =>
      obtain ⟨hs, hsucc⟩ := success_mem hl
      obtain ⟨hs', hsucc'⟩ := success_mem hm
      obtain ⟨hle, htie⟩ := thenBy_true.mp (success_best hl s' (h.mem_iff.mpr hs') hsucc')
      obtain ⟨hle', htie'⟩ := thenBy_true.mp (success_best hm s (h.mem_iff.mp hs) hsucc)
      have htime := htie hle'
      have htime' := htie' hle
      simp only [descending, byKey, decide_eq_true_eq] at htime htime'
      have hscore : s.score = s'.score := by
        unfold byNullable at hle hle'
        cases h₁ : s.score <;> cases h₂ : s'.score <;> simp [h₁, h₂] at hle hle' ⊢
        omega
      simp only [Option.map_some, hscore, le_antisymm htime htime']

theorem success_isSome_perm (h : l.Perm m) : (success l).isSome = (success m).isSome := by
  have hperm := congrArg Option.isSome (success_perm h)
  simpa using hperm

theorem cellScore_perm (h : l.Perm m) : cellScore (success l) = cellScore (success m) := by
  have hscore : ∀ s : Option Submission, cellScore s =
      match s.map fun s => (s.score, s.commitTime) with
      | some (score, _) => score.getD 1
      | none => 0 := by
    intro s
    cases s <;> rfl
  rw [hscore, hscore, success_perm h]

theorem signSubmissions_perm (h : l.Perm m) : (signSubmissions l).Perm (signSubmissions m) := by
  have hsign : ∀ k : List Submission, signSubmissions k =
      match (success k).map fun s => (s.score, s.commitTime) with
      | some (_, time) => (k.filter isChecked).filter (decide <| ·.commitTime ≤ time)
      | none => k.filter isChecked := by
    intro k
    unfold signSubmissions
    cases success k <;> rfl
  rw [hsign, hsign, success_perm h]
  split
  · exact (h.filter _).filter _
  · exact h.filter _

theorem lastCommitTime_perm (h : l.Perm m) : lastCommitTime l = lastCommitTime m := by
  unfold lastCommitTime
  rw [orderBy_eq_of_perm (byKey_totalPreorder id) (h.map _) fun a _ b _ hab hba => ?_]
  simp only [byKey, id, decide_eq_true_eq] at hab hba
  exact le_antisymm hab hba

/-- A cell shows the same for any order of its submissions. -/
theorem cell_perm (h : l.Perm m) {p p' : Problem} (hid : p.id = p'.id) (first : Bool) :
    cellView (userProblemResult p l first) = cellView (userProblemResult p' m first) := by
  simp only [cellView, userProblemResult, hid, success_isSome_perm h, cellScore_perm h,
    (signSubmissions_perm h).length_eq, lastCommitTime_perm (signSubmissions_perm h)]

end Cells

/-! ## The parts of the query -/

theorem candidate_perm {users users' : List User} {submissions submissions' : List Submission}
    (hu : users.Perm users') (hs : submissions.Perm submissions') {s : Submission}
    (h : Candidate users submissions s) : Candidate users' submissions' s := by
  obtain ⟨hmem, h2, user, huser, hid⟩ := h
  exact ⟨hs.mem_iff.mp hmem, h2, user, hu.mem_iff.mp huser, hid⟩

/-- Where the times of different users differ, the first of a problem is the same user. -/
theorem firstSuccess_perm {users users' : List User} {submissions submissions' : List Submission}
    (hu : users.Perm users') (hs : submissions.Perm submissions')
    (hdistinct : ∀ s s', Candidate users submissions s → Candidate users submissions s' → s.problemId = s'.problemId →
      s.userId ≠ s'.userId → s.commitTime ≠ s'.commitTime) {problemId userId : Int}
    (h : (problemId, userId) ∈ firstSuccess users submissions) :
    (problemId, userId) ∈ firstSuccess users' submissions' := by
  obtain ⟨s, hcandidate, rfl, rfl, hearliest⟩ := firstSuccess_earliest h
  obtain ⟨userId, hpair⟩ := firstSuccess_exists (candidate_perm hu hs hcandidate)
  obtain ⟨s', hcandidate', hproblem, rfl, hearliest'⟩ := firstSuccess_earliest hpair
  have hback := candidate_perm hu.symm hs.symm hcandidate'
  have hle := hearliest s' hback hproblem
  have hle' := hearliest' s (candidate_perm hu hs hcandidate) rfl
  have hsame : s.userId = s'.userId := by
    by_contra hne
    exact hdistinct s s' hcandidate hback hproblem.symm hne (le_antisymm hle hle')
  rw [hsame]
  exact hpair

theorem flatMap_same {l m : List Problem} (h : List.Forall₂ SameProblem l m) :
    (l.flatMap Problem.submissions).Perm (m.flatMap Problem.submissions) := by
  induction h with
  | nil => exact .refl _
  | cons hpq _ ih => exact hpq.submissions.symm.append ih

section Contests

variable (culture : Culture) (ms : Milliseconds) (now : Int) {c c' : Contest}
  (includeAll official notFreeze : Bool) (startTime : Option Int)

theorem standingProblems_reordered (h : Reordered c c') (hnumbers : (c.problems.map Problem.number).Nodup) :
    List.Forall₂ SameProblem (standingProblems c) (standingProblems c') := by
  obtain ⟨problems, hsame, hperm⟩ := h.problems
  have hkeys : problems.map Problem.number = c.problems.map Problem.number := by
    exact map_eq_of_forall₂ (hsame.flip.imp fun _ _ hp => hp.number)
  have hsorted : orderBy (byKey Problem.number) problems = standingProblems c' := by
    refine orderBy_eq_of_perm (byKey_totalPreorder _) hperm fun p hp q hq hpq hqp => ?_
    simp only [byKey, decide_eq_true_eq] at hpq hqp
    exact List.inj_on_of_nodup_map (hkeys ▸ hnumbers) hp hq (le_antisymm hpq hqp)
  rw [← hsorted]
  refine orderBy_forall₂ (fun p p' q q' hpq hpq' => ?_) hsame
  simp only [byKey, hpq.number, hpq'.number]

theorem isCounted_reordered (h : Reordered c c') (start : Int) :
    isCounted now c' notFreeze start = isCounted now c notFreeze start := by
  funext s
  unfold isCounted inWindow beforeFreeze Contest.isFreeze Contest.duration
  rw [h.startTime, h.endTime, h.freezeTime]

theorem standingSubmissions_reordered (h : Reordered c c') (start : Int) :
    (standingSubmissions now c notFreeze start).Perm (standingSubmissions now c' notFreeze start) := by
  obtain ⟨problems, hsame, hperm⟩ := h.problems
  rw [standingSubmissions_eq, standingSubmissions_eq, isCounted_reordered now notFreeze h]
  have hall : ((standingProblems c).flatMap Problem.submissions).Perm
      ((standingProblems c').flatMap Problem.submissions) :=
    calc ((standingProblems c).flatMap Problem.submissions).Perm (c.problems.flatMap Problem.submissions) :=
          (orderBy_perm _ _).flatMap_right _
      _ |>.Perm (problems.flatMap Problem.submissions) := flatMap_same hsame
      _ |>.Perm (c'.problems.flatMap Problem.submissions) := hperm.flatMap_right _
      _ |>.Perm ((standingProblems c').flatMap Problem.submissions) := ((orderBy_perm _ _).flatMap_right _).symm
  exact (((orderBy_perm _ _).trans hall).trans (orderBy_perm _ _).symm).filter _

theorem standingStart_reordered (h : Reordered c c') : standingStart c' startTime = standingStart c startTime := by
  unfold standingStart
  rw [h.startTime]

theorem read_reordered (h : Reordered c c') :
    (read now notFreeze startTime c).Perm (read now notFreeze startTime c') := by
  unfold Rows.read
  rw [standingStart_reordered startTime h]
  exact standingSubmissions_reordered now notFreeze h _

theorem competitors_reordered (h : Reordered c c') :
    (standingCompetitors c official startTime).Perm (standingCompetitors c' official startTime) := by
  unfold standingCompetitors
  cases startTime with
  | some _ => exact .refl _
  | none => exact (h.competitors.symm.filter _).map _

/-- The same users are shown. -/
theorem shown_reordered (h : Reordered c c')
    (hsame : ∀ user ∈ knownUsers c, ∀ user' ∈ knownUsers c, user.id = user'.id → user = user') :
    (shown now includeAll official notFreeze startTime c).Perm
      (shown now includeAll official notFreeze startTime c') := by
  have hauthors := ((read_reordered now notFreeze startTime h).map Submission.user).filter (!·.isHidden)
  unfold shown standingUsers
  split
  · refine unionBy_perm (competitors_reordered official startTime h) hauthors fun a ha b hb => hsame a ?_ b ?_
    · exact Rows.mem_knownUsers now official notFreeze startTime ha
    · exact Rows.mem_knownUsers now official notFreeze startTime hb
  · exact competitors_reordered official startTime h

/-- The same users are marked. -/
theorem marks_reordered (h : Reordered c c')
    (hsame : ∀ user ∈ knownUsers c, ∀ user' ∈ knownUsers c, user.id = user'.id → user = user')
    (hdistinct : DistinctAcceptances now c notFreeze startTime) {problemId userId : Int} :
    (problemId, userId) ∈ FirstSuccess.marks now includeAll official notFreeze startTime c ↔
      (problemId, userId) ∈ FirstSuccess.marks now includeAll official notFreeze startTime c' := by
  have hu := shown_reordered now includeAll official notFreeze startTime h hsame
  have hs := read_reordered now notFreeze startTime h
  have hmine : ∀ s s', Candidate (shown now includeAll official notFreeze startTime c)
      (read now notFreeze startTime c) s →
      Candidate (shown now includeAll official notFreeze startTime c) (read now notFreeze startTime c) s' →
      s.problemId = s'.problemId → s.userId ≠ s'.userId → s.commitTime ≠ s'.commitTime := by
    intro s s' hcandidate hcandidate' hproblem hne
    obtain ⟨p, hp, hmem, hcounts⟩ := (Rows.mem_read now notFreeze startTime).mp hcandidate.1
    obtain ⟨p', hp', hmem', hcounts'⟩ := (Rows.mem_read now notFreeze startTime).mp hcandidate'.1
    have hpp := FirstSuccess.problem_unique hp hp'
      ((p.submissions_of s hmem).symm.trans (hproblem.trans (p'.submissions_of s' hmem')))
    subst hpp
    exact hdistinct p hp s hmem s' hmem' hcounts hcounts' hcandidate.2.1 hcandidate'.2.1 hne
  constructor
  · exact firstSuccess_perm hu hs hmine
  · refine firstSuccess_perm hu.symm hs.symm fun s s' hcandidate hcandidate' => ?_
    exact hmine s s' (candidate_perm hu.symm hs.symm hcandidate) (candidate_perm hu.symm hs.symm hcandidate')

/-- A user's cells show the same. -/
theorem cells_reordered (hproblems : List.Forall₂ SameProblem (standingProblems c) (standingProblems c'))
    {submissions submissions' : List Submission} (hs : submissions.Perm submissions') {first first' : List Int}
    (hfirst : ∀ problemId, first.contains problemId = first'.contains problemId) :
    (userProblemStanding (standingProblems c) submissions (some first)).map cellView =
      (userProblemStanding (standingProblems c') submissions' (some first')).map cellView := by
  unfold userProblemStanding
  rw [List.map_map, List.map_map]
  generalize standingProblems c = l at hproblems
  generalize standingProblems c' = m at hproblems
  induction hproblems with
  | nil => rfl
  | cons hpq _ ih =>
    rw [List.map_cons, List.map_cons, ih]
    congr 1
    simp only [Function.comp_apply, Option.any_some, hpq.id, hfirst]
    exact cell_perm (hs.filter _) hpq.id.symm _

theorem viewOrder_totalPreorder : TotalPreorder (viewOrder culture) := by
  have name : TotalPreorder fun a b : RowView => culture.compareLe a.user.name b.user.name :=
    ⟨fun _ _ => culture.compareLe_total.total _ _, culture.compareLe_total.trans⟩
  exact thenBy_totalPreorder (descending_totalPreorder (byKey_totalPreorder _))
    (thenBy_totalPreorder (byKey_totalPreorder _) (thenBy_totalPreorder (byKey_totalPreorder _) name))

/-- Views that tie are views of one row. -/
theorem untied_views {rows : List UserResult} (h : Untied culture rows) :
    ∀ a ∈ rows.map rowView, ∀ b ∈ rows.map rowView, viewOrder culture a b = true → viewOrder culture b a = true →
      a = b := by
  intro a ha b hb hab hba
  obtain ⟨row, hrow, rfl⟩ := List.mem_map.mp ha
  obtain ⟨row', hrow', rfl⟩ := List.mem_map.mp hb
  by_contra hne
  have : Std.Symm fun a b : UserResult => ¬(a.score = b.score ∧ a.summaryTime = b.summaryTime ∧
      CompareEqual culture a.user.name b.user.name) :=
    ⟨fun _ _ h ⟨hscore, htime, hname⟩ => h ⟨hscore.symm, htime.symm, hname.2, hname.1⟩⟩
  refine h.forall hrow hrow' (fun heq => hne (congrArg rowView heq)) ?_
  unfold viewOrder at hab hba
  rw [thenBy_true, thenBy_true, thenBy_true] at hab hba
  have hscore := hab.2 hba.1
  have hscore' := hba.2 hab.1
  have htime := hscore.2 hscore'.1
  have htime' := hscore'.2 hscore.1
  have hname := htime.2 htime'.1
  have hname' := htime'.2 htime.1
  have hs := hab.1
  have hs' := hba.1
  have ht := hscore.1
  have ht' := hscore'.1
  simp only [descending, byKey, decide_eq_true_eq] at hs hs' ht ht'
  exact ⟨le_antisymm hs' hs, le_antisymm ht ht', hname, hname'⟩

abbrev viewOf (contest : Contest) (user : User) : Except Exn RowView :=
  rowOfCells ms (if contest.isSchool culture then 0 else penalty) (standingStart contest startTime) user
    ((userProblemStanding (standingProblems contest)
      (groupJoin user.id Submission.userId (read now notFreeze startTime contest))
      (some (firstSuccessOf (FirstSuccess.marks now includeAll official notFreeze startTime contest) user.id))).map
        cellView)

theorem newStanding_viewOf (contest : Contest) :
    (newStanding culture ms now contest includeAll official notFreeze startTime).map (List.map rowView) =
      ((shown now includeAll official notFreeze startTime contest).mapM
        (viewOf culture ms now includeAll official notFreeze startTime contest)).map (orderBy (viewOrder culture)) :=
  newStanding_view culture ms now contest includeAll official notFreeze startTime

theorem viewOf_reordered (h : Reordered c c')
    (hsame : ∀ user ∈ knownUsers c, ∀ user' ∈ knownUsers c, user.id = user'.id → user = user')
    (hnumbers : (c.problems.map Problem.number).Nodup) (hdistinct : DistinctAcceptances now c notFreeze startTime) :
    viewOf culture ms now includeAll official notFreeze startTime c' =
      viewOf culture ms now includeAll official notFreeze startTime c := by
  funext user
  have hschool : c'.isSchool culture = c.isSchool culture := by unfold Contest.isSchool; rw [h.abbr]
  have hfirst : ∀ problemId,
      (firstSuccessOf (FirstSuccess.marks now includeAll official notFreeze startTime c) user.id).contains problemId =
        (firstSuccessOf (FirstSuccess.marks now includeAll official notFreeze startTime c') user.id).contains
          problemId := by
    intro problemId
    rw [Bool.eq_iff_iff]
    simpa [firstSuccessOf] using marks_reordered now includeAll official notFreeze startTime h hsame hdistinct
  have hcells := cells_reordered (standingProblems_reordered h hnumbers)
    ((read_reordered now notFreeze startTime h).filter (user.id == ·.userId)) hfirst
  unfold viewOf
  rw [hschool, standingStart_reordered startTime h]
  exact congrArg _ hcells.symm

/-- For every contest and every order of its collections, with all flags and start times. -/
theorem standing_of_reordered (h : Reordered c c')
    (hsame : ∀ user ∈ knownUsers c, ∀ user' ∈ knownUsers c, user.id = user'.id → user = user')
    (hnumbers : (c.problems.map Problem.number).Nodup) (hdistinct : DistinctAcceptances now c notFreeze startTime)
    {rows : List UserResult} (hrows : newStanding culture ms now c includeAll official notFreeze startTime = .ok rows)
    (huntied : Untied culture rows) :
    (newStanding culture ms now c' includeAll official notFreeze startTime).map (List.map rowView) =
      .ok (rows.map rowView) := by
  have hview := newStanding_viewOf culture ms now includeAll official notFreeze startTime c
  rw [hrows] at hview
  rw [newStanding_viewOf, viewOf_reordered culture ms now includeAll official notFreeze startTime h hsame
    hnumbers hdistinct]
  cases hviews : (shown now includeAll official notFreeze startTime c).mapM
      (viewOf culture ms now includeAll official notFreeze startTime c) with
  | error e => rw [hviews] at hview; cases hview
  | ok views =>
    rw [hviews] at hview
    have hsorted : rows.map rowView = orderBy (viewOrder culture) views := Except.ok.inj hview
    obtain ⟨views', hviews', hperm⟩ :=
      mapM_perm (shown_reordered now includeAll official notFreeze startTime h hsame) hviews
    rw [hviews', hsorted]
    refine congrArg Except.ok (orderBy_eq_of_perm (viewOrder_totalPreorder culture) hperm ?_)
    intro a ha b hb
    have hmem : ∀ view ∈ views', view ∈ rows.map rowView := by
      intro view hview
      rw [hsorted, mem_orderBy]
      exact hperm.mem_iff.mp hview
    exact untied_views culture huntied a (hmem a ha) b (hmem b hb)

end Contests

/-! ### Two names -/

/-- Comparison as a culture does it that ignores the soft hyphen. -/
def ignoresSoftHyphens : Culture where
  startsWith text start := start.toList.isPrefixOf text.toList
  compareLe := byKey fun name => String.ofList (name.toList.filter (· != Char.ofNat 0xAD))
  compareLe_total := byKey_totalPreorder _

def ann : User := ⟨1, "Ann", false, false, some ⟨true, false⟩⟩

def annHyphen : User := ⟨2, String.ofList ['A', 'n', 'n', Char.ofNat 0xAD], false, false, some ⟨true, false⟩⟩

def twoNames (competitors : List Competitor) : Contest where
  abbr := "acm"
  startTime := 0
  endTime := 300 * ticksPerMinute
  freezeTime := none
  problems := [⟨1, 1, [], by decide⟩]
  competitors := competitors
  problem_ids := by decide
  problem_count := by decide

def annFirst : Contest := twoNames [⟨ann, ⟨true, false⟩, rfl⟩, ⟨annHyphen, ⟨true, false⟩, rfl⟩]

def annLast : Contest := twoNames [⟨annHyphen, ⟨true, false⟩, rfl⟩, ⟨ann, ⟨true, false⟩, rfl⟩]

theorem two_names_reordered : Reordered annFirst annLast :=
  ⟨rfl, rfl, rfl, rfl, List.Perm.swap _ _ _, _, .cons ⟨rfl, rfl, .refl _⟩ .nil, .refl _⟩

theorem two_names_distinct : DistinctAcceptances 0 annFirst false none := by
  intro problem hp s hs
  cases List.mem_singleton.mp hp
  cases hs

theorem sample_reordered : ∃ rows, newStanding .ordinal .exact 0 annFirst true false false none = .ok rows ∧
    (newStanding .ordinal .exact 0 annLast true false false none).map (List.map rowView) =
      .ok (rows.map rowView) := by
  refine ⟨_, rfl, ?_⟩
  exact standing_of_reordered .ordinal .exact 0 true false false none two_names_reordered (by decide) (by decide)
    two_names_distinct rfl (by decide +kernel)

/-- Two competitors whose names differ, but not in this culture, are shown in the order
    of the collection. -/
theorem a_hidden_hyphen_ties :
    Reordered annFirst annLast ∧ (annFirst.problems.map Problem.number).Nodup ∧
      DistinctAcceptances 0 annFirst false none ∧
      ∃ rows rows', newStanding ignoresSoftHyphens .exact 0 annFirst true false false none = .ok rows ∧
        newStanding ignoresSoftHyphens .exact 0 annLast true false false none = .ok rows' ∧
        rows.Pairwise (fun a b => (a.score, a.summaryTime, a.user.name) ≠ (b.score, b.summaryTime, b.user.name)) ∧
        rows.map (·.user.id) = [1, 2] ∧ rows'.map (·.user.id) = [2, 1] := by
  refine ⟨two_names_reordered, by decide, two_names_distinct, _, _, rfl, rfl, ?_, ?_, ?_⟩ <;> decide +kernel

end OlympSystem.Domain.CollectionOrder
