/-
  OlympSystem.Site.Published — what a viewer who is no member of the jury may be told, by the
  dates and flags of contests, problems and users alone.

  `Content.redact` takes everything else out of the site:
  - the source code, the description and the results of submissions that are neither the
    viewer's nor those of his teams;
  - their verdicts and scores, unless they are `Told`: the standings of a contest have those of
    before the freeze, and whoever is signed in may follow practice (`IsPractice`: sent in by a
    user of the site, not by a competitor), also after the freeze. `Submissions/Errors` answers
    by the status first, so that a submission failed to compile is told to whoever is signed in;
  - statements, examples and files before they are out, and all other tests;
  - tables before the standings are out, and what a hidden contest is called and about;
  - messages to other users.

  Proved: the pages ask for just these dates and flags (`allowDownloadProblems_iff`,
  `allowShowStanding_iff`, `allowDownloadTests_iff`, `isPublic_isPractice`, `mayView_iff`).
-/

import OlympSystem.Site.ViewPages

namespace OlympSystem.Site.Accounts.ViewPages

open Lib.Query Lib.Tables Lib.Text Lib.Transactions ContestPages

/-! ## Dates -/

section Dates

variable (now : Int) (contest : Contest)

/-- The statements are out from the start of the contest, or from a moment of their own. -/
def StatementsOut (columns : ContestColumns) : Prop :=
  contest.isHidden = false ∧ (contest.startTime ≤ now ∨ ∃ t ∈ columns.problemShowTime, t ≤ now)

def StandingsOut : Prop := contest.isHidden = false ∧ contest.startTime ≤ now

/-- The contest is over, and has been opened to everybody. -/
def TestsOut : Prop := contest.isHidden = false ∧ contest.isOpen = true ∧ contest.endTime < now

/-- The standings have what was sent in at that moment: it was before the freeze, or that is still to come. -/
def Thawed (columns : ContestColumns) (commitTime : Int) : Prop :=
  ∀ f ∈ columns.freezeTime, now ≤ f ∨ commitTime < f

instance (columns : ContestColumns) : Decidable (StatementsOut now contest columns) :=
  inferInstanceAs (Decidable (_ ∧ (_ ∨ ∃ t ∈ columns.problemShowTime, t ≤ now)))

instance : Decidable (StandingsOut now contest) := inferInstanceAs (Decidable (_ ∧ _))

instance : Decidable (TestsOut now contest) := inferInstanceAs (Decidable (_ ∧ _ ∧ _))

instance (columns : ContestColumns) (commitTime : Int) : Decidable (Thawed now columns commitTime) :=
  inferInstanceAs (Decidable (∀ f ∈ columns.freezeTime, now ≤ f ∨ commitTime < f))

theorem allowDownloadProblems_iff (columns : ContestColumns) :
    allowDownloadProblems now contest columns = true ↔ StatementsOut now contest columns := by
  unfold allowDownloadProblems StatementsOut
  cases columns.problemShowTime <;> simp

theorem allowShowStanding_iff : allowShowStanding now contest = true ↔ StandingsOut now contest := by
  unfold allowShowStanding StandingsOut
  simp

theorem allowDownloadTests_iff : allowDownloadTests now contest = true ↔ TestsOut now contest := by
  unfold allowDownloadTests TestsOut
  simp [and_assoc]

end Dates

namespace Content

section Published

variable (site : Content) (now : Int) (viewer : Option Principal)

/-! ## Whose it is -/

/-- The viewer himself, or a team that he is a member of. -/
def Owns (userId : Int) : Prop :=
  ∃ principal ∈ viewer, principal.userId = userId ∨
    ∃ team ∈ site.db.competitors, team.id = userId ∧ site.db.isMember principal.userId team = true

def contestOf (s : Submission) : Option Contest :=
  (site.db.problems.find? s.problemId).bind fun p => site.db.contests.find? p.contestId

/-- A user of the site has sent it in, and nothing of it is hidden. -/
def IsPractice (s : Submission) : Prop :=
  (∃ account ∈ site.db.users.find? s.userId, account.olympUser?.isSome = true ∧ account.user.isHidden = false) ∧
    ∃ contest ∈ site.contestOf s, contest.isHidden = false

/-- The standings of its contest have it. -/
def InStandings (s : Submission) : Prop :=
  ∃ contest ∈ site.contestOf s, StandingsOut now contest ∧ Thawed now (site.contest contest.id) s.commitTime

/-- The viewer is told its verdict. -/
def Told (s : Submission) : Prop :=
  site.Owns viewer s.userId ∨ (viewer.isSome = true ∧ site.IsPractice s) ∨ site.InStandings now s

/-- The text of the problem is out, for those who are signed in. -/
def MayRead (p : ProblemRow) : Prop :=
  viewer.isSome = true ∧ p.isActive = true ∧
    ∃ contest ∈ site.db.contests.find? p.contestId, StatementsOut now contest (site.contest contest.id)

/-- A message to everybody, to the viewer or to a team of his. -/
def IsAddressed (m : Message) : Prop := ∀ userId ∈ m.userId, site.Owns viewer userId

instance (userId : Int) : Decidable (site.Owns viewer userId) :=
  inferInstanceAs (Decidable (∃ principal ∈ viewer, principal.userId = userId ∨ ∃ team ∈ site.db.competitors, _ ∧ _))

instance (s : Submission) : Decidable (site.IsPractice s) :=
  inferInstanceAs (Decidable ((∃ account ∈ site.db.users.find? s.userId, _ ∧ _) ∧ ∃ contest ∈ site.contestOf s, _))

instance (s : Submission) : Decidable (site.InStandings now s) :=
  inferInstanceAs (Decidable (∃ contest ∈ site.contestOf s, _ ∧ _))

instance (s : Submission) : Decidable (site.Told now viewer s) := inferInstanceAs (Decidable (_ ∨ (_ ∧ _) ∨ _))

instance (p : ProblemRow) : Decidable (site.MayRead now viewer p) :=
  inferInstanceAs (Decidable (_ ∧ _ ∧ ∃ contest ∈ site.db.contests.find? p.contestId, _))

instance (m : Message) : Decidable (site.IsAddressed viewer m) :=
  inferInstanceAs (Decidable (∀ userId ∈ m.userId, site.Owns viewer userId))

/-- Whoever is not of the jury may view what is his or his teams'. -/
theorem mayView_iff {principal : Principal} (h : isStaff (some principal) = false) (userId : Int) :
    mayView site.db principal userId = true ↔ site.Owns (some principal) userId := by
  have hroles : (principal.isAdmin || principal.isJury) = false := h
  have hteam : isMemberOf site.db principal.userId userId = true ↔
      ∃ team ∈ site.db.competitors, team.id = userId ∧ site.db.isMember principal.userId team = true := by
    unfold isMemberOf
    simp only [List.contains_iff_mem, List.mem_map, List.mem_filter]
    exact ⟨fun ⟨team, ⟨hmem, hin⟩, hid⟩ => ⟨team, hmem, hid, hin⟩,
      fun ⟨team, hmem, hid, hin⟩ => ⟨team, ⟨hmem, hin⟩, hid⟩⟩
  unfold mayView Owns
  rw [hroles, Bool.false_or, Bool.or_eq_true, beq_iff_eq, hteam]
  simp

theorem Listed.isPublic_iff (x : Listed) :
    x.isPublic = true ↔
      x.account.olympUser?.isSome = true ∧ x.account.user.isHidden = false ∧ x.contest.isHidden = false := by
  unfold Listed.isPublic
  simp [and_assoc]

theorem mayView_eq {principal : Principal} (h : isStaff (some principal) = false) (userId : Int) :
    mayView site.db principal userId = decide (site.Owns (some principal) userId) := by
  rw [Bool.eq_iff_iff, site.mayView_iff h, decide_eq_true_iff]

/-- What the list of submissions has for everybody is practice. -/
theorem isPublic_isPractice {x : Listed} (h : site.includeAll x.submission = some x) (hpublic : x.isPublic = true) :
    site.IsPractice x.submission := by
  simp only [includeAll, Option.bind_eq_bind, Option.bind_eq_some_iff] at h
  obtain ⟨account, haccount, problem, hproblem, contest, hcontest, compilator, -, hx⟩ := h
  obtain ⟨rfl, rfl⟩ : account = x.account ∧ contest = x.contest :=
    ⟨congrArg Listed.account (Option.some.inj hx), congrArg Listed.contest (Option.some.inj hx)⟩
  obtain ⟨huser, hshown, hvisible⟩ := x.isPublic_iff.mp hpublic
  refine ⟨⟨x.account, haccount, huser, hshown⟩, x.contest, ?_, hvisible⟩
  unfold contestOf
  rw [hproblem]
  exact hcontest

/-! ## The site without its secrets -/

def redactedSubmission (s : Submission) : Submission :=
  { s with
    text := if site.Owns viewer s.userId then s.text else ""
    statusCode :=
      if site.Told now viewer s then s.statusCode
      else if viewer.isSome = true ∧ s.statusCode = -1 then -1
      else 0
    lastModification := 0 }

def redactedColumns (s : Submission) : SubmissionColumns where
  isHidden := decide (site.Told now viewer s) && (site.submission s.id).isHidden
  description := if site.Owns viewer s.userId then (site.submission s.id).description else none
  score := if site.Told now viewer s then (site.submission s.id).score else none
  scoresByTest := if site.Owns viewer s.userId then (site.submission s.id).scoresByTest else none

def redactedTest (test : TestRow) : TestRow :=
  { test with content := { test.content with score := none, comment := none } }

def redactedProblem (p : ProblemRow) : ProblemRow :=
  { p with
    text := if site.MayRead now viewer p then p.text else none
    timeLimit := if site.MayRead now viewer p then p.timeLimit else 0
    slowTimeLimit := 0
    memoryLimit := if site.MayRead now viewer p then p.memoryLimit else 0
    checkerId := 0
    tests := if site.MayRead now viewer p then (p.tests.filter isExample).map redactedTest else [] }

/-- That there is a file is kept. -/
def redactedContest (contest : Contest) : ContestColumns where
  name := if contest.isHidden then "" else (site.contest contest.id).name
  description := if contest.isHidden then none else (site.contest contest.id).description
  problemShowTime := (site.contest contest.id).problemShowTime
  freezeTime := (site.contest contest.id).freezeTime
  problemPdf := (site.contest contest.id).problemPdf.map fun pdf =>
    if StatementsOut now contest (site.contest contest.id) then pdf else []
  testZip := (site.contest contest.id).testZip.map fun zip => if TestsOut now contest then zip else []
  finalTableText := if StandingsOut now contest then (site.contest contest.id).finalTableText else none
  officialTableText := if StandingsOut now contest then (site.contest contest.id).officialTableText else none

def redactedHistory : History where
  submissions := site.db.history.submissions.update ⟨site.redactedSubmission now viewer, fun _ => rfl⟩
  messages := site.db.history.messages.remove fun m => !decide (site.IsAddressed viewer m)
  checkResults := site.db.history.checkResults.filter fun result =>
    (site.db.history.submissions.find? result.submissionId).any fun s => decide (site.Owns viewer s.userId)

theorem redactedHistory_mentions {userId : Int} (h : (site.redactedHistory now viewer).mentions userId = true) :
    site.db.history.mentions userId = true := by
  unfold History.mentions at h ⊢
  rw [Bool.or_eq_true] at h ⊢
  rcases h with hs | hm
  · obtain ⟨s', hmem, heq⟩ := List.any_eq_true.mp hs
    obtain ⟨s, hs, rfl⟩ := List.mem_map.mp hmem
    exact Or.inl (List.any_eq_true.mpr ⟨s, hs, heq⟩)
  · obtain ⟨m, hmem, heq⟩ := List.any_eq_true.mp hm
    exact Or.inr (List.any_eq_true.mpr ⟨m, (List.mem_filter.mp hmem).1, heq⟩)

def redactedDb : Db :=
  { site.db with
    problems := site.db.problems.update ⟨site.redactedProblem now viewer, fun _ => rfl⟩
    history := site.redactedHistory now viewer
    history_of := fun id h => site.db.history_of id (site.redactedHistory_mentions now viewer h) }

def redact : Content where
  db := site.redactedDb now viewer
  contest id := (site.db.contests.find? id).elim (site.contest id) (site.redactedContest now)
  submission id := (site.db.history.submissions.find? id).elim ⟨false, none, none, none⟩
    (site.redactedColumns now viewer)
  sourceExtension := site.sourceExtension
  problem_of := by
    intro s' hs'
    obtain ⟨s, hs, rfl⟩ := List.mem_map.mp hs'
    obtain ⟨p, hp, hid⟩ := site.problem_of s hs
    exact ⟨_, List.mem_map_of_mem hp, hid⟩
  users_from_one := site.users_from_one

end Published

end Content

end OlympSystem.Site.Accounts.ViewPages
