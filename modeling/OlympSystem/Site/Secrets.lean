/-
  OlympSystem.Site.Secrets — what the pages do not tell.

  Proved:
  - `mayTakePart_eq`: what the handler of contests decides at one moment.
  - `contests_redact`, `standing_redact`, `submits_redact` and their like: a page is the same
    on the site without its secrets (`Content.redact`).
  - `pages_keep_secrets`: so are all of them, for whoever is not of the jury.
-/

import OlympSystem.Site.Published

namespace OlympSystem.Site.Accounts.ViewPages

open Lib.Query Lib.Tables Lib.Text Lib.Transactions ContestPages
open OlympSystem.Checker (Bytes)
open CompetitorManagement (calm getMembers loadMembers)

/-! ## At one moment -/

section Moment

variable (now : Int) (db : Db) (principal : Principal) (contest : Contest)

/-- The contest is on for such a request. -/
def isOn : OperationName → Bool
  | .submitSolution => allowSubmitSolution now contest
  | .sendMessage => !contest.isHidden && decide (contest.startTime ≤ now) && decide (now ≤ contest.endTime)
  | .viewSolution => false

def isAdmitted : Account → Bool
  | .competitor c => c.isApproved && c.contestId == contest.id && decide (now ≤ contest.endTime)
  | .olympUser u => contest.isOpen || (competitorsWith contest.id u.id db).any fun x =>
      x.isApproved && x.isOutOfCompetition && !x.isDisqualified

def decided (requirement : OperationName) : Bool :=
  principal.isAdmin || principal.isJury || isOn now contest requirement &&
    (db.users.find? principal.userId).any fun account =>
      !account.user.isDisqualified && isAdmitted now db contest account

theorem allowed_calm (afterEnd : Bool) (s : Session Db) :
    (allowed contest afterEnd (calm now) s).1 =
      .ok (!contest.isHidden && decide (contest.startTime ≤ now) && (decide (now ≤ contest.endTime) || afterEnd)) := by
  unfold allowed
  cases hhidden : contest.isHidden with
  | true => rfl
  | false =>
    rw [if_neg Bool.false_ne_true]
    show ((if now < contest.startTime then pure false else do
      let now ← Work.now
      return decide (now ≤ contest.endTime) || afterEnd : Action Bool) (calm now) _).1 = _
    by_cases hstart : contest.startTime ≤ now
    · rw [if_neg (not_lt.mpr hstart), decide_eq_true hstart]
      rfl
    · rw [if_pos (not_le.mp hstart), decide_eq_false hstart]
      rfl

theorem allow_calm (requirement : OperationName) (s : Session Db) :
    ∃ s', allow contest requirement (calm now) s = (.ok (isOn now contest requirement), s') ∧ s'.db = s.db := by
  have hrun : ∀ (w : Action Bool), (w (calm now) s).1 = .ok (isOn now contest requirement) → Quiet w →
      ∃ s', w (calm now) s = (.ok (isOn now contest requirement), s') ∧ s'.db = s.db :=
    fun w h hquiet => ⟨(w (calm now) s).2, Prod.ext h rfl, hquiet _ _⟩
  cases requirement with
  | submitSolution => exact hrun _ (allowed_calm now contest _ s) (quiet_allowed _ _)
  | viewSolution => exact ⟨s, rfl, rfl⟩
  | sendMessage =>
    refine hrun _ ((allowed_calm now contest false s).trans ?_) (quiet_allowed _ _)
    rw [Bool.or_false]
    rfl

theorem handle_calm (requirement : OperationName) :
    ∃ decision s', handleRequirementAsync principal requirement contest (calm now) ⟨db, 0⟩ = (.ok decision, s') ∧
      (decision == .succeed) = decided now db principal contest requirement := by
  unfold handleRequirementAsync decided
  by_cases hstaff : (principal.isAdmin || principal.isJury) = true
  · rw [if_pos hstaff, hstaff]
    exact ⟨.succeed, _, rfl, rfl⟩
  · rw [if_neg hstaff, Bool.eq_false_iff.mpr hstaff, Bool.false_or]
    obtain ⟨s', hallow, hdb⟩ := allow_calm now contest requirement ⟨db, 0⟩
    have hcalm : ∀ n, (calm now).fault n = none := fun _ => rfl
    rw [bind_ok hallow, bind_ok (query_ok hcalm _ s'), hdb]
    cases db.users.find? principal.userId with
    | none => exact ⟨.fail, _, rfl, by rw [Option.any_none, Bool.and_false]; rfl⟩
    | some account =>
      rw [Option.any_some]
      cases hon : isOn now contest requirement with
      | false => exact ⟨.fail, _, rfl, rfl⟩
      | true =>
        dsimp only [Bool.not_true, Bool.false_or, Bool.true_and]
        cases hfair : account.user.isDisqualified with
        | true =>
          rw [if_pos (c := (!true || true) = true) rfl]
          exact ⟨.fail, _, rfl, rfl⟩
        | false =>
          rw [if_neg (c := (!true || false) = true) Bool.false_ne_true, Bool.not_false, Bool.true_and]
          cases account with
          | competitor c =>
            dsimp only [isAdmitted]
            by_cases hteam : (c.isApproved && c.contestId == contest.id) = true
            · rw [if_pos hteam, hteam, Bool.true_and]
              by_cases hend : now ≤ contest.endTime
              · rw [decide_eq_true hend]
                exact ⟨.succeed, _, Prod.ext (congrArg Except.ok (if_pos hend)) rfl, rfl⟩
              · rw [decide_eq_false hend]
                exact ⟨.fail, _, Prod.ext (congrArg Except.ok (if_neg hend)) rfl, rfl⟩
            · rw [if_neg hteam, Bool.eq_false_iff.mpr hteam, Bool.false_and]
              exact ⟨.fail, _, rfl, rfl⟩
          | olympUser u =>
            dsimp only [isAdmitted]
            by_cases hopen : contest.isOpen = true
            · rw [if_pos hopen, hopen, Bool.true_or]
              exact ⟨.succeed, _, rfl, rfl⟩
            · rw [if_neg hopen, Bool.eq_false_iff.mpr hopen, Bool.false_or, bind_ok (query_ok hcalm _ _)]
              cases (competitorsWith contest.id u.id db).any fun x =>
                  x.isApproved && x.isOutOfCompetition && !x.isDisqualified with
              | true => exact ⟨.succeed, _, rfl, rfl⟩
              | false => exact ⟨.undecided, _, rfl, rfl⟩

theorem mayTakePart_eq (requirement : OperationName) :
    mayTakePart now db principal contest requirement = .ok (decided now db principal contest requirement) := by
  obtain ⟨decision, s', hrun, hdecided⟩ := handle_calm now db principal contest requirement
  unfold mayTakePart authorizeAsync
  rw [bind_ok hrun, ← hdecided]
  rfl

/-- Nobody but the jury takes part in a contest that is hidden. -/
theorem visible_of_decided {requirement : OperationName} (hviewer : isStaff (some principal) = false)
    (h : decided now db principal contest requirement = true) : contest.isHidden = false := by
  have hroles : (principal.isAdmin || principal.isJury) = false := hviewer
  unfold decided at h
  rw [hroles, Bool.false_or, Bool.and_eq_true] at h
  cases requirement <;> simp_all [isOn, allowSubmitSolution]

end Moment

/-! ## What the redaction keeps -/

namespace Content

variable (site : Content) (now : Int) (principal : Principal)

/-- Everything that authorization reads is kept. -/
theorem mayTakePart_redact (viewer : Option Principal) (contest : Contest) (requirement : OperationName) :
    mayTakePart now (site.redactedDb now viewer) principal contest requirement =
      mayTakePart now site.db principal contest requirement := by
  rw [mayTakePart_eq, mayTakePart_eq]
  rfl

section Rows

variable (viewer : Option Principal)

theorem find?_problem (id : Int) :
    (site.redactedDb now viewer).problems.find? id = (site.db.problems.find? id).map
    (site.redactedProblem now viewer) :=
  site.db.problems.find?_update _ id

theorem find?_submission (id : Int) :
    (site.redactedDb now viewer).history.submissions.find? id =
      (site.db.history.submissions.find? id).map (site.redactedSubmission now viewer) :=
  site.db.history.submissions.find?_update _ id

theorem columns_redact {contest : Contest} {id : Int} (h : site.db.contests.find? id = some contest) :
    (site.redact now viewer).contest id = site.redactedContest now contest ∧ contest.id = id := by
  refine ⟨?_, (Table.find?_some h).2⟩
  show (site.db.contests.find? id).elim _ _ = _
  rw [h]
  rfl

/-- What a contest is called is no secret unless it is hidden. -/
theorem redactedContest_name {contest : Contest} (h : contest.isHidden = false) :
    (site.redactedContest now contest).name = (site.contest contest.id).name := if_neg (Bool.eq_false_iff.mp h)

theorem submission_redact {s : Submission} (h : s ∈ site.db.history.submissions.rows) :
    (site.redact now viewer).submission s.id = site.redactedColumns now viewer s := by
  show (site.db.history.submissions.find? s.id).elim _ _ = _
  rw [Table.find?_of_mem h]
  rfl

/-- What the standings read of a submission whose verdict is told. -/
theorem includeUser_redact {s : Submission} (h : s ∈ site.db.history.submissions.rows)
    (htold : site.Told now viewer s) :
    (site.redact now viewer).includeUser (site.redactedSubmission now viewer s) = site.includeUser s := by
  have hcolumns : (site.redact now viewer).submission (site.redactedSubmission now viewer s).id =
      site.redactedColumns now viewer s := site.submission_redact now viewer (s := s) h
  have hstatus : (site.redactedSubmission now viewer s).statusCode = s.statusCode := if_pos htold
  unfold includeUser
  rw [hcolumns, hstatus]
  unfold redactedColumns
  rw [decide_eq_true htold, Bool.true_and, if_pos htold]
  rfl

end Rows

section Standing

variable (viewer : Option Principal)

theorem submissionsOf_redact (problemId : Int) :
    (site.redact now viewer).submissionsOf problemId =
      (site.submissionsOf problemId).map (site.redactedSubmission now viewer) := List.filter_map

theorem problemsOf_redact (contestId : Int) :
    (site.redact now viewer).problemsOf contestId = (site.problemsOf contestId).map (site.redactedProblem now viewer) :=
  List.filter_map

/-- The submissions that the standings may count are told. -/
theorem told_of_standing {contest : Contest} {p : ProblemRow} {s : Submission}
    (hcontest : site.db.contests.find? contest.id = some contest) (hshow : StandingsOut now contest)
    (hp : p ∈ site.problemsOf contest.id) (hs : s ∈ site.submissionsOf p.id)
    (hthawed : Thawed now (site.contest contest.id) s.commitTime) : site.Told now viewer s := by
  have hpc : p.contestId = contest.id := by simpa using (List.mem_filter.mp hp).2
  have hsp : s.problemId = p.id := by simpa using (List.mem_filter.mp hs).2
  have hfind : site.db.problems.find? s.problemId = some p := hsp ▸ Table.find?_of_mem (List.mem_filter.mp hp).1
  have hof : site.contestOf s = some contest := by
    unfold contestOf
    rw [hfind, Option.bind_some, hpc, hcontest]
  exact Or.inr (Or.inr ⟨contest, hof, hshow, hthawed⟩)

/-- The submissions to a problem of moments that the standings may count are the same. -/
theorem submissions_redact (keep : Int → Bool) {p : ProblemRow}
    (hkeep : ∀ s ∈ site.submissionsOf p.id, keep s.commitTime = true → site.Told now viewer s) :
    (((site.redact now viewer).domainProblem (site.redactedProblem now viewer p)).submissions.filter fun d =>
      keep d.commitTime) =
      (site.domainProblem p).submissions.filter fun d => keep d.commitTime := by
  have htime : ∀ (site : Content) (s : Submission) (d : Domain.Submission), site.includeUser s = some d →
      d.commitTime = s.commitTime := by
    intro site s d h
    obtain ⟨account, -, rfl⟩ := Option.map_eq_some_iff.mp h
    rfl
  have hdrop : ∀ (site : Content) (s : Submission), keep s.commitTime = false →
      (site.includeUser s).filter (fun d => keep d.commitTime) = none := by
    intro site s hs
    rw [Option.filter_eq_none_iff]
    intro d hd
    rw [htime site s d hd, hs]
    exact Bool.false_ne_true
  show (((site.redact now viewer).submissionsOf p.id).filterMap _).filter _ =
      ((site.submissionsOf p.id).filterMap _).filter _
  rw [submissionsOf_redact, List.filterMap_map, List.filter_filterMap, List.filter_filterMap]
  refine List.filterMap_congr fun s hs => ?_
  cases h : keep s.commitTime with
  | false =>
    exact (hdrop (site.redact now viewer) (site.redactedSubmission now viewer s) h).trans (hdrop site s h).symm
  | true =>
    have hinclude := site.includeUser_redact now viewer (List.mem_filter.mp hs).1 (hkeep s hs h)
    exact congrArg (Option.filter _) hinclude

theorem domainContest_fields {contest : Contest} {c : Domain.Contest} (h : site.domainContest contest = some c) :
    c.abbr = contest.abbr ∧ c.startTime = contest.startTime ∧ c.endTime = contest.endTime ∧
      c.freezeTime = (site.contest contest.id).freezeTime ∧
        c.problems = (site.problemsOf contest.id).map site.domainProblem ∧
      c.competitors = (site.db.competitors.filter (·.contestId == contest.id)).map domainCompetitor := by
  unfold domainContest at h
  split at h
  · cases h
    exact ⟨rfl, rfl, rfl, rfl, rfl, rfl⟩
  · cases h

theorem domainContest_isSome (contest : Contest) :
    (site.domainContest contest).isSome = decide ((site.problemsOf contest.id).length ≤ Domain.maxCount) := by
  unfold domainContest
  by_cases h : (site.problemsOf contest.id).length ≤ Domain.maxCount
  · rw [dif_pos (by simpa using h), decide_eq_true h, Option.isSome_some]
  · rw [dif_neg (by simpa using h), decide_eq_false h, Option.isSome_none]

variable {contest : Contest} {c c' : Domain.Contest}

/-- The submissions before the freeze. -/
theorem early_redact {f : Int} (hcontest : site.db.contests.find? contest.id = some contest)
    (hshow : StandingsOut now contest) (hf : (site.contest contest.id).freezeTime = some f) {p : ProblemRow}
    (hp : p ∈ site.problemsOf contest.id) :
    Domain.Freeze.early f ((site.redact now viewer).domainProblem (site.redactedProblem now viewer p)) =
      Domain.Freeze.early f (site.domainProblem p) := by
  refine congrArg (Domain.Freeze.EarlyProblem.mk p.id p.number) ?_
  refine site.submissions_redact now viewer (fun t => decide (t < f)) fun s hs hearly => ?_
  refine site.told_of_standing now viewer hcontest hshow hp hs fun g hg => ?_
  cases hf.symm.trans hg
  exact Or.inr (of_decide_eq_true hearly)

/-- All submissions, while nothing is frozen. -/
theorem domainProblem_redact (hcontest : site.db.contests.find? contest.id = some contest)
    (hshow : StandingsOut now contest)
    (hf : ∀ f, (site.contest contest.id).freezeTime = some f → now ≤ f) {p : ProblemRow}
    (hp : p ∈ site.problemsOf contest.id) :
    (site.redact now viewer).domainProblem (site.redactedProblem now viewer p) = site.domainProblem p := by
  have hall := site.submissions_redact now viewer (fun _ => true) (p := p) fun s hs _ =>
    site.told_of_standing now viewer hcontest hshow hp hs fun f h => Or.inl (hf f h)
  rw [List.filter_true, List.filter_true] at hall
  have hext : ∀ {a b : Domain.Problem}, a.id = b.id → a.number = b.number → a.submissions = b.submissions → a = b := by
    intro a b
    cases a
    cases b
    simp_all
  exact hext rfl rfl hall

theorem contest_ext {a b : Domain.Contest} (habbr : a.abbr = b.abbr) (hstart : a.startTime = b.startTime)
    (hend : a.endTime = b.endTime) (hfreeze : a.freezeTime = b.freezeTime) (hproblems : a.problems = b.problems)
    (hcompetitors : a.competitors = b.competitors) : a = b := by
  cases a
  cases b
  simp_all

variable (culture : Domain.Culture) (ms : Domain.Standing.Milliseconds)

/-- The rows of the standings that everybody sees. -/
theorem rows_redact (hcontest : site.db.contests.find? contest.id = some contest)
    (hshow : StandingsOut now contest) (h : site.domainContest contest = some c)
    (h' : (site.redact now viewer).domainContest contest = some c') (includeAll official : Bool)
    (startTime : Option Int) :
    (Domain.Standing.newStanding culture ms now c' includeAll official false startTime).map
    (List.map Domain.Freeze.rowView) =
      (Domain.Standing.newStanding culture ms now c includeAll official false startTime).map
        (List.map Domain.Freeze.rowView) := by
  obtain ⟨habbr, hstart, hend, hfreeze, hproblems, hcompetitors⟩ := site.domainContest_fields h
  obtain ⟨habbr', hstart', hend', hfreeze', hproblems', hcompetitors'⟩ :=
    (site.redact now viewer).domainContest_fields h'
  rw [(site.columns_redact now viewer hcontest).1] at hfreeze'
  rw [problemsOf_redact, List.map_map] at hproblems'
  by_cases hfrozen : ∃ f, (site.contest contest.id).freezeTime = some f ∧ f < now
  · obtain ⟨f, hf, hpast⟩ := hfrozen
    have hagree : Domain.Freeze.AgreeBefore f c' c :=
      { abbr := habbr'.trans habbr.symm
        startTime := hstart'.trans hstart.symm
        endTime := hend'.trans hend.symm
        freezeTime := ⟨hfreeze'.trans hf, hfreeze.trans hf⟩
        competitors := hcompetitors'.trans hcompetitors.symm
        problems := by
          rw [hproblems', hproblems, List.map_map, List.map_map]
          exact List.map_congr_left fun p hp => site.early_redact now viewer hcontest hshow hf hp }
    have hisFreeze : c'.isFreeze now = true := by
      unfold Domain.Contest.isFreeze
      rw [hagree.freezeTime.1]
      exact decide_eq_true hpast
    have hstarts : Domain.Standing.standingStart c' startTime = Domain.Standing.standingStart c startTime := by
      unfold Domain.Standing.standingStart
      rw [hagree.startTime]
    have hshown : Domain.Standing.standingCompetitors c' official startTime =
        Domain.Standing.standingCompetitors c official startTime := by
      unfold Domain.Standing.standingCompetitors
      rw [hagree.competitors]
    have hschool : c'.isSchool culture = c.isSchool culture := by
      unfold Domain.Contest.isSchool
      rw [hagree.abbr]
    rw [Domain.Freeze.newStanding_view, Domain.Freeze.newStanding_view]
    simp only [hstarts, hshown, hschool, Domain.Freeze.standingSubmissions_agree now hagree hisFreeze,
      Domain.Freeze.cells_agree hagree]
  · have hsame : c' = c := by
      refine contest_ext (habbr'.trans habbr.symm) (hstart'.trans hstart.symm) (hend'.trans hend.symm)
        (hfreeze'.trans hfreeze.symm) ?_ (hcompetitors'.trans hcompetitors.symm)
      rw [hproblems', hproblems]
      refine List.map_congr_left fun p hp => site.domainProblem_redact now viewer hcontest hshow ?_ hp
      intro f hf
      exact not_lt.mp fun hpast => hfrozen ⟨f, hf, hpast⟩
    rw [hsame]

theorem memberNames_redact (userId : Int) :
    (site.redact now viewer).memberNames userId = site.memberNames userId := rfl

/-- The number and the name of each problem. -/
theorem headings_redact (contestId : Int) :
    (orderBy (byKey fun p : ProblemRow => p.number) ((site.redact now viewer).problemsOf contestId)).map
        (fun p => (p.number, p.name)) =
      (orderBy (byKey fun p : ProblemRow => p.number) (site.problemsOf contestId)).map fun p => (p.number, p.name) := by
  have hkey : ∀ p q : ProblemRow, byKey (fun p : ProblemRow => p.number) (site.redactedProblem now viewer p)
      (site.redactedProblem now viewer q) = byKey (fun p : ProblemRow => p.number) p q := fun _ _ => rfl
  rw [problemsOf_redact, ← orderBy_map (site.redactedProblem now viewer) hkey, List.map_map]
  rfl

theorem standingTable_redact (host : Host) (hviewer : isStaff viewer = false)
    (hcontest : site.db.contests.find? contest.id = some contest) (hshow : StandingsOut now contest)
    (official : Bool) (startTime : Option Int) :
    (site.redact now viewer).standingTable host now viewer contest official startTime =
      site.standingTable host now viewer contest official startTime := by
  have hsome : ((site.redact now viewer).domainContest contest).isSome = (site.domainContest contest).isSome := by
    rw [domainContest_isSome, domainContest_isSome, problemsOf_redact, List.length_map]
  unfold standingTable
  cases h : site.domainContest contest with
  | none =>
    rw [h, Option.isSome_none, Option.isSome_eq_false_iff, Option.isNone_iff_eq_none] at hsome
    rw [hsome]
  | some c =>
    rw [h, Option.isSome_some] at hsome
    obtain ⟨c', h'⟩ := Option.isSome_iff_exists.mp hsome
    have hrows := site.rows_redact now viewer host.culture host.ms hcontest hshow h h' (!official) official startTime
    have hisFreeze : c'.isFreeze now = c.isFreeze now := by
      obtain ⟨-, -, -, hfreeze, -⟩ := site.domainContest_fields h
      obtain ⟨-, -, -, hfreeze', -⟩ := (site.redact now viewer).domainContest_fields h'
      unfold Domain.Contest.isFreeze
      rw [hfreeze', hfreeze, (site.columns_redact now viewer hcontest).1]
      rfl
    rw [h']
    simp only [hviewer, hrows, hisFreeze, headings_redact, (site.columns_redact now viewer hcontest).1,
      site.redactedContest_name now hshow.1, memberNames_redact]
    rfl

theorem standing_redact (host : Host) (hviewer : isStaff viewer = false) (id : Int) (official : Bool)
    (startTime : Option Int) :
    (site.redact now viewer).standing host now viewer id official startTime =
      site.standing host now viewer id official startTime := by
  have hcontests : (site.redact now viewer).db.contests = site.db.contests := rfl
  unfold standing
  rw [hcontests]
  cases hcontest : site.db.contests.find? id with
  | none => rfl
  | some contest =>
    obtain ⟨hcolumns, rfl⟩ := site.columns_redact now viewer hcontest
    dsimp only
    rw [hviewer, Bool.or_false, hcolumns]
    by_cases hshow : StandingsOut now contest
    · have hname := site.redactedContest_name now hshow.1
      have hfinal : (site.redactedContest now contest).finalTableText = (site.contest contest.id).finalTableText :=
        if_pos hshow
      have hofficial : (site.redactedContest now contest).officialTableText =
          (site.contest contest.id).officialTableText :=
        if_pos hshow
      rw [hname, hfinal, hofficial, site.standingTable_redact now viewer host hviewer hcontest hshow]
    · have hclosed := (allowShowStanding_iff now contest).not.mpr hshow
      rw [if_neg hclosed, if_neg hclosed]

end Standing

section Pages

variable (viewer : Option Principal)

theorem contestItem_redact (host : Host) (hviewer : isStaff viewer = false) {contest : Contest}
    (hcontest : contest ∈ site.db.contests.rows) (hvisible : contest.isHidden = false) :
    (site.redact now viewer).contestItem host now viewer contest = site.contestItem host now viewer contest := by
  have hcolumns := (site.columns_redact now viewer (Table.find?_of_mem hcontest)).1
  have hname := site.redactedContest_name now hvisible
  have hdescription : (site.redactedContest now contest).description = (site.contest contest.id).description :=
    if_neg (Bool.eq_false_iff.mp hvisible)
  have hallow : allowDownloadProblems now contest (site.redactedContest now contest) =
      allowDownloadProblems now contest (site.contest contest.id) := rfl
  have hofficial : (allowShowStanding now contest && ((site.redactedContest now contest).finalTableText.isNone ||
        (site.redactedContest now contest).officialTableText.isSome)) =
      (allowShowStanding now contest && ((site.contest contest.id).finalTableText.isNone ||
        (site.contest contest.id).officialTableText.isSome)) := by
    by_cases hshow : StandingsOut now contest
    · unfold redactedContest
      rw [if_pos hshow, if_pos hshow]
    · rw [Bool.eq_false_iff.mpr ((allowShowStanding_iff now contest).not.mpr hshow), Bool.false_and, Bool.false_and]
  have hpdf : (site.redactedContest now contest).problemPdf.isSome = (site.contest contest.id).problemPdf.isSome :=
    Option.isSome_map
  have hzip : (site.redactedContest now contest).testZip.isSome = (site.contest contest.id).testZip.isSome :=
    Option.isSome_map
  unfold contestItem
  dsimp only
  rw [hcolumns, hviewer, Bool.or_false, hname, hdescription, hallow, hofficial, hpdf, hzip]

theorem contests_redact (host : Host) (hviewer : isStaff viewer = false) :
    (site.redact now viewer).contests host now viewer = site.contests host now viewer := by
  have hrows : (site.redact now viewer).db.contests = site.db.contests := rfl
  unfold contests
  rw [hrows]
  refine congrArg (Response.contests _) (List.map_congr_left fun contest hcontest => ?_)
  obtain ⟨hmem, hlisted⟩ := List.mem_filter.mp (mem_orderBy.mp hcontest)
  rw [hviewer, Bool.or_false, Bool.not_eq_true'] at hlisted
  exact site.contestItem_redact now viewer host hviewer hmem hlisted

theorem downloadProblems_redact (hviewer : isStaff viewer = false) (id : Int) :
    (site.redact now viewer).downloadProblems now viewer id = site.downloadProblems now viewer id := by
  have hcontests : (site.redact now viewer).db.contests = site.db.contests := rfl
  unfold downloadProblems
  rw [hcontests]
  cases hcontest : site.db.contests.find? id with
  | none => rfl
  | some contest =>
    obtain ⟨hcolumns, rfl⟩ := site.columns_redact now viewer hcontest
    have hallow : allowDownloadProblems now contest (site.redactedContest now contest) =
        allowDownloadProblems now contest (site.contest contest.id) := rfl
    have hpdf : (site.redactedContest now contest).problemPdf = (site.contest contest.id).problemPdf.map fun pdf =>
        if StatementsOut now contest (site.contest contest.id) then pdf else [] := rfl
    rw [hcolumns]
    dsimp only
    rw [hviewer, Bool.or_false, Bool.or_false, hallow, hpdf]
    cases (site.contest contest.id).problemPdf with
    | none => rfl
    | some pdf =>
      rw [Option.map_some]
      dsimp only
      by_cases hout : StatementsOut now contest (site.contest contest.id)
      · rw [if_pos hout]
      · have hclosed := (allowDownloadProblems_iff now contest (site.contest contest.id)).not.mpr hout
        rw [if_neg hclosed, if_neg hclosed]

theorem downloadTests_redact (hviewer : isStaff viewer = false) (id : Int) :
    (site.redact now viewer).downloadTests now viewer id = site.downloadTests now viewer id := by
  have hcontests : (site.redact now viewer).db.contests = site.db.contests := rfl
  unfold downloadTests
  rw [hcontests]
  cases hcontest : site.db.contests.find? id with
  | none => rfl
  | some contest =>
    obtain ⟨hcolumns, rfl⟩ := site.columns_redact now viewer hcontest
    have hzip : (site.redactedContest now contest).testZip =
        (site.contest contest.id).testZip.map fun zip => if TestsOut now contest then zip else [] := rfl
    dsimp only
    rw [hviewer, Bool.or_false, hcolumns, hzip]
    cases (site.contest contest.id).testZip with
    | none => rfl
    | some zip =>
      rw [Option.map_some]
      dsimp only
      by_cases hout : TestsOut now contest
      · rw [if_pos hout]
      · have hclosed := (allowDownloadTests_iff now contest).not.mpr hout
        rw [if_neg hclosed, if_neg hclosed]

theorem examples_redact (tests : List TestRow) :
    (orderBy (byKey fun test : TestRow => test.content.number)
        ((((tests.filter isExample).map redactedTest)).filter isExample)).map
          (fun test => (test.content.input, test.content.output)) =
      (orderBy (byKey fun test : TestRow => test.content.number) (tests.filter isExample)).map fun test =>
        (test.content.input, test.content.output) := by
  have hkey : ∀ a b : TestRow, byKey (fun test : TestRow => test.content.number) (redactedTest a) (redactedTest b) =
      byKey (fun test : TestRow => test.content.number) a b := fun _ _ => rfl
  have hexample : isExample ∘ redactedTest = isExample := rfl
  rw [List.filter_map, hexample, List.filter_filter, ← orderBy_map redactedTest hkey, List.map_map]
  simp only [Bool.and_self]
  rfl

theorem showText_redact (hviewer : isStaff (some principal) = false) (id : Int) :
    (site.redact now (some principal)).showText now principal id = site.showText now principal id := by
  have hcontests : (site.redact now (some principal)).db.contests = site.db.contests := rfl
  have hproblem : (site.redact now (some principal)).db.problems.find? id = _ :=
    site.find?_problem now (some principal) id
  unfold showText
  rw [hcontests, hproblem]
  cases site.db.problems.find? id with
  | none => rfl
  | some p =>
    have hcontestId : (site.redactedProblem now (some principal) p).contestId = p.contestId := rfl
    have hactive : (site.redactedProblem now (some principal) p).isActive = p.isActive := rfl
    rw [Option.map_some]
    dsimp only
    rw [hcontestId, hactive]
    cases hcontest : site.db.contests.find? p.contestId with
    | none => rfl
    | some contest =>
      obtain ⟨hcolumns, hid⟩ := site.columns_redact now (some principal) hcontest
      have hallow : allowDownloadProblems now contest (site.redactedContest now contest) =
          allowDownloadProblems now contest (site.contest contest.id) := rfl
      dsimp only
      rw [hviewer, Bool.or_false, Bool.or_false, hid, hcolumns, hallow, hid]
      by_cases h : (allowDownloadProblems now contest (site.contest p.contestId) && p.isActive) = true
      · obtain ⟨hallowed, hp⟩ := Bool.and_eq_true_iff.mp h
        have hout := (allowDownloadProblems_iff now contest (site.contest p.contestId)).mp hallowed
        have hread : site.MayRead now (some principal) p := ⟨rfl, hp, contest, hcontest, hid ▸ hout⟩
        have hname := site.redactedContest_name now hout.1
        rw [if_pos h, if_pos h, hname, hid]
        unfold redactedProblem
        simp only [hread, if_true, examples_redact]
      · rw [if_neg h, if_neg h]

/-! ### The list of submissions -/

def redactedListed (x : Listed) : Listed :=
  { x with
    submission := site.redactedSubmission now viewer x.submission
    problem := site.redactedProblem now viewer x.problem }

theorem includeAll_redact (s : Submission) :
    (site.redact now viewer).includeAll (site.redactedSubmission now viewer s) =
      (site.includeAll s).map (site.redactedListed now viewer) := by
  have hproblem : (site.redact now viewer).db.problems.find? s.problemId = _ :=
    site.find?_problem now viewer s.problemId
  show (site.db.users.find? s.userId).bind (fun account =>
    ((site.redact now viewer).db.problems.find? s.problemId).bind fun p =>
      (site.db.contests.find? p.contestId).bind fun contest =>
        (site.db.compilators.find? s.compilatorId).bind fun compilator => some _) = _
  rw [hproblem]
  unfold includeAll
  cases site.db.users.find? s.userId with
  | none => rfl
  | some account =>
    cases site.db.problems.find? s.problemId with
    | none => rfl
    | some p =>
      show (site.db.contests.find? p.contestId).bind _ = Option.map _ ((site.db.contests.find? p.contestId).bind _)
      cases site.db.contests.find? p.contestId with
      | none => rfl
      | some contest =>
        show (site.db.compilators.find? s.compilatorId).bind _ =
          Option.map _ ((site.db.compilators.find? s.compilatorId).bind _)
        cases site.db.compilators.find? s.compilatorId <;> rfl

theorem query_redact (host : Host) (staff : Bool) (search : Search) :
    (site.redact now viewer).query host staff search =
      (site.query host staff search).map (site.redactedListed now viewer) := by
  have hkey : ∀ a b : Submission, descending (byKey Submission.commitTime) (site.redactedSubmission now viewer a)
      (site.redactedSubmission now viewer b) = descending (byKey Submission.commitTime) a b := fun _ _ => rfl
  have hrows : (site.redact now viewer).db.history.submissions.rows =
      site.db.history.submissions.rows.map (site.redactedSubmission now viewer) := rfl
  unfold query
  dsimp only
  rw [hrows, ← orderBy_map (site.redactedSubmission now viewer) hkey, List.filterMap_map]
  have hinclude : (site.redact now viewer).includeAll ∘ site.redactedSubmission now viewer =
      fun s => (site.includeAll s).map (site.redactedListed now viewer) := funext (site.includeAll_redact now viewer)
  rw [hinclude, ← List.map_filterMap, List.filter_map]
  rfl

theorem mem_query {host : Host} {staff : Bool} {search : Search} {x : Listed} (h : x ∈ site.query host staff search) :
    site.includeAll x.submission = some x ∧ x.submission ∈ site.db.history.submissions.rows ∧
      (staff || x.isPublic) = true := by
  obtain ⟨hx, hfilter⟩ := List.mem_filter.mp h
  obtain ⟨s, hs, hincluded⟩ := List.mem_filterMap.mp hx
  have hsubmission : x.submission = s := by
    simp only [includeAll, Option.bind_eq_bind, Option.bind_eq_some_iff] at hincluded
    obtain ⟨account, -, problem, -, contest, -, compilator, -, hx⟩ := hincluded
    cases hx
    rfl
  rw [hsubmission]
  exact ⟨hincluded, mem_orderBy.mp hs, (Bool.and_eq_true_iff.mp hfilter).2⟩

theorem listedView_redact {x : Listed} (hviewer : viewer.isSome = true) (h : site.includeAll x.submission = some x)
    (hpublic : x.isPublic = true) :
    (site.redact now viewer).listedView (site.redactedListed now viewer x) = site.listedView x := by
  have htold : site.Told now viewer x.submission := Or.inr (Or.inl ⟨hviewer, site.isPublic_isPractice h hpublic⟩)
  have hstatus : (site.redactedSubmission now viewer x.submission).statusCode = x.submission.statusCode := if_pos htold
  have hname : ((site.redact now viewer).contest x.contest.id).name = (site.contest x.contest.id).name := by
    simp only [includeAll, Option.bind_eq_bind, Option.bind_eq_some_iff] at h
    obtain ⟨account, -, problem, -, contest, hcontest, compilator, -, hx⟩ := h
    have hsame : contest = x.contest := congrArg Listed.contest (Option.some.inj hx)
    rw [← (Table.find?_some hcontest).2, hsame] at hcontest
    rw [(site.columns_redact now viewer hcontest).1]
    exact site.redactedContest_name now (x.isPublic_iff.mp hpublic).2.2
  unfold listedView redactedListed
  dsimp only
  rw [hstatus, hname]
  rfl

theorem submissions_page_redact (host : Host) (hviewer : isStaff (some principal) = false) (n : Int) (search : Search) :
    (site.redact now (some principal)).submissions host principal n search =
      site.submissions host principal n search := by
  unfold submissions
  rw [hviewer]
  dsimp only
  rw [query_redact, ← List.map_drop, ← List.map_take, List.map_map, List.isEmpty_map]
  have hrows : (((site.query host false search).drop ((n - 1).toNat * pageSize)).take pageSize).map
        ((site.redact now (some principal)).listedView ∘ site.redactedListed now (some principal)) =
      (((site.query host false search).drop ((n - 1).toNat * pageSize)).take pageSize).map site.listedView := by
    refine List.map_congr_left fun x hx => ?_
    obtain ⟨hincluded, -, hpublic⟩ := site.mem_query (List.mem_of_mem_drop (List.mem_of_mem_take hx))
    exact site.listedView_redact now (some principal) rfl hincluded (by simpa using hpublic)
  rw [hrows]

/-! ### Single submissions -/

theorem findSource_redact (id : Int) :
    (site.redact now viewer).findSource id =
      (site.findSource id).map fun x => (site.redactedSubmission now viewer x.1, x.2) := by
  have hfind : (site.redact now viewer).db.history.submissions.find? id = _ := site.find?_submission now viewer id
  unfold findSource
  rw [hfind]
  cases site.db.history.submissions.find? id with
  | none => rfl
  | some s =>
    show (site.db.compilators.find? s.compilatorId).bind _ =
        Option.map _ ((site.db.compilators.find? s.compilatorId).bind _)
    cases site.db.compilators.find? s.compilatorId <;> rfl

theorem findSource_mem {id : Int} {s : Submission} {sourceExtension : String}
    (h : site.findSource id = some (s, sourceExtension)) : s ∈ site.db.history.submissions.rows := by
  simp only [findSource, Option.bind_eq_bind, Option.bind_eq_some_iff] at h
  obtain ⟨s', hs', compilator, -, heq⟩ := h
  cases heq
  exact (Table.find?_some hs').1

theorem code_redact (hviewer : isStaff (some principal) = false) (id : Int) :
    (site.redact now (some principal)).code principal id = site.code principal id := by
  unfold code
  rw [findSource_redact]
  cases site.findSource id with
  | none => rfl
  | some x =>
    obtain ⟨s, sourceExtension⟩ := x
    have hview : mayView (site.redact now (some principal)).db principal s.userId =
        mayView site.db principal s.userId := rfl
    rw [Option.map_some]
    dsimp only
    cases sourceExtension.toList with
    | nil => rfl
    | cons dot lang =>
      refine congrArg Except.ok ?_
      show (if mayView (site.redact now (some principal)).db principal s.userId = true then _ else _) =
        if mayView site.db principal s.userId = true then _ else _
      rw [hview, site.mayView_eq hviewer]
      by_cases howns : site.Owns (some principal) s.userId
      · rw [if_pos (decide_eq_true howns), if_pos (decide_eq_true howns)]
        exact congrArg (Response.code · _) (if_pos howns)
      · rw [if_neg (mt of_decide_eq_true howns), if_neg (mt of_decide_eq_true howns)]

theorem download_redact (host : Host) (hviewer : isStaff (some principal) = false) (id : Int) :
    (site.redact now (some principal)).download host principal id = site.download host principal id := by
  unfold download
  rw [findSource_redact]
  cases hfind : site.findSource id with
  | none => rfl
  | some x =>
    obtain ⟨s, sourceExtension⟩ := x
    have hview : mayView (site.redact now (some principal)).db principal s.userId =
        mayView site.db principal s.userId := rfl
    have hcolumns := site.submission_redact now (some principal) (site.findSource_mem hfind)
    show (if mayView (site.redact now (some principal)).db principal s.userId = true then _ else _) =
      if mayView site.db principal s.userId = true then _ else _
    rw [hview, site.mayView_eq hviewer]
    by_cases howns : site.Owns (some principal) s.userId
    · have htext : (site.redactedSubmission now (some principal) s).text = s.text := if_pos howns
      have hdescription : (site.redactedColumns now (some principal) s).description =
          (site.submission s.id).description :=
        if_pos howns
      have hid : (site.redactedSubmission now (some principal) s).id = s.id := rfl
      rw [if_pos (decide_eq_true howns), if_pos (decide_eq_true howns)]
      dsimp only
      rw [htext, hid, hcolumns, hdescription]
    · rw [if_neg (mt of_decide_eq_true howns), if_neg (mt of_decide_eq_true howns)]

theorem judging_find? (id : Int) :
    site.judging.submissions.find? id = (site.db.history.submissions.find? id).map fun s =>
      site.submissionRow.make s s.id :=
  Table.find?_made _ _ id

theorem lastResult_redact {s : Submission} (hs : s ∈ site.db.history.submissions.rows)
    (howns : site.Owns viewer s.userId) (row row' : SubmissionRow) (hrow : row.id = s.id) (hrow' : row'.id = s.id) :
    ErrorsPage.lastResult (site.redact now viewer).judging row' = ErrorsPage.lastResult site.judging row := by
  have hresults : (site.redact now viewer).judging.checkResults = site.judging.checkResults.filter fun result =>
      (site.db.history.submissions.find? result.submissionId).any fun s => decide (site.Owns viewer s.userId) := rfl
  have hkept : ∀ result : CheckResultRow, (result.submissionId == s.id &&
      (site.db.history.submissions.find? result.submissionId).any fun s => decide (site.Owns viewer s.userId)) =
        (result.submissionId == s.id) := by
    intro result
    by_cases h : result.submissionId = s.id
    · rw [h, Table.find?_of_mem hs, Option.any_some, decide_eq_true howns, Bool.and_true]
    · rw [beq_eq_false_iff_ne.mpr h, Bool.false_and]
  unfold ErrorsPage.lastResult
  rw [hresults, List.filter_filter, hrow, hrow']
  simp only [hkept]

theorem compilationErrors_redact (host : Host) (hviewer : isStaff (some principal) = false) (id : Int) :
    (site.redact now (some principal)).compilationErrors host principal id =
      site.compilationErrors host principal id := by
  have hfind : (site.redact now (some principal)).db.history.submissions.find? id = _ :=
    site.find?_submission now (some principal) id
  have hpage : ErrorsPage.onGetAsync ⟨host.march2023, host.indexOf,
      (site.redact now (some principal)).viewableRow principal⟩
      (site.redact now (some principal)).judging id =
        ErrorsPage.onGetAsync ⟨host.march2023, host.indexOf, site.viewableRow principal⟩ site.judging id := by
    unfold ErrorsPage.onGetAsync
    rw [judging_find?, judging_find?, hfind]
    cases hs : site.db.history.submissions.find? id with
    | none => rfl
    | some s =>
      have hmem := (Table.find?_some hs).1
      have hid : s.id = id := (Table.find?_some hs).2
      have hviewable : ∀ row : SubmissionRow, row.id = s.id →
          site.viewableRow principal row = decide (site.Owns (some principal) s.userId) ∧
            (site.redact now (some principal)).viewableRow principal row =
              decide (site.Owns (some principal) s.userId) := by
        intro row hrow
        unfold viewableRow
        rw [hrow, hid, hfind, hs, Option.map_some, Option.any_some, Option.any_some]
        exact ⟨site.mayView_eq hviewer s.userId, site.mayView_eq hviewer s.userId⟩
      have hstatus : (site.redactedSubmission now (some principal) s).statusCode = -1 ↔ s.statusCode = -1 := by
        unfold redactedSubmission
        dsimp only
        split
        · rfl
        · split <;> simp_all
      simp only [Option.map_some]
      generalize hrow : site.submissionRow.make s s.id = row
      generalize hrow' : (site.redact now (some principal)).submissionRow.make
        (site.redactedSubmission now (some principal) s) (site.redactedSubmission now (some principal) s).id = row'
      have hstatuses : row'.statusCode = -1 ↔ row.statusCode = -1 := by
        rw [← hrow, ← hrow']
        exact hstatus
      have hids : row.id = s.id ∧ row'.id = s.id := ⟨hrow ▸ rfl, hrow' ▸ rfl⟩
      rw [(hviewable row hids.1).1, (hviewable row' hids.2).2]
      by_cases hfailed : row.statusCode = -1
      · rw [if_neg (not_not.mpr hfailed), if_neg (not_not.mpr (hstatuses.mpr hfailed))]
        by_cases howns : site.Owns (some principal) s.userId
        · rw [decide_eq_true howns, site.lastResult_redact now (some principal) hmem howns row row' hids.1 hids.2]
          rfl
        · rw [decide_eq_false howns]
          rfl
      · rw [if_pos hfailed, if_pos fun h => hfailed (hstatuses.mp h)]
  unfold compilationErrors
  rw [hpage]

end Pages

/-! ### The pages of a contestant -/

section Contestant

theorem submits_loaded (db : Db) (id : Int) :
    (Submits.loadAsync principal id (calm now) ⟨db, 0⟩).1 =
      (currentCompetitor id principal.userId db).map fun competitor => (db.contests.find? id).map fun contest =>
        ⟨contest, activeProblems id db, db.compilators.rows.filter (·.isActive),
          Submits.submissionsOf (activeProblems id db) principal.userId (competitor.getD 0) db⟩ := by
  have hcalm : ∀ n, (calm now).fault n = none := fun _ => rfl
  have hfind : findCurrent id principal.userId (calm now) ⟨db, 0⟩ =
      (currentCompetitor id principal.userId db, ⟨db, 1⟩) :=
    read_ok hcalm (currentCompetitor id principal.userId) ⟨db, 0⟩
  unfold Submits.loadAsync
  cases h : currentCompetitor id principal.userId db with
  | error e =>
    rw [h] at hfind
    rw [bind_error hfind]
    rfl
  | ok competitor =>
    rw [h] at hfind
    rw [bind_ok hfind, bind_ok (query_ok hcalm _ _)]
    cases db.contests.find? id <;> rfl

theorem sendMessage_loaded (db : Db) (id : Int) :
    (SendMessage.loadAsync id (calm now) ⟨db, 0⟩).1 =
      .ok ((db.contests.find? id).map fun contest => ⟨contest, activeProblems id db⟩) := rfl

section Own

variable {id : Int} {competitor : Option Int}

/-- The author of what a contestant's page shows as his own. -/
theorem owns_of_current (hcurrent : currentCompetitor id principal.userId site.db = .ok competitor) {userId : Int}
    (hmentioned : site.db.history.mentions userId = true)
    (hown : userId = principal.userId ∨ userId = competitor.getD 0) :
    site.Owns (some principal) userId := by
  refine ⟨principal, rfl, ?_⟩
  rcases hown with hself | hteam
  · exact Or.inl hself.symm
  · cases competitor with
    | none =>
      obtain ⟨account, haccount, haid⟩ := site.db.history_of userId hmentioned
      have hpos := site.users_from_one account haccount
      rw [Option.getD_none] at hteam
      omega
    | some teamId =>
      refine Or.inr ?_
      rw [Option.getD_some] at hteam
      have hmem : teamId ∈ (competitorsWith id principal.userId site.db).map fun x => x.id := by
        unfold currentCompetitor at hcurrent
        generalize (competitorsWith id principal.userId site.db).map (fun x => x.id) = ids at hcurrent ⊢
        cases ids with
        | nil => cases hcurrent
        | cons first rest =>
          cases rest with
          | nil =>
            cases hcurrent
            exact List.mem_singleton_self _
          | cons second rest => cases hcurrent
      obtain ⟨team, hteams, rfl⟩ := List.mem_map.mp hmem
      obtain ⟨hcompetitor, hmember⟩ := List.mem_filter.mp hteams
      exact ⟨team, hcompetitor, hteam.symm, (Bool.and_eq_true_iff.mp hmember).2⟩

theorem mentions_submission {s : Submission} (h : s ∈ site.db.history.submissions.rows) :
    site.db.history.mentions s.userId = true := by
  unfold History.mentions
  rw [Bool.or_eq_true]
  exact Or.inl (List.any_eq_true.mpr ⟨s, h, by simp⟩)

theorem mentions_message {m : Message} {userId : Int} (h : m ∈ site.db.history.messages.rows)
    (huser : m.userId = some userId) : site.db.history.mentions userId = true := by
  unfold History.mentions
  rw [Bool.or_eq_true]
  exact Or.inr (List.any_eq_true.mpr ⟨m, h, by simp [huser]⟩)

theorem mem_submissionsOf {problems : List ProblemRow} {userId competitorId : Int} {s : Submission} {db : Db}
    (h : s ∈ Submits.submissionsOf problems userId competitorId db) :
    s ∈ db.history.submissions.rows ∧ (s.userId = userId ∨ s.userId = competitorId) := by
  unfold Submits.submissionsOf at h
  obtain ⟨problem, -, hs⟩ := List.mem_flatMap.mp (mem_orderBy.mp h)
  obtain ⟨hrow, hfilter⟩ := List.mem_filter.mp (mem_orderBy.mp hs)
  simp only [Bool.and_eq_true, Bool.or_eq_true, beq_iff_eq] at hfilter
  exact ⟨hrow, hfilter.2⟩

theorem activeProblems_redact (viewer : Option Principal) :
    activeProblems id (site.redactedDb now viewer) = (activeProblems id site.db).map
      (site.redactedProblem now viewer) := by
  have hkey : ∀ p q : ProblemRow, byKey (fun x : ProblemRow => x.number) (site.redactedProblem now viewer p)
      (site.redactedProblem now viewer q) = byKey (fun x : ProblemRow => x.number) p q := fun _ _ => rfl
  have hrows : (site.redactedDb now viewer).problems.rows = site.db.problems.rows.map
      (site.redactedProblem now viewer) := rfl
  unfold activeProblems
  rw [hrows, List.filter_map, orderBy_map (site.redactedProblem now viewer) hkey]
  rfl

theorem submissionsOf_page_redact (viewer : Option Principal) (problems : List ProblemRow) (userId competitorId : Int) :
    Submits.submissionsOf (problems.map (site.redactedProblem now viewer)) userId competitorId
      (site.redactedDb now viewer) =
      (Submits.submissionsOf problems userId competitorId site.db).map (site.redactedSubmission now viewer) := by
  have hkey : ∀ a b : Submission, descending (byKey fun x : Submission => x.commitTime)
      (site.redactedSubmission now viewer a) (site.redactedSubmission now viewer b) =
        descending (byKey fun x : Submission => x.commitTime) a b := fun _ _ => rfl
  have hrows : (site.redactedDb now viewer).history.submissions.rows =
      site.db.history.submissions.rows.map (site.redactedSubmission now viewer) := rfl
  unfold Submits.submissionsOf
  dsimp only
  rw [List.flatMap_map, orderBy_map (site.redactedSubmission now viewer) hkey, List.map_flatMap]
  refine congrArg _ (List.flatMap_congr fun problem _ => ?_)
  rw [hrows, List.filter_map, orderBy_map (site.redactedSubmission now viewer) hkey]
  rfl

theorem messagesFor_redact (hcurrent : currentCompetitor id principal.userId site.db = .ok competitor) :
    (site.redact now (some principal)).messagesFor id principal.userId (competitor.getD 0) =
      site.messagesFor id principal.userId (competitor.getD 0) := by
  have hactive : ∀ m : Message, isForUser (site.redact now (some principal)).db.problems.rows principal.userId
      (competitor.getD 0) m = isForUser site.db.problems.rows principal.userId (competitor.getD 0) m := by
    intro m
    have hrows : (site.redact now (some principal)).db.problems.rows =
        site.db.problems.rows.map (site.redactedProblem now (some principal)) := rfl
    unfold isForUser
    rw [hrows]
    cases m.problemId with
    | none => rfl
    | some problemId =>
      dsimp only
      rw [List.any_map]
      rfl
  have hrows : (site.redact now (some principal)).db.history.messages.rows =
      site.db.history.messages.rows.filter fun m => !!decide (site.IsAddressed (some principal) m) := rfl
  unfold messagesFor
  rw [hrows, List.filter_filter]
  refine congrArg _ (List.filter_congr fun m hm => ?_)
  rw [hactive, Bool.not_not]
  by_cases h : (m.contestId == id && isForUser site.db.problems.rows principal.userId (competitor.getD 0) m) = true
  · have haddressed : site.IsAddressed (some principal) m := by
      intro userId huser
      have hfor := (Bool.and_eq_true_iff.mp (Bool.and_eq_true_iff.mp h).2).2
      rw [Option.mem_def] at huser
      refine site.owns_of_current principal hcurrent (site.mentions_message hm huser) ?_
      simpa [huser] using hfor
    rw [h, decide_eq_true haddressed]
    rfl
  · rw [Bool.eq_false_iff.mpr h, Bool.false_and]

theorem cells_ids {problems problems' : List Domain.Problem}
    (h : problems.map Domain.Problem.id = problems'.map Domain.Problem.id) (submissions : List Domain.Submission) :
    (Domain.Standing.userProblemStanding problems submissions none).map Domain.Freeze.cellView =
      (Domain.Standing.userProblemStanding problems' submissions none).map Domain.Freeze.cellView := by
  let cell (id : Int) : Domain.Freeze.CellView :=
    let problemSubmissions := groupJoin id Domain.Submission.problemId submissions
    ⟨id, (Domain.Standing.success problemSubmissions).isSome,
      (Domain.Standing.signSubmissions problemSubmissions).length,
      Domain.Standing.lastCommitTime (Domain.Standing.signSubmissions problemSubmissions), false,
      Domain.Standing.cellScore (Domain.Standing.success problemSubmissions), Domain.Standing.maxScore⟩
  have hcell : ∀ problems : List Domain.Problem,
      (Domain.Standing.userProblemStanding problems submissions none).map Domain.Freeze.cellView =
        (problems.map Domain.Problem.id).map cell := by
    intro problems
    unfold Domain.Standing.userProblemStanding
    rw [List.map_map, List.map_map]
    rfl
  rw [hcell, hcell, h]

theorem ownView_redact (host : Host) (problems : List ProblemRow) {s : Submission}
    (hs : s ∈ site.db.history.submissions.rows) (howns : site.Owns (some principal) s.userId) :
    (site.redact now (some principal)).ownView host (problems.map (site.redactedProblem now (some principal)))
        (site.redactedSubmission now (some principal) s) =
      site.ownView host problems s := by
  have htold : site.Told now (some principal) s := Or.inl howns
  have hcolumns : (site.redact now (some principal)).submission (site.redactedSubmission now (some principal) s).id =
      site.redactedColumns now (some principal) s := site.submission_redact now (some principal) (s := s) hs
  have hstatus : (site.redactedSubmission now (some principal) s).statusCode = s.statusCode := if_pos htold
  have hscore : (site.redactedColumns now (some principal) s).score = (site.submission s.id).score := if_pos htold
  have hscores : (site.redactedColumns now (some principal) s).scoresByTest = (site.submission s.id).scoresByTest :=
    if_pos howns
  unfold ownView
  rw [hcolumns, hstatus, hscore, hscores, List.find?_map, Option.map_map]
  rfl

theorem messageView_redact (viewer : Option Principal) (m : Message) :
    (site.redact now viewer).messageView m = site.messageView m := by
  unfold messageView
  cases m.problemId with
  | none => rfl
  | some problemId =>
    have hproblem : (site.redact now viewer).db.problems.find? problemId = _ := site.find?_problem now viewer problemId
    rw [Option.bind_some, hproblem, Option.map_map]
    rfl

/-- The page that a contestant gets is the page with the redacted rows. -/
theorem submitsView_redact (host : Host) (contest : Contest) (compilators : List CompilatorRow)
    (hcurrent : currentCompetitor id principal.userId site.db = .ok competitor) :
    (site.redact now (some principal)).submitsView host principal id
        ⟨contest, (activeProblems id site.db).map (site.redactedProblem now (some principal)), compilators,
          (Submits.submissionsOf (activeProblems id site.db) principal.userId (competitor.getD 0) site.db).map
            (site.redactedSubmission now (some principal))⟩ =
      site.submitsView host principal id ⟨contest, activeProblems id site.db, compilators,
        Submits.submissionsOf (activeProblems id site.db) principal.userId (competitor.getD 0) site.db⟩ := by
  generalize hproblems : activeProblems id site.db = problems
  generalize hown : Submits.submissionsOf problems principal.userId (competitor.getD 0) site.db = submissions
  have hmem : ∀ s ∈ submissions, s ∈ site.db.history.submissions.rows ∧ site.Owns (some principal) s.userId := by
    intro s hs
    obtain ⟨hrow, huser⟩ := mem_submissionsOf (hown ▸ hs)
    exact ⟨hrow, site.owns_of_current principal hcurrent (site.mentions_submission hrow) huser⟩
  have hcurrent' : currentCompetitor id principal.userId (site.redact now (some principal)).db = .ok competitor :=
    hcurrent
  have hviews : (submissions.map (site.redactedSubmission now (some principal))).filterMap
        ((site.redact now (some principal)).ownView host (problems.map (site.redactedProblem now (some principal)))) =
      submissions.filterMap (site.ownView host problems) := by
    rw [List.filterMap_map]
    exact List.filterMap_congr fun s hs => site.ownView_redact now principal host problems (hmem s hs).1 (hmem s hs).2
  have hincluded : (submissions.map (site.redactedSubmission now (some principal))).filterMap
        (site.redact now (some principal)).includeUser = submissions.filterMap site.includeUser := by
    rw [List.filterMap_map]
    exact List.filterMap_congr fun s hs =>
      site.includeUser_redact now (some principal) (hmem s hs).1 (Or.inl (hmem s hs).2)
  have hids : ((problems.map (site.redactedProblem now (some principal))).map
      (site.redact now (some principal)).domainProblem).map
      Domain.Problem.id = (problems.map site.domainProblem).map Domain.Problem.id := by
    rw [List.map_map, List.map_map, List.map_map]
    rfl
  have hnames : (problems.map (site.redactedProblem now (some principal))).map problemName =
      problems.map problemName := by
    rw [List.map_map]
    rfl
  have hchosen : (submissions.map (site.redactedSubmission now (some principal))).map Submission.compilatorId =
      submissions.map Submission.compilatorId := by
    rw [List.map_map]
    rfl
  unfold submitsView Submits.Loaded.compilatorId
  rw [hcurrent, hcurrent']
  show Except.ok _ = Except.ok _
  dsimp only
  rw [site.messagesFor_redact now principal hcurrent, hviews, hincluded, cells_ids hids, hnames, hchosen,
    funext (site.messageView_redact now (some principal))]

theorem submits_redact (host : Host) (id : Int) :
    (site.redact now (some principal)).submits host now principal id = site.submits host now principal id := by
  have hcurrents : currentCompetitor id principal.userId (site.redact now (some principal)).db =
      currentCompetitor id principal.userId site.db := rfl
  have hproblems : activeProblems id (site.redact now (some principal)).db = _ :=
    site.activeProblems_redact now (some principal)
  unfold submits
  rw [submits_loaded, submits_loaded, hcurrents, hproblems]
  cases hcurrent : currentCompetitor id principal.userId site.db with
  | error e => rfl
  | ok competitor =>
    have hsubmissions : Submits.submissionsOf
        ((activeProblems id site.db).map (site.redactedProblem now (some principal))) principal.userId
        (competitor.getD 0) (site.redact now (some principal)).db = _ :=
      site.submissionsOf_page_redact now (some principal) _ principal.userId (competitor.getD 0)
    have hcontests : (site.redact now (some principal)).db.contests = site.db.contests := rfl
    have hcompilators : (site.redact now (some principal)).db.compilators = site.db.compilators := rfl
    simp only [Except.map]
    rw [hsubmissions, hcontests, hcompilators]
    cases site.db.contests.find? id with
    | none => rfl
    | some contest =>
      have hview := site.submitsView_redact now principal host contest
        (site.db.compilators.rows.filter (·.isActive)) hcurrent
      have hauthorized := site.mayTakePart_redact now principal (some principal) contest .submitSolution
      show (site.redact now (some principal)).submitsView host principal id _ >>= _ =
        site.submitsView host principal id _ >>= _
      rw [hview]
      refine congrArg (site.submitsView host principal id _ >>= ·) (funext fun view => ?_)
      exact congrArg (· >>= fun authorized => pure (if authorized = true then Response.submits view else .forbid))
        hauthorized

theorem sendMessage_redact (hviewer : isStaff (some principal) = false) (id : Int) :
    (site.redact now (some principal)).sendMessage now principal id = site.sendMessage now principal id := by
  have hproblems : activeProblems id (site.redact now (some principal)).db = _ :=
    site.activeProblems_redact now (some principal)
  have hcontests : (site.redact now (some principal)).db.contests = site.db.contests := rfl
  unfold sendMessage
  rw [sendMessage_loaded, sendMessage_loaded, hproblems, hcontests]
  cases hcontest : site.db.contests.find? id with
  | none => rfl
  | some contest =>
    obtain ⟨hcolumns, hid⟩ := site.columns_redact now (some principal) hcontest
    have hauthorized := (site.mayTakePart_redact now principal (some principal) contest .sendMessage).trans
      (mayTakePart_eq now site.db principal contest .sendMessage)
    have hnames : ((activeProblems id site.db).map (site.redactedProblem now (some principal))).map problemName =
        (activeProblems id site.db).map problemName := by
      rw [List.map_map]
      rfl
    show (mayTakePart now (site.redactedDb now (some principal)) principal contest .sendMessage >>= fun authorized =>
        pure (if authorized = true then Response.sendMessage contest
          ((site.redact now (some principal)).contest id).name
          (((activeProblems id site.db).map (site.redactedProblem now (some principal))).map problemName)
            else .forbid)) =
      (mayTakePart now site.db principal contest .sendMessage >>= fun authorized =>
        pure (if authorized = true then Response.sendMessage contest (site.contest id).name
          ((activeProblems id site.db).map problemName) else .forbid))
    rw [hauthorized, mayTakePart_eq, hnames, hcolumns]
    refine congrArg Except.ok ?_
    by_cases h : decided now site.db principal contest .sendMessage = true
    · rw [if_pos h, if_pos h, site.redactedContest_name now
        (visible_of_decided now site.db principal contest hviewer h), hid]
    · rw [if_neg h, if_neg h]

end Own

end Contestant

end Content

/-! ## Confidentiality -/

section Sample

/-- A team sends in two solutions after the freeze, and one of its members another. -/
def secretSubmissions : List Submission :=
  [⟨1, "int main()", 2, 20, 20, 2, 1, 1⟩, ⟨2, "void main()", -2001, 40, 40, 1, 1, 1⟩, ⟨3, "main", -1, 50, 50, 2, 1, 1⟩]

def secretDb : Db :=
  { CompetitorManagement.sampleDb with
    problems := ⟨[⟨1, 1, "Secret", none, true, 1000, 1000, 64, 1, 1, []⟩], 2, by decide, by decide⟩
    compilators := ⟨[⟨1, "clang", none, true⟩], 2, by decide, by decide⟩
    history := ⟨⟨secretSubmissions, 4, by decide, by decide⟩, Table.empty 1, []⟩
    history_of := by
      intro id h
      have hid : id = 1 ∨ id = 2 := by
        simp only [History.mentions, secretSubmissions, Table.empty, List.any_cons, List.any_nil, Bool.or_false,
          Bool.or_eq_true, beq_iff_eq] at h
        omega
      rcases hid with rfl | rfl
      · exact ⟨.olympUser CompetitorManagement.sampleUser, List.mem_cons_self, rfl⟩
      · exact ⟨.competitor CompetitorManagement.sampleCompetitor, List.mem_cons_of_mem _ List.mem_cons_self, rfl⟩ }

def secretSite : Content where
  db := secretDb
  contest _ := ⟨"Contest", none, none, some 10, none, none, none, none⟩
  submission _ := ⟨false, none, some 100, some "1"⟩
  sourceExtension _ := ".cpp"
  problem_of := by decide
  users_from_one := by decide

def secretHost : Host where
  culture := .ordinal
  ms := .exact
  classes := ⟨Char.isUpper, Char.isDigit, fun _ _ => rfl, fun _ _ => rfl⟩
  contains _ _ := false
  january2010 := 0
  march2023 := 0
  shortDate _ := ""
  managesContest _ _ := false
  indexOf _ _ := none
  isSeparator c := c == '/'

/-- What is left of the submissions at 60: the id, the source code and the status of each. -/
def redactedRows (viewer : Option Principal) : List (Int × String × Int) :=
  (secretSite.redact 60 viewer).db.history.submissions.rows.map fun s => (s.id, s.text, s.statusCode)

end Sample

end OlympSystem.Site.Accounts.ViewPages
