/-
  OlympSystem.Site.Drain — one checker alone with the queue: `TryCheckFromDB` until it
  returns false.

  `tryCheckFromDB` is the call in one go, as a function of the database. A `Round` has
  what the outside decides of it: the clock wherever it is read, the order in which the
  database lists rows, and the answers of the runner. `dbAt n` is the database after `n`
  rounds.

  Proved:
  - `tryCheckFromDB_run`: the call is the run of the queue's steps of one thread.
  - `mem_candidates` / `candidates_of_eligible`: the query finds the eligible submissions,
    and no other.
  - `createCheckRequest_ok`: a submission that is found has one configuration.
  - `round_idle` / `round_checks`: what a round does.
  - `queue_drains`: the whole drain.
-/

import OlympSystem.Site.Queue

namespace OlympSystem.Site.Drain

open Lib.Tables Lib.Query Lib.Program OlympSystem.Checker CheckerManager

/-! ## One call -/

structure Round where
  queryTime : Int
  claimTime : Int
  checkTime : Int
  saveTime : Int
  /-- Lists rows as the database happens to. -/
  list : List Loaded → List Loaded
  list_perm : ∀ l, (list l).Perm l
  answers : Verdict.Answers
  elapsed : TimeSpan

variable (deployment : Deployment) (checker : ConnectedChecker)

def oldest (round : Round) (candidates : List Loaded) : Option Loaded :=
  (orderBy (byKey fun x => x.submission.commitTime) (round.list candidates)).head?

/-- What a call has done: its check, what it returned or threw, and the database. -/
structure Done where
  check : Option Check
  returned : Except Exn Bool
  db : Db

def checkSubmission (round : Round) (check : Check) (db : Db) : Done :=
  let ended := (check.judge deployment round.checkTime round.answers round.elapsed).stamp round.saveTime
  ⟨some ended, (check.outcome deployment round.answers round.elapsed).map fun _ => true, ended.saveChanges db⟩

def tryCheckFromDB (round : Round) (db : Db) : Done :=
  let ids := compilatorIds db checker
  if ids.length = 0 then ⟨none, .ok false, db⟩
  else
    let span := round.queryTime - staleness
    match oldest round (candidates db ids span) with
    | none => ⟨none, .ok false, db⟩
    | some loaded =>
      if db.submissions.rows.any (isClaimed loaded span) then
        checkSubmission deployment round (attach checker loaded round.claimTime)
          (db.updateSubmissions ((claimUpdate round.claimTime).restrict (isClaimed loaded span)))
      else ⟨none, .ok true, db⟩

/-- The database after `n` rounds. -/
def dbAt (rounds : Nat → Round) (db : Db) : Nat → Db
  | 0 => db
  | n + 1 => (tryCheckFromDB deployment checker (rounds n) (dbAt rounds db n)).db

def call (rounds : Nat → Round) (db : Db) (n : Nat) : Done :=
  tryCheckFromDB deployment checker (rounds n) (dbAt deployment checker rounds db n)

/-! ## Who is eligible -/

/-- The checker has this compilator, without an error. -/
def Offers (info : CompilatorInfo) (compilator : CompilatorRow) : Prop :=
  info.error = none ∧ info.configuration.name = compilator.name ∧ some info.displayName = compilator.description

def Eligible (db : Db) (x : SubmissionRow) : Prop :=
  x.statusCode = 0 ∧
  (∃ problem ∈ db.problems.rows, problem.id = x.problemId ∧ problem.isActive = true ∧
    ∃ test ∈ problem.tests, test.content.isActive = true) ∧
  ∃ compilator ∈ db.compilators.rows, compilator.id = x.compilatorId ∧ compilator.isActive = true ∧
    ∃ info ∈ checker.compilators, Offers info compilator

instance (info : CompilatorInfo) (compilator : CompilatorRow) : Decidable (Offers info compilator) := by
  unfold Offers; infer_instance

instance (db : Db) (x : SubmissionRow) : Decidable (Eligible checker db x) := by
  unfold Eligible; infer_instance

def eligible (db : Db) : List SubmissionRow := db.submissions.rows.filter fun x => decide (Eligible checker db x)

/-- What a database promises: a problem has a contest. -/
def HasContests (db : Db) : Prop :=
  ∀ problem ∈ db.problems.rows, ∃ contest ∈ db.contests.rows, contest.id = problem.contestId

def Quiet (db : Db) : Prop := ∀ x ∈ db.submissions.rows, x.statusCode ≠ 1

/-- What is loaded with a submission is what the database has for it. -/
structure Includes (db : Db) (loaded : Loaded) : Prop where
  submission : loaded.submission ∈ db.submissions.rows
  compilator : loaded.compilator ∈ db.compilators.rows ∧ loaded.compilator.id = loaded.submission.compilatorId
  problem : loaded.problem ∈ db.problems.rows ∧ loaded.problem.id = loaded.submission.problemId
  contest : loaded.contest ∈ db.contests.rows ∧ loaded.contest.id = loaded.problem.contestId
  tests : loaded.tests = activeTests loaded.problem

variable {deployment checker}

theorem mem_compilatorIds {db : Db} {id : Int} : id ∈ compilatorIds db checker ↔
    ∃ compilator ∈ db.compilators.rows, compilator.id = id ∧ compilator.isActive = true ∧
      ∃ info ∈ checker.compilators, Offers info compilator := by
  unfold compilatorIds available Offers
  simp only [List.mem_map, List.mem_filter]
  constructor
  · rintro ⟨compilator, ⟨⟨hmem, hactive⟩, hoffered⟩, rfl⟩
    refine ⟨compilator, hmem, rfl, hactive, ?_⟩
    split at hoffered
    · cases hoffered
    · next description hdescription =>
      simp only [List.contains_eq_mem, List.mem_map, List.mem_filter, decide_eq_true_eq, Prod.mk.injEq] at hoffered
      obtain ⟨info, ⟨hinfo, herror⟩, hname, hdisplay⟩ := hoffered
      exact ⟨info, hinfo, Option.isNone_iff_eq_none.mp herror, hname, by rw [hdescription, hdisplay]⟩
  · rintro ⟨compilator, hmem, rfl, hactive, info, hinfo, herror, hname, hdisplay⟩
    refine ⟨compilator, ⟨⟨hmem, hactive⟩, ?_⟩, rfl⟩
    rw [← hdisplay]
    simp only [List.contains_eq_mem, List.mem_map, List.mem_filter, decide_eq_true_eq, Prod.mk.injEq]
    exact ⟨info, ⟨hinfo, Option.isNone_iff_eq_none.mpr herror⟩, hname, rfl⟩

theorem load_includes {db : Db} {ids : List Int} {x : SubmissionRow} {loaded : Loaded}
    (hx : x ∈ db.submissions.rows) (h : load db ids x = some loaded) :
    loaded.submission = x ∧ Includes db loaded ∧ loaded.problem.isActive = true ∧ x.compilatorId ∈ ids ∧
      ∃ test ∈ loaded.problem.tests, test.content.isActive = true := by
  unfold load at h
  split at h
  · next hcompilator hproblem =>
    split at h
    · next hcontest =>
      split at h
      · next hactive =>
        cases h
        simp only [Bool.and_eq_true, List.contains_eq_mem, decide_eq_true_eq, List.any_eq_true] at hactive
        refine ⟨rfl, ⟨hx, ?_, ?_, ?_, rfl⟩, hactive.1.1, hactive.1.2, hactive.2⟩
        · exact Table.find?_some hcompilator
        · exact Table.find?_some hproblem
        · exact Table.find?_some hcontest
      · cases h
    · cases h
  · cases h

/-- The joins find the eligible submissions. -/
theorem load_isSome {db : Db} (hcontests : HasContests db) {x : SubmissionRow} (hx : x ∈ db.submissions.rows)
    (h0 : x.statusCode = 0) : (load db (compilatorIds db checker) x).isSome = decide (Eligible checker db x) := by
  rw [Bool.eq_iff_iff, decide_eq_true_eq, Option.isSome_iff_exists]
  constructor
  · rintro ⟨loaded, hload⟩
    obtain ⟨rfl, hincludes, hactive, hids, htests⟩ := load_includes hx hload
    obtain ⟨compilator, hcompilator⟩ := mem_compilatorIds.mp hids
    exact ⟨h0, ⟨loaded.problem, hincludes.problem.1, hincludes.problem.2, hactive, htests⟩, compilator, hcompilator⟩
  · rintro ⟨-, ⟨problem, hproblem, hpid, hactive, htests⟩, compilator, hcompilator, hcid, hoffered⟩
    obtain ⟨contest, hcontest, hid⟩ := hcontests problem hproblem
    have hids : x.compilatorId ∈ compilatorIds db checker :=
      mem_compilatorIds.mpr ⟨compilator, hcompilator, hcid, hoffered⟩
    refine ⟨⟨x, compilator, problem, activeTests problem, contest⟩, ?_⟩
    unfold load
    rw [← hcid, ← hpid, Table.find?_of_mem hcompilator, Table.find?_of_mem hproblem]
    simp only [← hid, Table.find?_of_mem hcontest]
    rw [if_pos]
    simp only [Bool.and_eq_true, List.contains_eq_mem, decide_eq_true_eq, List.any_eq_true]
    exact ⟨⟨hactive, hcid ▸ hids⟩, htests⟩

theorem Includes.submission_eq {db : Db} {loaded : Loaded} (h : Includes db loaded) {x : SubmissionRow}
    (hx : x ∈ db.submissions.rows) (hid : x.id = loaded.submission.id) : x = loaded.submission :=
  Table.row_unique hx h.submission hid

theorem isPending_iff {db : Db} (hquiet : Quiet db) {span : Int} {x : SubmissionRow} (hx : x ∈ db.submissions.rows) :
    isPending span x = true ↔ x.statusCode = 0 := by
  have hne := hquiet x hx
  unfold isPending
  simp [hne]

theorem mem_candidates {db : Db} (hquiet : Quiet db) {span : Int} {loaded : Loaded}
    (h : loaded ∈ candidates db (compilatorIds db checker) span) :
    Includes db loaded ∧ Eligible checker db loaded.submission := by
  obtain ⟨x, hx, hload⟩ := List.mem_filterMap.mp h
  obtain ⟨hmem, hpending⟩ := List.mem_filter.mp hx
  obtain ⟨rfl, hincludes, hactive, hids, htests⟩ := load_includes hmem hload
  exact ⟨hincludes, (isPending_iff hquiet hmem).mp hpending,
    ⟨loaded.problem, hincludes.problem.1, hincludes.problem.2, hactive, htests⟩, mem_compilatorIds.mp hids⟩

theorem candidates_of_eligible {db : Db} (hcontests : HasContests db) (span : Int) {x : SubmissionRow}
    (hx : x ∈ eligible checker db) :
    ∃ loaded ∈ candidates db (compilatorIds db checker) span, loaded.submission = x := by
  obtain ⟨hmem, heligible⟩ := List.mem_filter.mp hx
  have h0 : x.statusCode = 0 := (of_decide_eq_true heligible).1
  rw [← load_isSome hcontests hmem h0, Option.isSome_iff_exists] at heligible
  obtain ⟨loaded, hload⟩ := heligible
  have hpending : isPending span x = true := by unfold isPending; simp [h0]
  exact ⟨loaded, List.mem_filterMap.mpr ⟨x, List.mem_filter.mpr ⟨hmem, hpending⟩, hload⟩,
    (load_includes hmem hload).1⟩

/-! ## The request -/

/-- The request for a submission: its configuration, its tests in order, its time limit. -/
structure IsRequest (checker : ConnectedChecker) (loaded : Loaded) (request : CheckRequest) : Prop where
  submission : request.name = toString loaded.submission.id ∧ request.source = loaded.submission.text
  compilator : request.compilator ∈ checker.compilators ∧ Offers request.compilator loaded.compilator
  tests : request.tests.Perm ((loaded.problem.tests.filter (·.content.isActive)).map fun test =>
    ⟨test.content.number, test.content.input, test.content.output, test.content.score⟩)
  order : request.tests.Pairwise (·.number ≤ ·.number)
  timeLimit : request.timeLimit = .fromSeconds (if request.compilator.configuration.useSlowTimeLimit = true then
    loaded.problem.slowTimeLimit else loaded.problem.timeLimit)

/-- A name that one configuration has is found by both ways of matching. -/
theorem createCheckRequest_ok {db : Db} (hnames : (checker.compilators.map (·.configuration.name)).Nodup)
    {loaded : Loaded} (hincludes : Includes db loaded) (h : Eligible checker db loaded.submission)
    (culture : Domain.Culture) :
    ∃ request, createCheckRequest culture checker loaded = .ok request ∧ IsRequest checker loaded request := by
  obtain ⟨-, -, compilator, hcompilator, hid, -, info, hinfo, hoffers⟩ := h
  have hrow : compilator = loaded.compilator :=
    Table.row_unique hcompilator hincludes.compilator.1 (hid.trans hincludes.compilator.2.symm)
  rw [hrow] at hoffers
  have hfilter : (checker.compilators.filter fun x => x.configuration.name == loaded.compilator.name &&
      some x.displayName == loaded.compilator.description) = [info] := by
    have hunique : ∀ x ∈ checker.compilators, (x.configuration.name == loaded.compilator.name &&
        some x.displayName == loaded.compilator.description) = true → x = info := by
      intro x hx hmatch
      simp only [Bool.and_eq_true, beq_iff_eq] at hmatch
      exact List.inj_on_of_nodup_map hnames hx hinfo (hmatch.1.trans hoffers.2.1.symm)
    have hmem : info ∈ checker.compilators.filter fun x => x.configuration.name == loaded.compilator.name &&
        some x.displayName == loaded.compilator.description :=
      List.mem_filter.mpr ⟨hinfo, by simp [hoffers.2.1, hoffers.2.2]⟩
    have hnodup := (List.Nodup.of_map _ hnames).filter fun x : CompilatorInfo =>
      x.configuration.name == loaded.compilator.name && some x.displayName == loaded.compilator.description
    refine List.perm_singleton.mp ((List.perm_ext_iff_of_nodup hnodup (List.nodup_singleton _)).mpr fun x => ?_)
    rw [List.mem_singleton]
    constructor
    · intro hx
      obtain ⟨hx, hmatch⟩ := List.mem_filter.mp hx
      exact hunique x hx hmatch
    · rintro rfl; exact hmem
  unfold createCheckRequest singleOrDefault
  simp only [hfilter]
  have hsorted := orderBy_sorted (byKey_totalPreorder fun test : TestRow => test.content.number)
    (loaded.problem.tests.filter (·.content.isActive))
  refine ⟨_, rfl, ⟨rfl, rfl⟩, ⟨hinfo, hoffers⟩, ?_, ?_, rfl⟩
  · rw [hincludes.tests]
    exact (orderBy_perm _ _).map _
  · rw [hincludes.tests, List.pairwise_map]
    exact hsorted.imp fun hle => by simpa [byKey] using hle

/-! ## A round -/

/-- Tables that a drain only reads. -/
structure Unchanged (db db' : Db) : Prop where
  contests : db'.contests = db.contests
  compilators : db'.compilators = db.compilators
  checkers : db'.checkers = db.checkers
  problems : db'.problems = db.problems
  nextTest : db'.nextTest = db.nextTest

/-- The request that was checked for a submission, and its result. -/
structure Checked (deployment : Deployment) (checker : ConnectedChecker) (round : Round) (loaded : Loaded)
    (request : CheckRequest) (result : CheckerResult) : Prop where
  created : createCheckRequest deployment.service.culture checker loaded = .ok request
  isRequest : IsRequest checker loaded request
  returned : (Prog.solo (checker.service.check deployment.platform request round.elapsed)
    checker.service.initialFields round.answers).result = .ok result
  code : result.statusCode ≠ 0 ∧ result.statusCode ≠ 1

def judgedRow (round : Round) (x : SubmissionRow) (result : CheckerResult) : SubmissionRow :=
  { x with
    statusCode := result.statusCode
    lastModification := round.saveTime
    score := result.score
    scoresByTest := result.testResults }

/-- One submission is judged, with this result. -/
structure Judges (deployment : Deployment) (checker : ConnectedChecker) (round : Round) (db db' : Db)
    (loaded : Loaded) (result : CheckerResult) : Prop where
  includes : Includes db loaded
  chosen : loaded.submission ∈ eligible checker db
  first : ∀ x ∈ eligible checker db, loaded.submission.commitTime ≤ x.commitTime
  checked : ∃ request, Checked deployment checker round loaded request result
  rows : db'.submissions.rows = db.submissions.rows.map fun y =>
    if y.id = loaded.submission.id then judgedRow round loaded.submission result else y
  checkResults : db'.checkResults = db.checkResults ++ [⟨loaded.submission.id, round.checkTime, result.statusCode,
    result.log, result.score, result.testResults⟩]
  unchanged : Unchanged db db'

def CheckReturns (deployment : Deployment) (checker : ConnectedChecker) (round : Round) (loaded : Loaded) : Prop :=
  ∀ request, createCheckRequest deployment.service.culture checker loaded = .ok request →
    ∃ result, (Prog.solo (checker.service.check deployment.platform request round.elapsed)
      checker.service.initialFields round.answers).result = .ok result

theorem oldest_mem {round : Round} {loads : List Loaded} {loaded : Loaded} (h : oldest round loads = some loaded) :
    loaded ∈ loads ∧ ∀ x ∈ loads, loaded.submission.commitTime ≤ x.submission.commitTime := by
  obtain ⟨hmem, hfirst⟩ := first_orderBy (byKey_totalPreorder _) h
  have hperm := round.list_perm loads
  refine ⟨hperm.mem_iff.mp hmem, fun x hx => ?_⟩
  have hle := hfirst x (hperm.mem_iff.mpr hx)
  simpa [byKey] using hle

theorem oldest_none {round : Round} {loads : List Loaded} : oldest round loads = none ↔ loads = [] := by
  unfold oldest
  rw [List.head?_eq_none_iff, ← List.length_eq_zero_iff, orderBy_length, (round.list_perm loads).length_eq,
    List.length_eq_zero_iff]

/-- A round with nothing to do. -/
theorem round_idle {db : Db} (hquiet : Quiet db) (h : eligible checker db = []) (round : Round) :
    tryCheckFromDB deployment checker round db = ⟨none, .ok false, db⟩ := by
  have hnone : candidates db (compilatorIds db checker) (round.queryTime - staleness) = [] := by
    refine List.eq_nil_iff_forall_not_mem.mpr fun loaded hloaded => ?_
    obtain ⟨hincludes, heligible⟩ := mem_candidates hquiet hloaded
    have hmem : loaded.submission ∈ eligible checker db :=
      List.mem_filter.mpr ⟨hincludes.submission, decide_eq_true heligible⟩
    rw [h] at hmem
    cases hmem
  unfold tryCheckFromDB
  simp only [oldest_none.mpr hnone]
  split <;> rfl

theorem write_original (check : Check) : check.write check.original =
    { check.original with
      statusCode := check.current.statusCode
      lastModification := check.current.lastModification
      score := check.current.score
      scoresByTest := check.current.scoresByTest } := by
  simp only [Check.write, saved_fresh]

/-- The claim and the save, together, on one row. -/
theorem write_row {db : Db} {loaded : Loaded} (hincludes : Includes db loaded) (h0 : loaded.submission.statusCode = 0)
    (round : Round) (span : Int) (result : CheckerResult) {y : SubmissionRow} (hy : y ∈ db.submissions.rows) :
    let check := ((attach checker loaded round.claimTime).succeeded round.checkTime result).stamp round.saveTime
    (check.writeUpdate.restrict (·.id == check.original.id)).apply
      (((claimUpdate round.claimTime).restrict (isClaimed loaded span)).apply y) =
        if y.id = loaded.submission.id then judgedRow round loaded.submission result else y := by
  intro check
  rw [SubmissionUpdate.restrict_apply, SubmissionUpdate.restrict_apply]
  by_cases hid : y.id = loaded.submission.id
  · have hrow : y = loaded.submission := hincludes.submission_eq hy hid
    have hclaimed : isClaimed loaded span y = true := by unfold isClaimed isPending; simp [hrow, h0]
    have hattached : (claimUpdate round.claimTime).apply y = check.original := by rw [hrow]; rfl
    rw [if_pos hclaimed, hattached, if_pos (beq_self_eq_true _), if_pos hid]
    exact write_original check
  · have hclaimed : ¬isClaimed loaded span y = true := by unfold isClaimed; simp [hid]
    have hother : ¬(y.id == check.original.id) = true := fun heq => hid (beq_iff_eq.mp heq)
    rw [if_neg hclaimed, if_neg hother, if_neg hid]

/-- A round with an eligible submission judges the oldest. -/
theorem round_checks {db : Db} (hcontests : HasContests db) (hquiet : Quiet db)
    (hnames : (checker.compilators.map (·.configuration.name)).Nodup) (h : eligible checker db ≠ []) (round : Round)
    (hreturns : ∀ loaded, oldest round (candidates db (compilatorIds db checker) (round.queryTime - staleness)) =
      some loaded → CheckReturns deployment checker round loaded) :
    ∃ loaded result check db', tryCheckFromDB deployment checker round db = ⟨some check, .ok true, db'⟩ ∧
      check.loaded = loaded ∧ Judges deployment checker round db db' loaded result := by
  obtain ⟨x, hx⟩ := List.exists_mem_of_ne_nil _ h
  have hsome : candidates db (compilatorIds db checker) (round.queryTime - staleness) ≠ [] := by
    obtain ⟨loaded, hloaded, -⟩ := candidates_of_eligible hcontests (round.queryTime - staleness) hx
    exact List.ne_nil_of_mem hloaded
  obtain ⟨loaded, hloaded⟩ := Option.ne_none_iff_exists'.mp fun hnone => hsome (oldest_none.mp hnone)
  obtain ⟨hmem, hfirst⟩ := oldest_mem hloaded
  obtain ⟨hincludes, heligible⟩ := mem_candidates hquiet hmem
  obtain ⟨request, hrequest, hisRequest⟩ :=
    createCheckRequest_ok hnames hincludes heligible deployment.service.culture
  obtain ⟨result, hresult⟩ := hreturns loaded hloaded request hrequest
  have hids : (compilatorIds db checker).length ≠ 0 := by
    obtain ⟨-, -, compilator, hcompilator⟩ := heligible
    exact fun hzero => List.ne_nil_of_mem (mem_compilatorIds.mpr ⟨compilator, hcompilator⟩)
      (List.length_eq_zero_iff.mp hzero)
  have hclaim : db.submissions.rows.any (isClaimed loaded (round.queryTime - staleness)) = true := by
    refine List.any_eq_true.mpr ⟨loaded.submission, hincludes.submission, ?_⟩
    unfold isClaimed isPending
    simp [heligible.1]
  have houtcome : (attach checker loaded round.claimTime).outcome deployment round.answers round.elapsed =
      .ok result := by
    have hattached : createCheckRequest deployment.service.culture (attach checker loaded round.claimTime).checker
        (attach checker loaded round.claimTime).loaded = .ok request := hrequest
    rw [Check.outcome_eq hattached]
    exact hresult
  let check := ((attach checker loaded round.claimTime).succeeded round.checkTime result).stamp round.saveTime
  let claimed := db.updateSubmissions
    ((claimUpdate round.claimTime).restrict (isClaimed loaded (round.queryTime - staleness)))
  have hchosen : loaded.submission ∈ eligible checker db :=
    List.mem_filter.mpr ⟨hincludes.submission, decide_eq_true heligible⟩
  have hcode := Verdict.check_code deployment.platform round.elapsed hresult
  refine ⟨loaded, result, check, check.saveChanges claimed, ?_, rfl, ⟨hincludes, hchosen, fun y hy => ?_,
    ⟨request, hrequest, hisRequest, hresult, hcode⟩, ?_, rfl, ⟨rfl, rfl, rfl, rfl, rfl⟩⟩⟩
  · unfold tryCheckFromDB checkSubmission Check.judge
    simp only [if_neg hids, hloaded, if_pos hclaim, houtcome]
    rfl
  · obtain ⟨other, hother, rfl⟩ := candidates_of_eligible hcontests (round.queryTime - staleness) hy
    exact hfirst other hother
  · show (List.map _ (List.map _ _)) = _
    rw [List.map_map]
    exact List.map_congr_left fun y hy => write_row hincludes heligible.1 round _ result hy

/-! ## The queue's steps -/

/-- The steps of the queue that a call takes as thread `a`, if it picks this submission. -/
def events (checker : ConnectedChecker) (a : Nat) (now : Int) (round : Round) : Option Int → List Queue.Ev
  | none => [.tryCheckFromDB checker, .tick (round.queryTime - now).toNat, .enter a, .pick a none, .leave a]
  | some id =>
    [.tryCheckFromDB checker, .tick (round.queryTime - now).toNat, .enter a,
      .tick (round.claimTime - round.queryTime).toNat, .pick a (some id), .claim a, .leave a,
      .tick (round.checkTime - round.claimTime).toNat, .judge a round.answers round.elapsed,
      .tick (round.saveTime - round.checkTime).toNat, .stamp a, .enter a, .save a, .leave a]

/-- The clock is read in order. -/
def Round.InOrder (round : Round) (now : Int) : Prop :=
  now ≤ round.queryTime ∧ round.queryTime ≤ round.claimTime ∧ round.claimTime ≤ round.checkTime ∧
    round.checkTime ≤ round.saveTime

theorem call_last (db : Db) (now : Int) (gate : Option Nat) (calls : List Queue.Call) (c : Queue.Call) :
    Queue.St.call ⟨db, now, gate, calls ++ [c]⟩ calls.length = c := by
  simp [Queue.St.call]

theorem put_last (db : Db) (now : Int) (gate : Option Nat) (calls : List Queue.Call) (c c' : Queue.Call) :
    Queue.St.put ⟨db, now, gate, calls ++ [c]⟩ calls.length c' = ⟨db, now, gate, calls ++ [c']⟩ := by
  simp [Queue.St.put]

theorem add_until {now t : Int} (h : now ≤ t) : now + ((t - now).toNat : Int) = t := by omega

theorem candidates_unique {db : Db} {ids : List Int} {span : Int} {loaded loaded' : Loaded}
    (h : loaded ∈ candidates db ids span) (h' : loaded' ∈ candidates db ids span)
    (hid : loaded.submission.id = loaded'.submission.id) : loaded = loaded' := by
  obtain ⟨x, hx, hload⟩ := List.mem_filterMap.mp h
  obtain ⟨x', hx', hload'⟩ := List.mem_filterMap.mp h'
  have hmem := (List.mem_filter.mp hx).1
  have hmem' := (List.mem_filter.mp hx').1
  have hrow : x = x' := by
    refine Table.row_unique hmem hmem' ?_
    rw [← (load_includes hmem hload).1, ← (load_includes hmem' hload').1]
    exact hid
  rw [hrow, hload'] at hload
  exact (Option.some.inj hload).symm

/-- A candidate that none is earlier than can be picked. -/
theorem first_of_mem {db : Db} {ids : List Int} {span : Int} {loaded : Loaded} (hmem : loaded ∈ candidates db ids span)
    (hfirst : ∀ x ∈ candidates db ids span, loaded.submission.commitTime ≤ x.submission.commitTime) :
    first (candidates db ids span) loaded.submission.id = some loaded := by
  have hfind : (candidates db ids span).find? (·.submission.id == loaded.submission.id) = some loaded := by
    cases hfound : (candidates db ids span).find? (·.submission.id == loaded.submission.id) with
    | none =>
      have hnone := List.find?_eq_none.mp hfound loaded hmem
      simp at hnone
    | some found =>
      have hid : found.submission.id = loaded.submission.id := by simpa using List.find?_some hfound
      rw [candidates_unique (List.mem_of_find?_eq_some hfound) hmem hid]
  unfold first
  rw [hfind]
  exact if_pos (List.all_eq_true.mpr fun x hx => decide_eq_true (hfirst x hx))

/-- The oldest is what the step of a claim picks. -/
theorem first_of_oldest {db : Db} {ids : List Int} {span : Int} {round : Round} {loaded : Loaded}
    (h : oldest round (candidates db ids span) = some loaded) :
    first (candidates db ids span) loaded.submission.id = some loaded :=
  first_of_mem (oldest_mem h).1 (oldest_mem h).2

theorem claimed_of_candidate {db : Db} {ids : List Int} {span : Int} {loaded : Loaded}
    (h : loaded ∈ candidates db ids span) : db.submissions.rows.any (isClaimed loaded span) = true := by
  obtain ⟨x, hx, hload⟩ := List.mem_filterMap.mp h
  obtain ⟨hmem, hpending⟩ := List.mem_filter.mp hx
  obtain ⟨rfl, -⟩ := load_includes hmem hload
  exact List.any_eq_true.mpr ⟨loaded.submission, hmem, by unfold isClaimed; simp [hpending]⟩

/-- Alone with the gate, a call is a run of the queue's steps. -/
theorem tryCheckFromDB_run {s : Queue.St} {round : Round} (hgate : s.gate = none) (htimes : round.InOrder s.now) :
    let id := (oldest round (candidates s.db (compilatorIds s.db checker) (round.queryTime - staleness))).map
      (·.submission.id)
    let last := Lib.Runs.final (Queue.step deployment) s (events checker s.calls.length s.now round id)
    last.db = (tryCheckFromDB deployment checker round s.db).db ∧ last.gate = none ∧
      (last.calls = s.calls ∨ last.calls = s.calls ++ [.over]) := by
  obtain ⟨db, now, gate, calls⟩ := s
  obtain ⟨hquery, hclaim, hcheck, hsave⟩ := htimes
  simp only at hgate hquery
  subst hgate
  intro id last
  by_cases hids : (compilatorIds db checker).length = 0
  · -- the call returns before it waits for the gate
    have hover : Queue.St.call ⟨db, round.queryTime, none, calls⟩ calls.length = .over := Queue.call_length _
    have hrun : last = ⟨db, round.queryTime, none, calls⟩ := by
      unfold last
      cases id <;>
        simp only [events, Lib.Runs.final, Queue.step, Queue.stepGate, if_pos hids, add_until hquery, hover]
    unfold tryCheckFromDB
    rw [hrun, if_pos hids]
    exact ⟨rfl, rfl, Or.inl rfl⟩
  · cases hloaded : oldest round (candidates db (compilatorIds db checker) (round.queryTime - staleness)) with
    | none =>
      have hempty : (candidates db (compilatorIds db checker) (round.queryTime - staleness)).length = 0 :=
        List.length_eq_zero_iff.mpr (oldest_none.mp hloaded)
      have hrun : last = ⟨db, round.queryTime, none, calls ++ [.over]⟩ := by
        unfold last id
        simp only [hloaded, Option.map_none, events, Lib.Runs.final, Queue.step, Queue.stepGate, Queue.stepCheck,
          Queue.St.begin, if_neg hids, call_last, put_last, add_until hquery, if_pos hempty]
      have hidle : (tryCheckFromDB deployment checker round db).db = db := by
        unfold tryCheckFromDB
        simp only [if_neg hids, hloaded]
      rw [hrun]
      exact ⟨hidle.symm, rfl, Or.inr rfl⟩
    | some loaded =>
      have hfirst := first_of_oldest hloaded
      have hclaimed := claimed_of_candidate (oldest_mem hloaded).1
      have hrun : last = ⟨(tryCheckFromDB deployment checker round db).db, round.saveTime, none, calls ++ [.over]⟩ := by
        unfold last id tryCheckFromDB
        simp only [hloaded, Option.map_some, events, Lib.Runs.final, Queue.step, Queue.stepGate, Queue.stepCheck,
          Queue.St.begin, if_neg hids, call_last, put_last, add_until hquery, add_until hclaim, add_until hcheck,
          add_until hsave, hfirst, if_pos hclaimed]
        rfl
      rw [hrun]
      exact ⟨rfl, rfl, Or.inr rfl⟩

/-! ## What a round leaves -/

section After

variable {round : Round} {db db' : Db} {loaded : Loaded} {result : CheckerResult}

theorem Unchanged.eligible_iff (h : Unchanged db db') (x : SubmissionRow) :
    Eligible checker db' x ↔ Eligible checker db x := by
  unfold Eligible
  rw [h.problems, h.compilators]

theorem Unchanged.hasContests (h : Unchanged db db') (hcontests : HasContests db) : HasContests db' := by
  unfold HasContests
  rw [h.problems, h.contests]
  exact hcontests

theorem Unchanged.trans {db'' : Db} (h : Unchanged db db') (h' : Unchanged db' db'') : Unchanged db db'' :=
  ⟨h'.contests.trans h.contests, h'.compilators.trans h.compilators, h'.checkers.trans h.checkers,
    h'.problems.trans h.problems, h'.nextTest.trans h.nextTest⟩

variable (h : Judges deployment checker round db db' loaded result)

include h

theorem Judges.code : result.statusCode ≠ 0 ∧ result.statusCode ≠ 1 := by
  obtain ⟨request, hchecked⟩ := h.checked
  exact hchecked.code

theorem Judges.quiet (hquiet : Quiet db) : Quiet db' := by
  intro y hy
  rw [h.rows] at hy
  obtain ⟨x, hx, rfl⟩ := List.mem_map.mp hy
  by_cases hid : x.id = loaded.submission.id
  · rw [if_pos hid]; exact h.code.2
  · rw [if_neg hid]; exact hquiet x hx

/-- The judged submission has its row. -/
theorem Judges.row_mem : judgedRow round loaded.submission result ∈ db'.submissions.rows := by
  rw [h.rows]
  exact List.mem_map.mpr ⟨loaded.submission, h.includes.submission, if_pos rfl⟩

theorem Judges.other_mem {x : SubmissionRow} (hx : x ∈ db.submissions.rows) (hid : x.id ≠ loaded.submission.id) :
    x ∈ db'.submissions.rows := by
  rw [h.rows]
  exact List.mem_map.mpr ⟨x, hx, if_neg hid⟩

/-- One submission less is eligible. -/
theorem Judges.eligible_perm : (loaded.submission :: eligible checker db').Perm (eligible checker db) := by
  have hrest : eligible checker db' = (eligible checker db).erase loaded.submission := by
    have hnodup : (eligible checker db).Nodup := (List.Nodup.of_map _ db.submissions.keys).filter _
    rw [hnodup.erase_eq_filter]
    unfold eligible
    rw [h.rows, List.filter_map, List.filter_filter]
    have hfilter : db.submissions.rows.filter ((fun x => decide (Eligible checker db' x)) ∘ fun y =>
        if y.id = loaded.submission.id then judgedRow round loaded.submission result else y) =
        db.submissions.rows.filter fun y => (y != loaded.submission) && decide (Eligible checker db y) := by
      refine List.filter_congr fun y hy => ?_
      rw [Function.comp_apply, Bool.eq_iff_iff, Bool.and_eq_true, decide_eq_true_eq, decide_eq_true_eq,
        h.unchanged.eligible_iff]
      by_cases hid : y.id = loaded.submission.id
      · have hrow : y = loaded.submission := h.includes.submission_eq hy hid
        rw [if_pos hid, hrow]
        exact ⟨fun heligible => absurd heligible.1 h.code.1, fun ⟨hne, _⟩ => absurd hne (by simp)⟩
      · have hne : (y != loaded.submission) = true := bne_iff_ne.mpr fun heq => hid (heq ▸ rfl)
        rw [if_neg hid]
        exact ⟨fun heligible => ⟨hne, heligible⟩, fun ⟨_, heligible⟩ => heligible⟩
    rw [hfilter]
    refine (List.map_congr_left fun y hy => ?_).trans (List.map_id _)
    obtain ⟨hmem, hne⟩ := List.mem_filter.mp hy
    have hid : y.id ≠ loaded.submission.id := fun hid => by
      rw [h.includes.submission_eq hmem hid] at hne
      simp at hne
    rw [if_neg hid, id]
  rw [hrest]
  exact (List.perm_cons_erase h.chosen).symm

end After

/-! ## The drain -/

/-- What was judged in a round. -/
structure Judgement where
  round : Round
  loaded : Loaded
  request : CheckRequest
  result : CheckerResult

def Judgement.row (j : Judgement) : SubmissionRow := judgedRow j.round j.loaded.submission j.result

def Judgement.log (j : Judgement) : CheckResultRow :=
  ⟨j.loaded.submission.id, j.round.checkTime, j.result.statusCode, j.result.log, j.result.score, j.result.testResults⟩

/-- The rounds of a drain: as many return true as submissions are eligible, then one
    returns false. -/
structure Drained (deployment : Deployment) (checker : ConnectedChecker) (rounds : Nat → Round) (db : Db)
    (judgements : List Judgement) (last : Db) : Prop where
  count : judgements.length = (eligible checker db).length
  true_rounds : ∀ n < judgements.length, (call deployment checker rounds db n).returned = .ok true
  finished : (call deployment checker rounds db judgements.length).returned = .ok false
  ends : (call deployment checker rounds db judgements.length).db = last
  /-- Round `n` makes the check of judgement `n`. -/
  checks : ∀ n j, judgements[n]? = some j → j.round = rounds n ∧
    ∃ check, (call deployment checker rounds db n).check = some check ∧ check.loaded = j.loaded
  once : (judgements.map (·.loaded.submission)).Perm (eligible checker db)
  order : judgements.Pairwise fun j j' => j.loaded.submission.commitTime ≤ j'.loaded.submission.commitTime
  checked : ∀ j ∈ judgements, Includes db j.loaded ∧ Checked deployment checker j.round j.loaded j.request j.result
  rows : ∀ j ∈ judgements, j.row ∈ last.submissions.rows
  untouched : ∀ x ∈ db.submissions.rows, ¬Eligible checker db x → x ∈ last.submissions.rows
  checkResults : last.checkResults = db.checkResults ++ judgements.map Judgement.log
  unchanged : Unchanged db last

/-- Each check a drain makes returns. -/
def ChecksReturn (deployment : Deployment) (checker : ConnectedChecker) (rounds : Nat → Round) (db : Db) : Prop :=
  ∀ n loaded, oldest (rounds n) (candidates (dbAt deployment checker rounds db n)
      (compilatorIds (dbAt deployment checker rounds db n) checker) ((rounds n).queryTime - staleness)) = some loaded →
    CheckReturns deployment checker (rounds n) loaded

/-- The rounds after the first are the rounds of its database. -/
theorem dbAt_succ (rounds : Nat → Round) (db : Db) (n : Nat) : dbAt deployment checker rounds db (n + 1) =
    dbAt deployment checker (fun n => rounds (n + 1)) (tryCheckFromDB deployment checker (rounds 0) db).db n := by
  induction n with
  | zero => rfl
  | succ n ih =>
    show (tryCheckFromDB deployment checker (rounds (n + 1)) (dbAt deployment checker rounds db (n + 1))).db = _
    rw [ih]
    rfl

theorem call_succ (rounds : Nat → Round) (db : Db) (n : Nat) : call deployment checker rounds db (n + 1) =
    call deployment checker (fun n => rounds (n + 1)) (tryCheckFromDB deployment checker (rounds 0) db).db n := by
  unfold call
  rw [dbAt_succ]

theorem ChecksReturn.tail {rounds : Nat → Round} {db : Db} (h : ChecksReturn deployment checker rounds db) :
    ChecksReturn deployment checker (fun n => rounds (n + 1))
      (tryCheckFromDB deployment checker (rounds 0) db).db := by
  intro n loaded hloaded
  rw [← dbAt_succ] at hloaded
  exact h (n + 1) loaded hloaded

theorem Includes.before {round : Round} {db db' : Db} {loaded loaded' : Loaded} {result : CheckerResult}
    (h : Judges deployment checker round db db' loaded result) (hmem : loaded'.submission ∈ eligible checker db)
    (hincludes : Includes db' loaded') : Includes db loaded' := by
  obtain ⟨-, hcompilator, hproblem, hcontest, htests⟩ := hincludes
  rw [h.unchanged.compilators] at hcompilator
  rw [h.unchanged.problems] at hproblem
  rw [h.unchanged.contests] at hcontest
  exact ⟨(List.mem_filter.mp hmem).1, hcompilator, hproblem, hcontest, htests⟩

/-- The first judgement, in front of the others. -/
theorem drained_cons {rounds : Nat → Round} {db db' last : Db} {check : Check} {j : Judgement}
    {judgements : List Judgement} (hround : j.round = rounds 0)
    (hcall : tryCheckFromDB deployment checker (rounds 0) db = ⟨some check, .ok true, db'⟩)
    (hloaded : check.loaded = j.loaded) (hjudges : Judges deployment checker j.round db db' j.loaded j.result)
    (hchecked : Checked deployment checker j.round j.loaded j.request j.result)
    (h : Drained deployment checker (fun n => rounds (n + 1)) db' judgements last) :
    Drained deployment checker rounds db (j :: judgements) last := by
  have hperm := hjudges.eligible_perm
  have honce : ((j :: judgements).map (·.loaded.submission)).Perm (eligible checker db) :=
    (h.once.cons j.loaded.submission).trans hperm
  have hlater : ∀ n, call deployment checker rounds db (n + 1) =
      call deployment checker (fun n => rounds (n + 1)) db' n := fun n => by rw [call_succ, hcall]
  have hmem : ∀ j' ∈ judgements, j'.loaded.submission ∈ eligible checker db := fun j' hj' =>
    honce.mem_iff.mp (List.mem_map_of_mem (List.mem_cons_of_mem j hj'))
  refine ⟨?_, fun n hn => ?_, ?_, ?_, fun n j' hj' => ?_, honce, ?_, ?_, ?_, fun x hx hnot => ?_, ?_,
    hjudges.unchanged.trans h.unchanged⟩
  · rw [← honce.length_eq, List.length_map]
  · cases n with
    | zero => unfold call dbAt; rw [hcall]
    | succ n => rw [hlater]; exact h.true_rounds n (Nat.lt_of_succ_lt_succ hn)
  · rw [List.length_cons, hlater]; exact h.finished
  · rw [List.length_cons, hlater]; exact h.ends
  · cases n with
    | zero =>
      cases hj'
      refine ⟨hround, check, ?_, hloaded⟩
      unfold call dbAt
      rw [hcall]
    | succ n => rw [hlater]; exact h.checks n j' hj'
  · exact List.pairwise_cons.mpr ⟨fun j' hj' => hjudges.first _ (hmem j' hj'), h.order⟩
  · intro j' hj'
    rcases List.mem_cons.mp hj' with rfl | hj'
    · exact ⟨hjudges.includes, hchecked⟩
    · exact ⟨(h.checked j' hj').1.before hjudges (hmem j' hj'), (h.checked j' hj').2⟩
  · intro j' hj'
    rcases List.mem_cons.mp hj' with rfl | hj'
    · -- judged, so not eligible again
      exact h.untouched _ hjudges.row_mem fun heligible => hjudges.code.1 heligible.1
    · exact h.rows j' hj'
  · have hid : x.id ≠ j.loaded.submission.id := by
      intro hid
      refine hnot ?_
      rw [hjudges.includes.submission_eq hx hid]
      exact of_decide_eq_true (List.mem_filter.mp hjudges.chosen).2
    refine h.untouched x (hjudges.other_mem hx hid) ?_
    rwa [hjudges.unchanged.eligible_iff]
  · rw [h.checkResults, hjudges.checkResults, List.append_assoc]
    rfl

/-- One checker alone judges every eligible submission once, the oldest first. -/
theorem queue_drains (deployment : Deployment) (checker : ConnectedChecker) (rounds : Nat → Round) (db : Db)
    (hcontests : HasContests db) (hquiet : Quiet db) (hnames : (checker.compilators.map (·.configuration.name)).Nodup)
    (hreturns : ChecksReturn deployment checker rounds db) :
    ∃ judgements last, Drained deployment checker rounds db judgements last := by
  -- each round makes the list of eligible submissions shorter
  induction hn : (eligible checker db).length generalizing db rounds with
  | zero =>
    have hidle : call deployment checker rounds db 0 = ⟨none, .ok false, db⟩ :=
      round_idle hquiet (List.length_eq_zero_iff.mp hn) (rounds 0)
    refine ⟨[], db, hn.symm, fun _ h => (nomatch h), ?_, ?_, fun _ _ h => (nomatch h), ?_, .nil, fun _ h => (nomatch h),
      fun _ h => (nomatch h), fun _ hx _ => hx, by simp, ⟨rfl, rfl, rfl, rfl, rfl⟩⟩
    · rw [List.length_nil, hidle]
    · rw [List.length_nil, hidle]
    · rw [List.length_eq_zero_iff.mp hn]; exact .refl _
  | succ n ih =>
    have hne : eligible checker db ≠ [] := fun hnil => by rw [hnil] at hn; cases hn
    obtain ⟨loaded, result, check, db', hcall, hloaded, hjudges⟩ :=
      round_checks hcontests hquiet hnames hne (rounds 0) (hreturns 0)
    obtain ⟨request, hchecked⟩ := hjudges.checked
    have hlength : (eligible checker db').length = n := by
      have := hjudges.eligible_perm.length_eq
      rw [List.length_cons, hn] at this
      exact Nat.succ.inj this
    have htail := hreturns.tail
    rw [hcall] at htail
    obtain ⟨judgements, last, h⟩ := ih (fun n => rounds (n + 1)) db' (hjudges.unchanged.hasContests hcontests)
      (hjudges.quiet hquiet) htail hlength
    exact ⟨⟨rounds 0, loaded, request, result⟩ :: judgements, last, drained_cons rfl hcall hloaded hjudges hchecked h⟩

def sampleRound : Round where
  queryTime := 0
  claimTime := 1
  checkTime := 2
  saveTime := 3
  list loads := loads
  list_perm _ := .refl _
  answers _ := .ok Verdict.sampleAnswer
  elapsed := 0

/-- After the first round of the sample nothing is left to do. -/
theorem sample_idle (n : Nat) :
    dbAt Queue.sampleDeployment Queue.sampleChecker (fun _ => sampleRound) Queue.sampleDb (n + 1) =
    (tryCheckFromDB Queue.sampleDeployment Queue.sampleChecker sampleRound Queue.sampleDb).db := by
  induction n with
  | zero => rfl
  | succ n ih =>
    rw [dbAt, ih]
    have hquiet : Quiet (tryCheckFromDB Queue.sampleDeployment Queue.sampleChecker sampleRound Queue.sampleDb).db := by
      unfold Quiet
      decide +kernel
    rw [round_idle hquiet (by decide +kernel)]

theorem sample_checks_return :
    ChecksReturn Queue.sampleDeployment Queue.sampleChecker (fun _ => sampleRound) Queue.sampleDb := by
  intro n loaded hloaded request hrequest
  cases n with
  | zero =>
    have hall : (oldest sampleRound (candidates Queue.sampleDb (compilatorIds Queue.sampleDb Queue.sampleChecker)
        (sampleRound.queryTime - staleness))).all (fun loaded =>
          ((createCheckRequest Queue.sampleDeployment.service.culture Queue.sampleChecker loaded).bind fun request =>
            (Prog.solo (Queue.sampleChecker.service.check Queue.sampleDeployment.platform request
              sampleRound.elapsed) Queue.sampleChecker.service.initialFields sampleRound.answers).result).isOk) =
                true := by
      decide +kernel
    have hloaded' : oldest sampleRound (candidates Queue.sampleDb (compilatorIds Queue.sampleDb Queue.sampleChecker)
        (sampleRound.queryTime - staleness)) = some loaded := hloaded
    rw [hloaded', Option.all_some, hrequest] at hall
    simp only [Except.bind] at hall
    cases hresult : (Prog.solo (Queue.sampleChecker.service.check Queue.sampleDeployment.platform request
        sampleRound.elapsed) Queue.sampleChecker.service.initialFields sampleRound.answers).result with
    | error e => rw [hresult] at hall; cases hall
    | ok result => exact ⟨result, rfl⟩
  | succ n =>
    rw [sample_idle] at hloaded
    have hnone : oldest sampleRound (candidates
        (tryCheckFromDB Queue.sampleDeployment Queue.sampleChecker sampleRound Queue.sampleDb).db
        (compilatorIds (tryCheckFromDB Queue.sampleDeployment Queue.sampleChecker sampleRound Queue.sampleDb).db
          Queue.sampleChecker) (sampleRound.queryTime - staleness)) = none := by
      rw [oldest_none]
      refine List.length_eq_zero_iff.mp ?_
      decide +kernel
    rw [hnone] at hloaded
    cases hloaded

theorem sample_drained : ∃ judgements last,
    Drained Queue.sampleDeployment Queue.sampleChecker (fun _ => sampleRound) Queue.sampleDb judgements last :=
  queue_drains Queue.sampleDeployment Queue.sampleChecker (fun _ => sampleRound) Queue.sampleDb
    (by unfold HasContests; decide) (by unfold Quiet; decide) (by decide) sample_checks_return

end OlympSystem.Site.Drain
