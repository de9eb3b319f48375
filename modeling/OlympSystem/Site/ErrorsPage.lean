/-
  OlympSystem.Site.ErrorsPage — what a competitor sees of a failed compilation
  (`Submissions/Errors.cshtml.cs`).

  The page shows the log of the last check. It takes the lines of `Check` off again: it
  looks for `Compilation:` and skips three lines from there.

  Proved:
  - `diagnostics_pieces`: of a text that begins `Runner:`, what follows the three lines
    from the first marker on is shown.
  - `diagnostics_log`: of the log of a failed compilation that is its standard error.
  - `errors_roundTrip`: the page for a submission whose last check is such a check.
  - `judged_page`: the page after a round of the queue that judged the submission so.
-/

import Mathlib.Data.List.Basic
import OlympSystem.Checker.Verdict
import OlympSystem.Lib.Search
import OlympSystem.Site.Drain

namespace OlympSystem.Site.ErrorsPage

open Lib.Query Lib.Search Lib.Program OlympSystem.Checker OlympSystem.Checker.CheckerService

inductive ActionResult where
  | notFound
  | forbid
  | page (error : String)
  deriving DecidableEq, Repr

structure Host where
  /-- `new DateTime(2023, 03, 01)` in the time zone of the host. -/
  march2023 : Int
  /-- `IndexOf` of the current culture. -/
  indexOf : String → String → Option Nat
  /-- `AuthorizeAsync` for `ViewSolution`. -/
  mayView : SubmissionRow → Bool

/-! ## The page -/

def textFrom (index : Nat) (text : String) : String := String.ofList (text.toList.drop index)

def startsWith (text start : String) : Bool := start.toList.isPrefixOf text.toList

def marker : String := "Compilation:"

/-- What is shown of a log from before March 2023. -/
def oldDiagnostics (host : Host) (log : String) : String :=
  match host.indexOf log "StandartOutput" with
  | some index => textFrom index log
  | none => "Internal error!"

def diagnostics (log : String) : String :=
  if startsWith log "Runner:" || startsWith log marker then
    match indexOf marker.toList log.toList with
    | some index => String.intercalate "\n" ((Lib.Text.split '\n' (textFrom index log)).drop 3)
    | none => "Internal error!"
  else log

/-- `CheckResults.Last()`, of the results by `CheckTime`. -/
def lastResult (db : Db) (submission : SubmissionRow) : Option CheckResultRow :=
  lastOrDefault (orderBy (byKey CheckResultRow.checkTime) (db.checkResults.filter (·.submissionId == submission.id)))

def onGetAsync (host : Host) (db : Db) (id : Int) : Except Exn ActionResult :=
  match db.submissions.find? id with
  | none => .ok .notFound
  | some submission =>
    if submission.statusCode ≠ -1 then .ok .notFound
    else if !host.mayView submission then .ok .forbid
    else
      match lastResult db submission with
      | none => .error (.invalidOperation "Sequence contains no elements")
      | some last =>
        if last.checkTime < host.march2023 then .ok (.page (oldDiagnostics host last.log))
        else .ok (.page (diagnostics last.log))

/-! ## What is taken off -/

/-- No piece contains the marker, and no separator is part of it. -/
def Clear (pieces : List (List Char × Char)) : Prop :=
  ∀ piece ∈ pieces, ¬marker.toList <:+: piece.1 ∧ piece.2 ∉ marker.toList

theorem join_drop (text : List Char) (n : Nat) {lines : List (List Char)} (hn : lines.length = n)
    (hlines : ∀ line ∈ lines, '\n' ∉ line) :
    String.intercalate "\n" ((Lib.Text.split '\n'
      (String.ofList (joined (lines.map fun line => (line, '\n')) ++ text))).drop n) =
      String.ofList text := by
  have hsplit : Lib.Text.split '\n' (String.ofList (joined (lines.map fun line => (line, '\n')) ++ text)) =
      lines.map String.ofList ++ Lib.Text.split '\n' (String.ofList text) := by
    unfold Lib.Text.split
    rw [String.toList_ofList, String.toList_ofList, splitOn_pieces hlines, List.map_append]
  rw [hsplit, List.drop_left' (by rw [List.length_map, hn])]
  exact Lib.Text.join_split '\n' (String.ofList text)

/-- The page takes off the pieces in front of the marker and three lines. -/
theorem diagnostics_pieces {log : String} {pieces : List (List Char × Char)} {lines : List (List Char)}
    {text : List Char} (hlog : log.toList = joined pieces ++ (joined (lines.map fun line => (line, '\n')) ++ text))
    (hstart : startsWith log "Runner:" = true) (hpieces : Clear pieces)
    (hmarker : marker.toList <+: joined (lines.map fun line => (line, '\n')) ++ text) (hthree : lines.length = 3)
    (hlines : ∀ line ∈ lines, '\n' ∉ line) : diagnostics log = String.ofList text := by
  have hindex : indexOf marker.toList log.toList = some (joined pieces).length := by
    rw [hlog, indexOf_pieces (by decide) hpieces, indexOf_prefix hmarker]
    simp
  have hfrom : textFrom (joined pieces).length log =
      String.ofList (joined (lines.map fun line => (line, '\n')) ++ text) := by
    unfold textFrom
    rw [hlog, List.drop_left]
  unfold diagnostics
  rw [hstart, Bool.true_or, if_pos rfl, hindex]
  dsimp only
  rw [hfrom]
  exact join_drop text 3 hthree hlines

/-! ## The log of a failed compilation -/

/-- What a text of time is made of. -/
theorem timeSpan_noSeparator {c : Char} (hdigit : c.isDigit = false) (hsign : c ≠ '-') (hdot : c ≠ '.')
    (hcolon : c ≠ ':') (t : TimeSpan) : c ∉ t.text.toList := by
  have hpadded : ∀ width n, c ∉ (Lib.Text.padded width n).toList := by
    intro width n hc
    rw [Lib.Text.padded_digits width n c hc] at hdigit
    cases hdigit
  have hdays : ∀ n : Nat, c ∉ (toString n).toList := fun n => Lib.Text.decimal_noSeparator hdigit hsign (n : Int)
  have hminus : c ∉ "-".toList := by simpa using hsign
  have hpoint : c ∉ ".".toList := by simpa using hdot
  have hcolons : c ∉ ":".toList := by simpa using hcolon
  unfold TimeSpan.text
  dsimp only
  simp only [String.toList_append, List.mem_append, hpadded, hcolons, or_false, not_or]
  refine ⟨⟨?_, ?_⟩, ?_⟩
  · split
    · exact hminus
    · exact List.not_mem_nil
  · split
    · exact List.not_mem_nil
    · rw [String.toList_append, List.mem_append]
      exact not_or.mpr ⟨hdays _, hpoint⟩
  · split
    · exact List.not_mem_nil
    · rw [String.toList_append, List.mem_append]
      exact not_or.mpr ⟨hpoint, hpadded _ _⟩

def isGuidChar (c : Char) : Bool := c.isDigit || c == '-' || ['a', 'b', 'c', 'd', 'e', 'f'].contains c

/-- The marker stands in no text of the header. -/
structure Unmarked (svc : CheckerService) (request : CheckRequest) : Prop where
  runnerId : ∀ c ∈ svc.runner.id.toList, isGuidChar c = true
  runnerName : ¬marker.toList <:+: svc.runner.name.toList
  displayName : ¬marker.toList <:+: request.compilator.displayName.toList
  name : ¬marker.toList <:+: request.compilator.configuration.name.toList
  configName : ¬marker.toList <:+: request.compilator.configuration.configName.toList
  versions : ¬marker.toList <:+: (request.compilator.description.getD "").toList

section Log

variable {svc : CheckerService} {platform : Platform} {request : CheckRequest}

def headerPieces (svc : CheckerService) (request : CheckRequest) : List (List Char × Char) :=
  [("Runner:".toList, ' '), (svc.runner.name.toList, ' '), ([], '('), (svc.runner.id.toList, ')'), ([], '\n'),
    ("Compilator:".toList, ' '), (request.compilator.displayName.toList, '\n'),
    ("Configuration:".toList, ' '), (request.compilator.configuration.name.toList, ' '), ([], '('),
    (request.compilator.configuration.configName.toList, ')'), ([], '\n'), ("Versions:".toList, ' ')]

theorem header_eq (svc : CheckerService) (request : CheckRequest) :
    (svc.checkHeader request).toList = joined (headerPieces svc request) ++
    (request.compilator.description.getD "").toList := by
  unfold checkHeader raw headerPieces joined
  simp [String.toList_append]

theorem not_infix_of_not_mem {word text : List Char} {c : Char} (hword : c ∈ word) (htext : c ∉ text) :
    ¬word <:+: text := by
  intro h
  exact htext (h.subset hword)

theorem header_clear (h : Unmarked svc request) : Clear (headerPieces svc request) := by
  have hid : ¬marker.toList <:+: svc.runner.id.toList := by
    apply not_infix_of_not_mem (c := 'C') (by decide)
    intro hc
    exact absurd (h.runnerId 'C' hc) (by decide)
  have htexts : ∀ piece ∈ headerPieces svc request, ¬marker.toList <:+: piece.1 := by
    unfold headerPieces
    simp only [List.forall_mem_cons]
    exact ⟨by decide, h.runnerName, by decide, hid, by decide, by decide, h.displayName, by decide, h.name, by decide,
      h.configName, by decide, by decide, List.forall_mem_nil _⟩
  have hseparators : ∀ piece ∈ headerPieces svc request, piece.2 ∉ marker.toList := by
    unfold headerPieces
    simp only [List.forall_mem_cons]
    decide
  exact fun piece hpiece => ⟨htexts piece hpiece, hseparators piece hpiece⟩

def IsLineEnd (newLine : String) : Prop := newLine = "\n" ∨ newLine = "\r\n"

theorem lineEnd_pieces {newLine : String} (h : IsLineEnd newLine) {text : List Char}
    (htext : ¬marker.toList <:+: text) :
    ∃ pieces, Clear pieces ∧ joined pieces = text ++ newLine.toList := by
  rcases h with rfl | rfl
  · have hbreak : '\n' ∉ marker.toList := by decide
    refine ⟨[(text, '\n')], ?_, by simp [joined]⟩
    exact List.forall_mem_singleton.mpr ⟨htext, hbreak⟩
  · have hreturn : '\r' ∉ marker.toList := by decide
    refine ⟨[(text, '\r'), ([], '\n')], ?_, by simp [joined]⟩
    exact List.forall_mem_cons.mpr ⟨⟨htext, hreturn⟩, List.forall_mem_singleton.mpr ⟨by decide, by decide⟩⟩

theorem lineEnd_ending {newLine : String} (h : IsLineEnd newLine) :
    ∃ ending, newLine.toList = ending ++ ['\n'] ∧ '\n' ∉ ending := by
  rcases h with rfl | rfl
  · exact ⟨[], rfl, List.not_mem_nil⟩
  · exact ⟨['\r'], rfl, by decide⟩

/-- The heading of the compilation and its two times. -/
def compilationLines (compileResult : RunnerResult) (ending : List Char) : List (List Char) :=
  ["Compilation:".toList, "user time: ".toList ++ compileResult.resourceConsumption.userTime.text.toList,
    "total time: ".toList ++ compileResult.resourceConsumption.totalTime.text.toList ++ ending]

theorem compilationLines_noBreak (compileResult : RunnerResult) {ending : List Char} (h : '\n' ∉ ending) :
    ∀ line ∈ compilationLines compileResult ending, '\n' ∉ line := by
  have htime : ∀ t : TimeSpan, '\n' ∉ t.text.toList :=
    timeSpan_noSeparator (by decide) (by decide) (by decide) (by decide)
  have huser : '\n' ∉ "user time: ".toList := by decide
  have htotal : '\n' ∉ "total time: ".toList := by decide
  unfold compilationLines
  refine List.forall_mem_cons.mpr ⟨by decide, List.forall_mem_cons.mpr ⟨?_, List.forall_mem_singleton.mpr ?_⟩⟩
  · rw [List.mem_append]
    exact not_or.mpr ⟨huser, htime _⟩
  · rw [List.mem_append, List.mem_append]
    exact not_or.mpr ⟨not_or.mpr ⟨htotal, htime _⟩, h⟩

/-- The log of a failed compilation, in pieces. -/
theorem log_eq (svc : CheckerService) (request : CheckRequest) (compileResult : RunnerResult) (text : String)
    {pieces : List (List Char × Char)} {ending : List Char}
    (hpieces : joined pieces = (request.compilator.description.getD "").toList ++ platform.newLine.toList)
    (hending : platform.newLine.toList = ending ++ ['\n']) :
    (appendLine platform (Verdict.compiledLog svc platform request compileResult) text).toList =
      joined (headerPieces svc request ++ pieces) ++
        (joined ((compilationLines compileResult ending).map fun line => (line, '\n')) ++
          (text ++ platform.newLine).toList) := by
  have hjoined : joined (headerPieces svc request ++ pieces) = joined (headerPieces svc request) ++ joined pieces := by
    unfold joined
    exact List.flatMap_append
  have hfirst : (appendLine platform "" (svc.checkHeader request)).toList =
      joined (headerPieces svc request ++ pieces) := by
    unfold appendLine
    rw [hjoined, hpieces, String.toList_append, String.toList_append, header_eq, String.toList_empty, List.nil_append,
      List.append_assoc]
  unfold Verdict.compiledLog
  generalize appendLine platform "" (svc.checkHeader request) = header at hfirst ⊢
  unfold appendLine raw compilationLines joined
  simp [String.toList_append, hfirst, hending, joined]

theorem diagnostics_log (h : Unmarked svc request) (hline : IsLineEnd platform.newLine) (compileResult : RunnerResult)
    (text : String) :
    diagnostics (appendLine platform (Verdict.compiledLog svc platform request compileResult) text) =
      text ++ platform.newLine := by
  obtain ⟨pieces, hclear, hpieces⟩ := lineEnd_pieces hline h.versions
  obtain ⟨ending, hending, hbreak⟩ := lineEnd_ending hline
  have hlog := log_eq svc request compileResult text hpieces hending
  have hall : Clear (headerPieces svc request ++ pieces) := by
    intro piece hpiece
    rcases List.mem_append.mp hpiece with hheader | hlast
    · exact header_clear h piece hheader
    · exact hclear piece hlast
  have hstart : startsWith (appendLine platform (Verdict.compiledLog svc platform request compileResult) text)
      "Runner:" = true := by
    unfold startsWith
    rw [hlog]
    rfl
  rw [diagnostics_pieces hlog hstart hall ⟨_, rfl⟩ rfl (compilationLines_noBreak compileResult hbreak),
    String.ofList_toList]

/-- The log `Check` returns when the compilation fails. -/
def failureLog (svc : CheckerService) (platform : Platform) (request : CheckRequest) (compileResult : RunnerResult) :
    String :=
  appendLine platform (Verdict.compiledLog svc platform request compileResult)
    (getTruncatedString compileResult.stderr 1024)

theorem check_failed (platform : Platform) (elapsed : TimeSpan) (s : Fields) {a : Verdict.Answers}
    {compileResult : RunnerResult}
    (havailable : request.compilator.error = none) (hsupported : svc.supports request.compilator.configuration = true)
    (hanswer : a 0 = .ok compileResult) (hfailed : compileResult.status ≠ .completed) :
    (Prog.solo (svc.check platform request elapsed) s a).result =
      .ok ⟨-1, failureLog svc platform request compileResult, none, none⟩ := by
  rw [Verdict.solo_compiled platform elapsed havailable hsupported hanswer, if_pos hfailed]
  rfl

/-- The page, when the last check left that log. -/
theorem onGet_failed (h : Unmarked svc request) (hline : IsLineEnd platform.newLine) {compileResult : RunnerResult}
    {host : Host} {db : Db} {id : Int} {submission : SubmissionRow} {last : CheckResultRow}
    (hfind : db.submissions.find? id = some submission) (hstatus : submission.statusCode = -1)
    (hview : host.mayView submission = true) (hlast : lastResult db submission = some last)
    (hlog : last.log = failureLog svc platform request compileResult) (hsince : host.march2023 ≤ last.checkTime) :
    onGetAsync host db id = .ok (.page (Lib.Utf8.decode (compileResult.stderr.take 1024) ++ platform.newLine)) := by
  unfold onGetAsync
  rw [hfind]
  dsimp only
  rw [if_neg (by simp [hstatus]), if_neg (by simp [hview]), hlast]
  dsimp only
  rw [if_neg (by omega), hlog]
  unfold failureLog
  rw [diagnostics_log h hline]
  rfl

/-- Every compilation that fails. The clock that stamps the checks is past March 2023. -/
theorem errors_roundTrip {elapsed : TimeSpan} {s : Fields} {a : Verdict.Answers} {compileResult : RunnerResult}
    (havailable : request.compilator.error = none) (hsupported : svc.supports request.compilator.configuration = true)
    (hanswer : a 0 = .ok compileResult) (hfailed : compileResult.status ≠ .completed) (h : Unmarked svc request)
    (hline : IsLineEnd platform.newLine) :
    ∃ log, (Prog.solo (svc.check platform request elapsed) s a).result = .ok ⟨-1, log, none, none⟩ ∧
      ∀ (host : Host) (db : Db) (id : Int) (submission : SubmissionRow) (last : CheckResultRow),
        db.submissions.find? id = some submission → submission.statusCode = -1 → host.mayView submission = true →
        lastResult db submission = some last → last.log = log → host.march2023 ≤ last.checkTime →
        onGetAsync host db id = .ok (.page (Lib.Utf8.decode (compileResult.stderr.take 1024) ++ platform.newLine)) := by
  refine ⟨_, check_failed platform elapsed s havailable hsupported hanswer hfailed, ?_⟩
  intro host db id submission last hfind hstatus hview hlast hlog hsince
  exact onGet_failed h hline hfind hstatus hview hlast hlog hsince

end Log

/-- A compiler that prints the marker. -/
def sampleFailure : RunnerResult :=
  { Verdict.sampleAnswer with
    status := .error
    exitCode := 1
    stderr := [0x43, 0x6F, 0x6D, 0x70, 0x69, 0x6C, 0x61, 0x74, 0x69, 0x6F, 0x6E, 0x3A, 0x0A, 0x31] }

def sampleHost : Host := ⟨0, fun _ _ => none, fun _ => true⟩

/-- The last of two checks failed to compile. -/
def failedDb (log : String) : Db where
  contests := Queue.sampleDb.contests
  compilators := Queue.sampleDb.compilators
  checkers := Queue.sampleDb.checkers
  problems := Queue.sampleDb.problems
  nextTest := Queue.sampleDb.nextTest
  submissions := ⟨[⟨1, "source", -1, 0, 2, none, none, 1, 1⟩], 2, by decide, by decide⟩
  checkResults := [⟨1, 2, -1, log, none, none⟩, ⟨1, 1, 2, "accepted", some 100, none⟩]
  submissions_of := by decide

theorem sample_unmarked : Unmarked Verdict.sampleService Verdict.sampleRequest := by
  refine ⟨List.all_eq_true.mp (by decide), ?_, ?_, ?_, ?_, ?_⟩
  all_goals decide

theorem sample_roundTrip :
    ∃ log, (Prog.solo (Verdict.sampleService.check Verdict.samplePlatform Verdict.sampleRequest 0)
        Verdict.sampleService.initialFields fun _ => .ok sampleFailure).result = .ok ⟨-1, log, none, none⟩ ∧
      onGetAsync sampleHost (failedDb log) 1 = .ok (.page "Compilation:\n1\n") := by
  have havailable : Verdict.sampleRequest.compilator.error = none := rfl
  have hsupported : Verdict.sampleService.supports Verdict.sampleRequest.compilator.configuration = true := rfl
  have hline : IsLineEnd Verdict.samplePlatform.newLine := Or.inl rfl
  have hfailed : sampleFailure.status ≠ .completed := by decide
  obtain ⟨log, hresult, hpage⟩ := errors_roundTrip (a := fun _ => .ok sampleFailure) havailable hsupported rfl hfailed
    sample_unmarked hline
  refine ⟨log, hresult, ?_⟩
  have hsince : sampleHost.march2023 ≤ 2 := by decide
  exact hpage sampleHost (failedDb log) 1 ⟨1, "source", -1, 0, 2, none, none, 1, 1⟩ ⟨1, 2, -1, log, none, none⟩
    rfl rfl rfl rfl rfl hsince

/-! ## After a round of the queue -/

section Judged

open Drain CheckerManager

variable {deployment : Deployment} {checker : ConnectedChecker} {round : Round} {db db' : Db} {loaded : Loaded}
  {result : CheckerResult}

/-- The row that a judgement adds is the last one, if the clock has not gone back. -/
theorem lastResult_judged (h : Judges deployment checker round db db' loaded result)
    (hlatest : ∀ row ∈ db.checkResults, row.submissionId = loaded.submission.id → row.checkTime < round.checkTime) :
    lastResult db' (judgedRow round loaded.submission result) = some ⟨loaded.submission.id, round.checkTime,
      result.statusCode, result.log, result.score, result.testResults⟩ := by
  have hmem : (⟨loaded.submission.id, round.checkTime, result.statusCode, result.log, result.score,
      result.testResults⟩ : CheckResultRow) ∈ db'.checkResults.filter (·.submissionId == loaded.submission.id) := by
    rw [h.checkResults]
    exact List.mem_filter.mpr ⟨by simp, beq_self_eq_true _⟩
  unfold lastResult
  show lastOrDefault (orderBy (byKey CheckResultRow.checkTime)
    (db'.checkResults.filter (·.submissionId == loaded.submission.id))) = _
  cases hlast : lastOrDefault (orderBy (byKey CheckResultRow.checkTime)
      (db'.checkResults.filter (·.submissionId == loaded.submission.id))) with
  | none =>
    rw [← Option.not_isSome_iff_eq_none, last_orderBy_isSome] at hlast
    exact absurd (List.ne_nil_of_mem hmem) hlast
  | some row =>
    obtain ⟨hrow, hmax⟩ := last_orderBy (byKey_totalPreorder CheckResultRow.checkTime) hlast
    have hafter : round.checkTime ≤ row.checkTime := of_decide_eq_true (hmax _ hmem)
    obtain ⟨hrow, hid⟩ := List.mem_filter.mp hrow
    rw [h.checkResults] at hrow
    rcases List.mem_append.mp hrow with hold | hnew
    · have hbefore := hlatest row hold (by simpa using hid)
      omega
    · rw [List.mem_singleton.mp hnew]

/-- The owner of a submission that was just judged sees what the compiler said. -/
theorem judged_page (h : Judges deployment checker round db db' loaded result) {compileResult : RunnerResult}
    (hanswer : round.answers 0 = .ok compileResult) (hfailed : compileResult.status ≠ .completed)
    (hunmarked : ∀ request, createCheckRequest deployment.service.culture checker loaded = .ok request →
      Unmarked checker.service request)
    (hline : IsLineEnd deployment.platform.newLine)
    (hlatest : ∀ row ∈ db.checkResults, row.submissionId = loaded.submission.id → row.checkTime < round.checkTime)
    {host : Host} (hview : host.mayView (judgedRow round loaded.submission result) = true)
    (hsince : host.march2023 ≤ round.checkTime) :
    onGetAsync host db' loaded.submission.id =
      .ok (.page (Lib.Utf8.decode (compileResult.stderr.take 1024) ++ deployment.platform.newLine)) := by
  obtain ⟨request, hchecked⟩ := h.checked
  obtain ⟨havailable, hsupported, -⟩ := Verdict.check_available deployment.platform round.elapsed hchecked.returned
  have hresult := check_failed deployment.platform round.elapsed checker.service.initialFields havailable
    hsupported hanswer
    hfailed
  rw [hchecked.returned] at hresult
  have hresult := Except.ok.inj hresult
  have hfind := Lib.Tables.Table.find?_of_mem h.row_mem
  exact onGet_failed (hunmarked request hchecked.created) hline hfind (by rw [hresult]; rfl) hview
    (lastResult_judged h hlatest) (by rw [hresult]) hsince

end Judged

end OlympSystem.Site.ErrorsPage
