/-
  OlympSystem.Site.ProblemArchive — `ProblemArchive.cs`: a ZIP of problems, read and
  checked.

  `ReadAsync` gets the entries of the archive (`ZipArchive` is a given), collects the
  files by path, groups them by their folder, and turns each folder into a problem: its
  manifest, checked, and its tests in the order of their numbers. Whatever it refuses it
  refuses by throwing.

  `Runtime` has what the base library decides: the letter case of `OrdinalIgnoreCase` and
  the JSON deserializer.

  Proved:
  - `readAsync_accepted`: what is read is well formed: positive and distinct numbers,
    checked limits, tests with increasing numbers from 1 to 999, scores of known tests
    that are not negative and whose total is an `Int32`.
-/

import OlympSystem.Checker.Runner
import OlympSystem.Lib.Dictionaries
import OlympSystem.Lib.Query

namespace OlympSystem.Site.ProblemArchive

open Lib.Dictionaries Lib.Text OlympSystem.Checker

structure ContestImportOptions where
  maxExpandedBytes : Nat := 512 * 1024 * 1024
  maxEntries : Nat := 10000

/-- The JSON object of a problem; a property that is left out has its default. A null name
    is the empty one: both are refused alike. -/
structure ProblemManifest where
  number : Int
  name : String
  timeLimit : Int := 1
  slowTimeLimit : Option Int := none
  memoryLimit : Int := 256
  checkerId : Int := 4
  isActive : Bool := true
  openTestCount : Int := 1
  scores : Option (List (Int × Int)) := none
  deriving DecidableEq, Repr

structure ImportedTest where
  number : Int
  input : Bytes
  output : Bytes
  deriving DecidableEq, Repr

structure ImportedProblem where
  folder : String
  manifest : ProblemManifest
  tests : List ImportedTest
  deriving DecidableEq, Repr

structure ZipEntry where
  fullName : String
  /-- The uncompressed length the archive states. -/
  length : Nat
  /-- The data the stream of the entry gives, or what reading it throws. -/
  data : Except Exn Bytes

structure Runtime where
  upper : UpperCase
  /-- `JsonSerializer.Deserialize`: an object, null, or a `JsonException`. -/
  deserialize : Bytes → Except Exn (Option ProblemManifest)

/-! ## Entries -/

def maxArrayLength : Nat := 2147483591

def readEntryAsync (entry : ZipEntry) : Except Exn Bytes :=
  if maxArrayLength < entry.length then
    .error (.invalidData "{0}: the file is too large." [entry.fullName])
  else
    match entry.data with
    | .error e => .error e
    | .ok data =>
      if data.length ≠ entry.length then
        .error (.invalidData "{0}: the file size does not match the ZIP entry." [entry.fullName])
      else .ok data

variable (options : ContestImportOptions) (runtime : Runtime)

abbrev Files := Dict String ZipEntry runtime.upper.fold

def isBadPart (part : String) : Bool := isBlank part || part == "." || part == ".." || part.toList.contains ':'

/-- One entry of the archive: a root folder, or a file that is collected. -/
def addEntry (files : Files runtime) (expanded : Nat) (entry : ZipEntry) : Except Exn (Files runtime × Nat) :=
  let path := entry.fullName
  let parts := split '/' (trimEnd '/' path)
  if path.toList.contains '\\' || parts.any isBadPart then .error (.invalidData "Invalid path: {0}" [path])
  else if path.toList.getLast? = some '/' then
    if parts.length ≠ 1 then .error (.invalidData "Invalid folder: {0}" [path]) else .ok (files, expanded)
  else if parts.length ≠ 2 then .error (.invalidData "Invalid or duplicate file: {0}" [path])
  else
    match files.tryAdd path entry with
    | none => .error (.invalidData "Invalid or duplicate file: {0}" [path])
    | some files =>
      if options.maxExpandedBytes - expanded < entry.length then
        .error (.invalidData "The expanded archive exceeds the size limit." [])
      else .ok (files, expanded + entry.length)

def readEntries : List ZipEntry → Files runtime → (expanded : Nat) → Except Exn (Files runtime)
  | [], files, _ => .ok files
  | entry :: entries, files, expanded =>
    match addEntry options runtime files expanded entry with
    | .error e => .error e
    | .ok (files, expanded) => readEntries entries files expanded

def folderName (path : String) : String := (split '/' path)[0]?.getD ""

def fileName (path : String) : String := (split '/' path)[1]?.getD ""

/-- A group of files: `folder.Key`, the folder of the first one, and the files. -/
abbrev Folder := String × List (String × ZipEntry)

def folders (files : Files runtime) : List Folder :=
  (Lib.Query.groupBy (fun f => runtime.upper.fold (folderName f.1)) files.entries).map fun group =>
    ((group.2.head?.map fun f => folderName f.1).getD "", group.2)

/-! ## File names -/

/-- The end of `TestFilename`, `\.txt$`: the end of the text or a last line feed. -/
def isTxtEnd (rest : List Char) : Bool :=
  rest.map Char.toLower == ".txt".toList || rest.map Char.toLower == ".txt\n".toList

/-- `TestFilename.Match`: `^(input|output)([0-9]+)\.txt$` in any case, its two groups. -/
def testFilename (name : String) : Option (String × String) :=
  let s := name.toList
  let wordLength :=
    if (s.take 5).map Char.toLower = "input".toList then 5
    else if (s.take 6).map Char.toLower = "output".toList then 6 else 0
  let digits := (s.drop wordLength).takeWhile Char.isDigit
  if wordLength ≠ 0 ∧ digits ≠ [] ∧ isTxtEnd ((s.drop wordLength).dropWhile Char.isDigit) then
    some (String.ofList (s.take wordLength), String.ofList digits)
  else none

example : testFilename "Input007.TXT" = some ("Input", "007") := by decide
example : testFilename "output1.txt.bak" = none := by decide

/-- The group and the number of a test file. -/
def testNumber (name : String) : Option (String × Int) :=
  match testFilename name with
  | none => none
  | some (word, digits) =>
    match tryParseDigits 2147483647 digits with
    | none => none
    | some number => if number < 1 ∨ 999 < number then none else some (word, number)

/-! ## Folders -/

structure TestFiles where
  inputs : SortedDict Int ZipEntry
  outputs : SortedDict Int ZipEntry

def addFile (jsonPath : String) (tests : TestFiles) (file : String × ZipEntry) : Except Exn TestFiles :=
  let path := file.1
  if runtime.upper.equals path jsonPath then .ok tests
  else
    match testNumber (fileName path) with
    | none => .error (.invalidData "{0}: expected inputN.txt or outputN.txt, with N from 1 to 999." [path])
    | some (word, number) =>
      if runtime.upper.equals word "input" then
        match tests.inputs.tryAdd number file.2 with
        | none => .error (.invalidData "{0}: duplicate test number {1}." [path, toString number])
        | some inputs => .ok { tests with inputs := inputs }
      else
        match tests.outputs.tryAdd number file.2 with
        | none => .error (.invalidData "{0}: duplicate test number {1}." [path, toString number])
        | some outputs => .ok { tests with outputs := outputs }

def addFiles (jsonPath : String) : List (String × ZipEntry) → TestFiles → Except Exn TestFiles
  | [], tests => .ok tests
  | file :: files, tests =>
    match addFile runtime jsonPath tests file with
    | .error e => .error e
    | .ok tests => addFiles jsonPath files tests

/-- The manifest; a `JsonException` becomes an `InvalidDataException`. -/
def readManifest (jsonPath : String) (entry : ZipEntry) : Except Exn ProblemManifest :=
  let invalid (message : String) := Exn.invalidData "{0}: invalid JSON: {1}" [jsonPath, message]
  match readEntryAsync entry with
  | .error (.json message) => .error (invalid message)
  | .error e => .error e
  | .ok bytes =>
    match runtime.deserialize bytes with
    | .error (.json message) => .error (invalid message)
    | .error e => .error e
    | .ok none => .error (invalid "A JSON object is required.")
    | .ok (some manifest) => .ok manifest

def scoresInvalid (keys : List Int) (scores : List (Int × Int)) : Bool :=
  scores.any (fun x => !keys.contains x.1 || decide (x.2 < 0)) ||
    decide (Lib.Checked.int32Max < (scores.map Prod.snd).sum)

def hasInvalidScores (keys : List Int) (manifest : ProblemManifest) : Bool :=
  match manifest.scores with
  | none => false
  | some scores => scoresInvalid keys scores

/-- The tests in the order of their numbers; `outputs[number]` has the number's place, as
    both have the same keys. -/
def readTests : List (Int × ZipEntry) → List (Int × ZipEntry) → Except Exn (List ImportedTest)
  | (number, input) :: inputs, (_, output) :: outputs =>
    match readEntryAsync input, readEntryAsync output with
    | .error e, _ => .error e
    | .ok _, .error e => .error e
    | .ok input, .ok output =>
      match readTests inputs outputs with
      | .error e => .error e
      | .ok tests => .ok (⟨number, input, output⟩ :: tests)
  | _, _ => .ok []

/-- What `readFolder` requires of a manifest before it looks at the tests. -/
def checkManifest (numbers : List Int) (jsonPath : String) (manifest : ProblemManifest) : Except Exn Unit :=
  if manifest.number ≤ 0 ∨ manifest.number ∈ numbers ∨ isBlank manifest.name = true then
    .error (.invalidData "{0}: a unique positive number and a non-empty name are required." [jsonPath])
  else if manifest.timeLimit ≤ 0 ∨ (∃ limit ∈ manifest.slowTimeLimit, limit ≤ 0) ∨ manifest.memoryLimit ≤ 0 ∨
      manifest.checkerId ≤ 0 then
    .error (.invalidData "{0}: limits and checkerId must be positive." [jsonPath])
  else .ok ()

def checkTests (folder jsonPath : String) (manifest : ProblemManifest) (tests : TestFiles) : Except Exn Unit :=
  if tests.inputs.keys.length = 0 ∨ tests.inputs.keys ≠ tests.outputs.keys then
    .error (.invalidData "{0}: each inputN.txt must have an outputN.txt; at least one test is required." [folder])
  else if manifest.openTestCount < 0 ∨ (tests.inputs.keys.length : Int) < manifest.openTestCount then
    .error (.invalidData "{0}: openTestCount must be between 0 and {1}."
      [jsonPath, toString tests.inputs.keys.length])
  else if hasInvalidScores tests.inputs.keys manifest then
    .error (.invalidData
      "{0}: scores contain an unknown test, negative scores or scores that are too large." [jsonPath])
  else .ok ()

def noTests : TestFiles := ⟨.empty, .empty⟩

def readFolder (files : Files runtime) (numbers : List Int) (folder : Folder) : Except Exn ImportedProblem := do
  let jsonPath := folder.1 ++ "/problem.json"
  match files.get? jsonPath with
  | none => .error (.invalidData "{0}: file not found." [jsonPath])
  | some json => do
    let manifest ← readManifest runtime jsonPath json
    checkManifest numbers jsonPath manifest
    let tests ← addFiles runtime jsonPath folder.2 noTests
    checkTests folder.1 jsonPath manifest tests
    let imported ← readTests tests.inputs.entries tests.outputs.entries
    return ⟨folder.1, { manifest with name := trim manifest.name }, imported⟩

def readFolders (files : Files runtime) : List Folder → (numbers : List Int) → Except Exn (List ImportedProblem)
  | [], _ => .ok []
  | folder :: rest, numbers => do
    let problem ← readFolder runtime files numbers folder
    let problems ← readFolders files rest (problem.manifest.number :: numbers)
    return problem :: problems

def readAsync (source : Except Exn (List ZipEntry)) : Except Exn (List ImportedProblem) := do
  let archive ← source
  if options.maxEntries < archive.length then .error (.invalidData "Too many files in the archive." [])
  else do
    let files ← readEntries options runtime archive .empty 0
    let result ← readFolders runtime files (folders runtime files) []
    if result.length = 0 then .error (.invalidData "The archive contains no problems." []) else return result

/-! ## What is accepted -/

/-- The scores of a manifest fit its tests. -/
structure ScoresFit (scores : List (Int × Int)) (numbers : List Int) : Prop where
  known : ∀ x ∈ scores, x.1 ∈ numbers
  nonneg : ∀ x ∈ scores, 0 ≤ x.2
  total : (scores.map Prod.snd).sum ≤ Lib.Checked.int32Max

structure Accepted (problem : ImportedProblem) : Prop where
  number : 0 < problem.manifest.number
  name : ∃ name, isBlank name = false ∧ problem.manifest.name = trim name
  timeLimit : 0 < problem.manifest.timeLimit
  slowTimeLimit : ∀ limit ∈ problem.manifest.slowTimeLimit, 0 < limit
  memoryLimit : 0 < problem.manifest.memoryLimit
  checkerId : 0 < problem.manifest.checkerId
  tests : problem.tests ≠ []
  numbers : (problem.tests.map ImportedTest.number).Pairwise (· < ·)
  range : ∀ test ∈ problem.tests, 1 ≤ test.number ∧ test.number ≤ 999
  openTestCount : 0 ≤ problem.manifest.openTestCount ∧ problem.manifest.openTestCount ≤ problem.tests.length
  scores : ∀ scores ∈ problem.manifest.scores, ScoresFit scores (problem.tests.map ImportedTest.number)

theorem scoresInvalid_eq_false {keys : List Int} {scores : List (Int × Int)} :
    scoresInvalid keys scores = false ↔ ScoresFit scores keys := by
  simp only [scoresInvalid, Bool.or_eq_false_iff, List.any_eq_false, decide_eq_false_iff_not, not_lt]
  constructor
  · rintro ⟨h, ht⟩
    refine ⟨fun x hx => ?_, fun x hx => ?_, ht⟩
    · have := h x hx
      simp only [Bool.or_eq_true, not_or] at this
      simpa using this.1
    · have := h x hx
      simp only [Bool.or_eq_true, not_or, decide_eq_true_eq] at this
      omega
  · intro h
    refine ⟨fun x hx => ?_, h.total⟩
    have := h.nonneg x hx
    have hk := h.known x hx
    simp [hk]; omega

theorem readTests_numbers : ∀ {inputs outputs : List (Int × ZipEntry)} {tests : List ImportedTest},
    readTests inputs outputs = .ok tests → inputs.map Prod.fst = outputs.map Prod.fst →
      tests.map ImportedTest.number = inputs.map Prod.fst := by
  intro inputs
  induction inputs with
  | nil => intro outputs tests h _; cases h; rfl
  | cons input inputs ih =>
    intro outputs tests h hkeys
    cases outputs with
    | nil => cases hkeys
    | cons output outputs =>
      unfold readTests at h
      split at h
      · cases h
      · cases h
      · split at h
        · cases h
        · rename_i hrest
          cases h
          rw [List.map_cons, List.map_cons, ih hrest (List.cons.inj hkeys).2]

/-- The inputs collected so far have numbers from 1 to 999. -/
def TestFiles.InRange (tests : TestFiles) : Prop := ∀ e ∈ tests.inputs.entries, 1 ≤ e.1 ∧ e.1 ≤ 999

theorem testNumber_range {name word : String} {number : Int} (h : testNumber name = some (word, number)) :
    1 ≤ number ∧ number ≤ 999 := by
  unfold testNumber at h
  split at h
  · cases h
  · split at h
    · cases h
    · split at h
      · cases h
      · rename_i hrange
        cases h
        omega

theorem addFile_range {jsonPath : String} {tests tests' : TestFiles} {file : String × ZipEntry}
    (ht : tests.InRange) (h : addFile runtime jsonPath tests file = .ok tests') : tests'.InRange := by
  unfold addFile at h
  simp only at h
  split at h
  · cases h; exact ht
  · split at h
    · cases h
    · rename_i hnumber
      split at h
      · split at h
        · cases h
        · rename_i hadd
          cases h
          intro e he
          rcases (SortedDict.mem_tryAdd hadd e).mp he with rfl | he
          · exact testNumber_range hnumber
          · exact ht e he
      · split at h
        · cases h
        · cases h; exact ht

theorem addFiles_range {jsonPath : String} : ∀ {files : List (String × ZipEntry)} {tests tests' : TestFiles},
    tests.InRange → addFiles runtime jsonPath files tests = .ok tests' → tests'.InRange := by
  intro files
  induction files with
  | nil => intro tests tests' ht h; cases h; exact ht
  | cons file files ih =>
    intro tests tests' ht h
    unfold addFiles at h
    split at h
    · cases h
    · rename_i hfile
      exact ih (addFile_range runtime ht hfile) h

theorem checkManifest_ok {numbers : List Int} {jsonPath : String} {manifest : ProblemManifest} {u : Unit}
    (h : checkManifest numbers jsonPath manifest = .ok u) :
    0 < manifest.number ∧ manifest.number ∉ numbers ∧ isBlank manifest.name = false ∧ 0 < manifest.timeLimit ∧
      (∀ limit ∈ manifest.slowTimeLimit, 0 < limit) ∧ 0 < manifest.memoryLimit ∧ 0 < manifest.checkerId := by
  unfold checkManifest at h
  split at h
  · cases h
  · rename_i hname
    split at h
    · cases h
    · rename_i hlimits
      simp only [not_or, not_exists, not_and, Int.not_le] at hname hlimits
      exact ⟨hname.1, hname.2.1, by simpa using hname.2.2, hlimits.1, hlimits.2.1, hlimits.2.2.1, hlimits.2.2.2⟩

theorem checkTests_ok {folder jsonPath : String} {manifest : ProblemManifest} {tests : TestFiles} {u : Unit}
    (h : checkTests folder jsonPath manifest tests = .ok u) :
    tests.inputs.keys ≠ [] ∧ tests.inputs.keys = tests.outputs.keys ∧ 0 ≤ manifest.openTestCount ∧
      manifest.openTestCount ≤ tests.inputs.keys.length ∧
      ∀ scores ∈ manifest.scores, ScoresFit scores tests.inputs.keys := by
  unfold checkTests at h
  split at h
  · cases h
  · rename_i hkeys
    split at h
    · cases h
    · rename_i hopen
      split at h
      · cases h
      · rename_i hscores
        obtain ⟨hne, heq⟩ := not_or.mp hkeys
        refine ⟨fun hnil => hne (by rw [hnil]; rfl), not_not.mp heq, by omega, by omega, fun scores hs => ?_⟩
        rw [Option.mem_def] at hs
        unfold hasInvalidScores at hscores
        rw [hs] at hscores
        exact scoresInvalid_eq_false.mp (by simpa using hscores)

/-- A folder that is read gives an accepted problem, with a number that was not there. -/
theorem readFolder_accepted {files : Files runtime} {numbers : List Int} {folder : Folder}
    {problem : ImportedProblem} (h : readFolder runtime files numbers folder = .ok problem) :
    Accepted problem ∧ problem.manifest.number ∉ numbers := by
  unfold readFolder at h
  simp only at h
  split at h
  · cases h
  · simp only [Lib.Query.bind_eq_ok] at h
    obtain ⟨manifest, -, u, hmanifest, tests, hfiles, u', htests, imported, himported, hproblem⟩ := h
    obtain ⟨hnumber, hnew, hname, htime, hslow, hmemory, hchecker⟩ := checkManifest_ok hmanifest
    obtain ⟨hne, hkeys, hopen, hopen', hscores⟩ := checkTests_ok htests
    have hnone : noTests.InRange := fun e he => (nomatch he)
    have hrange := addFiles_range runtime hnone hfiles
    have hnumbers : imported.map ImportedTest.number = tests.inputs.keys := readTests_numbers himported hkeys
    have hlength : imported.length = tests.inputs.keys.length := by rw [← hnumbers, List.length_map]
    cases hproblem
    refine ⟨⟨hnumber, ⟨manifest.name, hname, rfl⟩, htime, hslow, hmemory, hchecker, ?_, ?_, ?_, ⟨hopen, ?_⟩, ?_⟩, hnew⟩
    · rintro rfl; exact hne hnumbers.symm
    · rw [hnumbers]; exact tests.inputs.sorted
    · intro test htest
      have hmem : test.number ∈ tests.inputs.keys := hnumbers ▸ List.mem_map_of_mem htest
      obtain ⟨e, he, heq⟩ := List.mem_map.mp hmem
      rw [← heq]; exact hrange e he
    · rw [hlength]; exact hopen'
    · intro scores hs
      rw [hnumbers]; exact hscores scores hs

theorem readFolders_accepted {files : Files runtime} : ∀ {rest : List Folder} {numbers : List Int}
    {problems : List ImportedProblem}, readFolders runtime files rest numbers = .ok problems →
      (∀ problem ∈ problems, Accepted problem ∧ problem.manifest.number ∉ numbers) ∧
        (problems.map (·.manifest.number)).Nodup := by
  intro rest
  induction rest with
  | nil => intro numbers problems h; cases h; exact ⟨fun _ h => (nomatch h), List.nodup_nil⟩
  | cons folder rest ih =>
    intro numbers problems h
    unfold readFolders at h
    simp only [Lib.Query.bind_eq_ok] at h
    obtain ⟨problem, hproblem, problems', hrest, heq⟩ := h
    cases heq
    obtain ⟨haccepted, hnodup⟩ := ih hrest
    constructor
    · intro p hp
      rcases List.mem_cons.mp hp with rfl | hp
      · exact readFolder_accepted runtime hproblem
      · obtain ⟨hp, hnew⟩ := haccepted p hp
        exact ⟨hp, fun h => hnew (List.mem_cons_of_mem _ h)⟩
    · rw [List.map_cons]
      refine List.nodup_cons.mpr ⟨fun hmem => ?_, hnodup⟩
      obtain ⟨p, hp, heq⟩ := List.mem_map.mp hmem
      exact (haccepted p hp).2 (heq ▸ List.mem_cons_self)

/-- What `ReadAsync` returns is well formed. -/
theorem readAsync_accepted {source : Except Exn (List ZipEntry)} {problems : List ImportedProblem}
    (h : readAsync options runtime source = .ok problems) :
    problems ≠ [] ∧ (∀ problem ∈ problems, Accepted problem) ∧ (problems.map (·.manifest.number)).Nodup := by
  unfold readAsync at h
  rw [Lib.Query.bind_eq_ok] at h
  obtain ⟨archive, -, h⟩ := h
  split at h
  · cases h
  · simp only [Lib.Query.bind_eq_ok] at h
    obtain ⟨files, -, result, hresult, h⟩ := h
    split at h
    · cases h
    · rename_i hne
      cases h
      obtain ⟨haccepted, hnodup⟩ := readFolders_accepted runtime hresult
      exact ⟨fun hnil => hne (by rw [hnil]; rfl), fun p hp => (haccepted p hp).1, hnodup⟩

end OlympSystem.Site.ProblemArchive
