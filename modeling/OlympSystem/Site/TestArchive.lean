/-
  OlympSystem.Site.TestArchive — the archive of a contest's tests
  (`ContestProblemService.GenerateTestZipAsync`, `SafeSegment`, `Problem.NameWithNumber`).

  A call reads the contest and its active problems, writes each input and output to an
  archive under a path made of sanitised names, and saves the archive's bytes once. It
  throws when it finds nothing to write, when the files or the archive are too large, or
  when two paths are equal up to case; so may each access, the gate and the library.
  `Archiver` is that library.

  Proved:
  - `safeSegment_number`: sanitising keeps the number a problem's name starts with.
  - `path_injective`: different problem numbers, test numbers or sides give different
    paths, whatever the names are.
  - `WellNumbered.paths`: the paths of a contest with distinct numbers differ not only in case.
  - `add_returns` / `add_throws`: one pass of the loops, with `Written`.
  - `testZip_saved` / `testZip_other`: what a save leaves for the downloads.
  - `generate_returns` / `generate_throws`: what a call leaves, and why one throws.
  - `generate_law`: no duplicate path, the archive of the tests on success, and no change
    on failure.
  - `generate_succeeds`: an undisturbed call fails only by its own limits.
-/

import Mathlib.Data.List.Nodup
import OlympSystem.Lib.Archives
import OlympSystem.Lib.Transactions
import OlympSystem.Site.CheckerManager

namespace OlympSystem.Site.TestArchive

open Lib.Archives Lib.Dictionaries Lib.Query Lib.Tables Lib.Text Lib.Transactions Work OlympSystem.Checker
open CheckerManager (activeTests)

/-! ## The store -/

structure BlobRow where
  id : Int
  data : Bytes
  deriving DecidableEq, Repr

structure Store where
  db : Db
  blobs : Table BlobRow BlobRow.id
  /-- The column `TestZipId` of the contests. -/
  testZipId : Int → Option Int
  testZip_of : ∀ contestId id, testZipId contestId = some id → ∃ blob ∈ blobs.rows, blob.id = id

namespace Store

def loadTestZip (store : Store) (contestId : Int) : Option BlobRow := (store.testZipId contestId).bind store.blobs.find?

/-- The bytes that a download of the tests gets. -/
def testZip (store : Store) (contestId : Int) : Option Bytes := (store.loadTestZip contestId).map BlobRow.data

def newBlob : Maker Bytes BlobRow.id where
  make data id := ⟨id, data⟩
  keyed _ _ := rfl

/-- The column `Data` of the blob that was loaded. -/
def dataColumn (loaded : BlobRow) (data : Bytes) : Update BlobRow.id where
  apply blob := { blob with data := saved loaded.data data blob.data }
  keeps _ := rfl

/-- `TestZip ??= new Blob`, the assignment of its data, and the save. -/
def saveTestZip (store : Store) (contestId : Int) (loaded : Option BlobRow) (data : Bytes) : Store :=
  match loaded with
  | some loaded =>
    { store with
      blobs := store.blobs.update ((dataColumn loaded data).restrict (·.id == loaded.id))
      testZip_of := by
        intro contestId id h
        obtain ⟨blob, hblob, hid⟩ := store.testZip_of contestId id h
        exact ⟨_, List.mem_map_of_mem hblob, (Update.keeps _ blob).trans hid⟩ }
  | none =>
    { store with
      blobs := store.blobs.insert newBlob data
      testZipId := fun id => if id = contestId then some store.blobs.next else store.testZipId id
      testZip_of := by
        intro other id h
        split at h
        · cases h; exact ⟨_, List.mem_append_right _ (List.mem_singleton_self _), rfl⟩
        · obtain ⟨blob, hblob, hid⟩ := store.testZip_of other id h
          exact ⟨blob, List.mem_append_left _ hblob, hid⟩ }

end Store

/-! ## Paths -/

def isControl (c : Char) : Bool := decide (c.toNat < 0x20) || (decide (0x7F ≤ c.toNat) && decide (c.toNat ≤ 0x9F))

def isReplaced (c : Char) : Bool := isControl c || "<>:\"/\\|?*".toList.contains c

def safeChar (c : Char) : Char := if isReplaced c then '_' else c

def safeSegment (name : String) : String := trimEndOf [' ', '.'] (String.ofList (name.toList.map safeChar))

/-- The service with what `GenerateTestZipAsync` reads besides. -/
structure Service extends ContestProblemService where
  maxZipBytes : Nat := 100 * 1024 * 1024
  /-- `NegativeSign` of the current culture. -/
  negativeSign : String
  zip : Archiver

/-- A file of the archive is the input or the output of a test. -/
inductive Side where
  | input
  | output
  deriving DecidableEq, Repr

def Side.word : Side → String
  | .input => "input"
  | .output => "output"

structure Member where
  problem : ProblemRow
  test : TestRow
  side : Side
  deriving DecidableEq, Repr

def Member.bytes (m : Member) : Bytes :=
  match m.side with
  | .input => m.test.content.input
  | .output => m.test.content.output

namespace Service

variable (service : Service)

/-- A number in an interpolated string, in at least `width` digits. -/
def format (width : Nat) (n : Int) : String :=
  if n < 0 then service.negativeSign ++ padded width n.natAbs else padded width n.natAbs

def nameWithNumber (problem : ProblemRow) : String := service.format 1 problem.number ++ ". " ++ problem.name

def path (contest : ContestRow) (m : Member) : String :=
  safeSegment ("Test" ++ contest.abbr) ++ "/" ++ (safeSegment (service.nameWithNumber m.problem) ++ "/" ++
    (m.side.word ++ service.format 2 m.test.content.number ++ ".txt"))

end Service

/-! ## The call -/

def noActiveTests : Exn := .invalidData "The contest has no active tests." []

def tooLarge : Exn := .invalidData "The test archive exceeds the expanded size limit." []

def duplicatePath (path : String) : Exn := .invalidData "Duplicate test path: {0}" [path]

def zipTooLarge : Exn := .invalidData "The tests ZIP exceeds the size limit." []

namespace Service

variable (service : Service)

/-- The archive that is being written, with the loop's variables. -/
structure Archive where
  size : Nat
  names : Dict String Unit service.runtime.upper.fold
  entries : List NewEntry

def new : Archive service := ⟨0, Dict.empty, []⟩

/-- The body of the loops. -/
def add (contest : ContestRow) (archive : Archive service) (m : Member) : Work Store Exn (Archive service) := do
  let size := archive.size + m.bytes.length
  throwIf (decide (service.options.maxExpandedBytes < size)) tooLarge
  let path := service.path contest m
  let names ← orThrow (archive.names.tryAdd path ()) (duplicatePath path)
  let time ← now
  -- `CreateEntry`, `Open` and `WriteAsync`
  query fun _ => ()
  return ⟨size, names, archive.entries ++ [⟨path, time, m.bytes⟩]⟩

end Service

structure LoadedContest extends ContestRow where
  testZip : Option BlobRow

def loadContest (store : Store) (contestId : Int) : Except Exn LoadedContest :=
  (single (fun x => x.id == contestId) store.db.contests.rows).map fun contest => ⟨contest, store.loadTestZip contestId⟩

def isActiveIn (contestId : Int) (x : ProblemRow) : Bool := x.contestId == contestId && x.isActive

def activeProblems (db : Db) (contestId : Int) : List ProblemRow :=
  orderBy (byKey ProblemRow.number) (db.problems.rows.filter (isActiveIn contestId))

/-- What the loops go through. -/
def members (problems : List ProblemRow) : List Member :=
  problems.flatMap fun problem => (activeTests problem).flatMap fun test =>
    [⟨problem, test, .input⟩, ⟨problem, test, .output⟩]

def generateTestZipAsync (service : Service) (contestId : Int) : Work Store Exn Unit := do
  throwIfCancelled .operationCanceled
  let contest ← access fun store => (loadContest store contestId).map (·, store)
  let problems ← query fun store => activeProblems store.db contestId
  throwIf (!problems.any fun x => (activeTests x).length != 0) noActiveTests
  let archive ← (members problems).foldlM (service.add contest.toContestRow) service.new
  -- the archive is closed
  query fun _ => ()
  let data := service.zip.write archive.entries
  throwIf (decide (service.maxZipBytes < data.length)) zipTooLarge
  access fun store => .ok ((), store.saveTestZip contestId contest.testZip data)

/-! ## Sanitised names -/

theorem slash_not_mem_safeSegment (name : String) : '/' ∉ (safeSegment name).toList := by
  intro h
  unfold safeSegment trimEndOf at h
  rw [String.toList_ofList, String.toList_ofList] at h
  obtain ⟨c, -, hc⟩ := List.mem_map.mp ((List.rdropWhile_prefix _ _).subset h)
  unfold safeChar at hc
  split at hc
  · exact absurd hc (by decide)
  · next hkept => rw [hc] at hkept; exact hkept (by decide)

/-- A digit is neither replaced nor trimmed. -/
theorem safeChar_digit {c : Char} (h : c.isDigit = true) : safeChar c = c ∧ [' ', '.'].contains c = false := by
  have hdigit : ∀ n < 128, (Char.ofNat n).isDigit = true →
      safeChar (Char.ofNat n) = Char.ofNat n ∧ [' ', '.'].contains (Char.ofNat n) = false := by decide
  exact of_ascii (P := fun c => c.isDigit = true → safeChar c = c ∧ [' ', '.'].contains c = false)
    hdigit (digit_ascii h) h

/-- The number in front stays, and what is left after it starts with the dot. -/
theorem safeSegment_number {number : String} (hdigits : ∀ c ∈ number.toList, c.isDigit = true)
    (hne : number.toList ≠ []) (name : String) :
    ∃ rest, (safeSegment (number ++ ". " ++ name)).toList = number.toList ++ rest ∧
      (rest = [] ∨ ∃ tail, rest = '.' :: tail) := by
  obtain ⟨init, last, hlast⟩ := List.eq_nil_or_concat number.toList |>.resolve_left hne
  have hkept : number.toList.map safeChar = init ++ [last] := by
    rw [← List.concat_eq_append, ← hlast]
    exact (List.map_congr_left fun c hc => (safeChar_digit (hdigits c hc)).1).trans (List.map_id _)
  have hmapped : (number ++ ". " ++ name).toList.map safeChar =
      init ++ last :: '.' :: ' ' :: name.toList.map safeChar := by
    rw [String.toList_append, String.toList_append, List.map_append, List.map_append, hkept]
    simp [safeChar, isReplaced, isControl]
  have hstays : [' ', '.'].contains last = false := (safeChar_digit (hdigits last (by simp [hlast]))).2
  refine ⟨('.' :: ' ' :: name.toList.map safeChar).rdropWhile [' ', '.'].contains, ?_, ?_⟩
  · unfold safeSegment
    rw [hmapped, trimEndOf_append hstays, hlast]
    simp
  · exact (List.prefix_cons_iff.mp (List.rdropWhile_prefix _ _)).imp_right fun ⟨tail, htail, _⟩ => ⟨tail, htail⟩

namespace Service

variable {service : Service}

theorem format_nonneg {width : Nat} {n : Int} (h : 0 ≤ n) : service.format width n = padded width n.natAbs :=
  if_neg (not_lt.mpr h)

theorem format_injective {width : Nat} {m n : Int} (hm : 0 ≤ m) (hn : 0 ≤ n)
    (h : service.format width m = service.format width n) : m = n := by
  rw [format_nonneg hm, format_nonneg hn] at h
  have hvalue := padded_injective h
  omega

theorem format_digits {width : Nat} {n : Int} (h : 0 ≤ n) :
    ∀ c ∈ (service.format width n).toList, c.isDigit = true := by
  rw [format_nonneg h]
  exact padded_digits width n.natAbs

theorem format_ne_nil {width : Nat} {n : Int} (h : 0 ≤ n) : (service.format width n).toList ≠ [] := by
  rw [format_nonneg h]
  obtain ⟨k, hpadded⟩ := padded_toList width n.natAbs
  rw [hpadded]
  exact List.append_ne_nil_of_right_ne_nil _ Nat.toDigits_ne_nil

/-- The digits a problem's folder starts with, up to case, are those of its number. -/
theorem folder_digits (upper : UpperCase) {problem : ProblemRow} (h : 0 ≤ problem.number) :
    (upper.fold (safeSegment (service.nameWithNumber problem))).takeWhile Char.isDigit =
      (service.format 1 problem.number).toList := by
  have hdigits : ∀ c ∈ (service.format 1 problem.number).toList, c.isDigit = true := format_digits h
  obtain ⟨rest, hsegment, hrest⟩ := safeSegment_number hdigits (format_ne_nil h) problem.name
  have hfold : upper.fold (safeSegment (service.nameWithNumber problem)) =
      (service.format 1 problem.number).toList ++ rest.map upper.upper := by
    have hnumber : (service.format 1 problem.number).toList.map upper.upper =
        (service.format 1 problem.number).toList :=
      UpperCase.fold_digits upper hdigits
    unfold UpperCase.fold nameWithNumber
    rw [hsegment, List.map_append, hnumber]
  have hdot : upper.upper '.' = '.' := upper.ascii '.' (by decide)
  rw [hfold, List.takeWhile_append_of_pos hdigits]
  rcases hrest with rfl | ⟨tail, rfl⟩
  · simp
  · rw [List.map_cons, hdot, List.takeWhile_cons_of_neg (by decide), List.append_nil]

theorem file_injective (upper : UpperCase) {side side' : Side} {m n : Int} (hm : 0 ≤ m) (hn : 0 ≤ n)
    (h : upper.fold (side.word ++ service.format 2 m ++ ".txt") =
      upper.fold (side'.word ++ service.format 2 n ++ ".txt")) :
    m = n ∧ side = side' := by
  have hside : side = side' := by
    have hi : upper.upper 'i' = 'I' := upper.ascii 'i' (by decide)
    have ho : upper.upper 'o' = 'O' := upper.ascii 'o' (by decide)
    have hhead := congrArg List.head? h
    cases side <;> cases side' <;>
      simp [UpperCase.fold, Side.word, hi, ho] at hhead ⊢
  rw [← hside, UpperCase.fold_append, UpperCase.fold_append, UpperCase.fold_append, UpperCase.fold_append,
    List.append_cancel_right_eq, List.append_cancel_left_eq, UpperCase.fold_digits upper (format_digits hm),
    UpperCase.fold_digits upper (format_digits hn)] at h
  exact ⟨format_injective hm hn (String.toList_injective h), hside⟩

theorem fold_path (upper : UpperCase) (contest : ContestRow) (m : Member) :
    upper.fold (service.path contest m) = upper.fold (safeSegment ("Test" ++ contest.abbr)) ++ '/' ::
      (upper.fold (safeSegment (service.nameWithNumber m.problem)) ++ '/' ::
        upper.fold (m.side.word ++ service.format 2 m.test.content.number ++ ".txt")) := by
  unfold path
  rw [UpperCase.fold_slash upper (safeSegment ("Test" ++ contest.abbr)),
    UpperCase.fold_slash upper (safeSegment (service.nameWithNumber m.problem))]

/-- Up to case, a path tells the number of the problem, the number of the test and the side. -/
theorem path_injective (upper : UpperCase) {contest : ContestRow} {m m' : Member}
    (hproblem : 0 ≤ m.problem.number) (hproblem' : 0 ≤ m'.problem.number)
    (htest : 0 ≤ m.test.content.number) (htest' : 0 ≤ m'.test.content.number)
    (h : upper.fold (service.path contest m) = upper.fold (service.path contest m')) :
    m.problem.number = m'.problem.number ∧ m.test.content.number = m'.test.content.number ∧ m.side = m'.side := by
  have hslash : ∀ name, '/' ∉ upper.fold (safeSegment name) := fun name =>
    UpperCase.slash_not_mem_fold upper (slash_not_mem_safeSegment name)
  have hsegments := (fold_path upper contest m).symm.trans (h.trans (fold_path upper contest m'))
  obtain ⟨-, hmember⟩ := first_part (hslash _) (hslash _) hsegments
  obtain ⟨hfolder, hfile⟩ := first_part (hslash _) (hslash _) hmember
  have hnumber := congrArg (List.takeWhile Char.isDigit) hfolder
  rw [folder_digits upper hproblem, folder_digits upper hproblem'] at hnumber
  exact ⟨format_injective hproblem hproblem' (String.toList_injective hnumber), file_injective upper htest htest' hfile⟩

end Service

/-! ## The loops -/

/-- The members that are done are in the archive. -/
structure Written (service : Service) (contest : ContestRow) (done : List Member) (archive : service.Archive) :
    Prop where
  size : archive.size = (done.map fun m => m.bytes.length).sum
  within : archive.size ≤ service.options.maxExpandedBytes
  names : archive.names.entries.map (fun e => service.runtime.upper.fold e.1) =
    done.map fun m => service.runtime.upper.fold (service.path contest m)
  entries : archive.entries.map NewEntry.content = done.map fun m => (service.path contest m, m.bytes)

section Loops

variable {service : Service} {contest : ContestRow} {o : Outside Exn} {store store' : Store} {e : Exn}

theorem new_written : Written service contest [] service.new := ⟨rfl, Nat.zero_le _, rfl, rfl⟩

theorem add_returns {done : List Member} {archive archive' : service.Archive} {m : Member}
    (hw : Written service contest done archive) (h : Returns o (service.add contest archive m) store archive' store') :
    Written service contest (done ++ [m]) archive' ∧ store' = store := by
  unfold Service.add at h
  obtain ⟨hsize, h⟩ := Returns.throwIf_bind h
  obtain ⟨names, hnames, h⟩ := Returns.orThrow_bind h
  obtain ⟨n, h⟩ := Returns.now_bind h
  have hlast := Returns.query_bind h
  obtain ⟨rfl, rfl⟩ := Returns.pure hlast
  refine ⟨⟨?_, ?_, ?_, ?_⟩, rfl⟩
  · simp [hw.size]
  · simpa using hsize
  · simp [Dict.mem_tryAdd hnames, hw.names]
  · simp [hw.entries, NewEntry.content]

/-- Only a path that was there before is refused. -/
theorem add_throws {done : List Member} {archive : service.Archive} {m : Member}
    (hw : Written service contest done archive)
    (hfresh : service.runtime.upper.fold (service.path contest m) ∉
      done.map fun m => service.runtime.upper.fold (service.path contest m))
    (h : Throws o (service.add contest archive m) store e) :
    (∃ n, o.fault n = some e) ∨
      (e = tooLarge ∧ service.options.maxExpandedBytes < ((done ++ [m]).map fun m => m.bytes.length).sum) := by
  unfold Service.add at h
  rcases Throws.throwIf_bind h with ⟨hsize, rfl⟩ | ⟨-, h⟩
  · refine Or.inr ⟨rfl, ?_⟩
    simpa [hw.size] using hsize
  · refine Or.inl ?_
    rcases Throws.orThrow_bind h with ⟨hnames, -⟩ | ⟨names, -, h⟩
    · rw [Dict.tryAdd_eq_none, hw.names] at hnames
      exact absurd hnames hfresh
    · obtain ⟨n, h⟩ := Throws.now_bind h
      rcases Throws.query_bind h with hfault | h
      · exact hfault
      · exact absurd h Throws.pure

/-- Before a pass, what is done and what is left are all members. -/
def Loops (service : Service) (contest : ContestRow) (store : Store) (all rest : List Member)
    (archive : service.Archive) (now : Store) : Prop :=
  ∃ done, all = done ++ rest ∧ Written service contest done archive ∧ now = store

theorem loops_step {all : List Member} (m : Member) (rest : List Member) (archive : service.Archive) (db : Store)
    (archive' : service.Archive) (db' : Store) (hloops : Loops service contest store all (m :: rest) archive db)
    (h : Returns o (service.add contest archive m) db archive' db') :
    Loops service contest store all rest archive' db' := by
  obtain ⟨done, hall, hw, rfl⟩ := hloops
  obtain ⟨hw', rfl⟩ := add_returns hw h
  exact ⟨done ++ [m], by simp [hall], hw', rfl⟩

theorem loops_return {all : List Member} {archive : service.Archive}
    (h : Returns o (all.foldlM (service.add contest) service.new) store archive store') :
    Written service contest all archive ∧ store' = store := by
  obtain ⟨done, hall, hw, rfl⟩ := Returns.foldlM (Loops service contest store all) loops_step
    ⟨[], rfl, new_written, rfl⟩ h
  rw [List.append_nil] at hall
  exact ⟨hall ▸ hw, rfl⟩

/-- With paths that are all different, the loops refuse nothing but the size. -/
theorem loops_throw {all : List Member}
    (hpaths : (all.map fun m => service.runtime.upper.fold (service.path contest m)).Nodup)
    (h : Throws o (all.foldlM (service.add contest) service.new) store e) :
    (∃ n, o.fault n = some e) ∨
      (e = tooLarge ∧ service.options.maxExpandedBytes < (all.map fun m => m.bytes.length).sum) := by
  obtain ⟨m, rest, archive, db, ⟨done, rfl, hw, -⟩, hround⟩ :=
    Throws.foldlM_of_inv (Loops service contest store all) loops_step ⟨[], rfl, new_written, rfl⟩ h
  have hfresh : service.runtime.upper.fold (service.path contest m) ∉
      done.map fun m => service.runtime.upper.fold (service.path contest m) := by
    rw [List.map_append, List.map_cons] at hpaths
    intro hmem
    exact (List.nodup_append.mp hpaths).2.2 _ hmem _ List.mem_cons_self rfl
  rcases add_throws hw hfresh hround with hfault | ⟨rfl, hsize⟩
  · exact Or.inl hfault
  · refine Or.inr ⟨rfl, lt_of_lt_of_le hsize ?_⟩
    simp only [List.map_append, List.map_cons, List.map_nil, List.sum_append, List.sum_cons, List.sum_nil]
    omega

end Loops

/-! ## The members -/

/-- An active test of an active problem of the contest, with a side. -/
def Member.IsActive (db : Db) (contestId : Int) (m : Member) : Prop :=
  m.problem ∈ db.problems.rows ∧ isActiveIn contestId m.problem = true ∧
    m.test ∈ m.problem.tests ∧ m.test.content.isActive = true

/-- The active problems have distinct positive numbers, and the active tests of each have
    distinct numbers that are not negative. -/
structure WellNumbered (db : Db) (contestId : Int) : Prop where
  problems : ((db.problems.rows.filter (isActiveIn contestId)).map ProblemRow.number).Nodup
  positive : ∀ p ∈ db.problems.rows, isActiveIn contestId p = true → 0 < p.number
  tests : ∀ p ∈ db.problems.rows, isActiveIn contestId p = true →
    ((p.tests.filter (·.content.isActive)).map (·.content.number)).Nodup
  nonneg : ∀ p ∈ db.problems.rows, isActiveIn contestId p = true →
    ∀ t ∈ p.tests, t.content.isActive = true → 0 ≤ t.content.number

section Members

variable {db : Db} {contestId : Int}

theorem mem_activeProblems {p : ProblemRow} :
    p ∈ activeProblems db contestId ↔ p ∈ db.problems.rows ∧ isActiveIn contestId p = true := by
  unfold activeProblems
  rw [mem_orderBy, List.mem_filter]

theorem mem_activeTests {p : ProblemRow} {t : TestRow} :
    t ∈ activeTests p ↔ t ∈ p.tests ∧ t.content.isActive = true := by
  unfold activeTests
  rw [mem_orderBy, List.mem_filter]

theorem mem_members {problems : List ProblemRow} {m : Member} :
    m ∈ members problems ↔ m.problem ∈ problems ∧ m.test ∈ activeTests m.problem := by
  unfold members
  simp only [List.mem_flatMap, List.mem_cons, List.not_mem_nil, or_false]
  constructor
  · rintro ⟨p, hp, t, ht, rfl | rfl⟩ <;> exact ⟨hp, ht⟩
  · intro ⟨hp, ht⟩
    refine ⟨m.problem, hp, m.test, ht, ?_⟩
    obtain ⟨p, t, side⟩ := m
    cases side <;> simp

theorem mem_members_iff {m : Member} : m ∈ members (activeProblems db contestId) ↔ m.IsActive db contestId := by
  rw [mem_members, mem_activeProblems, mem_activeTests, and_assoc]; rfl

/-- What a path tells of a member. -/
def Member.key (m : Member) : Int × Int × Side := (m.problem.number, m.test.content.number, m.side)

theorem members_keys {problems : List ProblemRow} (hproblems : (problems.map ProblemRow.number).Nodup)
    (htests : ∀ p ∈ problems, ((activeTests p).map (·.content.number)).Nodup) :
    ((members problems).map Member.key).Nodup := by
  unfold members
  rw [List.map_flatMap]
  refine List.nodup_flatMap.mpr ⟨fun p hp => ?_, (List.pairwise_map.mp hproblems).imp fun hne => ?_⟩
  · rw [List.map_flatMap]
    refine List.nodup_flatMap.mpr
      ⟨fun t _ => by simp [Member.key], (List.pairwise_map.mp (htests p hp)).imp fun hne => ?_⟩
    refine List.disjoint_left.mpr fun k hk hk' => hne ?_
    simp only [List.map_cons, List.map_nil, List.mem_cons, List.not_mem_nil, or_false, Member.key] at hk hk'
    rcases hk with rfl | rfl <;> simpa using hk'
  · refine List.disjoint_left.mpr fun k hk hk' => hne ?_
    obtain ⟨m, hm, rfl⟩ := List.mem_map.mp hk
    obtain ⟨m', hm', hkey⟩ := List.mem_map.mp hk'
    simp only [List.mem_flatMap, List.mem_cons, List.not_mem_nil, or_false] at hm hm'
    obtain ⟨t, -, hm⟩ := hm
    obtain ⟨t', -, hm'⟩ := hm'
    rcases hm with rfl | rfl <;> rcases hm' with rfl | rfl <;> exact (congrArg Prod.fst hkey).symm

/-- Well numbered members have paths that differ not only in case. -/
theorem WellNumbered.paths (h : WellNumbered db contestId) (service : Service) (contest : ContestRow) :
    ((members (activeProblems db contestId)).map fun m =>
      service.runtime.upper.fold (service.path contest m)).Nodup := by
  have hproblems : ((activeProblems db contestId).map ProblemRow.number).Nodup :=
    ((orderBy_perm _ _).map _).nodup_iff.mpr h.problems
  have htests : ∀ p ∈ activeProblems db contestId, ((activeTests p).map (·.content.number)).Nodup := fun p hp =>
    ((orderBy_perm _ _).map _).nodup_iff.mpr (h.tests p (mem_activeProblems.mp hp).1 (mem_activeProblems.mp hp).2)
  have hkeys := List.pairwise_map.mp (members_keys hproblems htests)
  refine List.pairwise_map.mpr (hkeys.imp_of_mem fun {m m'} hm hm' hne heq => hne ?_)
  obtain ⟨hp, hactive, ht, htest⟩ := mem_members_iff.mp hm
  obtain ⟨hp', hactive', ht', htest'⟩ := mem_members_iff.mp hm'
  obtain ⟨hnumber, htestNumber, hside⟩ := Service.path_injective service.runtime.upper
    (h.positive _ hp hactive).le (h.positive _ hp' hactive').le
    (h.nonneg _ hp hactive _ ht htest) (h.nonneg _ hp' hactive' _ ht' htest') heq
  exact Prod.ext hnumber (Prod.ext htestNumber hside)

end Members

/-! ## The save -/

section Save

variable {store : Store} {contestId : Int}

/-- What is saved is what a download gets. -/
theorem testZip_saved (data : Bytes) :
    (store.saveTestZip contestId (store.loadTestZip contestId) data).testZip contestId = some data := by
  cases hload : store.loadTestZip contestId with
  | none =>
    have hnew : (⟨store.blobs.next, data⟩ : BlobRow) ∈ (store.blobs.insert Store.newBlob data).rows :=
      List.mem_append_right _ (List.mem_singleton_self _)
    unfold Store.testZip Store.loadTestZip Store.saveTestZip
    simp only [if_true, Option.bind_some]
    rw [show store.blobs.next = (⟨store.blobs.next, data⟩ : BlobRow).id from rfl, Table.find?_of_mem hnew]
    rfl
  | some blob =>
    obtain ⟨id, hid, hfind⟩ := Option.bind_eq_some_iff.mp hload
    obtain ⟨hblob, rfl⟩ := Table.find?_some hfind
    have hwritten : (⟨blob.id, data⟩ : BlobRow) ∈
        (store.blobs.update ((Store.dataColumn blob data).restrict (·.id == blob.id))).rows := by
      refine List.mem_map.mpr ⟨blob, hblob, ?_⟩
      rw [Update.restrict_apply, if_pos (beq_self_eq_true blob.id)]
      simp [Store.dataColumn]
    unfold Store.testZip Store.loadTestZip Store.saveTestZip
    simp only [hid, Option.bind_some]
    rw [show blob.id = (⟨blob.id, data⟩ : BlobRow).id from rfl, Table.find?_of_mem hwritten]
    rfl

/-- The archive of a contest with another blob stays. -/
theorem testZip_other {other : Int} (data : Bytes) (hother : other ≠ contestId)
    (hblob : ∀ id, store.testZipId other = some id → store.testZipId contestId ≠ some id) :
    (store.saveTestZip contestId (store.loadTestZip contestId) data).testZip other = store.testZip other := by
  cases hload : store.loadTestZip contestId with
  | none =>
    unfold Store.testZip Store.loadTestZip Store.saveTestZip
    simp only [if_neg hother]
    cases hid : store.testZipId other with
    | none => rfl
    | some id =>
      obtain ⟨blob, hmem, rfl⟩ := store.testZip_of other id hid
      have hkept : blob ∈ (store.blobs.insert Store.newBlob data).rows := List.mem_append_left _ hmem
      rw [Option.bind_some, Option.bind_some, Table.find?_of_mem hkept, Table.find?_of_mem hmem]
  | some loaded =>
    obtain ⟨loadedId, hloaded, hfind⟩ := Option.bind_eq_some_iff.mp hload
    obtain ⟨-, rfl⟩ := Table.find?_some hfind
    unfold Store.testZip Store.loadTestZip Store.saveTestZip
    simp only
    cases hid : store.testZipId other with
    | none => rfl
    | some id =>
      obtain ⟨blob, hmem, rfl⟩ := store.testZip_of other id hid
      have hne : (blob.id == loaded.id) = false := beq_eq_false_iff_ne.mpr fun heq => hblob blob.id hid (heq ▸ hloaded)
      have hkept : blob ∈ (store.blobs.update ((Store.dataColumn loaded data).restrict (·.id == loaded.id))).rows := by
        refine List.mem_map.mpr ⟨blob, hmem, ?_⟩
        rw [Update.restrict_apply, hne]; rfl
      rw [Option.bind_some, Option.bind_some, Table.find?_of_mem hkept, Table.find?_of_mem hmem]

end Save

/-! ## The call -/

def totalBytes (db : Db) (contestId : Int) :
    Nat := ((members (activeProblems db contestId)).map fun m => m.bytes.length).sum

/-- Why a call throws. -/
inductive Reason (o : Outside Exn) (service : Service) (store : Store) (contestId : Int) : Exn → Prop
  /-- An access, or the library, throws. -/
  | outside {n : Nat} {e : Exn} : o.fault n = some e → Reason o service store contestId e
  | cancelled {n : Nat} : o.cancelled n = true → Reason o service store contestId .operationCanceled
  | contest {e : Exn} : loadContest store contestId = .error e → Reason o service store contestId e
  | empty : (∀ p ∈ activeProblems store.db contestId, activeTests p = []) →
    Reason o service store contestId noActiveTests
  | expanded : service.options.maxExpandedBytes < totalBytes store.db contestId →
    Reason o service store contestId tooLarge
  | zip {contest : ContestRow} {archive : service.Archive} : contest ∈ store.db.contests.rows → contest.id = contestId →
      Written service contest (members (activeProblems store.db contestId)) archive →
      service.maxZipBytes < (service.zip.write archive.entries).length → Reason o service store contestId zipTooLarge

section Call

variable {service : Service} {contestId : Int} {o : Outside Exn} {store store' : Store} {e : Exn}

theorem loadContest_ok {contest : LoadedContest} (h : loadContest store contestId = .ok contest) :
    contest.toContestRow ∈ store.db.contests.rows ∧ contest.id = contestId ∧
      contest.testZip = store.loadTestZip contestId := by
  unfold loadContest at h
  cases hsingle : single (fun x => x.id == contestId) store.db.contests.rows with
  | error e => rw [hsingle] at h; cases h
  | ok found =>
    rw [hsingle] at h
    cases h
    unfold single at hsingle
    split at hsingle
    · next hfilter =>
      cases hsingle
      have hmem : found ∈ store.db.contests.rows.filter (fun x => x.id == contestId) := by simp [hfilter]
      exact ⟨(List.mem_filter.mp hmem).1, beq_iff_eq.mp (List.mem_filter.mp hmem).2, rfl⟩
    · cases hsingle
    · cases hsingle

theorem loadContest_mem {contest : ContestRow} (h : contest ∈ store.db.contests.rows) :
    loadContest store contest.id = .ok ⟨contest, store.loadTestZip contest.id⟩ := by
  unfold loadContest single
  rw [filter_key_unique store.db.contests.keys h]
  rfl

/-- What is thrown for a contest that is not there is not about a path. -/
theorem loadContest_error {path : String} : loadContest store contestId ≠ .error (duplicatePath path) := by
  unfold loadContest single
  split <;> simp [Except.map, duplicatePath]

theorem generate_returns (h : Returns o (generateTestZipAsync service contestId) store () store') :
    ∃ contest archive, contest ∈ store.db.contests.rows ∧ contest.id = contestId ∧
      Written service contest (members (activeProblems store.db contestId)) archive ∧
      store' = store.saveTestZip contestId (store.loadTestZip contestId) (service.zip.write archive.entries) := by
  unfold generateTestZipAsync at h
  have hentered := Returns.cancelled_bind h
  obtain ⟨contest, db, hread, hloaded⟩ := Returns.bind hentered
  obtain ⟨hload, rfl⟩ := Returns.read hread
  obtain ⟨hcontest, hid, hzip⟩ := loadContest_ok hload
  have hproblems := Returns.query_bind hloaded
  obtain ⟨-, hchecked⟩ := Returns.throwIf_bind hproblems
  obtain ⟨archive, db, hloops, hwritten⟩ := Returns.bind hchecked
  obtain ⟨hw, rfl⟩ := loops_return hloops
  have hended := Returns.query_bind hwritten
  obtain ⟨-, hclosed⟩ := Returns.throwIf_bind hended
  have hsave := Returns.access hclosed
  cases hsave
  exact ⟨contest.toContestRow, archive, hcontest, hid, hw, by rw [hzip]⟩

theorem generate_throws (hnumbers : WellNumbered store.db contestId)
    (h : Throws o (generateTestZipAsync service contestId) store e) : Reason o service store contestId e := by
  unfold generateTestZipAsync at h
  rcases Throws.cancelled_bind h with ⟨⟨n, hcancelled⟩, rfl⟩ | hentered
  · exact .cancelled hcancelled
  rcases Throws.bind hentered with hread | ⟨contest, db, hread, hloaded⟩
  · rcases Throws.access hread with ⟨n, hfault⟩ | hload
    · exact .outside hfault
    · cases herror : loadContest store contestId with
      | error _ => rw [herror] at hload; cases hload; exact .contest herror
      | ok _ => rw [herror] at hload; cases hload
  obtain ⟨hload, rfl⟩ := Returns.read hread
  obtain ⟨hcontest, hid, -⟩ := loadContest_ok hload
  rcases Throws.query_bind hloaded with ⟨n, hfault⟩ | hproblems
  · exact .outside hfault
  rcases Throws.throwIf_bind hproblems with ⟨hempty, rfl⟩ | ⟨-, hchecked⟩
  · refine .empty fun p hp => ?_
    simp only [Bool.not_eq_true', List.any_eq_false] at hempty
    simpa using hempty p hp
  rcases Throws.bind hchecked with hloops | ⟨archive, db, hloops, hwritten⟩
  · rcases loops_throw (hnumbers.paths service contest.toContestRow) hloops with ⟨n, hfault⟩ | ⟨rfl, hsize⟩
    · exact .outside hfault
    · exact .expanded hsize
  obtain ⟨hw, rfl⟩ := loops_return hloops
  rcases Throws.query_bind hwritten with ⟨n, hfault⟩ | hended
  · exact .outside hfault
  rcases Throws.throwIf_bind hended with ⟨hsize, rfl⟩ | ⟨-, hclosed⟩
  · exact .zip hcontest hid hw (of_decide_eq_true hsize)
  rcases Throws.access hclosed with ⟨n, hfault⟩ | hsave
  · exact .outside hfault
  · cases hsave

theorem generate_atomic : Atomic (generateTestZipAsync service contestId) := by
  unfold generateTestZipAsync
  refine .after (.throwIfCancelled _) fun _ => .after (.read _) fun loaded => ?_
  refine .after (.query _) fun problems => .after (.throwIf _ _) fun _ => .after ?_ fun archive => ?_
  · refine .foldlM (fun archive m => ?_) _ _
    unfold Service.add
    exact .bind (.throwIf _ _) fun _ => .bind (.orThrow _ _) fun _ => .bind .now fun _ =>
      .bind (.query _) fun _ => .pure _
  · exact .after (.query _) fun _ => .after (.throwIf _ _) fun _ => .access _

theorem Reason.not_duplicate {path : String} (h : Reason o service store contestId (duplicatePath path)) :
    ∃ n, o.fault n = some (duplicatePath path) := by
  generalize hpath : duplicatePath path = e at h
  cases h with
  | @outside n _ hfault => exact ⟨n, hfault⟩
  | contest hload => exact absurd (hpath ▸ hload) loadContest_error
  | cancelled => cases hpath
  | empty | expanded | zip => simp [duplicatePath, noActiveTests, tooLarge, zipTooLarge] at hpath

/-- Each input and output of an active test is in the archive once, under a path of its own,
    and nothing else is. -/
def IsTestArchive (service : Service) (db : Db) (contest : ContestRow) (data : Bytes) : Prop :=
  ∃ ms : List Member, ms.Nodup ∧ (∀ m, m ∈ ms ↔ m.IsActive db contest.id) ∧
    service.zip.read data = ms.map (fun m => (service.path contest m, m.bytes)) ∧
    (ms.map fun m => service.runtime.upper.fold (service.path contest m)).Nodup

theorem Written.isTestArchive {contest : ContestRow} {archive : service.Archive}
    (hnumbers : WellNumbered store.db contest.id)
    (h : Written service contest (members (activeProblems store.db contest.id)) archive) :
    IsTestArchive service store.db contest (service.zip.write archive.entries) := by
  have hpaths := hnumbers.paths service contest
  exact ⟨_, .of_map _ hpaths, fun m => mem_members_iff, by rw [service.zip.stores, h.entries], hpaths⟩

/-- The archive holds no more bytes than are allowed. -/
theorem Written.bytes {contest : ContestRow} {done : List Member} {archive : service.Archive}
    (h : Written service contest done archive) :
    ((service.zip.read (service.zip.write archive.entries)).map fun e => e.2.length).sum ≤
      service.options.maxExpandedBytes := by
  have hsize := h.within
  rw [h.size] at hsize
  rw [service.zip.stores, h.entries, List.map_map]
  exact hsize

/-- A call whose contest is well numbered does not fail with a duplicate path. When it
    succeeds, the archive of the tests is stored; when it fails, nothing has changed. -/
theorem generate_law (service : Service) (contestId : Int) (o : Outside Exn) (store : Store) (n : Nat)
    (hnumbers : WellNumbered store.db contestId) :
    let result := generateTestZipAsync service contestId o ⟨store, n⟩
    (∀ path, result.1 = .error (duplicatePath path) → ∃ n, o.fault n = some (duplicatePath path)) ∧
    (result.1 = .ok () → ∃ contest ∈ store.db.contests.rows, contest.id = contestId ∧
      ∃ data, result.2.db.testZip contestId = some data ∧ IsTestArchive service store.db contest data ∧
        ((service.zip.read data).map fun e => e.2.length).sum ≤ service.options.maxExpandedBytes) ∧
    (∀ e, result.1 = .error e → result.2.db = store) := by
  intro result
  refine ⟨fun path herror => ?_, fun hok => ?_, fun e herror => ?_⟩
  · exact (generate_throws hnumbers ⟨n, herror⟩).not_duplicate
  · obtain ⟨contest, archive, hcontest, rfl, hw, hsaved⟩ := generate_returns (Returns.of_run hok)
    refine ⟨contest, hcontest, rfl, _, ?_, hw.isTestArchive hnumbers, hw.bytes⟩
    show Store.testZip (generateTestZipAsync service contest.id o ⟨store, n⟩).2.db contest.id = _
    rw [hsaved, testZip_saved]
  · exact generate_atomic o ⟨store, n⟩ e herror

/-- An undisturbed call succeeds if there is something to write and none of it is too large. -/
theorem generate_succeeds {contest : ContestRow} (hcontest : contest ∈ store.db.contests.rows)
    (hnumbers : WellNumbered store.db contest.id) (hcalm : ∀ n, o.fault n = none)
    (huncancelled : ∀ n, o.cancelled n = false) (htest : ∃ m : Member, m.IsActive store.db contest.id)
    (hbytes : totalBytes store.db contest.id ≤ service.options.maxExpandedBytes)
    (hzip : ∀ archive, Written service contest (members (activeProblems store.db contest.id)) archive →
      (service.zip.write archive.entries).length ≤ service.maxZipBytes) (n : Nat) :
    (generateTestZipAsync service contest.id o ⟨store, n⟩).1 = .ok () := by
  cases hresult : (generateTestZipAsync service contest.id o ⟨store, n⟩).1 with
  | ok _ => rfl
  | error e =>
    cases generate_throws hnumbers ⟨n, hresult⟩ with
    | outside hfault => rw [hcalm] at hfault; cases hfault
    | cancelled hcancelled => rw [huncancelled] at hcancelled; cases hcancelled
    | contest hload => rw [loadContest_mem hcontest] at hload; cases hload
    | empty hempty =>
      obtain ⟨m, hm⟩ := htest
      obtain ⟨hp, ht⟩ := mem_members.mp (mem_members_iff.mpr hm)
      rw [hempty _ hp] at ht
      cases ht
    | expanded hsize => exact absurd hbytes (not_le.mpr hsize)
    | zip hcontest' hid hw hlength =>
      obtain rfl := Table.row_unique hcontest' hcontest hid
      exact absurd (hzip _ hw) (not_le.mpr hlength)

end Call

/-! ### Two problems whose names are sanitised to dots -/

def sampleTest (id number : Int) (isActive : Bool) : TestRow := ⟨id, ⟨number, [1], [2, 3], false, isActive, none, none⟩⟩

def sampleProblem (id number : Int) (name : String) (tests : List TestRow) : ProblemRow :=
  ⟨id, number, name, none, true, 1, 2, 128, 1, 4, tests⟩

def sampleStore : Store where
  db :=
    { contests := ⟨[⟨1, "a/B. "⟩], 2, by decide, by decide⟩
      compilators := .empty 0
      checkers := [4]
      problems := ⟨[sampleProblem 1 11 ". ." [sampleTest 1 107 true, sampleTest 2 7 true, sampleTest 3 7 false],
        sampleProblem 2 1 "1. " [sampleTest 4 7 true]], 3, by decide, by decide⟩
      nextTest := 5
      submissions := .empty 0
      checkResults := []
      submissions_of := by decide }
  blobs := ⟨[⟨0, [9]⟩], 1, by decide, by decide⟩
  testZipId := fun id => if id = 1 then some 0 else none
  testZip_of := by
    intro contestId id h
    split at h
    · cases h; exact ⟨_, List.mem_singleton_self _, rfl⟩
    · cases h

def sampleService : Service where
  culture := Domain.Culture.ordinal
  options := {}
  runtime := ⟨.asciiOnly, fun _ => .ok none⟩
  checkers := [4]
  negativeSign := "-"
  zip := framed

def calm : Outside Exn := ⟨fun _ => none, fun _ => false, fun n => n⟩

theorem sample_numbers : WellNumbered sampleStore.db 1 where
  problems := by decide
  positive := by decide
  tests := by decide
  nonneg := by decide

theorem sample_archive : ∃ contest ∈ sampleStore.db.contests.rows, contest.id = 1 ∧
    ∃ data, (generateTestZipAsync sampleService 1 calm ⟨sampleStore, 0⟩).2.db.testZip 1 = some data ∧
      IsTestArchive sampleService sampleStore.db contest data ∧
      ((framed.read data).map fun e => e.2.length).sum ≤ 512 * 1024 * 1024 :=
  (generate_law sampleService 1 calm sampleStore 0 sample_numbers).2.1 (by decide +kernel)

example : (((generateTestZipAsync sampleService 1 calm ⟨sampleStore, 0⟩).2.db.testZip 1).map fun data =>
    (framed.read data).map Prod.fst) = some
      ["Testa_B/1. 1/input07.txt", "Testa_B/1. 1/output07.txt", "Testa_B/11/input07.txt", "Testa_B/11/output07.txt",
        "Testa_B/11/input107.txt", "Testa_B/11/output107.txt"] := by decide +kernel

end OlympSystem.Site.TestArchive
