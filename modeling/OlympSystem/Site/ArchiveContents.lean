/-
  OlympSystem.Site.ArchiveContents — what `ProblemArchive.ReadAsync` makes of an archive.

  Entries whose names end in a slash are folders: they are checked and skipped, so that
  an empty folder gives no problem and its length counts for nothing. All other entries
  are files.

  Proved:
  - `folder_perm` / `readTests_ok`: the files of one folder are its manifest and the
    inputs and outputs of its tests, each once.
  - `archive_contents`: the same of the whole archive, with the problems it gives.
-/

import OlympSystem.Site.ArchiveGrammar

namespace OlympSystem.Site.ArchiveContents

open Lib.Dictionaries Lib.Text Lib.Query OlympSystem.Checker ProblemArchive ArchiveGrammar

/-! ## What is read -/

section Contents

variable (options : ContestImportOptions) (runtime : Runtime) (archive : List ZipEntry)
  (problems : List ImportedProblem)

/-- A file in the folder of a problem, up to case. -/
def InFolder (problem : ImportedProblem) (entry : ZipEntry) : Prop :=
  runtime.upper.fold (folderName entry.fullName) = runtime.upper.fold problem.folder

/-- The one file of the archive that is named so in the folder of a problem, with its bytes. -/
def IsOnly (word : String) (problem : ImportedProblem) (number : Int) (bytes : Bytes) : Prop :=
  ∃ entry ∈ archive, isFile entry = true ∧ InFolder runtime problem entry ∧
    NamesTest regexEndings word number (fileName entry.fullName) ∧ entry.data = .ok bytes ∧
    ∀ other ∈ archive, isFile other = true → InFolder runtime problem other →
      NamesTest regexEndings word number (fileName other.fullName) → other = entry

/-- The files a problem is made of: its manifest, and for each test its input and output. -/
structure Sources where
  manifest : ZipEntry
  tests : List (ZipEntry × ZipEntry)

def Sources.all (sources : Sources) : List ZipEntry :=
  sources.manifest :: sources.tests.flatMap fun files => [files.1, files.2]

/-- The files of a test, and their bytes. -/
structure IsTest (problem : ImportedProblem) (test : ImportedTest) (files : ZipEntry × ZipEntry) : Prop where
  input : InFolder runtime problem files.1 ∧ InputName test.number files.1.fullName ∧ files.1.data = .ok test.input
  output : InFolder runtime problem files.2 ∧ OutputName test.number files.2.fullName ∧ files.2.data = .ok test.output

structure MadeOf (problem : ImportedProblem) (sources : Sources) : Prop where
  manifest : InFolder runtime problem sources.manifest ∧
    Spells "problem.json" (fileName sources.manifest.fullName).toList ∧
    ∃ bytes manifest, sources.manifest.data = .ok bytes ∧ runtime.deserialize bytes = .ok (some manifest) ∧
      problem.manifest = { manifest with name := trim manifest.name }
  tests : List.Forall₂ (IsTest runtime problem) problem.tests sources.tests

structure Contents : Prop where
  /-- One problem for each folder that has a file. -/
  folders : (problems.map fun problem => runtime.upper.fold problem.folder).Nodup
  folder_of : ∀ entry ∈ archive, isFile entry = true → ∃ problem ∈ problems, InFolder runtime problem entry
  has_file : ∀ problem ∈ problems, ∃ entry ∈ archive, isFile entry = true ∧ folderName entry.fullName = problem.folder
  accepted : ∀ problem ∈ problems, Accepted problem
  numbers : (problems.map (·.manifest.number)).Nodup
  inputs : ∀ problem ∈ problems, ∀ test ∈ problem.tests, IsOnly runtime archive "input" problem test.number test.input
  outputs : ∀ problem ∈ problems, ∀ test ∈ problem.tests,
    IsOnly runtime archive "output" problem test.number test.output
  /-- Each file is used once. -/
  sources : ∃ sources, List.Forall₂ (MadeOf runtime) problems sources ∧
    (archive.filter isFile).Perm (sources.flatMap Sources.all)
  count : (archive.filter isFile).length = (problems.map fun problem => 1 + 2 * problem.tests.length).sum
  size : ((archive.filter isFile).map ZipEntry.length).sum ≤ options.maxExpandedBytes

end Contents

/-! ## One folder -/

variable {options : ContestImportOptions} {runtime : Runtime} {archive : List ZipEntry}
  {problems : List ImportedProblem} {files : Files runtime}

theorem manifest_ne_test {file word : String} {number : Int} {endings : List String} (hw : word ∈ testWords)
    (hjson : Spells "problem.json" file.toList) (h : NamesTest endings word number file) : False := by
  obtain ⟨start, digits, ending, hname, hspell, -⟩ := h
  unfold Spells at hjson hspell
  rw [hname, List.map_append, hspell] at hjson
  unfold testWords at hw
  simp only [List.mem_cons, List.not_mem_nil, or_false] at hw
  rcases hw with rfl | rfl
  · exact absurd (congrArg List.head? hjson) (by simp)
  · exact absurd (congrArg List.head? hjson) (by simp)

theorem readEntryAsync_ok {entry : ZipEntry} {bytes : Bytes} (h : readEntryAsync entry = .ok bytes) :
    entry.data = .ok bytes := by
  unfold readEntryAsync at h
  split at h
  · cases h
  · split at h
    · cases h
    · next hdata =>
      split at h
      · cases h
      · cases h; exact hdata

theorem readManifest_ok {jsonPath : String} {entry : ZipEntry} {manifest : ProblemManifest}
    (h : readManifest runtime jsonPath entry = .ok manifest) :
    ∃ bytes, entry.data = .ok bytes ∧ runtime.deserialize bytes = .ok (some manifest) := by
  unfold readManifest at h
  simp only at h
  split at h
  · cases h
  · cases h
  · next hread =>
    split at h
    · cases h
    · cases h
    · cases h
    · next hjson => cases h; exact ⟨_, readEntryAsync_ok hread, hjson⟩

/-- The tests that are read, each from an input and the output of the same number. -/
theorem readTests_ok : ∀ {inputs outputs : List (Int × ZipEntry)} {tests : List ImportedTest},
    readTests inputs outputs = .ok tests → inputs.map Prod.fst = outputs.map Prod.fst →
    ∃ sources : List (ZipEntry × ZipEntry),
      List.Forall₂ (fun test files => (test.number, files.1) ∈ inputs ∧ files.1.data = .ok test.input ∧
        (test.number, files.2) ∈ outputs ∧ files.2.data = .ok test.output) tests sources ∧
      ((inputs ++ outputs).map Prod.snd).Perm (sources.flatMap fun files => [files.1, files.2]) := by
  intro inputs
  induction inputs with
  | nil =>
    intro outputs tests h hkeys
    rw [List.map_nil, eq_comm, List.map_eq_nil_iff] at hkeys
    cases h
    exact ⟨[], .nil, by simp [hkeys]⟩
  | cons input inputs ih =>
    intro outputs tests h hkeys
    cases outputs with
    | nil => cases hkeys
    | cons output outputs =>
      obtain ⟨number, input⟩ := input
      obtain ⟨number', output⟩ := output
      obtain ⟨rfl, hkeys'⟩ : number = number' ∧ inputs.map Prod.fst = outputs.map Prod.fst := List.cons.inj hkeys
      unfold readTests at h
      split at h
      · cases h
      · cases h
      · next hinput houtput =>
        split at h
        · cases h
        · next hrest =>
          cases h
          obtain ⟨sources, hsources, hperm⟩ := ih hrest hkeys'
          refine ⟨(input, output) :: sources, .cons ⟨List.mem_cons_self, readEntryAsync_ok hinput, List.mem_cons_self,
            readEntryAsync_ok houtput⟩ (hsources.imp fun _ _ h =>
              ⟨List.mem_cons_of_mem _ h.1, h.2.1, List.mem_cons_of_mem _ h.2.2.1, h.2.2.2⟩), ?_⟩
          simp only [List.cons_append, List.map_cons, List.map_append, List.flatMap_cons, List.nil_append] at hperm ⊢
          exact List.Perm.cons _ (List.perm_middle.trans (hperm.cons _))

section Folder

variable (h : ArchiveRead options runtime archive problems files) {folder : Folder} {problem : ImportedProblem}
  {json : ZipEntry} {manifest : ProblemManifest} {tests : TestFiles} (hfolder : folder ∈ folders runtime files)
  (hread : FolderRead runtime files folder problem json manifest tests)

include h hfolder hread

/-- The manifest of a folder is one of its files. -/
theorem manifest_file :
    (json.fullName, json) ∈ folder.2 ∧ isManifest runtime (jsonPath folder) (json.fullName, json) = true := by
  obtain ⟨⟨path, entry⟩, hfile, hfold, rfl⟩ := Dict.get?_mem hread.found
  obtain ⟨hmem, hisFile, rfl⟩ := h.mem_files.mp hfile
  have hjson : isManifest runtime (jsonPath folder) (entry.fullName, entry) = true := by
    unfold isManifest UpperCase.equals
    rw [hfold]
    exact beq_self_eq_true _
  have hpath : IsPath entry.fullName := (h.file_names hmem hisFile).1
  refine ⟨?_, hjson⟩
  rw [(mem_folders runtime hfolder).2]
  exact List.mem_filter.mpr ⟨hfile, decide_eq_true (equals_path runtime hpath hjson).1⟩

/-- The files of a folder: its manifest, and the files of its tests. -/
theorem folder_perm :
    (folder.2.map Prod.snd).Perm (json :: (tests.inputs.entries ++ tests.outputs.entries).map Prod.snd) := by
  obtain ⟨hmem, hjson⟩ := manifest_file h hfolder hread
  have hsub : ∀ file ∈ folder.2, file ∈ files.entries := fun file hfile => by
    rw [(mem_folders runtime hfolder).2] at hfile
    exact (List.mem_filter.mp hfile).1
  have hnodup : folder.2.Nodup := by
    rw [(mem_folders runtime hfolder).2]
    exact (List.Nodup.of_map _ files.keys).filter _
  have hmanifest : (folder.2.filter (isManifest runtime (jsonPath folder))).Perm [(json.fullName, json)] := by
    refine (List.perm_ext_iff_of_nodup (hnodup.filter _) (List.nodup_singleton _)).mpr fun file => ?_
    rw [List.mem_filter, List.mem_singleton]
    constructor
    · rintro ⟨hfile, hisJson⟩
      refine Dict.entry_unique (hsub file hfile) (hsub _ hmem) ?_
      exact (beq_iff_eq.mp hisJson).trans (beq_iff_eq.mp hjson).symm
    · rintro rfl; exact ⟨hmem, hjson⟩
  have hrest := hread.filed.perm
  simp only [noTests, SortedDict.empty, List.append_nil, List.map_nil, List.nil_append] at hrest
  have hall := List.filter_append_perm (isManifest runtime (jsonPath folder)) folder.2
  refine (hall.symm.map Prod.snd).trans ?_
  rw [List.map_append]
  exact (hmanifest.map Prod.snd).append hrest.symm

/-- A file of a folder is in the folder of its problem. -/
theorem inFolder_of_mem {path : String} {entry : ZipEntry} :
    (path, entry) ∈ folder.2 ↔ path = entry.fullName ∧ entry ∈ archive ∧ isFile entry = true ∧
      InFolder runtime problem entry := by
  rw [(mem_folders runtime hfolder).2, List.mem_filter, h.mem_files, decide_eq_true_eq]
  unfold InFolder
  rw [hread.folder]
  constructor
  · rintro ⟨⟨hmem, hfile, rfl⟩, hfold⟩; exact ⟨rfl, hmem, hfile, hfold⟩
  · rintro ⟨rfl, hmem, hfile, hfold⟩; exact ⟨⟨hmem, hfile, rfl⟩, hfold⟩

/-- The files a folder's tests are collected from are those that are named so. -/
theorem mem_named {word : String} (hw : word ∈ testWords) {number : Int} {entry : ZipEntry} :
    (∃ path, (path, entry) ∈ folder.2 ∧ isManifest runtime (jsonPath folder) (path, entry) = false ∧
        NamesTest regexEndings word number (fileName path)) ↔
      entry ∈ archive ∧ isFile entry = true ∧ InFolder runtime problem entry ∧
        NamesTest regexEndings word number (fileName entry.fullName) := by
  constructor
  · rintro ⟨path, hmem, -, hname⟩
    obtain ⟨rfl, hmem, hfile, hin⟩ := (inFolder_of_mem h hfolder hread).mp hmem
    exact ⟨hmem, hfile, hin, hname⟩
  · rintro ⟨hmem, hfile, hin, hname⟩
    refine ⟨entry.fullName, (inFolder_of_mem h hfolder hread).mpr ⟨rfl, hmem, hfile, hin⟩, ?_, hname⟩
    rw [Bool.eq_false_iff]
    exact fun hjson => manifest_ne_test hw (equals_path runtime (h.file_names hmem hfile).1 hjson).2 hname

theorem mem_inputs {number : Int} {entry : ZipEntry} :
    (number, entry) ∈ tests.inputs.entries ↔ entry ∈ archive ∧ isFile entry = true ∧ InFolder runtime problem entry ∧
      InputName number entry.fullName := by
  rw [hread.filed.inputs]
  exact (or_iff_right (fun hnone => by cases hnone)).trans (mem_named h hfolder hread (by decide))

theorem mem_outputs {number : Int} {entry : ZipEntry} :
    (number, entry) ∈ tests.outputs.entries ↔ entry ∈ archive ∧ isFile entry = true ∧ InFolder runtime problem entry ∧
      OutputName number entry.fullName := by
  rw [hread.filed.outputs]
  exact (or_iff_right (fun hnone => by cases hnone)).trans (mem_named h hfolder hread (by decide))

/-- What the problem of a folder is made of. -/
theorem madeOf : ∃ sources, MadeOf runtime problem sources ∧ (folder.2.map Prod.snd).Perm sources.all := by
  obtain ⟨hmem, hjson⟩ := manifest_file h hfolder hread
  obtain ⟨-, harchive, hfile, hin⟩ := (inFolder_of_mem h hfolder hread).mp hmem
  obtain ⟨bytes, hdata, hdeserialize⟩ := readManifest_ok hread.deserialized
  obtain ⟨sources, hsources, hperm⟩ := readTests_ok hread.content hread.keys
  refine ⟨⟨json, sources⟩, ⟨⟨hin, ?_, bytes, manifest, hdata, hdeserialize, hread.trimmed⟩, ?_⟩, ?_⟩
  · exact (equals_path runtime (h.file_names harchive hfile).1 hjson).2
  · refine hsources.imp fun test files ⟨hinput, hinputData, houtput, houtputData⟩ => ?_
    obtain ⟨-, -, hinputIn, hinputName⟩ := (mem_inputs h hfolder hread).mp hinput
    obtain ⟨-, -, houtputIn, houtputName⟩ := (mem_outputs h hfolder hread).mp houtput
    exact ⟨⟨hinputIn, hinputName, hinputData⟩, ⟨houtputIn, houtputName, houtputData⟩⟩
  · exact (folder_perm h hfolder hread).trans (hperm.cons json)

/-- The input of a test is the only file that is named so. -/
theorem isOnly_input {test : ImportedTest} (htest : test ∈ problem.tests) :
    IsOnly runtime archive "input" problem test.number test.input := by
  obtain ⟨sources, hsources, -⟩ := readTests_ok hread.content hread.keys
  obtain ⟨⟨input, output⟩, -, hinput, hdata, -, -⟩ := (forall₂_exists hsources).1 test htest
  obtain ⟨hmem, hfile, hin, hname⟩ := (mem_inputs h hfolder hread).mp hinput
  refine ⟨input, hmem, hfile, hin, hname, hdata, fun other hother hotherFile hotherIn hotherName => ?_⟩
  exact SortedDict.value_unique ((mem_inputs h hfolder hread).mpr ⟨hother, hotherFile, hotherIn, hotherName⟩) hinput

theorem isOnly_output {test : ImportedTest} (htest : test ∈ problem.tests) :
    IsOnly runtime archive "output" problem test.number test.output := by
  obtain ⟨sources, hsources, -⟩ := readTests_ok hread.content hread.keys
  obtain ⟨⟨input, output⟩, -, -, -, houtput, hdata⟩ := (forall₂_exists hsources).1 test htest
  obtain ⟨hmem, hfile, hin, hname⟩ := (mem_outputs h hfolder hread).mp houtput
  refine ⟨output, hmem, hfile, hin, hname, hdata, fun other hother hotherFile hotherIn hotherName => ?_⟩
  exact SortedDict.value_unique ((mem_outputs h hfolder hread).mpr ⟨hother, hotherFile, hotherIn, hotherName⟩) houtput

end Folder

/-! ## The whole archive -/

theorem sources_length : ∀ {tests : List ImportedTest} {sources : List (ZipEntry × ZipEntry)}
    {R : ImportedTest → ZipEntry × ZipEntry → Prop}, List.Forall₂ R tests sources →
      (sources.flatMap fun files => [files.1, files.2]).length = 2 * tests.length := by
  intro tests sources R h
  induction h with
  | nil => rfl
  | cons _ _ ih => rw [List.flatMap_cons, List.length_append, ih, List.length_cons, List.length_cons]; simp; omega

theorem MadeOf.length {problem : ImportedProblem} {sources : Sources} (h : MadeOf runtime problem sources) :
    sources.all.length = 1 + 2 * problem.tests.length := by
  unfold Sources.all
  rw [List.length_cons, sources_length h.tests]
  omega

/-- The sources of folders that were read, all of their files. -/
theorem sources_of (h : ArchiveRead options runtime archive problems files) :
    ∀ {rest : List Folder} {read : List ImportedProblem}, (∀ folder ∈ rest, folder ∈ folders runtime files) →
      List.Forall₂ (fun folder problem => ∃ json manifest tests,
        FolderRead runtime files folder problem json manifest tests) rest read →
      ∃ sources, List.Forall₂ (MadeOf runtime) read sources ∧
        ((rest.flatMap Prod.snd).map Prod.snd).Perm (sources.flatMap Sources.all) := by
  intro rest read hrest hread
  induction hread with
  | nil => exact ⟨[], .nil, .refl _⟩
  | cons hfolder _ ih =>
    obtain ⟨json, manifest, tests, hfolder⟩ := hfolder
    obtain ⟨sources, hmade, hperm⟩ := ih fun folder hmem => hrest folder (List.mem_cons_of_mem _ hmem)
    obtain ⟨source, hsource, hown⟩ := madeOf h (hrest _ List.mem_cons_self) hfolder
    refine ⟨source :: sources, .cons hsource hmade, ?_⟩
    rw [List.flatMap_cons, List.flatMap_cons, List.map_append]
    exact hown.append hperm

theorem sources_count {read : List ImportedProblem} {sources : List Sources}
    (h : List.Forall₂ (MadeOf runtime) read sources) :
    (sources.flatMap Sources.all).length = (read.map fun problem => 1 + 2 * problem.tests.length).sum := by
  induction h with
  | nil => rfl
  | cons hmade _ ih => rw [List.flatMap_cons, List.length_append, ih, hmade.length, List.map_cons, List.sum_cons]

/-- What `ReadAsync` returns is the content of the archive. -/
theorem archive_contents {options : ContestImportOptions} {runtime : Runtime} {archive : List ZipEntry}
    {problems : List ImportedProblem} (h : readAsync options runtime (.ok archive) = .ok problems) :
    Contents options runtime archive problems := by
  obtain ⟨-, haccepted, hnumbers⟩ := readAsync_accepted options runtime h
  obtain ⟨files, hread⟩ := readAsync_parts options runtime h
  obtain ⟨hfolders, hproblems⟩ := forall₂_exists hread.read
  have hfiles : files.entries.map Prod.snd = archive.filter isFile := by
    rw [hread.entries, List.map_map]
    exact List.map_id _
  obtain ⟨sources, hmade, hperm⟩ := sources_of hread (fun _ hmem => hmem) hread.read
  have hall : (archive.filter isFile).Perm (sources.flatMap Sources.all) := by
    rw [← hfiles]
    exact ((folders_perm runtime files).symm.map Prod.snd).trans hperm
  refine ⟨?_, fun entry hentry hfile => ?_, fun problem hproblem => ?_, haccepted, hnumbers,
    fun problem hproblem test htest => ?_, fun problem hproblem test htest => ?_,
      ⟨sources, hmade, hall⟩, ?_, hread.size⟩
  · -- the problems have the folders of the groups, in their order
    have hkeys : (folders runtime files).map (fun folder => runtime.upper.fold folder.1) =
        problems.map fun problem => runtime.upper.fold problem.folder :=
      map_eq_of_forall₂ (hread.read.imp fun _ _ ⟨_, _, _, hfolder⟩ => congrArg runtime.upper.fold hfolder.folder.symm)
    rw [← hkeys]
    exact folders_keys runtime files
  · have hmem := hread.mem_files.mpr ⟨hentry, hfile, rfl⟩
    obtain ⟨folder, hfolder, hin, problem, hproblem, json, manifest, tests, hfolderRead⟩ := hread.folder_of hmem
    obtain ⟨-, -, -, hinFolder⟩ := (inFolder_of_mem hread hfolder hfolderRead).mp hin
    exact ⟨problem, hproblem, hinFolder⟩
  · obtain ⟨folder, hfolder, json, manifest, tests, hfolderRead⟩ := hproblems problem hproblem
    obtain ⟨⟨⟨path, entry⟩, hfile, hname⟩, -⟩ := mem_folders runtime hfolder
    obtain ⟨hmem, hisFile, rfl⟩ := hread.mem_files.mp hfile
    exact ⟨entry, hmem, hisFile, hname.trans hfolderRead.folder.symm⟩
  · obtain ⟨folder, hfolder, json, manifest, tests, hfolderRead⟩ := hproblems problem hproblem
    exact isOnly_input hread hfolder hfolderRead htest
  · obtain ⟨folder, hfolder, json, manifest, tests, hfolderRead⟩ := hproblems problem hproblem
    exact isOnly_output hread hfolder hfolderRead htest
  · rw [hall.length_eq, sources_count hmade]

/-- Two problems, with an empty folder before them. -/
def sampleArchive : List ZipEntry :=
  [⟨"C/", 0, .ok []⟩, ⟨"A/problem.json", 1, .ok [1]⟩, ⟨"B/Input02.TXT", 0, .ok []⟩, ⟨"a/output001.txt", 2, .ok [5, 6]⟩,
    ⟨"A/input1.txt", 1, .ok [4]⟩, ⟨"B/PROBLEM.json", 1, .ok [2]⟩, ⟨"b/output2.txt", 0, .ok []⟩]

def sampleRuntime : Runtime := ⟨.asciiOnly, fun bytes => .ok (some { number := (bytes.headD 0).toNat, name := " P " })⟩

theorem sample_contents :
    ∃ problems, readAsync {} sampleRuntime (.ok sampleArchive) = .ok problems ∧
      Contents {} sampleRuntime sampleArchive problems := by
  have hresult : readAsync {} sampleRuntime (.ok sampleArchive) = .ok
      [⟨"A", { number := 1, name := "P" }, [⟨1, [4], [5, 6]⟩]⟩,
        ⟨"B", { number := 2, name := "P" }, [⟨2, [], []⟩]⟩] := by
    decide +kernel
  exact ⟨_, hresult, archive_contents hresult⟩

/-- An archive with a folder that has no file, and whose entry states a length. -/
def emptyFolderArchive : List ZipEntry :=
  [⟨"A/problem.json", 0, .ok []⟩, ⟨"A/input1.txt", 0, .ok []⟩, ⟨"A/output1.txt", 0, .ok []⟩,
    ⟨"B/", 512 * 1024 * 1024 + 1, .ok []⟩]

theorem an_empty_folder_is_skipped :
    ∃ problems, readAsync {} plainRuntime (.ok emptyFolderArchive) = .ok problems ∧
      (∃ entry ∈ emptyFolderArchive, IsRootFolder entry.fullName ∧
        ¬∃ problem ∈ problems, InFolder plainRuntime problem entry) ∧
      ({} : ContestImportOptions).maxExpandedBytes < (emptyFolderArchive.map ZipEntry.length).sum := by
  refine ⟨[⟨"A", { number := 1, name := "Sum" }, [⟨1, [], []⟩]⟩], by decide +kernel,
    ⟨⟨"B/", 512 * 1024 * 1024 + 1, .ok []⟩, by simp [emptyFolderArchive], ?_, ?_⟩, by decide⟩
  · exact ⟨"B", 0, ⟨by decide, by decide, by decide, by decide⟩, by decide⟩
  · rintro ⟨problem, hproblem, hin⟩
    rw [List.mem_singleton.mp hproblem] at hin
    exact absurd hin (by unfold InFolder; decide)

end OlympSystem.Site.ArchiveContents
