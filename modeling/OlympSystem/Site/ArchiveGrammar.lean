/-
  OlympSystem.Site.ArchiveGrammar — which entry names `ProblemArchive.ReadAsync` accepts.

  The grammar is stated on its own: a file is `problem.json`, or the number of a test
  between `input` or `output` and an ending, in a root folder. `TestFilename` ends in
  `$`, which is the end of the text or a last line feed, so that the endings it takes
  are `regexEndings`.

  Proved:
  - `testNumber_iff`: `TestFilename` with the number's range is the grammar with these
    endings.
  - `readEntries_ok`: what an accepted archive's entries are, and the files they give.
  - `readAsync_parts`: an accepted archive, folder by folder.
  - `ArchiveRead.file_names`: its files' names follow the grammar with these endings.
-/

import OlympSystem.Site.ProblemArchive

namespace OlympSystem.Site.ArchiveGrammar

open Lib.Dictionaries Lib.Text Lib.Query OlympSystem.Checker ProblemArchive

/-! ## The grammar -/

/-- A part of a path between slashes. -/
structure IsSegment (part : String) : Prop where
  slash : '/' ∉ part.toList
  backslash : '\\' ∉ part.toList
  colon : ':' ∉ part.toList
  name : isBlank part = false ∧ part ≠ "." ∧ part ≠ ".."

def isFile (entry : ZipEntry) : Bool := entry.fullName.toList.getLast? != some '/'

/-- A file in a root folder. -/
structure IsPath (path : String) : Prop where
  parts : path = folderName path ++ String.singleton '/' ++ fileName path
  folder : IsSegment (folderName path)
  file : IsSegment (fileName path)

def IsRootFolder (path : String) : Prop :=
  ∃ folder n, IsSegment folder ∧ path.toList = folder.toList ++ List.replicate (n + 1) '/'

/-- Letter case is ignored: `text` in small letters is `word`. -/
def Spells (word : String) (text : List Char) : Prop := text.map Char.toLower = word.toList

def regexEndings : List String := [".txt", ".txt\n"]

/-- The name of a test's file: the word, the number in decimal digits, and an ending. -/
def NamesTest (endings : List String) (word : String) (number : Int) (file : String) : Prop :=
  ∃ start digits ending : List Char, file.toList = start ++ (digits ++ ending) ∧ Spells word start ∧ digits ≠ [] ∧
    (∀ c ∈ digits, c.isDigit = true) ∧ (Nat.ofDigitChars 10 digits 0 : Int) = number ∧ 1 ≤ number ∧ number ≤ 999 ∧
    ∃ e ∈ endings, Spells e ending

def testWords : List String := ["input", "output"]

/-- `folder/problem.json`, `folder/inputD.txt` or `folder/outputD.txt`. -/
def IsGrammatical (path : String) : Prop :=
  IsPath path ∧ (Spells "problem.json" (fileName path).toList ∨
    ∃ word ∈ testWords, ∃ number, NamesTest [".txt"] word number (fileName path))

/-! ## `TestFilename` -/

theorem toLower_of_isDigit {c : Char} (h : c.isDigit = true) : c.toLower = c := by
  have hc : c.toNat < 128 := by
    unfold Char.isDigit at h
    simp only [Bool.and_eq_true, decide_eq_true_eq] at h
    have : c.toNat ≤ 57 := h.2
    omega
  exact of_ascii (P := fun c => c.isDigit = true → c.toLower = c) (by decide) hc h

theorem isTxtEnd_iff {ending : List Char} : isTxtEnd ending = true ↔ ∃ e ∈ regexEndings, Spells e ending := by
  unfold isTxtEnd regexEndings Spells
  simp only [Bool.or_eq_true, beq_iff_eq, List.mem_cons, List.not_mem_nil, or_false, exists_eq_or_imp,
    exists_eq_left]

/-- Digits stop at an ending. -/
theorem takeWhile_digits {digits ending : List Char} (hd : ∀ c ∈ digits, c.isDigit = true)
    (he : ∃ e ∈ regexEndings, Spells e ending) :
    (digits ++ ending).takeWhile Char.isDigit = digits ∧ (digits ++ ending).dropWhile Char.isDigit = ending := by
  have hhead : ∃ c rest, ending = c :: rest ∧ c.isDigit = false := by
    obtain ⟨e, hmem, hspell⟩ := he
    have hdot : ∃ tail, e.toList = '.' :: tail := by
      unfold regexEndings at hmem
      simp only [List.mem_cons, List.not_mem_nil, or_false] at hmem
      rcases hmem with rfl | rfl <;> exact ⟨_, rfl⟩
    obtain ⟨tail, htail⟩ := hdot
    unfold Spells at hspell
    rw [htail] at hspell
    obtain ⟨c, rest, rfl, hc, -⟩ := List.map_eq_cons_iff.mp hspell
    refine ⟨c, rest, rfl, ?_⟩
    by_contra hdigit
    rw [Bool.not_eq_false] at hdigit
    rw [toLower_of_isDigit hdigit] at hc
    rw [hc] at hdigit
    exact absurd hdigit (by decide)
  obtain ⟨c, rest, rfl, hc⟩ := hhead
  rw [List.takeWhile_append_of_pos hd, List.dropWhile_append_of_pos hd]
  simp [hc]

def wordOf (s : List Char) : Nat :=
  if (s.take 5).map Char.toLower = "input".toList then 5
  else if (s.take 6).map Char.toLower = "output".toList then 6 else 0

theorem wordOf_append {word : String} (hw : word ∈ testWords) {start : List Char} (hs : Spells word start)
    (rest : List Char) : wordOf (start ++ rest) = start.length ∧ start.length ≠ 0 := by
  have hlength : start.length = word.toList.length := by rw [← hs, List.length_map]
  unfold testWords at hw
  simp only [List.mem_cons, List.not_mem_nil, or_false] at hw
  unfold wordOf
  rcases hw with rfl | rfl
  · have h5 : start.length = 5 := hlength
    have htake : (start ++ rest).take 5 = start := by rw [← h5, List.take_left]
    rw [htake, if_pos (show start.map Char.toLower = _ from hs), h5]
    exact ⟨rfl, by decide⟩
  · have h6 : start.length = 6 := hlength
    have htake : (start ++ rest).take 6 = start := by rw [← h6, List.take_left]
    have hfive : ((start ++ rest).take 5).map Char.toLower = "outpu".toList := by
      rw [List.take_append_of_le_length (by omega), List.map_take, hs]; rfl
    rw [hfive, if_neg (by decide), htake, if_pos (show start.map Char.toLower = _ from hs), h6]
    exact ⟨rfl, by decide⟩

theorem wordOf_spells {s : List Char} (h : wordOf s ≠ 0) : ∃ word ∈ testWords, Spells word (s.take (wordOf s)) := by
  unfold wordOf at h ⊢
  split
  · next hinput => exact ⟨"input", by decide, hinput⟩
  · next hinput =>
    split
    · next houtput => exact ⟨"output", by decide, houtput⟩
    · next houtput => rw [if_neg hinput, if_neg houtput] at h; exact absurd rfl h

theorem testFilename_iff {name word digits : String} : testFilename name = some (word, digits) ↔
    ∃ w ∈ testWords, ∃ ending, name.toList = word.toList ++ (digits.toList ++ ending) ∧ Spells w word.toList ∧
      digits.toList ≠ [] ∧ (∀ c ∈ digits.toList, c.isDigit = true) ∧ ∃ e ∈ regexEndings, Spells e ending := by
  have hunfold : testFilename name =
      if wordOf name.toList ≠ 0 ∧ (name.toList.drop (wordOf name.toList)).takeWhile Char.isDigit ≠ [] ∧
          isTxtEnd ((name.toList.drop (wordOf name.toList)).dropWhile Char.isDigit) then
        some (String.ofList (name.toList.take (wordOf name.toList)),
          String.ofList ((name.toList.drop (wordOf name.toList)).takeWhile Char.isDigit))
      else none := rfl
  rw [hunfold]
  constructor
  · intro h
    split at h
    · next hmatch =>
      obtain ⟨hword, hdigits, hend⟩ := hmatch
      cases h
      obtain ⟨w, hw, hspell⟩ := wordOf_spells hword
      simp only [String.toList_ofList]
      refine ⟨w, hw, _, ?_, hspell, hdigits, List.all_eq_true.mp List.all_takeWhile, isTxtEnd_iff.mp hend⟩
      rw [List.takeWhile_append_dropWhile, List.take_append_drop]
    · cases h
  · rintro ⟨w, hw, ending, hname, hspell, hdigits, hall, hend⟩
    obtain ⟨hword, hne⟩ := wordOf_append hw hspell (digits.toList ++ ending)
    obtain ⟨htake, hdrop⟩ := takeWhile_digits hall hend
    rw [hname, hword, List.drop_left, List.take_left, htake, hdrop,
      if_pos ⟨hne, hdigits, isTxtEnd_iff.mpr hend⟩, String.ofList_toList, String.ofList_toList]

/-- The group and the number the code reads are those of the grammar. -/
theorem testNumber_iff {file : String} {start : String} {number : Int} :
    testNumber file = some (start, number) ↔ ∃ word ∈ testWords, ∃ digits ending : List Char,
      file.toList = start.toList ++ (digits ++ ending) ∧ Spells word start.toList ∧ digits ≠ [] ∧
      (∀ c ∈ digits, c.isDigit = true) ∧ (Nat.ofDigitChars 10 digits 0 : Int) = number ∧ 1 ≤ number ∧ number ≤ 999 ∧
      ∃ e ∈ regexEndings, Spells e ending := by
  have hvalue : ∀ digits : String, tryParseDigits 2147483647 digits =
      if Nat.ofDigitChars 10 digits.toList 0 ≤
        2147483647 then some (Nat.ofDigitChars 10 digits.toList 0) else none := by
    intro digits
    rw [Nat.ofDigitChars_eq_foldl]; rfl
  unfold testNumber
  constructor
  · intro h
    split at h
    · cases h
    · next word digits hmatch =>
      obtain ⟨w, hw, ending, hname, hspell, hdigits, hall, hend⟩ := testFilename_iff.mp hmatch
      rw [hvalue] at h
      split at h
      · cases h
      · next n hn =>
        split at hn
        · cases hn
          split at h
          · cases h
          · cases h
            exact ⟨w, hw, digits.toList, ending, hname, hspell, hdigits, hall, rfl, by omega, by omega, hend⟩
        · cases hn
  · rintro ⟨w, hw, digits, ending, hname, hspell, hdigits, hall, rfl, hlow, hhigh, hend⟩
    have hmatch : testFilename file = some (start, String.ofList digits) :=
      testFilename_iff.mpr ⟨w, hw, ending, by rw [String.toList_ofList]; exact hname, hspell,
        by rwa [String.toList_ofList], by rwa [String.toList_ofList], hend⟩
    rw [hmatch]
    simp only
    rw [hvalue, String.toList_ofList, if_pos (by omega)]
    simp only
    rw [if_neg (by omega)]

/-! ## Entries -/

variable (options : ContestImportOptions) (runtime : Runtime)

theorem isSegment_of_part {part : String} (hslash : '/' ∉ part.toList) (hback : '\\' ∉ part.toList)
    (hbad : isBadPart part = false) : IsSegment part := by
  simp only [isBadPart, Bool.or_eq_false_iff, beq_eq_false_iff_ne, List.contains_eq_mem,
    decide_eq_false_iff_not] at hbad
  obtain ⟨⟨⟨hblank, hdot⟩, hdots⟩, hcolon⟩ := hbad
  exact ⟨hslash, hback, hcolon, hblank, hdot, hdots⟩

/-- A path of one part, with slashes after it. -/
theorem isRootFolder_of_parts {path : String} (hback : '\\' ∉ path.toList)
    (hbad : ∀ part ∈ split '/' (trimEnd '/' path), isBadPart part = false) (hlast : path.toList.getLast? = some '/')
    (hparts : (split '/' (trimEnd '/' path)).length = 1) : IsRootFolder path := by
  obtain ⟨part, hpart⟩ := List.length_eq_one_iff.mp hparts
  obtain ⟨rfl, hslash⟩ := split_one hpart
  obtain ⟨n, hpath, hn⟩ := trimEnd_eq '/' path
  obtain ⟨m, rfl⟩ := Nat.exists_eq_succ_of_ne_zero (hn.mp hlast)
  refine ⟨trimEnd '/' path, m, isSegment_of_part hslash ?_ (hbad _ (hpart ▸ List.mem_cons_self)), hpath⟩
  exact fun hmem => hback (hpath ▸ List.mem_append_left _ hmem)

/-- A path of two parts, with nothing after it. -/
theorem isPath_of_parts {path : String} (hback : '\\' ∉ path.toList)
    (hbad : ∀ part ∈ split '/' (trimEnd '/' path), isBadPart part = false) (hlast : path.toList.getLast? ≠ some '/')
    (hparts : (split '/' (trimEnd '/' path)).length = 2) : IsPath path := by
  have htrim : trimEnd '/' path = path := by
    obtain ⟨n, hpath, hn⟩ := trimEnd_eq '/' path
    have hzero : n = 0 := not_not.mp fun hne => hlast (hn.mpr hne)
    rw [hzero, List.replicate_zero, List.append_nil] at hpath
    exact String.toList_injective hpath.symm
  rw [htrim] at hbad hparts
  obtain ⟨folder, file, hsplit⟩ := List.length_eq_two.mp hparts
  obtain ⟨hpath, hfolder, hfile⟩ := split_two hsplit
  have hfolderName : folderName path = folder := by unfold folderName; rw [hsplit]; rfl
  have hfileName : fileName path = file := by unfold fileName; rw [hsplit]; rfl
  have hin : ∀ part ∈ split '/' path, '\\' ∉ part.toList := by
    intro part hpart hmem
    refine hback ?_
    rw [hsplit] at hpart
    rw [hpath, String.toList_append, String.toList_append]
    rcases List.mem_cons.mp hpart with rfl | hpart
    · exact List.mem_append_left _ (List.mem_append_left _ hmem)
    · rw [List.mem_singleton.mp hpart] at hmem
      exact List.mem_append_right _ hmem
  have hmem : folder ∈ split '/' path ∧ file ∈ split '/' path := by rw [hsplit]; simp
  refine ⟨by rw [hfolderName, hfileName]; exact hpath, ?_, ?_⟩
  · rw [hfolderName]; exact isSegment_of_part hfolder (hin _ hmem.1) (hbad _ hmem.1)
  · rw [hfileName]; exact isSegment_of_part hfile (hin _ hmem.2) (hbad _ hmem.2)

/-- What an entry that is accepted does. -/
theorem addEntry_ok {files files' : Files runtime} {expanded expanded' : Nat} {entry : ZipEntry}
    (h : addEntry options runtime files expanded entry = .ok (files', expanded')) :
    (isFile entry = true ∧ IsPath entry.fullName ∧ files'.entries = files.entries ++ [(entry.fullName, entry)] ∧
      expanded' = expanded + entry.length ∧ entry.length ≤ options.maxExpandedBytes - expanded) ∨
    (isFile entry = false ∧ IsRootFolder entry.fullName ∧ files' = files ∧ expanded' = expanded) := by
  unfold addEntry at h
  simp only at h
  split at h
  · cases h
  · next hpath =>
    simp only [Bool.or_eq_true, not_or, List.contains_eq_mem, decide_eq_true_eq, List.any_eq_true, not_exists,
      not_and, Bool.not_eq_true] at hpath
    obtain ⟨hback, hbad⟩ := hpath
    split at h
    · next hlast =>
      split at h
      · cases h
      · next hparts =>
        cases h
        exact Or.inr ⟨by simp [isFile, hlast], isRootFolder_of_parts hback hbad hlast (not_not.mp hparts), rfl, rfl⟩
    · next hlast =>
      split at h
      · cases h
      · next hparts =>
        split at h
        · cases h
        · next hadd =>
          split at h
          · cases h
          · next hsize =>
            cases h
            exact Or.inl ⟨by simpa [isFile] using hlast, isPath_of_parts hback hbad hlast (not_not.mp hparts),
              Dict.mem_tryAdd hadd, rfl, not_lt.mp hsize⟩

/-- What the entries of an archive are, and the files they give. -/
theorem readEntries_ok : ∀ {archive : List ZipEntry} {files files' : Files runtime} {expanded : Nat},
    readEntries options runtime archive files expanded = .ok files' →
      files'.entries = files.entries ++ (archive.filter isFile).map (fun entry => (entry.fullName, entry)) ∧
      (∀ entry ∈ archive, if isFile entry = true then IsPath entry.fullName else IsRootFolder entry.fullName) ∧
      (expanded ≤ options.maxExpandedBytes →
        expanded + ((archive.filter isFile).map ZipEntry.length).sum ≤ options.maxExpandedBytes) := by
  intro archive
  induction archive with
  | nil => intro files files' expanded h; cases h; simp
  | cons entry archive ih =>
    intro files files' expanded h
    unfold readEntries at h
    split at h
    · cases h
    · next files₁ expanded₁ hentry =>
      obtain ⟨hfiles, hnames, hsize⟩ := ih h
      rcases addEntry_ok options runtime hentry with ⟨hfile, hpath, hadd, rfl, hle⟩ | ⟨hfile, hroot, rfl, rfl⟩
      · rw [List.filter_cons_of_pos hfile]
        refine ⟨by rw [hfiles, hadd]; simp, List.forall_mem_cons.mpr ⟨by rw [if_pos hfile]; exact hpath, hnames⟩,
          fun hexp => ?_⟩
        rw [List.map_cons, List.sum_cons, ← Nat.add_assoc]
        exact hsize (by omega)
      · rw [List.filter_cons_of_neg (by simp [hfile])]
        exact ⟨hfiles, List.forall_mem_cons.mpr ⟨by rw [if_neg (by simp [hfile])]; exact hroot, hnames⟩, hsize⟩

/-! ## Folders -/

/-- A group of files by its folder, in any case. -/
theorem mem_folders {files : Files runtime} {folder : Folder} (h : folder ∈ folders runtime files) :
    (∃ file ∈ files.entries, folderName file.1 = folder.1) ∧
      folder.2 = files.entries.filter fun file =>
        decide (runtime.upper.fold (folderName file.1) = runtime.upper.fold folder.1) := by
  obtain ⟨group, hgroup, rfl⟩ := List.mem_map.mp h
  obtain ⟨⟨file, hfile, hkey⟩, hfiles⟩ := mem_groupBy.mp hgroup
  have hmem : file ∈ group.2 := hfiles ▸ List.mem_filter.mpr ⟨hfile, by simp [hkey]⟩
  obtain ⟨first, hfirst⟩ : ∃ first, group.2.head? = some first := by
    cases hg : group.2 with
    | nil => rw [hg] at hmem; cases hmem
    | cons first rest => exact ⟨first, rfl⟩
  have hfirstMem : first ∈ group.2 := List.mem_of_head? hfirst
  rw [hfiles] at hfirstMem
  obtain ⟨hin, hfold⟩ := List.mem_filter.mp hfirstMem
  simp only [hfirst, Option.map_some, Option.getD_some]
  refine ⟨⟨first, hin, rfl⟩, ?_⟩
  have hkey : runtime.upper.fold (folderName first.1) = group.1 := by simpa using hfold
  rw [hkey, hfiles]
  exact List.filter_congr fun file _ => by rw [Bool.eq_iff_iff, decide_eq_true_eq]; simp

theorem folders_keys (files : Files runtime) :
    ((folders runtime files).map fun folder => runtime.upper.fold folder.1).Nodup := by
  have hkeys : (folders runtime files).map (fun folder => runtime.upper.fold folder.1) =
      (groupBy (fun f => runtime.upper.fold (folderName f.1)) files.entries).map Prod.fst := by
    unfold folders
    rw [List.map_map]
    refine List.map_congr_left fun group hgroup => ?_
    obtain ⟨⟨file, hfile, hkey⟩, hfiles⟩ := mem_groupBy.mp hgroup
    have hmem : file ∈ group.2 := hfiles ▸ List.mem_filter.mpr ⟨hfile, by simp [hkey]⟩
    simp only [Function.comp_apply]
    cases hg : group.2 with
    | nil => rw [hg] at hmem; cases hmem
    | cons first rest =>
      have hfirst : first ∈ group.2 := hg ▸ List.mem_cons_self
      rw [hfiles] at hfirst
      simpa using (List.mem_filter.mp hfirst).2
  rw [hkeys]
  exact groupBy_keys _ _

theorem folders_perm (files : Files runtime) : ((folders runtime files).flatMap Prod.snd).Perm files.entries := by
  have h := groupBy_perm (fun f : String × ZipEntry => runtime.upper.fold (folderName f.1)) files.entries
  unfold folders
  rwa [List.flatMap_map]

/-- A path without case: its folder and its file name. -/
theorem equals_path {path folder : String} (hpath : IsPath path)
    (h : runtime.upper.equals path (folder ++ "/problem.json") = true) :
    runtime.upper.fold (folderName path) = runtime.upper.fold folder ∧
      Spells "problem.json" (fileName path).toList := by
  have heq : runtime.upper.fold path = runtime.upper.fold (folder ++ "/problem.json") := beq_iff_eq.mp h
  rw [hpath.parts, show folder ++ "/problem.json" = folder ++ "/" ++ "problem.json" from by
    rw [String.append_assoc]; rfl] at heq
  have hsplit := heq
  rw [show String.singleton '/' = "/" from rfl, UpperCase.fold_slash, UpperCase.fold_slash,
    List.append_cons_inj_of_notMem (UpperCase.slash_not_mem_fold _ hpath.folder.slash)
      (UpperCase.slash_not_mem_fold _ hpath.file.slash)] at hsplit
  refine ⟨hsplit.1, ?_⟩
  exact (UpperCase.equals_lower runtime.upper (fileName path) (by decide)).mp (beq_iff_eq.mpr hsplit.2.2)

/-! ## The files of a folder -/

abbrev InputName (number : Int) (path : String) : Prop := NamesTest regexEndings "input" number (fileName path)

abbrev OutputName (number : Int) (path : String) : Prop := NamesTest regexEndings "output" number (fileName path)

/-- Whether a file is left out of the tests: it is the folder's manifest. -/
def isManifest (jsonPath : String) (file : String × ZipEntry) : Bool := runtime.upper.equals file.1 jsonPath

theorem testNumber_names {file start : String} {number : Int} (h : testNumber file = some (start, number)) :
    (runtime.upper.equals start "input" = true ∧ NamesTest regexEndings "input" number file) ∨
      (runtime.upper.equals start "input" = false ∧ NamesTest regexEndings "output" number file) := by
  obtain ⟨word, hword, digits, ending, hname, hspell, hrest⟩ := testNumber_iff.mp h
  have hequals : runtime.upper.equals start "input" = true ↔ Spells "input" start.toList :=
    UpperCase.equals_lower runtime.upper start (by decide)
  unfold testWords at hword
  simp only [List.mem_cons, List.not_mem_nil, or_false] at hword
  rcases hword with rfl | rfl
  · exact Or.inl ⟨hequals.mpr hspell, start.toList, digits, ending, hname, hspell, hrest⟩
  · refine Or.inr ⟨?_, start.toList, digits, ending, hname, hspell, hrest⟩
    rw [Bool.eq_false_iff, Ne, hequals]
    intro hinput
    unfold Spells at hinput hspell
    rw [hspell] at hinput
    exact absurd hinput (by decide)

/-- What a pass over one file of a folder does. -/
theorem addFile_ok {jsonPath : String} {tests tests' : TestFiles} {file : String × ZipEntry}
    (h : addFile runtime jsonPath tests file = .ok tests') :
    (isManifest runtime jsonPath file = true ∧ tests' = tests) ∨
    (isManifest runtime jsonPath file = false ∧ ∃ number,
      (InputName number file.1 ∧ tests.inputs.tryAdd number file.2 = some tests'.inputs ∧
        tests'.outputs = tests.outputs) ∨
      (OutputName number file.1 ∧ tests.outputs.tryAdd number file.2 = some tests'.outputs ∧
        tests'.inputs = tests.inputs)) := by
  unfold addFile at h
  simp only at h
  split at h
  · next hjson => cases h; exact Or.inl ⟨hjson, rfl⟩
  · next hjson =>
    refine Or.inr ⟨by simpa [isManifest] using hjson, ?_⟩
    split at h
    · cases h
    · next start number hnumber =>
      refine ⟨number, ?_⟩
      rcases testNumber_names runtime hnumber with ⟨hinput, hname⟩ | ⟨hinput, hname⟩
      · rw [if_pos hinput] at h
        split at h
        · cases h
        · next hadd => cases h; exact Or.inl ⟨hname, hadd, rfl⟩
      · rw [if_neg (by simp [hinput])] at h
        split at h
        · cases h
        · next hadd => cases h; exact Or.inr ⟨hname, hadd, rfl⟩

/-- The files of a list, sorted into tests. -/
structure Filed (jsonPath : String) (files : List (String × ZipEntry)) (tests tests' : TestFiles) : Prop where
  named : ∀ file ∈ files, isManifest runtime jsonPath file = true ∨
    ∃ number, InputName number file.1 ∨ OutputName number file.1
  inputs : ∀ number entry, (number, entry) ∈ tests'.inputs.entries ↔ (number, entry) ∈ tests.inputs.entries ∨
    ∃ path, (path, entry) ∈ files ∧ isManifest runtime jsonPath (path, entry) = false ∧ InputName number path
  outputs : ∀ number entry, (number, entry) ∈ tests'.outputs.entries ↔ (number, entry) ∈ tests.outputs.entries ∨
    ∃ path, (path, entry) ∈ files ∧ isManifest runtime jsonPath (path, entry) = false ∧ OutputName number path
  perm : ((tests'.inputs.entries ++ tests'.outputs.entries).map Prod.snd).Perm
    ((tests.inputs.entries ++ tests.outputs.entries).map Prod.snd ++
      (files.filter (!isManifest runtime jsonPath ·)).map Prod.snd)

/-- A name has one word and one number. -/
theorem names_unique {file word word' : String} {number number' : Int} (hw : word ∈ testWords) (hw' : word' ∈ testWords)
    (h : NamesTest regexEndings word number file) (h' : NamesTest regexEndings word' number' file) :
    word = word' ∧ number = number' := by
  obtain ⟨start, digits, ending, hname, hspell, hrest⟩ := h
  obtain ⟨start', digits', ending', hname', hspell', hrest'⟩ := h'
  have hread : testNumber file = some (String.ofList start, number) :=
    testNumber_iff.mpr ⟨word, hw, digits, ending, by rwa [String.toList_ofList], by rwa [String.toList_ofList], hrest⟩
  have hread' : testNumber file = some (String.ofList start', number') :=
    testNumber_iff.mpr ⟨word', hw', digits', ending',
      by rwa [String.toList_ofList], by rwa [String.toList_ofList], hrest'⟩
  rw [hread] at hread'
  simp only [Option.some.injEq, Prod.mk.injEq] at hread'
  obtain ⟨hstart, hnumber⟩ := hread'
  have hsame : start = start' := by
    have := congrArg String.toList hstart
    rwa [String.toList_ofList, String.toList_ofList] at this
  refine ⟨String.toList_injective ?_, hnumber⟩
  rw [← hspell, ← hspell', hsame]

theorem input_ne_output {number number' : Int} {path : String} (h : InputName number path)
    (h' : OutputName number' path) : False :=
  absurd (names_unique (by decide) (by decide) h h').1 (by decide)

/-- The dictionary that a file of one word was added to. -/
theorem filed_added {jsonPath path word : String} {entry : ZipEntry} {number : Int}
    {files files' : SortedDict Int ZipEntry}
    (hword : word ∈ testWords) (hjson : isManifest runtime jsonPath (path, entry) = false)
    (hname : NamesTest regexEndings word number (fileName path)) (hadd : files.tryAdd number entry = some files')
    (n : Int) (e : ZipEntry) :
    (n, e) ∈ files'.entries ↔ (n, e) ∈ files.entries ∨ ∃ p, (p, e) ∈ [(path, entry)] ∧
      isManifest runtime jsonPath (p, e) = false ∧ NamesTest regexEndings word n (fileName p) := by
  rw [SortedDict.mem_tryAdd hadd, or_comm]
  refine or_congr Iff.rfl ⟨?_, ?_⟩
  · rintro ⟨⟩; exact ⟨path, List.mem_singleton.mpr rfl, hjson, hname⟩
  · rintro ⟨p, hmem, -, hn⟩
    cases List.mem_singleton.mp hmem
    rw [(names_unique hword hword hn hname).2]

/-- The dictionary of the other word. -/
theorem filed_kept {jsonPath path word : String} {entry : ZipEntry} {files : SortedDict Int ZipEntry}
    (hno : ∀ n, isManifest runtime jsonPath (path, entry) = false → ¬NamesTest regexEndings word n (fileName path))
    (n : Int) (e : ZipEntry) :
    (n, e) ∈ files.entries ↔ (n, e) ∈ files.entries ∨ ∃ p, (p, e) ∈ [(path, entry)] ∧
      isManifest runtime jsonPath (p, e) = false ∧ NamesTest regexEndings word n (fileName p) := by
  refine ⟨Or.inl, fun h => h.resolve_right ?_⟩
  rintro ⟨p, hmem, hjson, hn⟩
  cases List.mem_singleton.mp hmem
  exact hno n hjson hn

theorem filed_one {jsonPath : String} {tests tests' : TestFiles} {file : String × ZipEntry}
    (h : addFile runtime jsonPath tests file = .ok tests') : Filed runtime jsonPath [file] tests tests' := by
  obtain ⟨path, entry⟩ := file
  rcases addFile_ok runtime h with ⟨hjson, rfl⟩ | ⟨hjson, number, ⟨hname, hadd, hother⟩ | ⟨hname, hadd, hother⟩⟩
  · have hno : ∀ word n, isManifest runtime jsonPath (path, entry) = false →
        ¬NamesTest regexEndings word n (fileName path) := by
      intro word n hfalse
      rw [hjson] at hfalse
      cases hfalse
    exact ⟨by simp [hjson], filed_kept runtime (hno "input"), filed_kept runtime (hno "output"), by simp [hjson]⟩
  · refine ⟨by simpa using Or.inr ⟨number, Or.inl hname⟩, filed_added runtime (by decide) hjson hname hadd, ?_, ?_⟩
    · rw [hother]
      exact filed_kept runtime fun n _ => input_ne_output hname
    · have hp := ((SortedDict.tryAdd_perm hadd).map Prod.snd).append_right (tests.outputs.entries.map Prod.snd)
      rw [hother]
      simp only [List.map_append, List.filter_cons, hjson, Bool.not_false, if_true, List.filter_nil,
        List.map_singleton]
      exact hp.trans (List.perm_append_singleton _ _).symm
  · refine ⟨by simpa using Or.inr ⟨number, Or.inr hname⟩, ?_, filed_added runtime (by decide) hjson hname hadd, ?_⟩
    · rw [hother]
      exact filed_kept runtime fun n _ hn => input_ne_output hn hname
    · have hp := ((SortedDict.tryAdd_perm hadd).map Prod.snd).append_left (tests.inputs.entries.map Prod.snd)
      rw [hother]
      simp only [List.map_append, List.filter_cons, hjson, Bool.not_false, if_true, List.filter_nil,
        List.map_singleton, List.append_assoc]
      exact hp.trans ((List.perm_append_singleton _ _).symm.append_left _)

theorem filed_append {jsonPath : String} {files files' : List (String × ZipEntry)} {tests tests₁ tests' : TestFiles}
    (h : Filed runtime jsonPath files tests tests₁) (h' : Filed runtime jsonPath files' tests₁ tests') :
    Filed runtime jsonPath (files ++ files') tests tests' := by
  have hmerge : ∀ (P : String → ZipEntry → Prop) (A : Prop) (e : ZipEntry),
      ((A ∨ ∃ path, (path, e) ∈ files ∧ P path e) ∨ ∃ path, (path, e) ∈ files' ∧ P path e) ↔
        (A ∨ ∃ path, (path, e) ∈ files ++ files' ∧ P path e) := by
    intro P A e
    simp only [List.mem_append, or_and_right, exists_or, or_assoc]
  refine ⟨fun file hfile => (List.mem_append.mp hfile).elim (h.named file) (h'.named file), fun n e => ?_,
    fun n e => ?_, ?_⟩
  · rw [h'.inputs, h.inputs]
    exact hmerge (fun path e => isManifest runtime jsonPath (path, e) = false ∧ InputName n path) _ e
  · rw [h'.outputs, h.outputs]
    exact hmerge (fun path e => isManifest runtime jsonPath (path, e) = false ∧ OutputName n path) _ e
  · have hp := h'.perm.trans (h.perm.append_right _)
    rwa [List.append_assoc, ← List.map_append, ← List.filter_append] at hp

theorem filed {jsonPath : String} : ∀ {files : List (String × ZipEntry)} {tests tests' : TestFiles},
    addFiles runtime jsonPath files tests = .ok tests' → Filed runtime jsonPath files tests tests' := by
  intro files
  induction files with
  | nil =>
    intro tests tests' h
    cases h
    exact ⟨fun _ h => (nomatch h), fun _ _ => by simp, fun _ _ => by simp, by simp⟩
  | cons file files ih =>
    intro tests tests' h
    unfold addFiles at h
    split at h
    · cases h
    · next hfile => exact filed_append runtime (filed_one runtime hfile) (ih h)

/-! ## Accepted archives, folder by folder -/

def jsonPath (folder : Folder) : String := folder.1 ++ "/problem.json"

structure FolderRead (files : Files runtime) (folder : Folder) (problem : ImportedProblem) (json : ZipEntry)
    (manifest : ProblemManifest) (tests : TestFiles) : Prop where
  found : files.get? (jsonPath folder) = some json
  deserialized : readManifest runtime (jsonPath folder) json = .ok manifest
  filed : Filed runtime (jsonPath folder) folder.2 noTests tests
  keys : tests.inputs.keys = tests.outputs.keys
  content : readTests tests.inputs.entries tests.outputs.entries = .ok problem.tests
  folder : problem.folder = folder.1
  trimmed : problem.manifest = { manifest with name := trim manifest.name }

theorem readFolder_ok {files : Files runtime} {numbers : List Int} {folder : Folder} {problem : ImportedProblem}
    (h : readFolder runtime files numbers folder = .ok problem) :
    ∃ json manifest tests, FolderRead runtime files folder problem json manifest tests := by
  unfold readFolder at h
  simp only at h
  split at h
  · cases h
  · next json hjson =>
    simp only [bind_eq_ok] at h
    obtain ⟨manifest, hmanifest, u, -, tests, hfiles, u', htests, imported, himported, hproblem⟩ := h
    obtain ⟨-, hkeys, -⟩ := checkTests_ok htests
    cases hproblem
    exact ⟨json, manifest, tests, hjson, hmanifest, filed runtime hfiles, hkeys, himported, rfl, rfl⟩

theorem readFolders_ok {files : Files runtime} : ∀ {rest : List Folder} {numbers : List Int}
    {problems : List ImportedProblem}, readFolders runtime files rest numbers = .ok problems →
      List.Forall₂ (fun folder problem => ∃ json manifest tests,
        FolderRead runtime files folder problem json manifest tests) rest problems := by
  intro rest
  induction rest with
  | nil => intro numbers problems h; cases h; exact .nil
  | cons folder rest ih =>
    intro numbers problems h
    unfold readFolders at h
    simp only [bind_eq_ok] at h
    obtain ⟨problem, hproblem, problems', hrest, heq⟩ := h
    cases heq
    exact .cons (readFolder_ok runtime hproblem) (ih hrest)

/-- An accepted archive: its entries, the files they give, and the problem of each folder. -/
structure ArchiveRead (archive : List ZipEntry) (problems : List ImportedProblem) (files : Files runtime) : Prop where
  entries : files.entries = (archive.filter isFile).map fun entry => (entry.fullName, entry)
  names : ∀ entry ∈ archive, if isFile entry = true then IsPath entry.fullName else IsRootFolder entry.fullName
  size : ((archive.filter isFile).map ZipEntry.length).sum ≤ options.maxExpandedBytes
  read : List.Forall₂ (fun folder problem => ∃ json manifest tests,
    FolderRead runtime files folder problem json manifest tests) (folders runtime files) problems

theorem readAsync_parts {archive : List ZipEntry} {problems : List ImportedProblem}
    (h : readAsync options runtime (.ok archive) = .ok problems) :
    ∃ files, ArchiveRead options runtime archive problems files := by
  unfold readAsync at h
  rw [bind_eq_ok] at h
  obtain ⟨_, ⟨⟩, h⟩ := h
  split at h
  · cases h
  · simp only [bind_eq_ok] at h
    obtain ⟨files, hfiles, result, hresult, h⟩ := h
    obtain ⟨hentries, hnames, hsize⟩ := readEntries_ok options runtime hfiles
    split at h
    · cases h
    · cases h
      exact ⟨files, by simpa [Dict.empty] using hentries, hnames, by simpa using hsize, readFolders_ok runtime hresult⟩

variable {options runtime} {archive : List ZipEntry} {problems : List ImportedProblem} {files : Files runtime}

theorem ArchiveRead.mem_files (h : ArchiveRead options runtime archive problems files) {path : String}
    {entry : ZipEntry} :
    (path, entry) ∈ files.entries ↔ entry ∈ archive ∧ isFile entry = true ∧ path = entry.fullName := by
  rw [h.entries, List.mem_map]
  constructor
  · rintro ⟨entry, hentry, ⟨⟩⟩
    exact ⟨(List.mem_filter.mp hentry).1, (List.mem_filter.mp hentry).2, rfl⟩
  · rintro ⟨hmem, hfile, rfl⟩
    exact ⟨entry, List.mem_filter.mpr ⟨hmem, hfile⟩, rfl⟩

/-- Each file is in the folder of a problem. -/
theorem ArchiveRead.folder_of (h : ArchiveRead options runtime archive problems files) {file : String × ZipEntry}
    (hfile : file ∈ files.entries) : ∃ folder ∈ folders runtime files, file ∈ folder.2 ∧
      ∃ problem ∈ problems, ∃ json manifest tests, FolderRead runtime files folder problem json manifest tests := by
  obtain ⟨folder, hfolder, hin⟩ := List.mem_flatMap.mp ((folders_perm runtime files).mem_iff.mpr hfile)
  obtain ⟨problem, hproblem, hread⟩ := (forall₂_exists h.read).1 folder hfolder
  exact ⟨folder, hfolder, hin, problem, hproblem, hread⟩

/-- Each file's name is one of the three forms, with the endings of the regular expression. -/
theorem ArchiveRead.file_names (h : ArchiveRead options runtime archive problems files) {entry : ZipEntry}
    (hentry : entry ∈ archive) (hfile : isFile entry = true) :
    IsPath entry.fullName ∧ (Spells "problem.json" (fileName entry.fullName).toList ∨
      ∃ word ∈ testWords, ∃ number, NamesTest regexEndings word number (fileName entry.fullName)) := by
  have hpath : IsPath entry.fullName := by
    have := h.names entry hentry
    rwa [if_pos hfile] at this
  obtain ⟨folder, -, hin, problem, -, json, manifest, tests, hread⟩ :=
    h.folder_of (h.mem_files.mpr ⟨hentry, hfile, rfl⟩)
  refine ⟨hpath, ?_⟩
  rcases hread.filed.named _ hin with hjson | ⟨number, hname | hname⟩
  · exact Or.inl (equals_path runtime hpath hjson).2
  · exact Or.inr ⟨"input", by decide, number, hname⟩
  · exact Or.inr ⟨"output", by decide, number, hname⟩

/-- A runtime without letters beyond ASCII, to which every manifest is that of problem 1. -/
def plainRuntime : Runtime := ⟨.asciiOnly, fun _ => .ok (some { number := 1, name := "Sum" })⟩

end OlympSystem.Site.ArchiveGrammar
