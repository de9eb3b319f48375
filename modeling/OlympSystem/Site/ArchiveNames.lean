/-
  OlympSystem.Site.ArchiveNames — the file names that `ProblemArchive.ReadAsync` takes and
  the grammar does not have: those of test files with a line feed after them.

  Proved:
  - `readAsync_error`: what an archive is refused with.
  - `readAsync_pair`: a folder with a manifest, an input and an output is accepted.
  - `grammar_iff`: the files of an accepted archive follow the grammar, and any other name
    is refused, exactly without such a name.
-/

import OlympSystem.Site.ArchiveGrammar

namespace OlympSystem.Site.ArchiveNames

open Lib.Dictionaries Lib.Text Lib.Query OlympSystem.Checker ProblemArchive ArchiveGrammar

variable {options : ContestImportOptions} {runtime : Runtime}

/-! ## The line feed -/

theorem last_spells {word : String} {text : List Char} (h : Spells word text) :
    text.getLast?.map Char.toLower = word.toList.getLast? := by
  unfold Spells at h
  rw [← h, List.getLast?_map]

theorem last_name {word file : String} {number : Int} {endings : List String}
    (h : NamesTest endings word number file) (hne : ∀ e ∈ endings, e.toList ≠ []) :
    ∃ e ∈ endings, file.toList.getLast?.map Char.toLower = e.toList.getLast? := by
  obtain ⟨start, digits, ending, hname, -, -, -, -, -, -, e, he, hend⟩ := h
  refine ⟨e, he, ?_⟩
  have hending : ending ≠ [] := by
    rintro rfl
    exact hne e he hend.symm
  rw [hname, ← List.append_assoc, List.getLast?_append_of_ne_nil _ hending]
  exact last_spells hend

def LineFed (path : String) : Prop :=
  IsPath path ∧ ∃ word ∈ testWords, ∃ number, NamesTest [".txt\n"] word number (fileName path)

theorem not_grammatical {path : String} (h : LineFed path) : ¬IsGrammatical path := by
  rintro ⟨-, hname⟩
  obtain ⟨-, word, -, number, hfed⟩ := h
  obtain ⟨e, he, hend⟩ := last_name hfed (by decide)
  rw [List.mem_singleton.mp he] at hend
  have hlast : ∀ c : Char, (fileName path).toList.getLast?.map Char.toLower = some c → c = '\n' := fun c hc =>
    Option.some.inj (hc.symm.trans hend)
  rcases hname with hjson | ⟨word, -, number, htest⟩
  · exact absurd (hlast 'n' (last_spells hjson)) (by decide)
  · obtain ⟨e, he, htxt⟩ := last_name htest (by decide)
    rw [List.mem_singleton.mp he] at htxt
    exact absurd (hlast 't' htxt) (by decide)

/-- A name the regular expression takes is one of the grammar, or one with a line feed. -/
theorem grammatical_iff {path : String} (hpath : IsPath path)
    (hname : Spells "problem.json" (fileName path).toList ∨
      ∃ word ∈ testWords, ∃ number, NamesTest regexEndings word number (fileName path)) :
    IsGrammatical path ↔ ¬LineFed path := by
  refine ⟨fun h hfed => not_grammatical hfed h, fun hfed => ⟨hpath, hname.imp id ?_⟩⟩
  rintro ⟨word, hword, number, start, digits, ending, hfile, hspell, hne, hall, hval, hlow, hhigh, e, he, hend⟩
  refine ⟨word, hword, number, start, digits, ending, hfile, hspell, hne, hall, hval, hlow, hhigh, e, ?_, hend⟩
  unfold regexEndings at he
  rcases List.mem_cons.mp he with rfl | he
  · exact List.mem_cons_self
  · exact absurd ⟨hpath, word, hword, number, start, digits, ending, hfile, hspell, hne, hall, hval, hlow, hhigh, e, he,
      hend⟩ hfed

/-! ## What rejects an archive -/

def IsInvalidData (e : Exn) : Prop := ∃ key args, e = .invalidData key args

theorem addEntry_error {files : Files runtime} {expanded : Nat} {entry : ZipEntry} {e : Exn}
    (h : addEntry options runtime files expanded entry = .error e) : IsInvalidData e := by
  unfold addEntry at h
  simp only at h
  split at h
  · cases h; exact ⟨_, _, rfl⟩
  · split at h
    · split at h
      · cases h; exact ⟨_, _, rfl⟩
      · cases h
    · split at h
      · cases h; exact ⟨_, _, rfl⟩
      · split at h
        · cases h; exact ⟨_, _, rfl⟩
        · split at h
          · cases h; exact ⟨_, _, rfl⟩
          · cases h

theorem readEntries_error : ∀ {archive : List ZipEntry} {files : Files runtime} {expanded : Nat} {e : Exn},
    readEntries options runtime archive files expanded = .error e → IsInvalidData e := by
  intro archive
  induction archive with
  | nil => intro files expanded e h; cases h
  | cons entry archive ih =>
    intro files expanded e h
    unfold readEntries at h
    split at h
    · next hentry => cases h; exact addEntry_error hentry
    · exact ih h

theorem addFile_error {jsonPath : String} {tests : TestFiles} {file : String × ZipEntry} {e : Exn}
    (h : addFile runtime jsonPath tests file = .error e) : IsInvalidData e := by
  unfold addFile at h
  simp only at h
  split at h
  · cases h
  · split at h
    · cases h; exact ⟨_, _, rfl⟩
    · split at h <;> split at h <;> first | cases h; exact ⟨_, _, rfl⟩ | cases h

theorem addFiles_error {jsonPath : String} : ∀ {files : List (String × ZipEntry)} {tests : TestFiles} {e : Exn},
    addFiles runtime jsonPath files tests = .error e → IsInvalidData e := by
  intro files
  induction files with
  | nil => intro tests e h; cases h
  | cons file files ih =>
    intro tests e h
    unfold addFiles at h
    split at h
    · next hfile => cases h; exact addFile_error hfile
    · exact ih h

theorem checkManifest_error {numbers : List Int} {jsonPath : String} {manifest : ProblemManifest} {e : Exn}
    (h : checkManifest numbers jsonPath manifest = .error e) : IsInvalidData e := by
  unfold checkManifest at h
  split at h
  · cases h; exact ⟨_, _, rfl⟩
  · split at h
    · cases h; exact ⟨_, _, rfl⟩
    · cases h

theorem checkTests_error {folder jsonPath : String} {manifest : ProblemManifest} {tests : TestFiles} {e : Exn}
    (h : checkTests folder jsonPath manifest tests = .error e) : IsInvalidData e := by
  unfold checkTests at h
  split at h
  · cases h; exact ⟨_, _, rfl⟩
  · split at h
    · cases h; exact ⟨_, _, rfl⟩
    · split at h
      · cases h; exact ⟨_, _, rfl⟩
      · cases h

theorem readEntryAsync_error {entry : ZipEntry} {e : Exn} (h : readEntryAsync entry = .error e) :
    IsInvalidData e ∨ entry.data = .error e := by
  unfold readEntryAsync at h
  split at h
  · cases h; exact Or.inl ⟨_, _, rfl⟩
  · split at h
    · next hdata => cases h; exact Or.inr hdata
    · split at h
      · cases h; exact Or.inl ⟨_, _, rfl⟩
      · cases h

theorem readTests_error : ∀ {inputs outputs : List (Int × ZipEntry)} {e : Exn},
    readTests inputs outputs = .error e → ∃ x ∈ inputs ++ outputs, readEntryAsync x.2 = .error e := by
  intro inputs
  induction inputs with
  | nil => intro outputs e h; unfold readTests at h; cases h
  | cons input inputs ih =>
    intro outputs e h
    cases outputs with
    | nil => unfold readTests at h; cases h
    | cons output outputs =>
      unfold readTests at h
      split at h
      · next hin => cases h; exact ⟨input, by simp, hin⟩
      · next hout => cases h; exact ⟨output, by simp, hout⟩
      · split at h
        · next hrest =>
          cases h
          obtain ⟨x, hx, herror⟩ := ih hrest
          refine ⟨x, ?_, herror⟩
          rcases List.mem_append.mp hx with hx | hx
          · exact List.mem_append_left _ (List.mem_cons_of_mem _ hx)
          · exact List.mem_append_right _ (List.mem_cons_of_mem _ hx)
        · cases h

/-- An exception of the code itself, of reading a file, or of the JSON deserializer other
    than a `JsonException`. -/
def Expected (runtime : Runtime) (entries : List ZipEntry) (e : Exn) : Prop :=
  IsInvalidData e ∨ (∃ entry ∈ entries, entry.data = .error e) ∨
    ∃ bytes, runtime.deserialize bytes = .error e ∧ ∀ message, e ≠ .json message

theorem readManifest_error {jsonPath : String} {entry : ZipEntry} {e : Exn}
    (h : readManifest runtime jsonPath entry = .error e) : Expected runtime [entry] e := by
  unfold readManifest at h
  simp only at h
  split at h
  · cases h; exact Or.inl ⟨_, _, rfl⟩
  · next hread =>
    cases h
    exact (readEntryAsync_error hread).imp id fun hdata => Or.inl ⟨entry, List.mem_singleton.mpr rfl, hdata⟩
  · split at h
    · cases h; exact Or.inl ⟨_, _, rfl⟩
    · next hother hjson => cases h; exact Or.inr (Or.inr ⟨_, hjson, hother⟩)
    · cases h; exact Or.inl ⟨_, _, rfl⟩
    · cases h

theorem readFolder_error {files : Files runtime} {numbers : List Int} {folder : Folder} {e : Exn}
    (hfolder : folder.2 ⊆ files.entries) (h : readFolder runtime files numbers folder = .error e) :
    Expected runtime (files.entries.map Prod.snd) e := by
  unfold readFolder at h
  simp only at h
  split at h
  · cases h; exact Or.inl ⟨_, _, rfl⟩
  · next json hjson =>
    rcases bind_eq_error.mp h with hmanifest | ⟨manifest, -, h⟩
    · obtain ⟨file, hfile, -, rfl⟩ := Dict.get?_mem hjson
      refine (readManifest_error hmanifest).imp id (Or.imp ?_ id)
      rintro ⟨entry, hentry, hdata⟩
      exact ⟨file.2, List.mem_map_of_mem hfile, List.mem_singleton.mp hentry ▸ hdata⟩
    rcases bind_eq_error.mp h with hcheck | ⟨u, -, h⟩
    · exact Or.inl (checkManifest_error hcheck)
    rcases bind_eq_error.mp h with hfiles | ⟨tests, hfiles, h⟩
    · exact Or.inl (addFiles_error hfiles)
    rcases bind_eq_error.mp h with htests | ⟨u', -, h⟩
    · exact Or.inl (checkTests_error htests)
    rcases bind_eq_error.mp h with himported | ⟨imported, -, h⟩
    · obtain ⟨x, hx, herror⟩ := readTests_error himported
      have hfiled := (filed runtime hfiles).perm.mem_iff (a := x.2)
      have hin : x.2 ∈ files.entries.map Prod.snd := by
        have hmem := hfiled.mp (List.mem_map_of_mem hx)
        simp only [noTests, SortedDict.empty, List.append_nil, List.map_nil, List.nil_append] at hmem
        obtain ⟨file, hfile, heq⟩ := List.mem_map.mp hmem
        exact heq ▸ List.mem_map_of_mem (hfolder (List.mem_filter.mp hfile).1)
      exact (readEntryAsync_error herror).imp id fun hdata => Or.inl ⟨x.2, hin, hdata⟩
    · cases h

theorem readFolders_error {files : Files runtime} : ∀ {rest : List Folder} {numbers : List Int} {e : Exn},
    (∀ folder ∈ rest, folder.2 ⊆ files.entries) → readFolders runtime files rest numbers = .error e →
      Expected runtime (files.entries.map Prod.snd) e := by
  intro rest
  induction rest with
  | nil => intro numbers e _ h; cases h
  | cons folder rest ih =>
    intro numbers e hrest h
    unfold readFolders at h
    rcases bind_eq_error.mp h with hfolder | ⟨problem, -, h⟩
    · exact readFolder_error (hrest folder List.mem_cons_self) hfolder
    rcases bind_eq_error.mp h with hfolders | ⟨problems, -, h⟩
    · exact ih (fun f hf => hrest f (List.mem_cons_of_mem _ hf)) hfolders
    · cases h

theorem readAsync_error {archive : List ZipEntry} {e : Exn} (h : readAsync options runtime (.ok archive) = .error e) :
    Expected runtime archive e := by
  unfold readAsync at h
  rcases bind_eq_error.mp h with h | ⟨_, ⟨⟩, h⟩
  · cases h
  split at h
  · cases h; exact Or.inl ⟨_, _, rfl⟩
  rcases bind_eq_error.mp h with hentries | ⟨files, hfiles, h⟩
  · exact Or.inl (readEntries_error hentries)
  rcases bind_eq_error.mp h with hfolders | ⟨result, -, h⟩
  · obtain ⟨hentries, -, -⟩ := readEntries_ok options runtime hfiles
    have hsub : ∀ folder ∈ folders runtime files, folder.2 ⊆ files.entries := fun folder hfolder => by
      rw [(mem_folders runtime hfolder).2]; exact List.filter_subset_self _
    refine (readFolders_error hsub hfolders).imp id (Or.imp ?_ id)
    rintro ⟨entry, hentry, hdata⟩
    rw [hentries, Dict.empty, List.nil_append, List.map_map] at hentry
    obtain ⟨entry', hmem, rfl⟩ := List.mem_map.mp hentry
    exact ⟨entry', (List.mem_filter.mp hmem).1, hdata⟩
  · split at h
    · cases h; exact Or.inl ⟨_, _, rfl⟩
    · cases h

/-! ## A folder that is accepted -/

theorem split_slash {folder file : String} (hfolder : '/' ∉ folder.toList) (hfile : '/' ∉ file.toList) :
    split '/' (folder ++ "/" ++ file) = [folder, file] := by
  have hjoin : String.intercalate (String.singleton '/') [folder, file] = folder ++ "/" ++ file := by
    refine String.toList_injective ?_
    rw [String.toList_intercalate]
    simp
  rw [← hjoin]
  exact split_join (List.cons_ne_nil folder [file]) (by simp [hfolder, hfile])

theorem split_path {path : String} (h : IsPath path) : split '/' path = [folderName path, fileName path] := by
  conv_lhs => rw [h.parts]
  exact split_slash h.folder.slash h.file.slash

theorem isPath_join {folder file : String} (hfolder : IsSegment folder) (hfile : IsSegment file) :
    folderName (folder ++ "/" ++ file) = folder ∧ fileName (folder ++ "/" ++ file) = file ∧
      IsPath (folder ++ "/" ++ file) := by
  have hsplit := split_slash hfolder.slash hfile.slash
  have hfolderName : folderName (folder ++ "/" ++ file) = folder := by unfold folderName; rw [hsplit]; rfl
  have hfileName : fileName (folder ++ "/" ++ file) = file := by unfold fileName; rw [hsplit]; rfl
  refine ⟨hfolderName, hfileName, ?_, ?_, ?_⟩
  · rw [hfolderName, hfileName]
    rfl
  · rw [hfolderName]
    exact hfolder
  · rw [hfileName]
    exact hfile

theorem isBadPart_segment {part : String} (h : IsSegment part) : isBadPart part = false := by
  unfold isBadPart
  simp [h.name.1, h.name.2.1, h.name.2.2, h.colon]

theorem last_segment {part : String} (h : IsSegment part) : part.toList ≠ [] ∧ part.toList.getLast? ≠ some '/' := by
  refine ⟨fun hnil => ?_, fun hlast => h.slash (List.mem_of_getLast? hlast)⟩
  have hblank := h.name.1
  unfold isBlank at hblank
  rw [hnil] at hblank
  cases hblank

/-- A file with a path is taken, if there is none in its place and it is not too large. -/
theorem addEntry_file {files files' : Files runtime} {expanded : Nat} {entry : ZipEntry} (h : IsPath entry.fullName)
    (hadd : files.tryAdd entry.fullName entry = some files')
    (hsize : entry.length ≤ options.maxExpandedBytes - expanded) :
    addEntry options runtime files expanded entry = .ok (files', expanded + entry.length) := by
  obtain ⟨hne, hfileLast⟩ := last_segment h.file
  have hchars : entry.fullName.toList = (folderName entry.fullName).toList ++
      '/' :: (fileName entry.fullName).toList := by
    conv_lhs => rw [h.parts]
    simp
  have hlast : entry.fullName.toList.getLast? ≠ some '/' := by
    rw [hchars, List.getLast?_append_of_ne_nil _ (List.cons_ne_nil _ _), List.getLast?_cons_of_ne_nil hne]
    exact hfileLast
  have htrim : trimEnd '/' entry.fullName = entry.fullName := by
    obtain ⟨n, hpath, hn⟩ := trimEnd_eq '/' entry.fullName
    have hzero : n = 0 := not_not.mp fun hne => hlast (hn.mpr hne)
    rw [hzero, List.replicate_zero, List.append_nil] at hpath
    exact String.toList_injective hpath.symm
  have hback : '\\' ∉ entry.fullName.toList := by
    rw [hchars]
    intro hmem
    rcases List.mem_append.mp hmem with hmem | hmem
    · exact h.folder.backslash hmem
    · rcases List.mem_cons.mp hmem with heq | hmem
      · cases heq
      · exact h.file.backslash hmem
  unfold addEntry
  simp only [htrim, split_path h]
  rw [if_neg, if_neg hlast, if_neg, hadd]
  · exact if_neg (not_lt.mpr hsize)
  · simp
  · simp [hback, isBadPart_segment h.folder, isBadPart_segment h.file]

theorem segment_json : IsSegment "problem.json" := ⟨by decide, by decide, by decide, by decide⟩

/-- Texts that start with different letters differ, whatever the case. -/
theorem fold_ne {upper : UpperCase} {a b : String} {c d : Char} (ha : (a.toList.map Char.toLower).head? = some c)
    (hb : (b.toList.map Char.toLower).head? = some d) (hc : UpperCase.isSmall c = true)
    (hd : UpperCase.isSmall d = true) (hne : c ≠ d) : upper.fold a ≠ upper.fold b := by
  intro heq
  have hsmall : ∀ {text : String} {c : Char}, UpperCase.isSmall c = true →
      (text.toList.map Char.toLower).head? = some c → (upper.fold text).head? = some (upper.upper c) := by
    intro text c hc h
    unfold UpperCase.isSmall at hc
    rw [Bool.and_eq_true, decide_eq_true_eq, beq_iff_eq] at hc
    unfold UpperCase.fold
    rw [List.head?_map] at h ⊢
    obtain ⟨first, hfirst, hlower⟩ := Option.map_eq_some_iff.mp h
    rw [hfirst, Option.map_some, (upper.upper_eq_iff hc.1 hc.2).mpr hlower]
  have hupper := (hsmall hc ha).symm.trans ((congrArg List.head? heq).trans (hsmall hd hb))
  unfold UpperCase.isSmall at hc hd
  rw [Bool.and_eq_true, decide_eq_true_eq, beq_iff_eq] at hc hd
  exact hne (hc.2.symm.trans ((upper.upper_eq_iff hd.1 hd.2).mp (Option.some.inj hupper)))

/-- A new key is added at the end. -/
theorem tryAdd_new {files : Files runtime} {path : String} (entry : ZipEntry)
    (hnew : ∀ e ∈ files.entries, runtime.upper.fold path ≠ runtime.upper.fold e.1) :
    ∃ files', files.tryAdd path entry = some files' ∧ files'.entries = files.entries ++ [(path, entry)] := by
  cases htry : files.tryAdd path entry with
  | none =>
    obtain ⟨e, he, heq⟩ := List.mem_map.mp (Dict.tryAdd_eq_none.mp htry)
    exact absurd heq.symm (hnew e he)
  | some files' => exact ⟨files', rfl, Dict.mem_tryAdd htry⟩

/-- Files of one folder that are all there is. -/
theorem readEntries_files {folder : String} (hfolder : IsSegment folder) :
    ∀ {names : List String} {files : Files runtime} {expanded : Nat}, (∀ name ∈ names, IsSegment name) →
    (names.map runtime.upper.fold).Nodup →
    (∀ e ∈ files.entries, ∀ name ∈ names, runtime.upper.fold (folder ++ "/" ++ name) ≠ runtime.upper.fold e.1) →
    ∃ files', readEntries options runtime (names.map fun name => ⟨folder ++ "/" ++ name, 0, .ok []⟩) files expanded =
      .ok files' ∧
      files'.entries = files.entries ++ names.map fun name =>
        (folder ++ "/" ++ name, ⟨folder ++ "/" ++ name, 0, .ok []⟩) := by
  intro names
  induction names with
  | nil => intro files expanded _ _ _; exact ⟨files, rfl, by simp⟩
  | cons name names ih =>
    intro files expanded hsegments hnodup hnew
    obtain ⟨hfirst, hrest⟩ := List.forall_mem_cons.mp hsegments
    rw [List.map_cons, List.nodup_cons] at hnodup
    obtain ⟨-, -, hpath⟩ := isPath_join hfolder hfirst
    obtain ⟨files₁, hadd, hentries⟩ := tryAdd_new ⟨folder ++ "/" ++ name, 0, .ok []⟩ fun e he =>
      hnew e he name List.mem_cons_self
    have hnew' : ∀ e ∈ files₁.entries, ∀ other ∈ names,
        runtime.upper.fold (folder ++ "/" ++ other) ≠ runtime.upper.fold e.1 := by
      intro e he other hother
      rw [hentries] at he
      rcases List.mem_append.mp he with he | he
      · exact hnew e he other (List.mem_cons_of_mem _ hother)
      · rw [List.mem_singleton.mp he]
        intro heq
        rw [UpperCase.fold_slash, UpperCase.fold_slash, List.append_cancel_left_eq, List.cons.injEq] at heq
        exact hnodup.1 (heq.2 ▸ List.mem_map_of_mem hother)
    obtain ⟨files', hread, hentries'⟩ := @ih files₁ (expanded + 0) hrest hnodup.2 hnew'
    have hentry : addEntry options runtime files expanded ⟨folder ++ "/" ++ name, 0, .ok []⟩ =
        .ok (files₁, expanded + 0) :=
      addEntry_file hpath hadd (Nat.zero_le (options.maxExpandedBytes - expanded))
    refine ⟨files', ?_, by rw [hentries', hentries]; simp⟩
    rw [List.map_cons]
    unfold readEntries
    rw [hentry]
    exact hread

/-- Files of one folder are one group. -/
theorem folders_single {files : Files runtime} {folder : String} {first : String × ZipEntry}
    {rest : List (String × ZipEntry)}
    (hentries : files.entries = first :: rest) (hfolder : ∀ file ∈ first :: rest, folderName file.1 = folder) :
    folders runtime files = [(folder, first :: rest)] := by
  have hkeys : ∀ file ∈ first :: rest, runtime.upper.fold (folderName file.1) = runtime.upper.fold folder :=
    fun file hfile => by rw [hfolder file hfile]
  unfold folders
  rw [hentries, groupBy_single hkeys]
  simp [hfolder first List.mem_cons_self]

theorem testNumber_of_name (runtime : Runtime) {word file : String} {number : Int} (hword : word ∈ testWords)
    (h : NamesTest regexEndings word number file) :
    ∃ start, testNumber file = some (start, number) ∧ runtime.upper.equals start "input" = decide (word = "input") := by
  have hcopy := h
  obtain ⟨start, digits, ending, hname, hspell, hrest⟩ := hcopy
  have hread : testNumber file = some (String.ofList start, number) :=
    testNumber_iff.mpr ⟨word, hword, digits, ending,
      by rwa [String.toList_ofList], by rwa [String.toList_ofList], hrest⟩
  refine ⟨_, hread, ?_⟩
  rcases testNumber_names runtime hread with ⟨hequals, hinput⟩ | ⟨hequals, houtput⟩
  · rw [hequals, (names_unique hword (by decide) h hinput).1]
    rfl
  · rw [hequals, (names_unique hword (by decide) h houtput).1]
    rfl

/-- The lower case letter a test file's name starts with. -/
theorem head_name {word file : String} {number : Int} {endings : List String} (h : NamesTest endings word number file)
    (hne : word.toList ≠ []) : (file.toList.map Char.toLower).head? = word.toList.head? := by
  obtain ⟨start, digits, ending, hname, hspell, -⟩ := h
  unfold Spells at hspell
  rw [hname, List.map_append, hspell, List.head?_append_of_ne_nil _ hne]

/-- What a file of a folder is: its manifest, or a test file that is collected. -/
theorem addFile_manifest {json path : String} {tests : TestFiles} {entry : ZipEntry}
    (h : runtime.upper.equals path json = true) : addFile runtime json tests (path, entry) = .ok tests := by
  unfold addFile
  rw [if_pos h]

theorem addFile_input {json path : String} {number : Int} {tests : TestFiles} {entry : ZipEntry}
    {inputs : SortedDict Int ZipEntry} (hjson : runtime.upper.equals path json = false)
    (hname : NamesTest regexEndings "input" number (fileName path))
    (hadd : tests.inputs.tryAdd number entry = some inputs) :
    addFile runtime json tests (path, entry) = .ok { tests with inputs := inputs } := by
  obtain ⟨start, hnumber, hstart⟩ := testNumber_of_name runtime (by decide) hname
  unfold addFile
  simp only [hjson, hnumber, hstart, hadd]
  rfl

theorem addFile_output {json path : String} {number : Int} {tests : TestFiles} {entry : ZipEntry}
    {outputs : SortedDict Int ZipEntry} (hjson : runtime.upper.equals path json = false)
    (hname : NamesTest regexEndings "output" number (fileName path))
    (hadd : tests.outputs.tryAdd number entry = some outputs) :
    addFile runtime json tests (path, entry) = .ok { tests with outputs := outputs } := by
  obtain ⟨start, hnumber, hstart⟩ := testNumber_of_name runtime (by decide) hname
  unfold addFile
  simp only [hjson, hnumber, hstart, hadd]
  rfl

theorem addFiles_cons {json : String} {file : String × ZipEntry} {files : List (String × ZipEntry)}
    {tests tests' : TestFiles} (h : addFile runtime json tests file = .ok tests') :
    addFiles runtime json (file :: files) tests = addFiles runtime json files tests' := by
  conv_lhs => unfold addFiles
  rw [h]

theorem addFiles_pair {json path input output : String} {entry first second : ZipEntry} {number : Int}
    (hpath : runtime.upper.equals path json = true) (hinput : runtime.upper.equals input json = false)
    (houtput : runtime.upper.equals output json = false)
    (hname : NamesTest regexEndings "input" number (fileName input))
    (hname' : NamesTest regexEndings "output" number (fileName output)) :
    addFiles runtime json [(path, entry), (input, first), (output, second)] noTests =
      .ok ⟨.single number first, .single number second⟩ := by
  rw [addFiles_cons (addFile_manifest hpath), addFiles_cons (addFile_input hinput hname (SortedDict.tryAdd_empty _ _)),
    addFiles_cons (addFile_output houtput hname' (SortedDict.tryAdd_empty _ _))]
  rfl

def plainEntry (folder name : String) : ZipEntry := ⟨folder ++ "/" ++ name, 0, .ok []⟩

def plainFile (folder name : String) : String × ZipEntry := (folder ++ "/" ++ name, plainEntry folder name)

theorem json_path (folder : String) : folder ++ "/" ++ "problem.json" = folder ++ "/problem.json" := by
  rw [String.append_assoc]
  rfl

theorem equals_json {upper : UpperCase} {folder name : String} :
    upper.equals (folder ++ "/" ++ name) (folder ++ "/problem.json") = true ↔
      upper.fold name = upper.fold "problem.json" := by
  unfold UpperCase.equals
  rw [← json_path, UpperCase.fold_slash, UpperCase.fold_slash, beq_iff_eq, List.append_cancel_left_eq, List.cons.injEq]
  exact and_iff_right rfl

/-- What is read of a folder with a manifest, an input and an output. -/
theorem readFolder_pair {files : Files plainRuntime} {folder input output : String} {number : Int}
    (hfolder : IsSegment folder)
    (hinput : IsSegment input) (houtput : IsSegment output) (hnames : NamesTest regexEndings "input" number input)
    (hnames' : NamesTest regexEndings "output" number output)
    (hentries : files.entries = [plainFile folder "problem.json", plainFile folder input, plainFile folder output])
    (hinputJson : plainRuntime.upper.fold input ≠ plainRuntime.upper.fold "problem.json")
    (houtputJson : plainRuntime.upper.fold output ≠ plainRuntime.upper.fold "problem.json") :
    readFolder plainRuntime files [] (folder, files.entries) =
      .ok ⟨folder, { number := 1, name := "Sum" }, [⟨number, [], []⟩]⟩ := by
  have hget : files.get? (folder ++ "/problem.json") = some (plainEntry folder "problem.json") := by
    unfold Dict.get?
    rw [hentries, ← json_path, List.find?_cons_of_pos]
    · rfl
    · simp [plainFile]
  have hname : NamesTest regexEndings "input" number (fileName (folder ++ "/" ++ input)) := by
    rw [(isPath_join hfolder hinput).2.1]
    exact hnames
  have hname' : NamesTest regexEndings "output" number (fileName (folder ++ "/" ++ output)) := by
    rw [(isPath_join hfolder houtput).2.1]
    exact hnames'
  have hfiles : addFiles plainRuntime (folder ++ "/problem.json") files.entries noTests =
      .ok ⟨.single number (plainEntry folder input), .single number (plainEntry folder output)⟩ := by
    rw [hentries]
    exact addFiles_pair (equals_json.mpr rfl) (Bool.eq_false_iff.mpr fun h => hinputJson (equals_json.mp h))
      (Bool.eq_false_iff.mpr fun h => houtputJson (equals_json.mp h)) hname hname'
  have htests : checkTests folder (folder ++ "/problem.json") { number := 1, name := "Sum" }
      ⟨.single number (plainEntry folder input), .single number (plainEntry folder output)⟩ = .ok () := by
    unfold checkTests
    simp [SortedDict.keys, SortedDict.single, hasInvalidScores]
  unfold readFolder
  simp only [hget, hfiles, bind_eq_ok]
  exact ⟨{ number := 1, name := "Sum" }, rfl, (), by rfl, _, rfl, (), htests, [⟨number, [], []⟩], rfl, by rfl⟩

/-- A folder with a manifest, an input and an output is accepted. -/
theorem readAsync_pair {folder input output : String} {number : Int} (hfolder : IsSegment folder)
    (hinput : IsSegment input) (houtput : IsSegment output) (hnames : NamesTest regexEndings "input" number input)
    (hnames' : NamesTest regexEndings "output" number output) :
    readAsync {} plainRuntime (.ok (["problem.json", input, output].map (plainEntry folder))) =
      .ok [⟨folder, { number := 1, name := "Sum" }, [⟨number, [], []⟩]⟩] := by
  have hjsonHead : ("problem.json".toList.map Char.toLower).head? = some 'p' := by decide
  have hinputHead := head_name hnames (by decide)
  have houtputHead := head_name hnames' (by decide)
  have hinputJson : plainRuntime.upper.fold input ≠ plainRuntime.upper.fold "problem.json" :=
    fold_ne hinputHead hjsonHead (by decide) (by decide) (by decide)
  have houtputJson : plainRuntime.upper.fold output ≠ plainRuntime.upper.fold "problem.json" :=
    fold_ne houtputHead hjsonHead (by decide) (by decide) (by decide)
  have hne : plainRuntime.upper.fold output ≠ plainRuntime.upper.fold input :=
    fold_ne houtputHead hinputHead (by decide) (by decide) (by decide)
  have hsegments : ∀ name ∈ ["problem.json", input, output], IsSegment name := by simp [segment_json, hinput, houtput]
  have hnodup : (["problem.json", input, output].map plainRuntime.upper.fold).Nodup := by
    simp [hinputJson.symm, houtputJson.symm, hne.symm]
  obtain ⟨files, hread, hentries⟩ : ∃ files : Files plainRuntime,
      readEntries {} plainRuntime (["problem.json", input, output].map (plainEntry folder)) .empty 0 = .ok files ∧
        files.entries = [plainFile folder "problem.json", plainFile folder input, plainFile folder output] :=
    readEntries_files hfolder hsegments hnodup fun e he => by cases he
  have hfolderName : ∀ file ∈ [plainFile folder "problem.json", plainFile folder input, plainFile folder output],
      folderName file.1 = folder := by
    simp only [List.mem_cons, List.not_mem_nil, or_false]
    rintro file (rfl | rfl | rfl)
    · exact (isPath_join hfolder segment_json).1
    · exact (isPath_join hfolder hinput).1
    · exact (isPath_join hfolder houtput).1
  have hfolders := folders_single hentries hfolderName
  rw [← hentries] at hfolders
  have hreadFolder := readFolder_pair hfolder hinput houtput hnames hnames' hentries hinputJson houtputJson
  have hall : readFolders plainRuntime files (folders plainRuntime files) [] =
      .ok [⟨folder, { number := 1, name := "Sum" }, [⟨number, [], []⟩]⟩] := by
    rw [hfolders]
    unfold readFolders
    simp only [bind_eq_ok]
    exact ⟨_, hreadFolder, [], rfl, rfl⟩
  unfold readAsync
  rw [bind_eq_ok]
  refine ⟨_, rfl, ?_⟩
  rw [if_neg (by simp)]
  simp only [bind_eq_ok]
  exact ⟨files, hread, _, hall, rfl⟩

/-- The file of the other word with the same digits. -/
theorem partner {word file : String} {number : Int} {endings : List String} {other : String}
    (hother : other ∈ testWords)
    (h : NamesTest endings word number file) : ∃ name, IsSegment name ∧ NamesTest regexEndings other number name := by
  obtain ⟨start, digits, ending, -, -, hne, hall, hvalue, hlow, hhigh, -⟩ := h
  have hchars : ∀ c : Char, c.isDigit = true → c ≠ '/' ∧ c ≠ '\\' ∧ c ≠ ':' := by
    rintro c hdigit
    refine ⟨?_, ?_, ?_⟩ <;> rintro rfl <;> exact absurd hdigit (by decide)
  have hword : (∀ c ∈ other.toList, c ≠ '/' ∧ c ≠ '\\' ∧ c ≠ ':') ∧ Spells other other.toList ∧
      ∃ c rest, other.toList = c :: rest ∧ isWhiteSpace c = false ∧ c ≠ '.' := by
    unfold testWords at hother
    simp only [List.mem_cons, List.not_mem_nil, or_false] at hother
    rcases hother with rfl | rfl
    · exact ⟨by simp, rfl, 'i', "nput".toList, by decide, by decide, by decide⟩
    · exact ⟨by simp, rfl, 'o', "utput".toList, by decide, by decide, by decide⟩
  obtain ⟨hplain, hspell, c, rest, hhead, hwhite, hdot⟩ := hword
  let name := String.ofList (other.toList ++ (digits ++ ".txt".toList))
  have hname : name.toList = other.toList ++ (digits ++ ".txt".toList) := String.toList_ofList
  have hfirst : name.toList = c :: (rest ++ (digits ++ ".txt".toList)) := by rw [hname, hhead, List.cons_append]
  have hall' : ∀ d ∈ name.toList, d ≠ '/' ∧ d ≠ '\\' ∧ d ≠ ':' := by
    intro d hd
    rw [hname] at hd
    rcases List.mem_append.mp hd with hd | hd
    · exact hplain d hd
    rcases List.mem_append.mp hd with hd | hd
    · exact hchars d (hall d hd)
    · have htxt : ∀ d ∈ ".txt".toList, d ≠ '/' ∧ d ≠ '\\' ∧ d ≠ ':' := by simp
      exact htxt d hd
  refine ⟨name, ⟨fun hmem => (hall' _ hmem).1 rfl, fun hmem => (hall' _ hmem).2.1 rfl,
    fun hmem => (hall' _ hmem).2.2 rfl,
    ?_, ?_, ?_⟩, other.toList, digits, ".txt".toList, hname, hspell, hne, hall, hvalue, hlow, hhigh, ".txt", by decide,
    rfl⟩
  · unfold isBlank
    rw [hfirst, List.all_cons, hwhite, Bool.false_and]
  · intro heq
    rw [heq] at hfirst
    exact hdot (List.cons.inj hfirst).1.symm
  · intro heq
    rw [heq] at hfirst
    exact hdot (List.cons.inj hfirst).1.symm

/-- Each name of a test file with a line feed is in an archive that is accepted. -/
theorem lineFed_accepted {path : String} (h : LineFed path) : ∃ archive problems,
    (∃ entry ∈ archive, entry.fullName = path) ∧ readAsync {} plainRuntime (.ok archive) = .ok problems := by
  obtain ⟨hpath, word, hword, number, hname⟩ := h
  have hregex : NamesTest regexEndings word number (fileName path) := by
    obtain ⟨start, digits, ending, hfile, hspell, hne, hall, hvalue, hlow, hhigh, e, he, hend⟩ := hname
    rw [List.mem_singleton.mp he] at hend
    exact ⟨start, digits, ending, hfile, hspell, hne, hall, hvalue, hlow, hhigh, _, by decide, hend⟩
  have hparts : (plainEntry (folderName path) (fileName path)).fullName = path := hpath.parts.symm
  unfold testWords at hword
  simp only [List.mem_cons, List.not_mem_nil, or_false] at hword
  rcases hword with rfl | rfl
  · obtain ⟨other, hsegment, hother⟩ := partner (show "output" ∈ testWords by decide) hname
    exact ⟨_, _, ⟨_, List.mem_map_of_mem (List.mem_cons_of_mem _ List.mem_cons_self), hparts⟩,
      readAsync_pair hpath.folder hpath.file hsegment hregex hother⟩
  · obtain ⟨other, hsegment, hother⟩ := partner (show "input" ∈ testWords by decide) hname
    exact ⟨_, _, ⟨_, List.mem_map_of_mem (List.mem_cons_of_mem _ (List.mem_cons_of_mem _ List.mem_cons_self)), hparts⟩,
      readAsync_pair hpath.folder hsegment hpath.file hother hregex⟩

/-! ## The names that are refused -/

/-- `ReadAsync` throws whenever a file has this name. -/
def Refused (path : String) : Prop :=
  ∀ (options : ContestImportOptions) (runtime : Runtime) (archive : List ZipEntry),
    (∃ entry ∈ archive, entry.fullName = path) →
    ∃ e, readAsync options runtime (.ok archive) = .error e ∧ Expected runtime archive e

theorem names_read {archive : List ZipEntry} {problems : List ImportedProblem}
    (h : readAsync options runtime (.ok archive) = .ok problems) {entry : ZipEntry} (hentry : entry ∈ archive)
    (hfile : isFile entry = true) : IsGrammatical entry.fullName ↔ ¬LineFed entry.fullName := by
  obtain ⟨files, hread⟩ := readAsync_parts options runtime h
  obtain ⟨hpath, hname⟩ := hread.file_names hentry hfile
  exact grammatical_iff hpath hname

theorem isFile_name {entry entry' : ZipEntry} (h : entry.fullName = entry'.fullName) :
    isFile entry = isFile entry' := by
  unfold isFile
  rw [h]

theorem refused_iff {entry : ZipEntry} (hfile : isFile entry = true) :
    (¬IsGrammatical entry.fullName → Refused entry.fullName) ↔ ¬LineFed entry.fullName := by
  constructor
  · intro h hfed
    obtain ⟨archive, problems, hmem, hread⟩ := lineFed_accepted hfed
    obtain ⟨e, herror, -⟩ := h (not_grammatical hfed) {} plainRuntime archive hmem
    rw [hread] at herror
    cases herror
  · rintro hfed hbad options runtime archive ⟨other, hother, hname⟩
    cases hresult : readAsync options runtime (.ok archive) with
    | error e => exact ⟨e, rfl, readAsync_error hresult⟩
    | ok problems =>
      have hiff := names_read hresult hother ((isFile_name hname).trans hfile)
      rw [hname] at hiff
      exact absurd (hiff.mpr hfed) hbad

/-- What the format says of an archive: accepted, it has root folders and the files of the
    grammar, and each other name of a file makes `ReadAsync` throw. -/
structure Follows (archive : List ZipEntry) : Prop where
  folders : ∀ options runtime problems, readAsync options runtime (.ok archive) = .ok problems →
    ∀ entry ∈ archive, isFile entry = false → IsRootFolder entry.fullName
  files : ∀ options runtime problems, readAsync options runtime (.ok archive) = .ok problems →
    ∀ entry ∈ archive, isFile entry = true → IsGrammatical entry.fullName
  others : ∀ entry ∈ archive, isFile entry = true → ¬IsGrammatical entry.fullName → Refused entry.fullName

/-- The format holds of an archive exactly if no file has the name of a test file and a line
    feed. Whatever the names, the folders of an accepted archive are root folders, its files are
    of the grammar but for such names, and every other name is refused. -/
theorem grammar_iff (archive : List ZipEntry) :
    (Follows archive ↔ ∀ entry ∈ archive, isFile entry = true → ¬LineFed entry.fullName) ∧
    (∀ options runtime problems, readAsync options runtime (.ok archive) = .ok problems →
      (∀ entry ∈ archive, isFile entry = false → IsRootFolder entry.fullName) ∧
      ∀ entry ∈ archive, isFile entry = true → (IsGrammatical entry.fullName ↔ ¬LineFed entry.fullName)) ∧
    ∀ entry ∈ archive, isFile entry = true → ¬IsGrammatical entry.fullName →
      (Refused entry.fullName ↔ ¬LineFed entry.fullName) := by
  have hfolders : ∀ options runtime problems, readAsync options runtime (.ok archive) = .ok problems →
      ∀ entry ∈ archive, isFile entry = false → IsRootFolder entry.fullName := by
    intro options runtime problems h entry hentry hdir
    obtain ⟨files, hread⟩ := readAsync_parts options runtime h
    have hname := hread.names entry hentry
    rwa [if_neg (by simp [hdir])] at hname
  refine ⟨⟨fun h entry hentry hfile => (refused_iff hfile).mp (h.others entry hentry hfile), fun h => ?_⟩,
    fun options runtime problems h => ⟨hfolders options runtime problems h,
      fun entry hentry hfile => names_read h hentry hfile⟩,
    fun entry hentry hfile hbad => ?_⟩
  · exact ⟨hfolders,
      fun options runtime problems hread entry hentry hfile => (names_read hread hentry hfile).mpr
        (h entry hentry hfile),
      fun entry hentry hfile => (refused_iff hfile).mpr (h entry hentry hfile)⟩
  · exact ⟨fun hrefused => (refused_iff hfile).mp fun _ => hrefused, fun hfed => (refused_iff hfile).mpr hfed hbad⟩

/-- An archive whose output file has a line feed after `.txt`. -/
def lineFeedArchive : List ZipEntry :=
  [⟨"A/problem.json", 0, .ok []⟩, ⟨"A/input1.txt", 0, .ok []⟩, ⟨"A/output1.txt\n", 0, .ok []⟩]

theorem a_line_feed_is_accepted :
    (∃ problems, readAsync {} plainRuntime (.ok lineFeedArchive) = .ok problems) ∧
      ∃ entry ∈ lineFeedArchive, isFile entry = true ∧ ¬IsGrammatical entry.fullName := by
  have hresult : readAsync {} plainRuntime (.ok lineFeedArchive) =
      .ok [⟨"A", { number := 1, name := "Sum" }, [⟨1, [], []⟩]⟩] := by decide
  refine ⟨⟨_, hresult⟩, ⟨"A/output1.txt\n", 0, .ok []⟩, by simp [lineFeedArchive], by decide, not_grammatical ?_⟩
  obtain ⟨files, hread⟩ := readAsync_parts {} plainRuntime hresult
  have hmem : ⟨"A/output1.txt\n", 0, .ok []⟩ ∈ lineFeedArchive := by simp [lineFeedArchive]
  have hfolder := (hread.file_names hmem (by decide)).1
  exact ⟨hfolder, "output", by decide, 1, "output".toList, ['1'], ".txt\n".toList, by decide, rfl, by decide, by simp,
    by decide, by decide, by decide, ".txt\n", by decide, rfl⟩

end OlympSystem.Site.ArchiveNames
