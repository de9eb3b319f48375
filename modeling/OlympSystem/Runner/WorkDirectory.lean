/-
  OlympSystem.Runner.WorkDirectory — the machine of a runner: what `RunnerClientService.Run`
  does on it around the process it starts.

  The files directly in the work directory are modelled; `Rest` stands for everything else
  there is on the machine, subdirectories of the work directory included: `ClearWorkDir` does
  not touch them. A `Host` is what the operating system does: where a file name leads, which
  accesses it refuses, and what a process leaves behind.

  A name is deleted, created or read after the attempts the code makes: `ClearWorkDir` tries
  an access that is denied again and again. Nothing but `Run` and the process it started
  writes to the work directory.

  Proved:
  - `runOn_withoutFiles`: a command that clears the work directory, and whose preparation gets
    past that, does the same where there is no file directly in it.
  - `lookup_environment`: a variable has the value of the last line that sets it.
-/

import OlympSystem.Lib.Dictionaries
import OlympSystem.Lib.Paths
import OlympSystem.Lib.Text
import OlympSystem.Runner.RunnerClientService

namespace OlympSystem.Runner.WorkDirectory

open Lib.Dictionaries Lib.Text Lib.Paths OlympSystem.Checker OlympSystem.Site

abbrev Files := Dict String Bytes (id : String → String)

structure Machine (Rest : Type) where
  /-- The files directly in the work directory, by their names as far as the file system tells
      them apart. -/
  files : Files
  /-- With the subdirectories of the work directory, and what lies in them. -/
  rest : Rest

/-- How environment variables are told apart. -/
structure Naming where
  isWindows : Bool
  upper : UpperCase

def Naming.normal (naming : Naming) (name : String) : List Char :=
  if naming.isWindows then naming.upper.fold name else name.toList

abbrev Environment (naming : Naming) := Dict String String naming.normal

structure Launch (naming : Naming) where
  command : String
  /-- As the read-only user. -/
  readOnly : Bool
  envs : Environment naming
  stdin : Bytes
  userTimeLimit : TimeSpan
  resourceLimits : CommandResources

structure Host (Rest : Type) where
  naming : Naming
  isSeparator : Char → Bool
  /-- The file of the work directory that a name combined with it leads to. -/
  inWorkDirectory : String → Option String
  delete : Machine Rest → String → Except Exn Unit
  /-- Where it fails there may be a file, with a part of the content. -/
  create : Machine Rest → String → Bytes → Except (Exn × Option Bytes) Unit
  createElsewhere : Machine Rest → String → Bytes → Except Exn Unit × Rest
  /-- The lines of a file of the directory of environments. -/
  readLines : Machine Rest → String → Except Exn (List String)
  execute : Launch naming → Machine Rest → Except Exn ProcessOutcome × Machine Rest

section Run

variable {Rest : Type} (host : Host Rest)

def clearWorkDir : List String → Machine Rest → Except Exn Unit × Machine Rest
  | [], m => (.ok (), m)
  | file :: files, m =>
    match host.delete m file with
    | .error e => (.error e, m)
    | .ok () => clearWorkDir files { m with files := m.files.remove file }

def createFile (file : CommandFile) (m : Machine Rest) : Except Exn Unit × Machine Rest :=
  match host.inWorkDirectory file.filename with
  | some name =>
    match host.create m name file.content with
    | .error (e, none) => (.error e, m)
    | .error (e, some part) => (.error e, { m with files := m.files.set name part })
    | .ok () => (.ok (), { m with files := m.files.set name file.content })
  | none =>
    let (result, rest) := host.createElsewhere m file.filename file.content
    (result, { m with rest := rest })

def createFiles : List CommandFile → Machine Rest → Except Exn Unit × Machine Rest
  | [], m => (.ok (), m)
  | file :: files, m =>
    match createFile host file m with
    | (.error e, m) => (.error e, m)
    | (.ok (), m) => createFiles files m

/-- `line.Split('=', 2) is [name, value]`, with a name that is not blank. -/
def readLine (line : String) : Option (String × String) :=
  match line.toList.dropWhile (· != '=') with
  | '=' :: value =>
    let name := String.ofList (line.toList.takeWhile (· != '='))
    if isBlank name then none else some (trim name, trim (String.ofList value))
  | _ => none

/-- The lines of the files that set a variable, in their order. -/
def readEnvFiles (m : Machine Rest) : List String → Except Exn (List (String × String))
  | [] => .ok []
  | envFile :: envFiles => do
    let lines ← host.readLines m (changeExtension host.isSeparator envFile ".env")
    let rest ← readEnvFiles m envFiles
    return lines.filterMap readLine ++ rest

def assign {naming : Naming} (envs : Environment naming) (x : String × String) : Environment naming := envs.set x.1 x.2

def createEnvironmentVariables (m : Machine Rest) (envFiles : List String) : Except Exn (Environment host.naming) := do
  let assignments ← readEnvFiles host m ("base" :: envFiles)
  return assignments.foldl assign Dict.empty

/-- From the files on. -/
def runPrepared [Durations] (request : CommandRequest) (m : Machine Rest) : Except Exn CommandResponse × Machine Rest :=
  match createFiles host request.files m with
  | (.error e, m) => (.error e, m)
  | (.ok (), m) =>
    match createEnvironmentVariables host m request.envFiles with
    | .error e => (.error e, m)
    | .ok envs =>
      match request.resourceLimits with
      | none => (.error .nullReference, m)
      | some limits =>
        match readDuration limits.userTime with
        | .error e => (.error e, m)
        | .ok userTimeLimit =>
          match host.execute ⟨request.command, request.readOnly, envs, request.stdin, userTimeLimit, limits⟩ m with
          | (.error e, m) => (.error e, m)
          | (.ok process, m) => (RunnerClientService.run request process, m)

def runOn [Durations] (request : CommandRequest) (m : Machine Rest) : Except Exn CommandResponse × Machine Rest :=
  if request.clearWorkdir then
    match clearWorkDir host (m.files.entries.map Prod.fst) m with
    | (.error e, m) => (.error e, m)
    | (.ok (), m) => runPrepared host request m
  else runPrepared host request m

end Run

/-! ## A work directory without files -/

section Cleared

variable {Rest : Type} {host : Host Rest}

/-- No file is directly in the work directory; its subdirectories, and the machine around it, are
    as they were. -/
def Machine.withoutFiles (m : Machine Rest) : Machine Rest := ⟨Dict.empty, m.rest⟩

theorem remove_keys (files : Files) (file : String) :
    (files.remove file).entries.map Prod.fst = (files.entries.map Prod.fst).filter (· != file) := by
  rw [List.filter_map]
  rfl

theorem clearWorkDir_ok : ∀ {files : List String} {m m' : Machine Rest}, clearWorkDir host files m = (.ok (), m') →
    m'.rest = m.rest ∧ ∀ file ∈ m'.files.entries.map Prod.fst, file ∈ m.files.entries.map Prod.fst ∧ file ∉ files := by
  intro files
  induction files with
  | nil =>
    intro m m' h
    obtain rfl : m = m' := congrArg Prod.snd h
    exact ⟨rfl, fun file hfile => ⟨hfile, List.not_mem_nil⟩⟩
  | cons file files ih =>
    intro m m' h
    unfold clearWorkDir at h
    split at h
    · cases congrArg Prod.fst h
    · obtain ⟨hrest, hfiles⟩ := ih h
      refine ⟨hrest, fun name hname => ?_⟩
      obtain ⟨hmem, hnot⟩ := hfiles name hname
      have hmem : name ∈ (m.files.remove file).entries.map Prod.fst := hmem
      rw [remove_keys] at hmem
      obtain ⟨hmem, hne⟩ := List.mem_filter.mp hmem
      refine ⟨hmem, fun hin => ?_⟩
      rcases List.mem_cons.mp hin with rfl | hin
      · simp at hne
      · exact hnot hin

/-- There is no file in a directory that was cleared. -/
theorem clearWorkDir_empty {m m' : Machine Rest}
    (h : clearWorkDir host (m.files.entries.map Prod.fst) m = (.ok (), m')) :
    m' = m.withoutFiles := by
  obtain ⟨hrest, hfiles⟩ := clearWorkDir_ok h
  obtain ⟨files, rest⟩ := m'
  obtain rfl : rest = m.rest := hrest
  have hnil : files.entries = [] := by
    cases hentries : files.entries with
    | nil => rfl
    | cons e entries =>
      have hmem : e.1 ∈ files.entries.map Prod.fst := by
        rw [hentries]; exact List.mem_map_of_mem List.mem_cons_self
      obtain ⟨hin, hnot⟩ := hfiles e.1 hmem
      exact absurd hin hnot
  obtain ⟨entries, keys⟩ := files
  obtain rfl : entries = [] := hnil
  rfl

theorem runOn_withoutFiles [Durations] {request : CommandRequest} (hclear : request.clearWorkdir = true)
    {m : Machine Rest} {response : CommandResponse} (h : (runOn host request m).1 = .ok response) :
    runOn host request m.withoutFiles = runOn host request m := by
  unfold runOn at h ⊢
  rw [if_pos hclear] at h ⊢
  rw [if_pos hclear]
  cases hcleared : clearWorkDir host (m.files.entries.map Prod.fst) m with
  | mk result m' =>
    cases result with
    | error e => rw [hcleared] at h; cases h
    | ok u =>
      have hempty := clearWorkDir_empty hcleared
      rw [hempty]
      rfl

end Cleared

/-! ## Environment variables -/

theorem get?_assignments {naming : Naming} (assignments : List (String × String)) :
    ∀ (envs : Environment naming) (name : String),
    (assignments.foldl assign envs).get? name =
      ((assignments.reverse.find? fun x => naming.normal x.1 == naming.normal name).map Prod.snd).or
      (envs.get? name) := by
  induction assignments with
  | nil => intro envs name; rfl
  | cons x assignments ih =>
    intro envs name
    rw [List.foldl_cons, ih, List.reverse_cons, List.find?_append]
    have hset : (assign envs x).get? name =
        if naming.normal name = naming.normal x.1 then some x.2 else envs.get? name :=
      Dict.get?_set envs x.1 name x.2
    rw [hset]
    cases hfound : assignments.reverse.find? fun x => naming.normal x.1 == naming.normal name with
    | some y => rfl
    | none =>
      by_cases heq : naming.normal name = naming.normal x.1
      · simp [heq]
      · simp [heq, Ne.symm heq]

variable {Rest : Type} {host : Host Rest}

/-- A variable has the value of the last line that sets it, over the base file and the files
    of the request in their order. -/
theorem lookup_environment {m : Machine Rest} {envFiles : List String} {envs : Environment host.naming}
    (h : createEnvironmentVariables host m envFiles = .ok envs) :
    ∃ assignments, readEnvFiles host m ("base" :: envFiles) = .ok assignments ∧ ∀ name, envs.get? name =
      (assignments.reverse.find? fun x => host.naming.normal x.1 == host.naming.normal name).map Prod.snd := by
  unfold createEnvironmentVariables at h
  cases hread : readEnvFiles host m ("base" :: envFiles) with
  | error e => rw [hread] at h; cases h
  | ok assignments =>
    rw [hread] at h
    obtain rfl := Except.ok.inj h
    refine ⟨assignments, rfl, fun name => ?_⟩
    rw [get?_assignments, show (Dict.empty : Environment host.naming).get? name = none from rfl, Option.or_none]

end OlympSystem.Runner.WorkDirectory
