/-
  OlympSystem.Site.Environments — the environments of a runner, from the files of its
  directory to the commands that name them.

  A runner announces the `*.env` files it has, all but `base`, in one header
  (`RunnerClientService.ExecuteAsync`). The site splits the header (`RunnerService.Connect`),
  offers the configurations whose environment is among the names, and names it in each
  command (`CheckerService`); the runner puts the extension back and reads the file
  (`CreateEnvironmentVariables`). The header comes as it was sent.

  Proved:
  - `leads_iff`: an announced name leads back to its file exactly if it is not empty and has
    no dot; without it the extension that is put back replaces a part of the name.
  - `supported_of_header`: what the site reads are the names that were announced; of a runner
    that announces none it reads one empty name.
  - `asks_supported`: every request of every call names an environment the runner announced.
  - `environments_found`: so the configurations offered are those whose file the runner has,
    and in every interleaving every command that comes to it finds its files.
-/

import OlympSystem.Site.Registry
import OlympSystem.Site.RemoteJudging

namespace OlympSystem.Site.Environments

open Lib.Runs Lib.Program Lib.Text Lib.Paths Lib.Serial Lib.Servers OlympSystem.Checker Exclusive CheckerService
  Runner.WorkDirectory Registry RunnerService

/-! ## What a runner announces -/

structure EnvFiles {Rest : Type} (host : Host Rest) where
  /-- Up to and with the last separator. -/
  path : String
  names : List String
  path_ends : fileName host.isSeparator path.toList = []
  names_whole : ∀ name ∈ names, ∀ c ∈ name.toList, host.isSeparator c = false

section Announce

variable {Rest : Type} {host : Host Rest} (files : EnvFiles host)

def EnvFiles.matching : List String :=
  files.names.filter fun name => (host.naming.normal ".env").isSuffixOf (host.naming.normal name)

def EnvFiles.stem (name : String) : String := getFileNameWithoutExtension host.isSeparator (files.path ++ name)

def EnvFiles.supportedEnvs : List String :=
  (files.matching.map files.stem).filter fun x => !host.naming.upper.equals x "base"

def EnvFiles.metadata (id : String) : List Header :=
  [⟨"runner-id", id⟩, ⟨"runner-name", "Olymp runner v2.1 beta"⟩,
    ⟨"runner-envs", String.intercalate ";" files.supportedEnvs⟩]

/-- The file that is read for a name. -/
def Leads (host : Host Rest) (env name : String) : Prop :=
  host.naming.normal (changeExtension host.isSeparator env ".env") = host.naming.normal name

instance (env name : String) : Decidable (Leads host env name) :=
  inferInstanceAs (Decidable (host.naming.normal _ = host.naming.normal name))

/-- The names come through the header whole, and back to their files. -/
def EnvFiles.Plain : Prop := ∀ env ∈ files.supportedEnvs, env ≠ "" ∧ '.' ∉ env.toList ∧ ';' ∉ env.toList

end Announce

/-! ## From a name back to its file -/

section Leads

def normalChar (naming : Naming) (c : Char) : Char := if naming.isWindows then naming.upper.upper c else c

theorem normal_eq (naming : Naming) (text : String) : naming.normal text = text.toList.map (normalChar naming) := by
  unfold Naming.normal normalChar
  split
  · rfl
  · exact (List.map_id _).symm

theorem normalChar_dot (naming : Naming) {c : Char} : normalChar naming c = '.' ↔ c = '.' := by
  unfold normalChar
  split
  · exact naming.upper.upper_dot
  · exact Iff.rfl

theorem normal_append (naming : Naming) (a b : String) :
    naming.normal (a ++ b) = naming.normal a ++ naming.normal b := by
  rw [normal_eq, normal_eq, normal_eq, String.toList_append, List.map_append]

variable {Rest : Type} {host : Host Rest} {files : EnvFiles host}

/-- A name that matches is its stem and an extension that cannot be told from `.env`. -/
theorem stem_of_matching {name : String} (h : name ∈ files.matching) :
    host.naming.normal name = host.naming.normal (files.stem name) ++ host.naming.normal ".env" ∧
      ∀ c ∈ (files.stem name).toList, host.isSeparator c = false := by
  obtain ⟨hname, hsuffix⟩ := List.mem_filter.mp h
  obtain ⟨t, ht⟩ := List.isSuffixOf_iff_suffix.mp hsuffix
  rw [normal_eq _ name, normal_eq _ ".env"] at ht
  obtain ⟨stem, rest, hsplit, hstem, hrest⟩ := List.map_eq_append_iff.mp ht.symm
  have hwhole := files.names_whole name hname
  rw [hsplit] at hwhole
  cases rest with
  | nil => cases hrest
  | cons c extension =>
    obtain ⟨hc, hextension⟩ := List.cons.inj hrest
    have hc : c = '.' := (normalChar_dot _).mp (hc.trans ((normalChar_dot _).mpr rfl))
    subst hc
    have hisExtension : IsExtension host.isSeparator extension := by
      refine ⟨fun hmem => ?_, fun d hd => hwhole d (List.mem_append_right _ (List.mem_cons_of_mem _ hd))⟩
      have hin : normalChar host.naming '.' ∈ extension.map (normalChar host.naming) := List.mem_map_of_mem hmem
      rw [hextension] at hin
      obtain ⟨d, hd, heq⟩ := List.mem_map.mp hin
      have hd' : d = '.' := (normalChar_dot _).mp (heq.trans ((normalChar_dot _).mpr rfl))
      subst hd'
      exact absurd hd (by decide)
    have hfound : files.stem name = String.ofList stem := by
      unfold EnvFiles.stem getFileNameWithoutExtension
      rw [String.toList_append,
        fileName_append (by rw [hsplit]; exact hwhole), files.path_ends, List.nil_append, hsplit,
        dropExtension_extension hisExtension]
    rw [hfound, String.toList_ofList]
    refine ⟨?_, fun d hd => hwhole d (List.mem_append_left _ hd)⟩
    rw [normal_eq, normal_eq, normal_eq, String.toList_ofList, hsplit, List.map_append, hrest]

/-- An announced name leads back to its file exactly if nothing in it is taken for an extension. -/
theorem leads_iff {name : String} (h : name ∈ files.matching) :
    Leads host (files.stem name) name ↔ files.stem name ≠ "" ∧ '.' ∉ (files.stem name).toList := by
  obtain ⟨hnormal, hwhole⟩ := stem_of_matching h
  unfold Leads
  rw [hnormal]
  generalize files.stem name = stem at hwhole
  have hlength : (host.naming.normal ".env").length = 4 := by rw [normal_eq, List.length_map]; rfl
  by_cases hempty : stem.toList = []
  · have hstem : stem = "" := String.toList_injective hempty
    refine iff_of_false (fun heq => ?_) (fun hne => hne.1 hstem)
    have := congrArg List.length heq
    rw [hstem, List.length_append, hlength] at this
    simp [changeExtension, normal_eq] at this
  · have hchange : changeExtension host.isSeparator stem ".env" =
        String.ofList (dropExtension host.isSeparator stem.toList) ++ ".env" := if_neg hempty
    have hne : stem ≠ "" := fun heq => hempty (by rw [heq]; rfl)
    rw [hchange, normal_append, List.append_left_inj]
    by_cases hdot : '.' ∈ stem.toList
    · refine iff_of_false (fun heq => ?_) (fun hplain => hplain.2 hdot)
      have hlt := dropExtension_shorter hdot hwhole
      have := congrArg List.length heq
      rw [normal_eq, normal_eq, List.length_map, List.length_map, String.toList_ofList] at this
      omega
    · rw [dropExtension_plain hdot, String.ofList_toList]
      exact iff_of_true rfl ⟨hne, hdot⟩

theorem mem_supportedEnvs {env : String} : env ∈ files.supportedEnvs ↔
    (∃ name ∈ files.matching, files.stem name = env) ∧ host.naming.upper.equals env "base" = false := by
  unfold EnvFiles.supportedEnvs
  rw [List.mem_filter, List.mem_map, Bool.not_eq_true']

end Leads

/-! ## What the site reads -/

section Header

variable {Rest : Type} {host : Host Rest} {files : EnvFiles host} {Guid : Type} {parse : String → Option Guid}

/-- The keys that are the runner's own. -/
def runnerKeys : List String := ["runner-id", "runner-name", "runner-envs"]

theorem single_own {others own : List Header} {key : String} {header : Header} (hkey : key ∈ runnerKeys)
    (hothers : ∀ other ∈ others, other.key ∉ runnerKeys) (hown : own.filter (·.key == key) = [header]) :
    single (·.key == key) (others ++ own) = .ok header := by
  have hnone : others.filter (·.key == key) = [] := by
    refine List.filter_eq_nil_iff.mpr fun other hother heq => hothers other hother ?_
    rw [eq_of_beq heq]
    exact hkey
  unfold single
  rw [List.filter_append, hnone, List.nil_append, hown]

/-- The names that were announced; none at all is read as one empty name. -/
theorem supported_of_header (hplain : files.Plain) {id : String} {guid : Guid} (hid : parse id = some guid)
    {others : List Header} (hothers : ∀ other ∈ others, other.key ∉ runnerKeys) (c : Conn Guid) :
    readHeaders parse (others ++ files.metadata id) c =
      ({ c with id := guid, name := some "Olymp runner v2.1 beta",
                supportedEnvs := if files.supportedEnvs = [] then [""] else files.supportedEnvs.eraseDups },
                  .ok ()) := by
  unfold readHeaders
  rw [single_own (by decide) hothers rfl]
  simp only [hid]
  rw [single_own (by decide) hothers rfl]
  simp only
  rw [single_own (by decide) hothers rfl]
  by_cases hnone : files.supportedEnvs = []
  · simp only [hnone, if_true]
    rfl
  · have hsplit : splitEnvs (String.intercalate ";" files.supportedEnvs) = files.supportedEnvs := by
      show split ';' (String.intercalate (String.singleton ';') files.supportedEnvs) = files.supportedEnvs
      exact split_join hnone fun env henv => (hplain env henv).2.2
    simp only [hsplit, if_neg hnone]

end Header

/-! ## What the site asks for -/

section Asks

variable {svc : CheckerService} {platform : Platform}

abbrev Supported (svc : CheckerService) (task : RunnerTask) :
    Prop := ∀ env ∈ task.envFiles, env ∈ svc.runner.supportedEnvs

theorem supported_task {configuration : CompilatorConfiguration} {task : RunnerTask}
    (htask : task.envFiles = [configuration.configName]) (h : svc.supports configuration = true) :
    Supported svc task := by
  intro env henv
  rw [htask] at henv
  rw [List.mem_singleton.mp henv]
  exact List.contains_iff_mem.mp h

theorem asks_requestFor {configuration : CompilatorConfiguration} {task : RunnerTask}
    (htask : task.envFiles = [configuration.configName]) :
    Asks (Supported svc) (svc.requestFor configuration task) := by
  unfold requestFor
  split
  · next h => exact ⟨supported_task htask h, fun _ => trivial⟩
  · trivial

theorem asks_checkTest (name : String) (configuration : CompilatorConfiguration) (checker : SimpleChecker)
    (input output : Bytes) (timeLimit : TimeSpan) (memoryLimitMb : Int) :
    Asks (Supported svc) (svc.checkTest name configuration checker input output timeLimit memoryLimitMb) := by
  unfold checkTest
  refine asks_bind (asks_requestFor rfl) fun result => ?_
  exact asks_bind trivial fun _ => trivial

theorem asks_testAttempts (request : CheckRequest) (checker : SimpleChecker) (test : CheckTest) :
    ∀ (retries : Nat) (acc : Progress),
      Asks (Supported svc) (svc.testAttempts platform request checker test retries acc) := by
  intro retries
  induction retries with
  | zero =>
    intro acc
    unfold testAttempts
    exact asks_bind (asks_checkTest _ _ _ _ _ _ _) fun _ => trivial
  | succ retries ih =>
    intro acc
    unfold testAttempts
    refine asks_bind (asks_checkTest _ _ _ _ _ _ _) fun x => ?_
    simp only
    split
    · exact ih _
    · trivial

theorem asks_testLoop (request : CheckRequest) (checker : SimpleChecker) : ∀ (tests : List CheckTest) (acc : Progress),
    Asks (Supported svc) (svc.testLoop platform request checker tests acc) := by
  intro tests
  induction tests with
  | nil => intro acc; trivial
  | cons test tests ih =>
    intro acc
    unfold testLoop
    refine asks_bind (asks_testAttempts _ _ _ _ _) fun x => ?_
    simp only
    split
    · exact ih _
    · refine asks_bind trivial fun acc => ?_
      split
      · exact ih _
      · trivial

theorem asks_checkBody (request : CheckRequest) (elapsed : TimeSpan) :
    Asks (Supported svc) (svc.checkBody platform request elapsed) := by
  unfold checkBody
  simp only
  split
  · trivial
  · refine asks_bind (asks_requestFor rfl) fun result => ?_
    split
    · exact asks_bind trivial fun _ => trivial
    · split
      · trivial
      · exact asks_bind (asks_testLoop _ _ _ _) fun _ => trivial

theorem asks_runBody (source : String) (configuration : CompilatorConfiguration) (input : String)
    (timeLimit : TimeSpan) (memoryLimitMb : Int) (guid : String) :
    Asks (Supported svc) (svc.runBody source configuration input timeLimit memoryLimitMb guid) := by
  unfold runBody
  refine asks_bind (asks_requestFor rfl) fun result => ?_
  simp only
  split
  · trivial
  · exact asks_bind (asks_requestFor rfl) fun _ => trivial

theorem asks_caught {α : Type} {p : Checker.Task α} (h : Asks (Supported svc) p) : Asks (Supported svc) (caught p) := by
  refine asks_andThen (fun r => ?_) h
  split <;> trivial

/-- The versions are asked of the configurations that are offered. -/
theorem asks_versionLoop : ∀ (configurations : List CompilatorConfiguration) (results : VersionCache)
    (compilators : List CompilatorInfo), (∀ configuration ∈ configurations, svc.supports configuration = true) →
      Asks (Supported svc) (versionLoop platform configurations results compilators) := by
  intro configurations
  induction configurations with
  | nil => intro results compilators _; trivial
  | cons configuration rest ih =>
    intro results compilators h
    have hfetch : Asks (Supported svc) (fetchVersion configuration results) := by
      unfold fetchVersion
      simp only
      split
      · trivial
      · exact ⟨supported_task rfl (h configuration List.mem_cons_self), fun r => by cases r <;> trivial⟩
    unfold versionLoop
    refine asks_bind (fun b => by cases b <;> trivial) fun _ => asks_bind (asks_caught hfetch) fun answer => ?_
    simp only
    refine asks_bind (fun _ => trivial) fun _ => ih _ _ fun c hc => h c (List.mem_cons_of_mem _ hc)

theorem asks_loadCompilators : Asks (Supported svc) (svc.loadCompilators platform) := by
  unfold loadCompilators
  refine asks_bind (fun _ => trivial) fun fields => ?_
  split
  · trivial
  · refine asks_locked ?_
    unfold loadBody
    refine asks_bind (fun _ => trivial) fun fields => ?_
    split
    · trivial
    · refine asks_bind (asks_versionLoop _ _ _ fun c hc => (List.mem_filter.mp hc).2) fun compilators => ?_
      exact asks_bind (fun _ => trivial) fun _ => fun _ => trivial

theorem asks_selfTest (test : SelfTest) (configuration : CompilatorConfiguration) (resultIndex : Nat) :
    Asks (Supported svc) (svc.selfTest platform test configuration resultIndex) := by
  unfold selfTest
  refine asks_bind (fun b => by cases b <;> trivial) fun _ => asks_bind (fun _ => trivial) fun _ =>
    asks_bind (fun _ => trivial) fun fields => ?_
  split
  · trivial
  · refine asks_finallyRelease ?_
    have htest : Asks (Supported svc) (svc.runCheckerTest test configuration) := by
      unfold runCheckerTest
      refine asks_bind (asks_requestFor rfl) fun result => ?_
      simp only
      split
      · trivial
      · exact asks_bind (asks_checkTest _ _ _ _ _ _ _) fun _ => trivial
    refine asks_bind (asks_caught htest) fun answer => ?_
    split <;> exact fun _ => trivial

theorem asks_selfTestsOf (compilator : CompilatorInfo) : ∀ (tests : List SelfTest) (index : Nat),
    Asks (Supported svc) (svc.selfTestsOf platform compilator tests index) := by
  intro tests
  induction tests with
  | nil => intro index; trivial
  | cons test tests ih =>
    intro index
    unfold selfTestsOf
    split
    · exact asks_bind (asks_selfTest _ _ _) fun _ => ih _
    · exact ih _

theorem asks_selfTestLoop : ∀ (compilators : List CompilatorInfo) (index : Nat),
    Asks (Supported svc) (svc.selfTestLoop platform compilators index) := by
  intro compilators
  induction compilators with
  | nil => intro index; trivial
  | cons compilator rest ih =>
    intro index
    unfold selfTestLoop
    simp only
    split
    · exact ih _
    · exact asks_bind (asks_selfTestsOf _ _ _) fun _ => ih _

theorem asks_runSelfTests : Asks (Supported svc) (svc.runSelfTests platform) := by
  unfold runSelfTests
  refine asks_bind asks_loadCompilators fun _ => asks_bind (fun _ => trivial) fun fields => ?_
  split
  · trivial
  · refine asks_bind (fun _ => trivial) fun _ => asks_bind (fun _ => trivial) fun _ =>
      asks_bind (asks_selfTestLoop _ _) fun _ => asks_bind (fun _ => trivial) fun fields => ?_
    exact asks_bind (fun _ => trivial) fun _ => trivial

theorem asks_supported (svc : CheckerService) (platform : Platform) (call : Call) :
    Asks (Supported svc) (program svc platform call) := by
  cases call with
  | loadCompilators => exact asks_bind asks_loadCompilators fun _ => trivial
  | check request elapsed => exact asks_bind (asks_locked (asks_checkBody request elapsed)) fun _ => trivial
  | run source configuration input timeLimit memoryLimitMb guid =>
    exact asks_bind (asks_locked (asks_runBody source configuration input timeLimit memoryLimitMb guid)) fun _ =>
      trivial
  | runSelfTests => exact asks_bind asks_runSelfTests fun _ => trivial

end Asks

/-! ## The law -/

section Law

variable {Rest : Type} {host : Host Rest} {files : EnvFiles host} {Guid : Type} [Inhabited Guid]

def connected (svc : CheckerService) (id : String) (conn : Conn Guid) : CheckerService :=
  { svc with runner := ⟨id, conn.name.getD "", conn.supportedEnvs⟩ }

/-- What leads to a file of the directory can be read. -/
def Readable (host : Host Rest) (files : EnvFiles host) (m : Machine Rest) : Prop :=
  ∀ env, ∀ name ∈ files.names, Leads host env name →
    ∃ lines, host.readLines m (changeExtension host.isSeparator env ".env") = .ok lines

theorem readEnvFiles_ok {m : Machine Rest} (hreadable : Readable host files m) : ∀ {envFiles : List String},
    (∀ env ∈ envFiles, ∃ name ∈ files.names, Leads host env name) → ∃ assignments, readEnvFiles host m envFiles =
      .ok assignments := by
  intro envFiles
  induction envFiles with
  | nil => intro _; exact ⟨[], rfl⟩
  | cons env envFiles ih =>
    intro h
    obtain ⟨name, hname, hleads⟩ := h env List.mem_cons_self
    obtain ⟨lines, hlines⟩ := hreadable env name hname hleads
    obtain ⟨rest, hrest⟩ := ih fun e he => h e (List.mem_cons_of_mem _ he)
    refine ⟨lines.filterMap readLine ++ rest, ?_⟩
    unfold readEnvFiles
    rw [hlines, hrest]
    rfl

/-- The commands that come to the runner name files it has, and get their variables. -/
def Served (host : Host Rest) (files : EnvFiles host) (s : RemoteJudging.System Rest) : Prop :=
  ∀ cmd ∈ cmds s.remote, (∀ env ∈ cmd.request.envFiles, ∃ name ∈ files.names, Leads host env name) ∧
    ∀ m, Readable host files m → ∃ envs, createEnvironmentVariables host m cmd.request.envFiles = .ok envs

theorem leads_supported (hplain : files.Plain) {env : String} (h : env ∈ files.supportedEnvs) :
    ∃ name ∈ files.names, Leads host env name := by
  obtain ⟨⟨name, hname, rfl⟩, -⟩ := mem_supportedEnvs.mp h
  obtain ⟨hempty, hdot, -⟩ := hplain _ h
  exact ⟨name, (List.mem_filter.mp hname).1, (leads_iff hname).mpr ⟨hempty, hdot⟩⟩

/-- Every command comes from a request of a call. -/
theorem served_of_asked [Durations] {svc : CheckerService} {platform : Platform} {s : RemoteJudging.System Rest}
    (h : RemoteJudging.Inv host svc platform s) (hasked : AllAsk (Supported svc) s.calls)
    (hbase : ∃ name ∈ files.names, Leads host "base" name)
    (hfound : ∀ env ∈ svc.runner.supportedEnvs, ∃ name ∈ files.names, Leads host env name) : Served host files s := by
  intro cmd hcmd
  obtain ⟨task, htask, hrequest⟩ := h.connection.own cmd hcmd
  have hmem : task ∈ s.calls.shared.log.map Entry.request := h.tasks ▸ List.mem_of_getElem? htask
  obtain ⟨e, he, rfl⟩ := List.mem_map.mp hmem
  have hnamed : ∀ env ∈ cmd.request.envFiles, ∃ name ∈ files.names, Leads host env name := by
    intro env henv
    rw [hrequest] at henv
    exact hfound env (hasked.asked e he env henv)
  refine ⟨hnamed, fun m hreadable => ?_⟩
  have hall : ∀ env ∈ "base" :: cmd.request.envFiles, ∃ name ∈ files.names, Leads host env name := by
    intro env henv
    rcases List.mem_cons.mp henv with rfl | henv
    · exact hbase
    · exact hnamed env henv
  obtain ⟨assignments, hread⟩ := readEnvFiles_ok hreadable hall
  unfold createEnvironmentVariables
  rw [hread]
  exact ⟨_, rfl⟩

/-- For a runner whose names are plain and that announces at least one: the configurations
    offered are those whose file it has, and no command misses a file. -/
theorem environments_found [Durations] (host : Host Rest) (files : EnvFiles host) (hplain : files.Plain)
    (hsome : files.supportedEnvs ≠ []) (hbase : ∃ name ∈ files.names, Leads host "base" name)
    {parse : String → Option Guid} {id : String} {guid : Guid} (hid : parse id = some guid)
    {others : List Header} (hothers : ∀ other ∈ others, other.key ∉ runnerKeys)
    (svc : CheckerService) (platform : Platform) (m : Machine Rest) (es : List RemoteJudging.Ev) :
    ∃ conn, readHeaders parse (others ++ files.metadata id) fresh = (conn, .ok ()) ∧
      (∀ configuration, configuration ∈ (connected svc id conn).configurations ↔
        configuration ∈ svc.compilatorConfigurations ∧
          (∃ name ∈ files.matching, files.stem name = configuration.configName) ∧
          host.naming.upper.equals configuration.configName "base" = false) ∧
      Always (RemoteJudging.step host (connected svc id conn) platform) (Served host files)
        (RemoteJudging.init (connected svc id conn) m) es := by
  refine ⟨_, supported_of_header hplain hid hothers fresh, fun configuration => ?_, ?_⟩
  · rw [if_neg hsome, ← mem_supportedEnvs]
    unfold configurations
    rw [List.mem_filter]
    refine and_congr_right fun _ => ?_
    show (files.supportedEnvs.eraseDups.contains configuration.configName) = true ↔ _
    rw [List.contains_iff_mem, List.mem_eraseDups]
  · rw [if_neg hsome]
    generalize hsvc : connected svc id _ = connectedSvc
    have hfound : ∀ env ∈ connectedSvc.runner.supportedEnvs, ∃ name ∈ files.names, Leads host env name := by
      intro env henv
      rw [← hsvc] at henv
      exact leads_supported hplain (List.mem_eraseDups.mp henv)
    refine (always_of_inv (I := fun s => RemoteJudging.Inv host connectedSvc platform s ∧
      AllAsk (Supported connectedSvc) s.calls)
      (fun s e s' h hs => ⟨RemoteJudging.step_inv h.1 hs, ?_⟩) ⟨RemoteJudging.init_inv m, allAsk_init⟩ es).mono
      fun s h => served_of_asked h.1 h.2 hbase hfound
    rcases RemoteJudging.calls_step hs with hsame | ⟨e, hcalls⟩
    · rw [hsame]; exact h.2
    · exact asks_step (asks_supported connectedSvc platform) h.2 hcalls

end Law

def sampleHost : Host Unit where
  naming := ⟨true, UpperCase.asciiOnly⟩
  isSeparator c := c == '/'
  inWorkDirectory name := some name
  delete _ _ := .ok ()
  create _ _ _ := .ok ()
  createElsewhere _ _ _ := (.ok (), ())
  readLines _ _ := .ok ["PATH=/bin"]
  execute _ m := (.error (.external "not started"), m)

def sampleFiles : EnvFiles sampleHost where
  path := "/runner/envs/"
  names := ["base.env", "mingw.ENV", "notes.txt"]
  path_ends := rfl
  names_whole := by simp [sampleHost]

theorem sampleFiles_supported : sampleFiles.supportedEnvs = ["mingw"] := by decide

theorem sampleFiles_plain : sampleFiles.Plain := by
  unfold EnvFiles.Plain
  rw [sampleFiles_supported]
  simp

def sampleService : CheckerService where
  runner := ⟨"", "", []⟩
  compilatorConfigurations :=
    [⟨"C", "C", "mingw", false, 0, (· ++ ".c"), fun _ => "gcc", fun _ _ => "run", "gcc --version",
    fun output => .ok (output, none)⟩]
  checkerTests := []
  simpleCheckers := []
  simpleCheckers_ids := List.nodup_nil

/-- The versions are loaded, up to the first command. -/
def sampleEvents : List RemoteJudging.Ev :=
  [.calls (.start 0 .loadCompilators), .calls (.act 0 .access), .calls (.act 0 .acquire), .calls (.act 0 .access),
   .calls (.act 0 (.poll false)), .send 0, .remote .write]

section Sample

local instance sampleDurations : Durations := Runner.RunnerClientService.ticks

theorem sample_environments_found : ∃ conn,
    readHeaders some ([⟨"user-agent", "grpc-dotnet"⟩] ++ sampleFiles.metadata "A") fresh = (conn, .ok ()) ∧
      (∀ configuration, configuration ∈ (connected sampleService "A" conn).configurations ↔
        configuration ∈ sampleService.compilatorConfigurations ∧
          (∃ name ∈ sampleFiles.matching, sampleFiles.stem name = configuration.configName) ∧
            sampleHost.naming.upper.equals configuration.configName "base" = false) ∧
      Always (RemoteJudging.step sampleHost (connected sampleService "A" conn) ⟨"\n", fun _ => "", fun _ => ""⟩)
        (Served sampleHost sampleFiles)
        (RemoteJudging.init (connected sampleService "A" conn) ⟨Lib.Dictionaries.Dict.empty, ()⟩)
        sampleEvents :=
  environments_found sampleHost sampleFiles sampleFiles_plain
    (by rw [sampleFiles_supported]; exact List.cons_ne_nil _ _)
    ⟨"base.env", List.mem_cons_self, by decide⟩ rfl (by simp [runnerKeys]) sampleService _ _ sampleEvents

end Sample

end OlympSystem.Site.Environments
