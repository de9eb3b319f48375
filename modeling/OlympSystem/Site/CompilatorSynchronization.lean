/-
  OlympSystem.Site.CompilatorSynchronization — the table of compilators and the runners
  (`CheckerManager.AddCompilators`, `DisableCompilatorsWithoutRunner`).

  Both calls hold the gate from the first line to the last, and nothing else writes the
  table: a call is a unit of work alone on it. It loads records into a context, sets
  `IsActive` and adds records there, and saves once; the wait for the gate and each query
  can throw or be cancelled.

  The registry is a snapshot of the connected checkers; one that has passed has the fields
  its calls left (`SelfTests.Reached`). A record has the columns that the queue reads and
  those that only `AddCompilators` writes; `settings` gives two of the latter.

  Proved:
  - `addAll_eq`: on a table without duplicates the loop over the compilators activates the
    records it finds and adds the others, and never throws.
  - `Added.synchronised` / `Added.again`: what a call for compilators leaves, and that the
    same call again saves nothing.
  - `Synchronised.queued`: the queue then takes submissions in these compilators.
  - `addCompilators_throws` / `disable_throws`: a call throws when it refuses, or from outside.
  - `table_synchronised`: over any calls, no two records have one (Name, Description),
    records stay but for `IsActive`, and each call does what it should or nothing.
-/

import OlympSystem.Checker.SelfTests
import OlympSystem.Lib.Transactions
import OlympSystem.Site.Drain

namespace OlympSystem.Site.CompilatorSynchronization

open Lib.Runs Lib.Tables Lib.Query Lib.Transactions Work OlympSystem.Checker CheckerManager

/-! ## The table -/

structure CompilatorRecord extends CompilatorRow where
  language : String
  configName : String
  sourceExtension : String
  commandLine : String
  deriving DecidableEq, Repr

abbrev CompilatorTable := Table CompilatorRecord fun r => r.id

/-- What `AddCompilators` looks a record up by. -/
def CompilatorRecord.key (r : CompilatorRecord) : String × Option String := (r.name, r.description)

def NoDuplicates (table : CompilatorTable) : Prop := (table.rows.map CompilatorRecord.key).Nodup

/-- The columns the queue reads. -/
def queueTable (table : CompilatorTable) : Table CompilatorRow CompilatorRow.id where
  rows := table.rows.map CompilatorRecord.toCompilatorRow
  next := table.next
  below row h := by
    obtain ⟨r, hr, rfl⟩ := List.mem_map.mp h
    exact table.below r hr
  keys := by rw [List.map_map]; exact table.keys

/-! ## The registry -/

structure Settings where
  sourceExtension : CompilatorConfiguration → String
  compileCommand : CompilatorConfiguration → String

/-- A registered checker and its fields. In status `Success` its calls have left them; a
    checker in another status may be in the middle of a call. -/
structure RegisteredChecker where
  service : CheckerService
  platform : Platform
  fields : Fields
  reached : fields.selfTestingStatus = .success → SelfTests.Reached service platform fields

/-- `_checkers`: one checker for each id of a runner. -/
structure Checkers where
  values : List RegisteredChecker
  ids : (values.map fun x => x.service.runner.id).Nodup
  /-- The configurations of each runner have different names. -/
  names : ∀ x ∈ values, (x.service.configurations.map CompilatorConfiguration.name).Nodup

def Checkers.tryGetValue (checkers : Checkers) (id : String) : Option RegisteredChecker :=
  checkers.values.find? fun x => x.service.runner.id == id

/-! ## The unit of work -/

structure Tracked where
  original : CompilatorRecord
  current : CompilatorRecord

structure Context where
  existing : List Tracked
  added : List CompilatorRecord

def track (records : List CompilatorRecord) : Context := ⟨records.map fun r => ⟨r, r⟩, []⟩

def activate (r : CompilatorRecord) : CompilatorRecord := { r with isActive := true }

def deactivate (r : CompilatorRecord) : CompilatorRecord := { r with isActive := false }

def activeColumn (context : Context) : Update (fun r : CompilatorRecord => r.id) where
  apply r :=
    match context.existing.find? (·.original.id == r.id) with
    | none => r
    | some tracked =>
      { r with isActive := saved tracked.original.isActive tracked.current.isActive r.isActive }
  keeps r := by split <;> rfl

def addedRecord : Maker CompilatorRecord fun r : CompilatorRecord => r.id where
  make r id := { r with id := id }
  keyed _ _ := rfl

def changed (tracked : Tracked) : Bool := tracked.current.isActive != tracked.original.isActive

/-- The number of entities written, and the table after it. -/
def saveChanges (context : Context) (table : CompilatorTable) : Nat × CompilatorTable :=
  ((context.existing.filter changed).length + context.added.length,
    context.added.foldl (fun table r => table.insert addedRecord r) (table.update (activeColumn context)))

/-! ## The calls -/

def matching (info : CompilatorInfo) (r : CompilatorRecord) : Bool :=
  r.name == info.configuration.name && r.description == some info.displayName

/-- `new Compilator { ... }` with `IsActive = true`. -/
def newRecord (settings : Settings) (info : CompilatorInfo) : CompilatorRecord where
  id := 0
  name := info.configuration.name
  description := some info.displayName
  isActive := true
  language := info.configuration.language
  configName := info.configuration.configName
  sourceExtension := settings.sourceExtension info.configuration
  commandLine := settings.compileCommand info.configuration

/-- One pass of the loop. The record found is the only one that matches. -/
def addOne (settings : Settings) (context : Context) (info : CompilatorInfo) : Except Exn Context :=
  match singleOrDefault (fun tracked => matching info tracked.current) context.existing with
  | .error e => .error e
  | .ok none => .ok { context with added := context.added ++ [newRecord settings info] }
  | .ok (some _) =>
    .ok { context with
      existing := context.existing.map fun tracked =>
        if matching info tracked.current then { tracked with current := activate tracked.current } else tracked }

def addAll (settings : Settings) : Context → List CompilatorInfo → Except Exn Context
  | context, [] => .ok context
  | context, info :: infos => do
    let context ← addOne settings context info
    addAll settings context infos

abbrev Call := Work CompilatorTable Exn Nat

def addCompilators (settings : Settings) (checkers : Checkers) (checkerId : String) : Call := do
  throwIfCancelled .operationCanceled
  let checker ← orThrow (checkers.tryGetValue checkerId)
    (.invalidOperation "The selected runner is no longer connected.")
  throwIf (checker.fields.selfTestingStatus != .success)
    (.invalidOperation "The selected runner has not passed self-testing.")
  let records ← query fun table => table.rows
  let compilators ← orThrow checker.fields.compilators .nullReference
  let context ← lift (addAll settings (track records) compilators)
  access fun table => .ok (saveChanges context table)

def isTesting (status : CheckerSelfTestingStatus) : Bool := status == .unknown || status == .inProcess

def allCompilators : List RegisteredChecker → Except Exn (List CompilatorInfo)
  | [] => .ok []
  | checker :: rest =>
    match checker.fields.compilators with
    | none => .error .nullReference
    | some compilators => do
      let others ← allCompilators rest
      return compilators ++ others

def offered (available : List (String × String)) (r : CompilatorRecord) : Bool :=
  match r.description with
  | none => false
  | some description => available.contains (r.name, description)

def disableMissing (available : List (String × String)) (records : List CompilatorRecord) : Context :=
  ⟨records.map fun r => ⟨r, if offered available r then r else deactivate r⟩, []⟩

def disableCompilatorsWithoutRunner (checkers : Checkers) : Call := do
  throwIfCancelled .operationCanceled
  throwIf (checkers.values.any fun x => isTesting x.fields.selfTestingStatus)
    (.invalidOperation "Wait for runner self-testing to finish.")
  let compilators ← lift (allCompilators (checkers.values.filter fun x => x.fields.selfTestingStatus == .success))
  let available := compilators.map fun x => (x.configuration.name, x.displayName)
  let records ← query fun table => table.rows.filter (·.isActive)
  access fun table => .ok (saveChanges (disableMissing available records) table)

/-! ## The loop of `AddCompilators` -/

def keyOf (info : CompilatorInfo) : String × Option String := (info.configuration.name, some info.displayName)

theorem matching_iff {info : CompilatorInfo} {r : CompilatorRecord} : matching info r = true ↔ r.key = keyOf info := by
  simp [matching, CompilatorRecord.key, keyOf, Prod.ext_iff]

def wanted (infos : List CompilatorInfo) (r : CompilatorRecord) : Bool := infos.any fun info => matching info r

theorem wanted_iff {infos : List CompilatorInfo} {r : CompilatorRecord} :
    wanted infos r = true ↔ ∃ info ∈ infos, r.key = keyOf info := by
  simp [wanted, List.any_eq_true, matching_iff]

def touched (infos : List CompilatorInfo) (r : CompilatorRecord) : CompilatorRecord :=
  if wanted infos r then activate r else r

def missing (records : List CompilatorRecord) (infos : List CompilatorInfo) : List CompilatorInfo :=
  infos.filter fun info => !records.any (matching info)

theorem touched_eq (infos : List CompilatorInfo) (r : CompilatorRecord) :
    touched infos r = { r with isActive := (touched infos r).isActive } := by
  unfold touched
  split <;> rfl

@[simp] theorem touched_id (infos : List CompilatorInfo) (r : CompilatorRecord) : (touched infos r).id = r.id := by
  rw [touched_eq]

@[simp] theorem touched_key (infos : List CompilatorInfo) (r : CompilatorRecord) : (touched infos r).key = r.key := by
  rw [touched_eq]; rfl

/-- The context after the loop has passed `infos`. -/
def contextOf (settings : Settings) (records : List CompilatorRecord) (infos : List CompilatorInfo) : Context :=
  ⟨records.map fun r => ⟨r, touched infos r⟩, (missing records infos).map (newRecord settings)⟩

/-- Without duplicates one record at most matches. -/
theorem filter_matching {records : List CompilatorRecord} (h : (records.map CompilatorRecord.key).Nodup)
    (info : CompilatorInfo) :
    (records.filter (matching info) = [] ∧ records.any (matching info) = false) ∨
      ∃ r, records.filter (matching info) = [r] ∧ records.any (matching info) = true := by
  cases hany : records.any (matching info) with
  | false =>
    refine Or.inl ⟨List.filter_eq_nil_iff.mpr fun r hr hmatch => ?_, rfl⟩
    exact absurd hmatch (List.any_eq_false.mp hany r hr)
  | true =>
    obtain ⟨r, hr, hmatch⟩ := List.any_eq_true.mp hany
    have hsame : matching info = fun x => x.key == r.key := by
      funext x
      rw [Bool.eq_iff_iff, matching_iff, beq_iff_eq, matching_iff.mp hmatch]
    exact Or.inr ⟨r, by rw [hsame]; exact filter_key_unique h hr, rfl⟩

theorem addOne_eq {settings : Settings} {records : List CompilatorRecord} (h : (records.map CompilatorRecord.key).Nodup)
    (passed : List CompilatorInfo) (info : CompilatorInfo) :
    addOne settings (contextOf settings records passed) info = .ok (contextOf settings records (passed ++ [info])) := by
  have hcurrent : ∀ r, matching info (touched passed r) = matching info r := fun r => by
    rw [Bool.eq_iff_iff, matching_iff, matching_iff, touched_key]
  have hfilter : (contextOf settings records passed).existing.filter (fun tracked => matching info tracked.current) =
      (records.filter (matching info)).map fun r => ⟨r, touched passed r⟩ := by
    unfold contextOf
    rw [List.filter_map]
    congr 1
    exact List.filter_congr fun r _ => hcurrent r
  have htouched : ∀ r, touched (passed ++ [info]) r =
      if matching info r then activate (touched passed r) else touched passed r := by
    intro r
    unfold touched wanted
    rw [List.any_append, List.any_cons, List.any_nil, Bool.or_false]
    cases passed.any (fun info => matching info r) <;> cases matching info r <;> rfl
  unfold addOne singleOrDefault
  rw [hfilter]
  rcases filter_matching h info with ⟨hnil, hany⟩ | ⟨r, hone, hany⟩
  · rw [hnil]
    have hno : ∀ r ∈ records, matching info r = false := fun r hr => by simpa using List.any_eq_false.mp hany r hr
    simp only [List.map_nil, contextOf, missing, List.filter_append, List.map_append]
    congr 2
    · refine List.map_congr_left fun r hr => ?_
      rw [htouched, hno r hr]; rfl
    · simp [hany]
  · rw [hone]
    simp only [List.map_cons, List.map_nil, contextOf, missing, List.filter_append, List.map_append, List.map_map]
    congr 2
    · refine List.map_congr_left fun r _ => ?_
      simp only [Function.comp_apply, hcurrent, htouched]
      split <;> rfl
    · simp [hany]

/-- The loop finds the records of the compilators that have one, and adds the others. -/
theorem addAll_eq {settings : Settings} {records : List CompilatorRecord}
    (h : (records.map CompilatorRecord.key).Nodup) : ∀ (infos passed : List CompilatorInfo),
    addAll settings (contextOf settings records passed) infos = .ok (contextOf settings records (passed ++ infos)) := by
  intro infos
  induction infos with
  | nil => intro passed; rw [List.append_nil]; rfl
  | cons info infos ih =>
    intro passed
    unfold addAll
    rw [addOne_eq h]
    show addAll settings _ infos = _
    rw [ih, List.append_assoc]; rfl

theorem addAll_track {settings : Settings} {records : List CompilatorRecord}
    (h : (records.map CompilatorRecord.key).Nodup) (infos : List CompilatorInfo) :
    addAll settings (track records) infos = .ok (contextOf settings records infos) := by
  have hstart : track records = contextOf settings records [] := by simp [track, contextOf, touched, wanted, missing]
  rw [hstart]
  exact addAll_eq h infos []

/-! ## The save -/

/-- The context whose tracked records are `records`, with `f` applied. -/
def tracking (records : List CompilatorRecord) (f : CompilatorRecord → CompilatorRecord)
    (added : List CompilatorRecord) : Context := ⟨records.map fun r => ⟨r, f r⟩, added⟩

/-- The save of records of the table, of which `f` changes `IsActive`: each is written as `f` has it. -/
theorem activeColumn_apply {table : CompilatorTable} {records : List CompilatorRecord}
    {f : CompilatorRecord → CompilatorRecord} {added : List CompilatorRecord}
    (hsub : ∀ r ∈ records, r ∈ table.rows) (hf : ∀ r, f r = { r with isActive := (f r).isActive })
    {r : CompilatorRecord} (hr : r ∈ table.rows) :
    (activeColumn (tracking records f added)).apply r = if r ∈ records then f r else r := by
  have hfind : (tracking records f added).existing.find? (·.original.id == r.id) =
      if r ∈ records then some ⟨r, f r⟩ else none := by
    have hmap : (tracking records f added).existing.find? (·.original.id == r.id) =
        (records.find? fun x => x.id == r.id).map fun r => ⟨r, f r⟩ := List.find?_map
    rw [hmap]
    by_cases hmem : r ∈ records
    · rw [if_pos hmem]
      cases hfound : records.find? fun x => x.id == r.id with
      | none => exact absurd (beq_self_eq_true r.id) (List.find?_eq_none.mp hfound r hmem)
      | some x =>
        have hid : x.id = r.id := by simpa using List.find?_some hfound
        rw [Table.row_unique (hsub x (List.mem_of_find?_eq_some hfound)) hr hid]; rfl
    · rw [if_neg hmem]
      have hnone : records.find? (fun x => x.id == r.id) = none := by
        refine List.find?_eq_none.mpr fun x hx hid => hmem ?_
        rw [← Table.row_unique (hsub x hx) hr (by simpa using hid)]; exact hx
      rw [hnone]; rfl
  show (match (tracking records f added).existing.find? (·.original.id == r.id) with
    | none => r
    | some tracked => { r with isActive := saved tracked.original.isActive tracked.current.isActive r.isActive }) = _
  rw [hfind]
  by_cases hmem : r ∈ records
  · simp only [if_pos hmem, saved_fresh]
    exact (hf r).symm
  · simp only [if_neg hmem]

theorem saveChanges_rows {table : CompilatorTable} {records : List CompilatorRecord}
    {f : CompilatorRecord → CompilatorRecord} {added : List CompilatorRecord}
    (hsub : ∀ r ∈ records, r ∈ table.rows) (hf : ∀ r, f r = { r with isActive := (f r).isActive }) :
    (saveChanges (tracking records f added) table).2.rows =
      table.rows.map (fun r => if r ∈ records then f r else r) ++
        added.mapIdx fun i r => { r with id := table.next + i } := by
  unfold saveChanges
  rw [Table.rows_insertAll]
  congr 1
  exact List.map_congr_left fun r hr => activeColumn_apply hsub hf hr

theorem saveChanges_count {table : CompilatorTable} {records : List CompilatorRecord}
    {f : CompilatorRecord → CompilatorRecord} {added : List CompilatorRecord} :
    (saveChanges (tracking records f added) table).1 =
      (records.filter fun r => (f r).isActive != r.isActive).length + added.length := by
  unfold saveChanges tracking
  rw [List.filter_map, List.length_map]
  rfl

/-! ## What the calls do -/

/-- What a save after the loop over `infos` leaves. -/
structure Added (settings : Settings) (infos : List CompilatorInfo) (table : CompilatorTable) (n : Nat)
    (table' : CompilatorTable) : Prop where
  rows : table'.rows = table.rows.map (touched infos) ++
    ((missing table.rows infos).map (newRecord settings)).mapIdx fun i r => { r with id := table.next + i }
  count : n = (table.rows.filter fun r => (touched infos r).isActive != r.isActive).length +
    (missing table.rows infos).length

theorem addCompilators_returns {settings : Settings} {checkers : Checkers} {checkerId : String}
    {o : Outside Exn} {table table' : CompilatorTable} {n : Nat} (hnodup : NoDuplicates table)
    (h : Returns o (addCompilators settings checkers checkerId) table n table') :
    ∃ checker infos, checkers.tryGetValue checkerId = some checker ∧ checker.fields.selfTestingStatus = .success ∧
      checker.fields.compilators = some infos ∧ Added settings infos table n table' := by
  have h₁ := Returns.cancelled_bind h
  obtain ⟨checker, hchecker, h₂⟩ := Returns.orThrow_bind h₁
  obtain ⟨hstatus, h₃⟩ := Returns.throwIf_bind h₂
  have h₄ := Returns.query_bind h₃
  obtain ⟨infos, hinfos, h₅⟩ := Returns.orThrow_bind h₄
  obtain ⟨context, table₁, hlift, hsave⟩ := Returns.bind h₅
  obtain ⟨hall, rfl⟩ := Returns.lift hlift
  have hcontext : context = tracking table₁.rows (touched infos)
      ((missing table₁.rows infos).map (newRecord settings)) := by
    rw [addAll_track hnodup] at hall
    exact (Except.ok.inj hall).symm
  have hpair : saveChanges context table₁ = (n, table') := Except.ok.inj (Returns.access hsave)
  rw [hcontext] at hpair
  have hcount : _ = n := congrArg Prod.fst hpair
  have htable : _ = table' := congrArg Prod.snd hpair
  refine ⟨checker, infos, hchecker, by simpa using hstatus, hinfos, ?_, ?_⟩
  · rw [← htable, saveChanges_rows (fun r hr => hr) (touched_eq infos)]
    congr 1
    exact List.map_congr_left fun r hr => if_pos hr
  · rw [← hcount, saveChanges_count, List.length_map]

/-- A record after `DisableCompilatorsWithoutRunner`. -/
def kept (available : List (String × String)) (r : CompilatorRecord) : CompilatorRecord :=
  if offered available r then r else deactivate r

theorem allCompilators_ok {checkers : List RegisteredChecker} {infos : List CompilatorInfo}
    (h : allCompilators checkers = .ok infos) (info : CompilatorInfo) :
    info ∈ infos ↔ ∃ x ∈ checkers, ∃ compilators, x.fields.compilators = some compilators ∧ info ∈ compilators := by
  induction checkers generalizing infos with
  | nil => cases h; simp
  | cons checker rest ih =>
    unfold allCompilators at h
    cases hc : checker.fields.compilators with
    | none => rw [hc] at h; cases h
    | some compilators =>
      rw [hc] at h
      cases hrest : allCompilators rest with
      | error e => rw [hrest] at h; cases h
      | ok others =>
        rw [hrest] at h
        cases h
        rw [List.mem_append, ih hrest]
        simp [hc]

/-- Some connected checker in status `Success` has the compilator of the record. -/
def Offered (checkers : Checkers) (r : CompilatorRecord) : Prop :=
  ∃ x ∈ checkers.values, x.fields.selfTestingStatus = .success ∧
    ∃ compilators, x.fields.compilators = some compilators ∧ ∃ info ∈ compilators, r.key = keyOf info

theorem offered_iff {infos : List CompilatorInfo} {r : CompilatorRecord} :
    offered (infos.map fun x => (x.configuration.name, x.displayName)) r = true ↔
      ∃ info ∈ infos, r.key = keyOf info := by
  unfold offered CompilatorRecord.key keyOf
  cases r.description with
  | none => simp
  | some description =>
    simp only [List.contains_iff_mem, List.mem_map, Prod.mk.injEq, Option.some.injEq]
    exact exists_congr fun info => and_congr_right fun _ =>
      and_congr eq_comm eq_comm

theorem disable_returns {checkers : Checkers} {o : Outside Exn} {table table' : CompilatorTable} {n : Nat}
    (h : Returns o (disableCompilatorsWithoutRunner checkers) table n table') :
    (∀ x ∈ checkers.values, isTesting x.fields.selfTestingStatus = false) ∧
      ∃ available, (∀ r, offered available r = true ↔ Offered checkers r) ∧
        table'.rows = table.rows.map fun r => if r.isActive then kept available r else r := by
  have h₁ := Returns.cancelled_bind h
  obtain ⟨htesting, h₂⟩ := Returns.throwIf_bind h₁
  obtain ⟨infos, table₁, hlift, h₃⟩ := Returns.bind h₂
  obtain ⟨hall, rfl⟩ := Returns.lift hlift
  have hsave := Returns.query_bind h₃
  have hpair : saveChanges (tracking (table₁.rows.filter (·.isActive))
      (kept (infos.map fun x => (x.configuration.name, x.displayName))) []) table₁ = (n, table') :=
    Except.ok.inj (Returns.access hsave)
  have htable : _ = table' := congrArg Prod.snd hpair
  refine ⟨fun x hx => by simpa using List.any_eq_false.mp htesting x hx,
    infos.map fun x => (x.configuration.name, x.displayName), fun r => ?_, ?_⟩
  · rw [offered_iff]
    unfold Offered
    simp only [allCompilators_ok hall, List.mem_filter, beq_iff_eq]
    constructor
    · rintro ⟨info, ⟨x, ⟨hx, hstatus⟩, compilators, hc, hinfo⟩, hkey⟩
      exact ⟨x, hx, hstatus, compilators, hc, info, hinfo, hkey⟩
    · rintro ⟨x, hx, hstatus, compilators, hc, info, hinfo, hkey⟩
      exact ⟨info, ⟨x, ⟨hx, hstatus⟩, compilators, hc, hinfo⟩, hkey⟩
  · rw [← htable, saveChanges_rows (fun r hr => (List.mem_filter.mp hr).1) fun r => ?_]
    · rw [List.mapIdx_nil, List.append_nil]
      refine List.map_congr_left fun r hr => ?_
      have hmem : r ∈ table₁.rows.filter (·.isActive) ↔ r.isActive = true := by
        rw [List.mem_filter]
        exact and_iff_right hr
      simp only [hmem]
    · unfold kept
      split <;> rfl

/-! ## The compilators of a checker -/

/-- Where the configurations have different names, so have the records of the compilators. -/
theorem RegisteredChecker.keys {x : RegisteredChecker} (hsuccess : x.fields.selfTestingStatus = .success)
    (hnames : (x.service.configurations.map CompilatorConfiguration.name).Nodup) :
    ∃ infos, x.fields.compilators = some infos ∧ (infos.map keyOf).Nodup := by
  have hreached := x.reached hsuccess
  obtain ⟨infos, hinfos, -⟩ := hreached.passed hsuccess
  obtain ⟨loaded, hconfigurations, -, hsorted⟩ := (SelfTests.reached_kept hreached).loaded infos hinfos
  refine ⟨infos, hinfos, ?_⟩
  have hperm : infos.Perm (loaded.map Prod.fst) := by
    rw [hsorted]
    exact orderBy_perm _ _
  have hname : (infos.map fun info => info.configuration.name).Nodup := by
    refine (hperm.map _).nodup_iff.mpr ?_
    rw [← hconfigurations, List.map_map] at hnames
    rw [List.map_map]
    exact hnames
  exact List.Nodup.of_map Prod.fst (by rw [List.map_map]; exact hname)

theorem Checkers.tryGetValue_mem {checkers : Checkers} {id : String} {x : RegisteredChecker}
    (h : checkers.tryGetValue id = some x) : x ∈ checkers.values := List.mem_of_find?_eq_some h

theorem Checkers.compilators {checkers : Checkers} {x : RegisteredChecker} (hx : x ∈ checkers.values)
    (hsuccess : x.fields.selfTestingStatus = .success) :
    ∃ infos, x.fields.compilators = some infos ∧ (infos.map keyOf).Nodup :=
  x.keys hsuccess (checkers.names x hx)

theorem allCompilators_total {checkers : List RegisteredChecker}
    (h : ∀ x ∈ checkers, ∃ infos, x.fields.compilators = some infos) :
    ∃ infos, allCompilators checkers = .ok infos := by
  induction checkers with
  | nil => exact ⟨[], rfl⟩
  | cons x rest ih =>
    obtain ⟨infos, hinfos⟩ := h x List.mem_cons_self
    obtain ⟨others, hothers⟩ := ih fun y hy => h y (List.mem_cons_of_mem _ hy)
    refine ⟨infos ++ others, ?_⟩
    unfold allCompilators
    rw [hinfos, hothers]; rfl

theorem Checkers.allCompilators_success (checkers : Checkers) :
    ∃ infos, allCompilators (checkers.values.filter fun x => x.fields.selfTestingStatus == .success) = .ok infos := by
  refine allCompilators_total fun x hx => ?_
  obtain ⟨hx, hsuccess⟩ := List.mem_filter.mp hx
  obtain ⟨infos, hinfos, -⟩ := checkers.compilators hx (by simpa using hsuccess)
  exact ⟨infos, hinfos⟩

/-! ## What holds after a call -/

/-- The records from before stay in their order, with every column but `IsActive`. -/
def Keeps (table table' : CompilatorTable) : Prop := table.rows.map deactivate <+: table'.rows.map deactivate

/-- For every compilator there is exactly one record, active; the other records are those from
    before, and what is new is the record of a compilator. -/
structure Synchronised (settings : Settings) (infos : List CompilatorInfo) (table table' : CompilatorTable) : Prop where
  active : ∀ info ∈ infos, ∃ r ∈ table'.rows, r.key = keyOf info ∧ r.isActive = true ∧
    ∀ r' ∈ table'.rows, r'.key = keyOf info → r' = r
  others : ∀ r ∈ table.rows, (∀ info ∈ infos, r.key ≠ keyOf info) → r ∈ table'.rows
  created : ∀ r ∈ table'.rows, (∃ r₀ ∈ table.rows, r = { r₀ with isActive := r.isActive }) ∨
    ∃ info ∈ infos, r = { newRecord settings info with id := r.id }

theorem row_of_key {table : CompilatorTable} (h : NoDuplicates table) {r r' : CompilatorRecord} (hr : r ∈ table.rows)
    (hr' : r' ∈ table.rows) (hkey : r.key = r'.key) : r = r' := List.inj_on_of_nodup_map h hr hr' hkey

theorem mem_missing {records : List CompilatorRecord} {infos : List CompilatorInfo} {info : CompilatorInfo} :
    info ∈ missing records infos ↔ info ∈ infos ∧ ∀ r ∈ records, r.key ≠ keyOf info := by
  unfold missing
  simp only [List.mem_filter, Bool.not_eq_true', List.any_eq_false, matching_iff, ne_eq]

def addedRows (settings : Settings) (infos : List CompilatorInfo) (next : Int) : List CompilatorRecord :=
  (infos.map (newRecord settings)).mapIdx fun i r => { r with id := next + i }

theorem mem_addedRows {settings : Settings} {infos : List CompilatorInfo} {next : Int} {r : CompilatorRecord}
    (h : r ∈ addedRows settings infos next) : ∃ info ∈ infos, r = { newRecord settings info with id := r.id } := by
  obtain ⟨i, hi, rfl⟩ := List.mem_mapIdx.mp h
  rw [List.getElem_map]
  exact ⟨_, List.getElem_mem _, rfl⟩

theorem addedRows_keys {settings : Settings} (infos : List CompilatorInfo) (next : Int) :
    (addedRows settings infos next).map CompilatorRecord.key = infos.map keyOf := by
  refine List.ext_getElem (by simp [addedRows]) fun i h₁ h₂ => ?_
  simp only [addedRows, List.getElem_map, List.getElem_mapIdx]
  rfl

section Added

variable {settings : Settings} {infos : List CompilatorInfo} {table table' : CompilatorTable} {n : Nat}

theorem Added.rows_eq (h : Added settings infos table n table') :
    table'.rows = table.rows.map (touched infos) ++ addedRows settings (missing table.rows infos) table.next := h.rows

theorem Added.keys (h : Added settings infos table n table') :
    table'.rows.map CompilatorRecord.key =
      table.rows.map CompilatorRecord.key ++ (missing table.rows infos).map keyOf := by
  rw [h.rows_eq, List.map_append, List.map_map, addedRows_keys]
  congr 1
  exact List.map_congr_left fun r _ => touched_key infos r

/-- No compilator is added twice, or besides its record. -/
theorem Added.noDuplicates (h : Added settings infos table n table') (hinfos : (infos.map keyOf).Nodup)
    (hnodup : NoDuplicates table) : NoDuplicates table' := by
  unfold NoDuplicates
  rw [h.keys]
  refine List.nodup_append.mpr ⟨hnodup, hinfos.sublist (List.filter_sublist.map keyOf), fun k hk k' hk' heq => ?_⟩
  obtain ⟨r, hr, rfl⟩ := List.mem_map.mp hk
  obtain ⟨info, hinfo, rfl⟩ := List.mem_map.mp hk'
  exact (mem_missing.mp hinfo).2 r hr heq

theorem Added.keeps (h : Added settings infos table n table') : Keeps table table' := by
  unfold Keeps
  rw [h.rows_eq, List.map_append, List.map_map]
  have hsame : table.rows.map (deactivate ∘ touched infos) = table.rows.map deactivate :=
    List.map_congr_left fun r _ => by
      show deactivate (touched infos r) = deactivate r
      rw [touched_eq]; rfl
  rw [hsame]
  exact List.prefix_append _ _

theorem Added.synchronised (h : Added settings infos table n table') (hinfos : (infos.map keyOf).Nodup)
    (hnodup : NoDuplicates table) : Synchronised settings infos table table' := by
  have hunique := h.noDuplicates hinfos hnodup
  refine ⟨fun info hinfo => ?_, fun r hr hother => ?_, fun r hr => ?_⟩
  · have hkey : keyOf info ∈ table'.rows.map CompilatorRecord.key := by
      rw [h.keys, List.mem_append]
      by_cases hfound : ∃ r ∈ table.rows, r.key = keyOf info
      · exact Or.inl (List.mem_map.mpr hfound)
      · refine Or.inr (List.mem_map_of_mem (mem_missing.mpr ⟨hinfo, fun r hr hkey => hfound ⟨r, hr, hkey⟩⟩))
    obtain ⟨r, hr, hrkey⟩ := List.mem_map.mp hkey
    refine ⟨r, hr, hrkey, ?_, fun r' hr' hkey' => row_of_key hunique hr' hr (hkey'.trans hrkey.symm)⟩
    rw [h.rows_eq, List.mem_append] at hr
    rcases hr with hr | hr
    · obtain ⟨r₀, -, rfl⟩ := List.mem_map.mp hr
      rw [touched_key] at hrkey
      unfold touched
      rw [if_pos (wanted_iff.mpr ⟨info, hinfo, hrkey⟩)]; rfl
    · obtain ⟨info', -, heq⟩ := mem_addedRows hr
      rw [heq]; rfl
  · have hsame : touched infos r = r := by
      unfold touched
      rw [if_neg]
      intro hwanted
      obtain ⟨info, hinfo, hkey⟩ := wanted_iff.mp hwanted
      exact hother info hinfo hkey
    rw [h.rows_eq, List.mem_append]
    exact Or.inl (List.mem_map.mpr ⟨r, hr, hsame⟩)
  · rw [h.rows_eq, List.mem_append] at hr
    rcases hr with hr | hr
    · obtain ⟨r₀, hr₀, rfl⟩ := List.mem_map.mp hr
      exact Or.inl ⟨r₀, hr₀, touched_eq infos r₀⟩
    · obtain ⟨info, hinfo, heq⟩ := mem_addedRows hr
      exact Or.inr ⟨info, (mem_missing.mp hinfo).1, heq⟩

/-- A call for compilators that all have their active record saves nothing. -/
theorem Added.nothing (h : Added settings infos table n table')
    (hactive : ∀ info ∈ infos, ∃ r ∈ table.rows, r.key = keyOf info)
    (hwanted : ∀ r ∈ table.rows, wanted infos r = true → r.isActive = true) : n = 0 ∧ table'.rows = table.rows := by
  have hmissing : missing table.rows infos = [] := by
    refine List.eq_nil_iff_forall_not_mem.mpr fun info hinfo => ?_
    obtain ⟨hinfo, hnone⟩ := mem_missing.mp hinfo
    obtain ⟨r, hr, hkey⟩ := hactive info hinfo
    exact hnone r hr hkey
  have hsame : ∀ r ∈ table.rows, touched infos r = r := by
    intro r hr
    unfold touched
    split
    · next hw =>
      unfold activate
      rw [← hwanted r hr hw]
    · rfl
  constructor
  · rw [h.count, hmissing, List.filter_eq_nil_iff.mpr fun r hr => by rw [hsame r hr]; simp]; rfl
  · rw [h.rows_eq, hmissing, List.map_congr_left hsame]
    simp [addedRows]

/-- The same call again. -/
theorem Added.again {table'' : CompilatorTable} {n' : Nat} (h : Added settings infos table n table')
    (hinfos : (infos.map keyOf).Nodup) (hnodup : NoDuplicates table) (h' : Added settings infos table' n' table'') :
    n' = 0 ∧ table''.rows = table'.rows := by
  have hsync := h.synchronised hinfos hnodup
  refine h'.nothing (fun info hinfo => ?_) fun r hr hw => ?_
  · obtain ⟨r, hr, hkey, -⟩ := hsync.active info hinfo
    exact ⟨r, hr, hkey⟩
  · obtain ⟨info, hinfo, hkey⟩ := wanted_iff.mp hw
    obtain ⟨r', -, -, hactive, hone⟩ := hsync.active info hinfo
    rw [hone r hr hkey]; exact hactive

end Added

/-- The queue hands a synchronised checker the submissions in its compilators. -/
theorem Synchronised.queued {settings : Settings} {table table' : CompilatorTable}
    {checker : ConnectedChecker} {db : Db}
    (h : Synchronised settings checker.compilators table table') (hdb : db.compilators = queueTable table')
    {info : CompilatorInfo} (hinfo : info ∈ checker.compilators) (herror : info.error = none) :
    ∃ r ∈ table'.rows, r.key = keyOf info ∧ r.id ∈ compilatorIds db checker := by
  obtain ⟨r, hr, hkey, hactive, -⟩ := h.active info hinfo
  have hrow : r.toCompilatorRow ∈ db.compilators.rows := by
    rw [hdb]
    exact List.mem_map_of_mem hr
  have hname : r.name = info.configuration.name := congrArg Prod.fst hkey
  have hdescription : r.description = some info.displayName := congrArg Prod.snd hkey
  refine ⟨r, hr, hkey, Drain.mem_compilatorIds.mpr ⟨_, hrow, rfl, hactive, info, hinfo, herror, hname.symm, ?_⟩⟩
  exact hdescription.symm

/-! ## Calls that throw -/

theorem addCompilators_atomic (settings : Settings) (checkers : Checkers) (checkerId : String) :
    Atomic (addCompilators settings checkers checkerId) := by
  unfold addCompilators
  refine .after (.throwIfCancelled _) fun _ => .after (.orThrow _ _) fun checker => .after (.throwIf _ _) fun _ => ?_
  exact .after (.query _) fun records => .after (.orThrow _ _) fun infos => .after (.lift _) fun context => .access _

theorem disable_atomic (checkers : Checkers) : Atomic (disableCompilatorsWithoutRunner checkers) := by
  unfold disableCompilatorsWithoutRunner
  refine .after (.throwIfCancelled _) fun _ => .after (.throwIf _ _) fun _ => .after (.lift _) fun infos => ?_
  exact .after (.query _) fun records => .access _

def FromOutside (o : Outside Exn) (e : Exn) : Prop := e = .operationCanceled ∨ ∃ n, o.fault n = some e

/-- A call of `AddCompilators` throws because the runner is gone or has not passed, or from outside:
    not because of the records it finds. -/
theorem addCompilators_throws {settings : Settings} {checkers : Checkers} {checkerId : String} {o : Outside Exn}
    {table : CompilatorTable} {e : Exn} (hnodup : NoDuplicates table)
    (h : Throws o (addCompilators settings checkers checkerId) table e) :
    (∀ checker, checkers.tryGetValue checkerId = some checker → checker.fields.selfTestingStatus ≠ .success) ∨
      FromOutside o e := by
  rcases Throws.cancelled_bind h with ⟨-, hcancelled⟩ | h
  · exact Or.inr (Or.inl hcancelled)
  rcases Throws.orThrow_bind h with ⟨hgone, -⟩ | ⟨checker, hchecker, h⟩
  · refine Or.inl fun checker hchecker => ?_
    rw [hgone] at hchecker; cases hchecker
  rcases Throws.throwIf_bind h with ⟨hstatus, -⟩ | ⟨hstatus, h⟩
  · refine Or.inl fun checker' hchecker' => ?_
    rw [hchecker] at hchecker'
    rw [← Option.some.inj hchecker']; simpa using hstatus
  have hsuccess : checker.fields.selfTestingStatus = .success := by simpa using hstatus
  rcases Throws.query_bind h with hfault | h
  · exact Or.inr (Or.inr hfault)
  obtain ⟨infos, hinfos, -⟩ := Checkers.compilators (Checkers.tryGetValue_mem hchecker) hsuccess
  rcases Throws.orThrow_bind h with ⟨hnone, -⟩ | ⟨compilators, -, h⟩
  · rw [hinfos] at hnone; cases hnone
  rcases Throws.lift_bind h with hlift | ⟨context, -, h⟩
  · rw [addAll_track hnodup] at hlift; cases hlift
  · rcases Throws.access h with hfault | hsave
    · exact Or.inr (Or.inr hfault)
    · cases hsave

theorem disable_throws {checkers : Checkers} {o : Outside Exn} {table : CompilatorTable} {e : Exn}
    (h : Throws o (disableCompilatorsWithoutRunner checkers) table e) :
    (∃ x ∈ checkers.values, isTesting x.fields.selfTestingStatus = true) ∨ FromOutside o e := by
  rcases Throws.cancelled_bind h with ⟨-, hcancelled⟩ | h
  · exact Or.inr (Or.inl hcancelled)
  rcases Throws.throwIf_bind h with ⟨htesting, -⟩ | ⟨-, h⟩
  · exact Or.inl (List.any_eq_true.mp htesting)
  obtain ⟨infos, hinfos⟩ := checkers.allCompilators_success
  rcases Throws.lift_bind h with hlift | ⟨compilators, -, h⟩
  · rw [hinfos] at hlift; cases hlift
  rcases Throws.query_bind h with hfault | h
  · exact Or.inr (Or.inr hfault)
  rcases Throws.access h with hfault | hsave
  · exact Or.inr (Or.inr hfault)
  · cases hsave

/-! ## Runs -/

inductive Request where
  | addCompilators (checkerId : String)
  | disableCompilatorsWithoutRunner

/-- A call with the checkers that are connected when it has the gate. -/
structure Event where
  request : Request
  checkers : Checkers
  outside : Outside Exn

def perform (settings : Settings) (e : Event) : Call :=
  match e.request with
  | .addCompilators checkerId => addCompilators settings e.checkers checkerId
  | .disableCompilatorsWithoutRunner => disableCompilatorsWithoutRunner e.checkers

def run (settings : Settings) (table : CompilatorTable) (e : Event) : Except Exn Nat × CompilatorTable :=
  let (answer, session) := perform settings e e.outside ⟨table, 0⟩
  (answer, session.db)

def step (settings : Settings) (table : CompilatorTable) (e : Event) : Option CompilatorTable :=
  some (run settings table e).2

/-- The runner is gone or has not passed; some runner is still testing. -/
def Refused (e : Event) : Prop :=
  match e.request with
  | .addCompilators checkerId =>
    ∀ checker, e.checkers.tryGetValue checkerId = some checker → checker.fields.selfTestingStatus ≠ .success
  | .disableCompilatorsWithoutRunner => ∃ x ∈ e.checkers.values, isTesting x.fields.selfTestingStatus = true

/-- A further call for these compilators saves nothing. -/
def Settled (settings : Settings) (infos : List CompilatorInfo) (table : CompilatorTable) : Prop :=
  ∀ (e : Event) (checkerId : String) (checker : RegisteredChecker) (n : Nat), e.request = .addCompilators checkerId →
    e.checkers.tryGetValue checkerId = some checker → checker.fields.compilators = some infos →
      (run settings table e).1 = .ok n → n = 0 ∧ (run settings table e).2.rows = table.rows

/-- What a call that takes `table` to `table'` has done. -/
structure Law (settings : Settings) (table : CompilatorTable) (e : Event) (table' : CompilatorTable) : Prop where
  keeps : Keeps table table'
  added : ∀ checkerId n, e.request = .addCompilators checkerId → (run settings table e).1 = .ok n →
    ∃ checker infos, e.checkers.tryGetValue checkerId = some checker ∧ checker.fields.compilators = some infos ∧
      Synchronised settings infos table table' ∧ Settled settings infos table'
  disabled : ∀ n, e.request = .disableCompilatorsWithoutRunner → (run settings table e).1 = .ok n →
    table'.rows.map deactivate = table.rows.map deactivate ∧
      ∀ r, (r ∈ table'.rows ∧ r.isActive = true) ↔ (r ∈ table.rows ∧ r.isActive = true ∧ Offered e.checkers r)
  threw : ∀ error, (run settings table e).1 = .error error → table' = table ∧ (Refused e ∨ FromOutside e.outside error)
  refused : Refused e → ∃ error, (run settings table e).1 = .error error

section Step

variable {settings : Settings} {table : CompilatorTable} {e : Event} {n : Nat}

theorem run_returns (h : (run settings table e).1 = .ok n) :
    Returns e.outside (perform settings e) table n (run settings table e).2 := Returns.of_run h

theorem run_throws {error : Exn} (h : (run settings table e).1 = .error error) :
    Throws e.outside (perform settings e) table error := ⟨0, h⟩

theorem perform_atomic (settings : Settings) (e : Event) : Atomic (perform settings e) := by
  unfold perform
  cases e.request with
  | addCompilators checkerId => exact addCompilators_atomic settings e.checkers checkerId
  | disableCompilatorsWithoutRunner => exact disable_atomic e.checkers

theorem run_added (hnodup : NoDuplicates table) {checkerId : String} (hrequest : e.request = .addCompilators checkerId)
    (h : (run settings table e).1 = .ok n) :
    ∃ checker infos, e.checkers.tryGetValue checkerId = some checker ∧ checker.fields.selfTestingStatus = .success ∧
      checker.fields.compilators = some infos ∧ (infos.map keyOf).Nodup ∧
      Added settings infos table n (run settings table e).2 := by
  have hreturns := run_returns h
  unfold perform at hreturns
  rw [hrequest] at hreturns
  obtain ⟨checker, infos, hchecker, hsuccess, hinfos, hadded⟩ := addCompilators_returns hnodup hreturns
  obtain ⟨infos', hinfos', hkeys⟩ := Checkers.compilators (Checkers.tryGetValue_mem hchecker) hsuccess
  obtain rfl := Option.some.inj (hinfos.symm.trans hinfos')
  exact ⟨checker, infos, hchecker, hsuccess, hinfos, hkeys, hadded⟩

theorem run_disabled (hrequest : e.request = .disableCompilatorsWithoutRunner) (h : (run settings table e).1 = .ok n) :
    (∀ x ∈ e.checkers.values, isTesting x.fields.selfTestingStatus = false) ∧
      ∃ available, (∀ r, offered available r = true ↔ Offered e.checkers r) ∧
        (run settings table e).2.rows = table.rows.map fun r => if r.isActive then kept available r else r := by
  have hreturns := run_returns h
  unfold perform at hreturns
  rw [hrequest] at hreturns
  exact disable_returns hreturns

/-- A call that disables changes no key. -/
theorem disabled_keys {available : List (String × String)} :
    (table.rows.map fun r => if r.isActive then kept available r else r).map deactivate =
      table.rows.map deactivate := by
  rw [List.map_map]
  refine List.map_congr_left fun r _ => ?_
  show deactivate (if r.isActive then kept available r else r) = deactivate r
  unfold kept
  split
  · split <;> rfl
  · rfl

theorem keys_of_deactivate {rows rows' : List CompilatorRecord} (h : rows'.map deactivate = rows.map deactivate) :
    rows'.map CompilatorRecord.key = rows.map CompilatorRecord.key := by
  have hkey : ∀ l : List CompilatorRecord, l.map CompilatorRecord.key =
      (l.map deactivate).map CompilatorRecord.key := by
    intro l
    rw [List.map_map]; rfl
  rw [hkey, h, ← hkey]

/-- One call keeps the keys apart. -/
theorem run_noDuplicates (hnodup : NoDuplicates table) : NoDuplicates (run settings table e).2 := by
  cases hanswer : (run settings table e).1 with
  | error error =>
    have hsame : (run settings table e).2 = table := perform_atomic settings e e.outside ⟨table, 0⟩ error hanswer
    rw [hsame]; exact hnodup
  | ok n =>
    cases hrequest : e.request with
    | addCompilators checkerId =>
      obtain ⟨checker, infos, -, -, -, hkeys, hadded⟩ := run_added hnodup hrequest hanswer
      exact hadded.noDuplicates hkeys hnodup
    | disableCompilatorsWithoutRunner =>
      obtain ⟨-, available, -, hrows⟩ := run_disabled hrequest hanswer
      unfold NoDuplicates
      rw [hrows, keys_of_deactivate disabled_keys]
      exact hnodup

theorem run_settled (hnodup : NoDuplicates table) {infos : List CompilatorInfo} {table' : CompilatorTable}
    (hadded : Added settings infos table n table') (hkeys : (infos.map keyOf).Nodup) :
    Settled settings infos table' := by
  intro e' checkerId checker n' hrequest hchecker hinfos hanswer
  have hnodup' := hadded.noDuplicates hkeys hnodup
  obtain ⟨checker', infos', hchecker', -, hinfos', -, hadded'⟩ := run_added hnodup' hrequest hanswer
  obtain rfl := Option.some.inj (hchecker.symm.trans hchecker')
  obtain rfl := Option.some.inj (hinfos.symm.trans hinfos')
  exact hadded.again hkeys hnodup hadded'

/-- The active records after a call that disables. -/
theorem disabled_active {available : List (String × String)}
    (havailable : ∀ r, offered available r = true ↔ Offered e.checkers r) {r : CompilatorRecord} :
    (r ∈ (table.rows.map fun r => if r.isActive then kept available r else r) ∧ r.isActive = true) ↔
      (r ∈ table.rows ∧ r.isActive = true ∧ Offered e.checkers r) := by
  constructor
  · rintro ⟨hr, hactive⟩
    obtain ⟨r₀, hr₀, rfl⟩ := List.mem_map.mp hr
    by_cases hactive₀ : r₀.isActive = true
    · simp only [if_pos hactive₀] at hactive ⊢
      unfold kept at hactive ⊢
      by_cases hoffered : offered available r₀ = true
      · simp only [if_pos hoffered] at hactive ⊢
        exact ⟨hr₀, hactive, (havailable r₀).mp hoffered⟩
      · simp only [if_neg hoffered] at hactive
        cases hactive
    · simp only [if_neg hactive₀] at hactive
      exact absurd hactive hactive₀
  · rintro ⟨hr, hactive, hoffered⟩
    refine ⟨List.mem_map.mpr ⟨r, hr, ?_⟩, hactive⟩
    unfold kept
    rw [if_pos hactive, if_pos ((havailable r).mpr hoffered)]

theorem run_law (hnodup : NoDuplicates table) : Law settings table e (run settings table e).2 where
  keeps := by
    cases hanswer : (run settings table e).1 with
    | error error =>
      have hsame : (run settings table e).2 = table := perform_atomic settings e e.outside ⟨table, 0⟩ error hanswer
      rw [hsame]; exact List.prefix_refl _
    | ok n =>
      cases hrequest : e.request with
      | addCompilators checkerId =>
        obtain ⟨checker, infos, -, -, -, -, hadded⟩ := run_added hnodup hrequest hanswer
        exact hadded.keeps
      | disableCompilatorsWithoutRunner =>
        obtain ⟨-, available, -, hrows⟩ := run_disabled hrequest hanswer
        have hsame : (run settings table e).2.rows.map deactivate = table.rows.map deactivate := by
          rw [hrows, disabled_keys]
        unfold Keeps
        exact hsame ▸ List.prefix_refl _
  added checkerId n hrequest hanswer := by
    obtain ⟨checker, infos, hchecker, -, hinfos, hkeys, hadded⟩ := run_added hnodup hrequest hanswer
    exact ⟨checker, infos, hchecker, hinfos, hadded.synchronised hkeys hnodup, run_settled hnodup hadded hkeys⟩
  disabled n hrequest hanswer := by
    obtain ⟨-, available, havailable, hrows⟩ := run_disabled hrequest hanswer
    rw [hrows]
    exact ⟨disabled_keys, fun r => disabled_active havailable⟩
  threw error hanswer := by
    refine ⟨perform_atomic settings e e.outside ⟨table, 0⟩ error hanswer, ?_⟩
    have hthrows := run_throws hanswer
    unfold perform at hthrows
    unfold Refused
    cases hrequest : e.request with
    | addCompilators checkerId =>
      rw [hrequest] at hthrows
      exact addCompilators_throws hnodup hthrows
    | disableCompilatorsWithoutRunner =>
      rw [hrequest] at hthrows
      exact disable_throws hthrows
  refused hrefused := by
    cases hanswer : (run settings table e).1 with
    | error error => exact ⟨error, rfl⟩
    | ok n =>
      unfold Refused at hrefused
      cases hrequest : e.request with
      | addCompilators checkerId =>
        rw [hrequest] at hrefused
        obtain ⟨checker, infos, hchecker, hsuccess, -⟩ := run_added hnodup hrequest hanswer
        exact absurd hsuccess (hrefused checker hchecker)
      | disableCompilatorsWithoutRunner =>
        rw [hrequest] at hrefused
        obtain ⟨x, hx, htesting⟩ := hrefused
        rw [(run_disabled hrequest hanswer).1 x hx] at htesting
        cases htesting

end Step

/-- Over any calls, with any checkers connected at each. -/
theorem table_synchronised (settings : Settings) (table : CompilatorTable) (hnodup : NoDuplicates table)
    (es : List Event) : Always (step settings) NoDuplicates table es ∧
      Along (step settings) (Law settings) table es := by
  have hkept : Always (step settings) NoDuplicates table es := by
    refine always_of_inv (fun table e table' hnodup hstep => ?_) hnodup es
    obtain rfl := Option.some.inj hstep
    exact run_noDuplicates hnodup
  refine ⟨hkept, along_of_inv (fun table e table' hnodup hstep => ?_) hkept⟩
  obtain rfl := Option.some.inj hstep
  exact run_law hnodup

/-! ### A runner with a new version of its compilator -/

def sampleService : CheckerService :=
  ⟨⟨"0", "runner", ["gcc"]⟩, [SelfTests.sampleConfiguration "gcc"],
    [⟨"sum", "C", [], "source", "", "", .fromSeconds 1, 64, SelfTests.sampleChecker, .accepted⟩], [],
    SelfTests.sampleService.simpleCheckers_ids⟩

def sampleOutcome : SelfTests.Ended Exclusive.Output :=
  Lib.Program.Prog.solo (Exclusive.program sampleService SelfTests.samplePlatform .runSelfTests)
    sampleService.initialFields
    fun _ => .ok ⟨.completed, 0, [], [], ⟨0, 0, 0, 0, 0⟩⟩

def sampleCheckers : Checkers where
  values := [⟨sampleService, SelfTests.samplePlatform, sampleOutcome.fields,
    fun _ => .call .runSelfTests .new (Lib.Program.Prog.may_solo _ _ _)⟩]
  ids := List.nodup_singleton _
  names x hx := by
    obtain rfl := List.mem_singleton.mp hx
    decide

def sampleSettings : Settings := ⟨fun _ => ".c", fun _ => "gcc"⟩

def sampleTable : CompilatorTable where
  rows := [⟨⟨0, "gcc", some "old", true⟩, "C", "gcc", ".c", "gcc"⟩]
  next := 1
  below r hr := by
    obtain rfl := List.mem_singleton.mp hr
    decide
  keys := by simp

def calm : Outside Exn := ⟨fun _ => none, fun _ => false, fun _ => 0⟩

def sampleCalls : List Event :=
  [⟨.addCompilators "0", sampleCheckers, calm⟩, ⟨.addCompilators "1", sampleCheckers, calm⟩,
    ⟨.disableCompilatorsWithoutRunner, sampleCheckers, calm⟩]

theorem sample_synchronised : Always (step sampleSettings) NoDuplicates sampleTable sampleCalls ∧
    Along (step sampleSettings) (Law sampleSettings) sampleTable sampleCalls :=
  table_synchronised sampleSettings sampleTable (List.nodup_singleton _) sampleCalls

example : ((final (step sampleSettings) sampleTable sampleCalls).rows.map fun r => (r.id, r.isActive)) =
    [(0, false), (1, true)] := by decide +kernel

end OlympSystem.Site.CompilatorSynchronization
