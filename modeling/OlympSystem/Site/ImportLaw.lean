/-
  OlympSystem.Site.ImportLaw — what `ImportAsync` does to the database.

  An import that returns has put the archive's problems into the contest, by number: a
  problem that was there keeps its id, its statement text and its submissions and gets the
  archive's data and tests; the others are added; everything else is as it was. An import
  that throws changes nothing, wherever it throws.

  Proved:
  - `importProblems_eq`: the loop over the archive as one map over the loaded problems,
    and the problems it adds.
  - `imported_rows`: the rows of the problems after the save.
  - `import_law`: the above, and that importing the archive again changes no more than the
    ids of tests.
-/

import OlympSystem.Site.ContestProblemService

namespace OlympSystem.Site.ImportLaw

open Lib.Tables Lib.Dictionaries Lib.Query ProblemArchive

/-! ## The loop over the archive -/

structure Importable (isSchool : Bool) (supported : List Int) (item : ImportedProblem) : Prop where
  checker : item.manifest.checkerId ∈ supported
  closed : ¬(isSchool = true ∧ item.manifest.scores = none ∧ item.manifest.openTestCount = item.tests.length)

/-- A pass of the loop that does not throw. -/
def advance (isSchool : Bool) (contestId : Int) (tracker : Tracker) (item : ImportedProblem) : Tracker where
  existing := tracker.existing.map fun problem =>
    if hasNumber item.manifest.number problem then problem.replace isSchool item else problem
  added := tracker.added ++
    if tracker.existing.any (hasNumber item.manifest.number) then [] else [newProblem isSchool contestId item]

section Loop

variable {isSchool : Bool} {contestId : Int} {supported : List Int}

theorem importable_of_ok {tracker tracker' : Tracker} {item : ImportedProblem}
    (h : importProblem isSchool contestId supported tracker item = .ok tracker') :
    Importable isSchool supported item := by
  unfold importProblem at h
  simp only at h
  split at h
  · cases h
  · rename_i hchecker
    split at h
    · cases h
    · rename_i hclosed
      simp only [Bool.not_eq_true, Bool.not_eq_false', List.contains_iff_mem] at hchecker
      refine ⟨hchecker, fun ⟨hs, hnone, hopen⟩ => hclosed ?_⟩
      simp [hs, hnone, hopen]

theorem importProblem_eq {tracker : Tracker} {item : ImportedProblem} (h : Importable isSchool supported item)
    (hn : (tracker.existing.map (·.current.number)).Nodup) :
    importProblem isSchool contestId supported tracker item = .ok (advance isSchool contestId tracker item) := by
  have hchecker : (!supported.contains item.manifest.checkerId) = false := by simp [h.checker]
  have hclosed : (isSchool && item.manifest.scores.isNone &&
      item.manifest.openTestCount == (item.tests.length : Int)) = false := by
    have := h.closed
    simp only [Bool.and_eq_false_iff, beq_eq_false_iff_ne, ne_eq]
    by_cases hs : isSchool = true
    · by_cases hnone : item.manifest.scores = none
      · exact Or.inr fun hopen => this ⟨hs, hnone, hopen⟩
      · exact Or.inl (Or.inr (by simpa [Option.isSome_iff_ne_none] using hnone))
    · exact Or.inl (Or.inl (by simpa using hs))
  unfold importProblem
  simp only [hchecker, hclosed, Bool.false_eq_true, if_false]
  unfold singleOrDefault advance
  cases hf : tracker.existing.filter (hasNumber item.manifest.number) with
  | nil =>
    have hnone : ∀ p ∈ tracker.existing, hasNumber item.manifest.number p = false := by
      simpa using List.filter_eq_nil_iff.mp hf
    have hany : tracker.existing.any (hasNumber item.manifest.number) = false := by simpa using hnone
    have hmap : (tracker.existing.map fun problem =>
        if hasNumber item.manifest.number problem then problem.replace isSchool item else problem) =
          tracker.existing := by
      conv_rhs => rw [← List.map_id tracker.existing]
      exact List.map_congr_left fun p hp => by simp [hnone p hp]
    simp only [hany, hmap, Bool.false_eq_true, if_false]
  | cons p rest =>
    have hp : p ∈ tracker.existing.filter (hasNumber item.manifest.number) := hf ▸ List.mem_cons_self
    have hany : tracker.existing.any (hasNumber item.manifest.number) = true :=
      List.any_eq_true.mpr ⟨p, (List.mem_filter.mp hp).1, (List.mem_filter.mp hp).2⟩
    cases rest with
    | nil => simp only [hany, if_true, List.append_nil]
    | cons q rest =>
      -- two loaded problems with the number
      have hsub := (List.filter_sublist (l := tracker.existing) (p := hasNumber item.manifest.number)).map
        (·.current.number)
      have hnodup := hn.sublist hsub
      have hq : q ∈ tracker.existing.filter (hasNumber item.manifest.number) :=
        hf ▸ List.mem_cons_of_mem _ List.mem_cons_self
      have hpn := beq_iff_eq.mp (List.mem_filter.mp hp).2
      have hqn := beq_iff_eq.mp (List.mem_filter.mp hq).2
      rw [hf] at hnodup
      simp [hpn, hqn] at hnodup

theorem numbers_advance (tracker : Tracker) (item : ImportedProblem) :
    (advance isSchool contestId tracker item).existing.map (·.current.number) =
      tracker.existing.map (·.current.number) := by
  unfold advance
  rw [List.map_map]
  refine List.map_congr_left fun p _ => ?_
  simp only [Function.comp_apply]
  split
  · rename_i h; exact (beq_iff_eq.mp h).symm
  · rfl

theorem importProblems_eq : ∀ {items : List ImportedProblem} {tracker : Tracker},
    (∀ item ∈ items, Importable isSchool supported item) → (tracker.existing.map (·.current.number)).Nodup →
      importProblems isSchool contestId supported tracker items =
        .ok (items.foldl (advance isSchool contestId) tracker) := by
  intro items
  induction items with
  | nil => intro tracker _ _; rfl
  | cons item items ih =>
    intro tracker h hn
    unfold importProblems
    rw [importProblem_eq (h item List.mem_cons_self) hn]
    exact ih (fun i hi => h i (List.mem_cons_of_mem _ hi)) (by rw [numbers_advance]; exact hn)

theorem importProblems_importable : ∀ {items : List ImportedProblem} {tracker tracker' : Tracker},
    importProblems isSchool contestId supported tracker items = .ok tracker' →
      ∀ item ∈ items, Importable isSchool supported item := by
  intro items
  induction items with
  | nil => intro _ _ _ item hi; cases hi
  | cons item items ih =>
    intro tracker tracker' h i hi
    obtain ⟨next, hnext, hrest⟩ := bind_eq_ok.mp h
    rcases List.mem_cons.mp hi with rfl | hi
    · exact importable_of_ok hnext
    · exact ih hrest i hi

def replaced (isSchool : Bool) (items : List ImportedProblem) (problem : TrackedProblem) : TrackedProblem :=
  match items.find? (·.manifest.number == problem.current.number) with
  | none => problem
  | some item => problem.replace isSchool item

theorem replaced_cons {item : ImportedProblem} {items : List ImportedProblem}
    (hn : ((item :: items).map (·.manifest.number)).Nodup) (problem : TrackedProblem) :
    replaced isSchool items (if hasNumber item.manifest.number problem then problem.replace isSchool
      item else problem) =
      replaced isSchool (item :: items) problem := by
  by_cases h : problem.current.number = item.manifest.number
  · have hhas : hasNumber item.manifest.number problem = true := beq_iff_eq.mpr h
    have hnone : items.find? (·.manifest.number == (problem.replace isSchool item).current.number) = none := by
      refine List.find?_eq_none.mpr fun x hx heq => ?_
      have hnew := (List.nodup_cons.mp hn).1
      have hxn : x.manifest.number = item.manifest.number := beq_iff_eq.mp heq
      exact hnew (List.mem_map.mpr ⟨x, hx, hxn⟩)
    rw [if_pos hhas]
    unfold replaced
    rw [hnone, List.find?_cons, h, beq_self_eq_true]
  · have hhas : hasNumber item.manifest.number problem = false := beq_eq_false_iff_ne.mpr h
    have hne : (item.manifest.number == problem.current.number) = false := beq_eq_false_iff_ne.mpr (Ne.symm h)
    rw [if_neg (by simp [hhas])]
    unfold replaced
    rw [List.find?_cons, hne]

/-- The problems of the archive that none of the loaded ones has the number of. -/
def newItems (existing : List TrackedProblem) (items : List ImportedProblem) : List ImportedProblem :=
  items.filter fun item => !existing.any (hasNumber item.manifest.number)

theorem newItems_congr {existing existing' : List TrackedProblem}
    (h : existing.map (·.current.number) = existing'.map (·.current.number)) (items : List ImportedProblem) :
    newItems existing items = newItems existing' items := by
  unfold newItems
  refine List.filter_congr fun item _ => ?_
  have hany : ∀ l : List TrackedProblem, l.any (hasNumber item.manifest.number) =
      (l.map (·.current.number)).any (· == item.manifest.number) := by
    intro l; rw [List.any_map]; rfl
  rw [hany, hany, h]

theorem advance_all : ∀ {items : List ImportedProblem} {tracker : Tracker}, (items.map (·.manifest.number)).Nodup →
    items.foldl (advance isSchool contestId) tracker =
      ⟨tracker.existing.map (replaced isSchool items),
        tracker.added ++ (newItems tracker.existing items).map (newProblem isSchool contestId)⟩ := by
  intro items
  induction items with
  | nil =>
    intro tracker _
    have hid : tracker.existing.map (replaced isSchool []) = tracker.existing := List.map_id _
    rw [hid]; simp [newItems]
  | cons item items ih =>
    intro tracker hn
    rw [List.foldl_cons, ih (List.nodup_cons.mp hn).2]
    have hexisting : (advance isSchool contestId tracker item).existing.map (replaced isSchool items) =
        tracker.existing.map (replaced isSchool (item :: items)) := by
      unfold advance
      rw [List.map_map]
      exact List.map_congr_left fun p _ => replaced_cons hn p
    have hnew : newItems (advance isSchool contestId tracker item).existing items = newItems tracker.existing items :=
      newItems_congr (numbers_advance tracker item) items
    rw [hexisting, hnew]
    congr 1
    unfold advance newItems
    rw [List.filter_cons, List.append_assoc]
    congr 1
    cases tracker.existing.any (hasNumber item.manifest.number) <;> simp

end Loop

/-! ## The save -/

/-- The tables an import does not write. -/
structure SameBut (db db' : Db) : Prop where
  contests : db'.contests = db.contests
  compilators : db'.compilators = db.compilators
  checkers : db'.checkers = db.checkers
  submissions : db'.submissions = db.submissions
  checkResults : db'.checkResults = db.checkResults

theorem SameBut.refl (db : Db) : SameBut db db := ⟨rfl, rfl, rfl, rfl, rfl⟩

theorem SameBut.trans {db₁ db₂ db₃ : Db} (h : SameBut db₁ db₂) (h' : SameBut db₂ db₃) : SameBut db₁ db₃ :=
  ⟨h'.contests.trans h.contests, h'.compilators.trans h.compilators, h'.checkers.trans h.checkers,
    h'.submissions.trans h.submissions, h'.checkResults.trans h.checkResults⟩

theorem saveExisting_same : ∀ (problems : List TrackedProblem) (db : Db),
    SameBut db (problems.foldl saveExisting db) := by
  intro problems
  induction problems with
  | nil => exact SameBut.refl
  | cons problem problems ih =>
    intro db
    have hone : SameBut db (saveExisting db problem) := ⟨rfl, rfl, rfl, rfl, rfl⟩
    exact hone.trans (ih _)

theorem saveAdded_same : ∀ (problems : List TrackedProblem) (db : Db), SameBut db (problems.foldl saveAdded db) := by
  intro problems
  induction problems with
  | nil => exact SameBut.refl
  | cons problem problems ih =>
    intro db
    have hone : SameBut db (saveAdded db problem) := ⟨rfl, rfl, rfl, rfl, rfl⟩
    exact hone.trans (ih _)

theorem saveChanges_same (db : Db) (tracker : Tracker) : SameBut db (saveChanges db tracker) :=
  (saveExisting_same _ _).trans (saveAdded_same _ _)

/-- The rows after the loaded problems are saved; none changes that was not loaded. -/
theorem saveExisting_rows : ∀ (problems : List TrackedProblem) (db : Db),
    ∃ f : ProblemRow → ProblemRow, (problems.foldl saveExisting db).problems.rows = db.problems.rows.map f ∧
      (problems.foldl saveExisting db).problems.next = db.problems.next ∧
      (∀ row, (∀ problem ∈ problems, problem.original.id ≠ row.id) → f row = row) ∧
      ((problems.map (·.original.id)).Nodup →
        ∀ problem ∈ problems, ∀ row, row.id = problem.original.id → ∃ next, f row = problem.write next row) := by
  intro problems
  induction problems with
  | nil => intro db; exact ⟨id, (List.map_id _).symm, rfl, fun _ _ => rfl, fun _ _ h => (nomatch h)⟩
  | cons problem problems ih =>
    intro db
    obtain ⟨f, hrows, hnext, hother, hwritten⟩ := ih (saveExisting db problem)
    let g : ProblemRow → ProblemRow := fun row =>
      if row.id == problem.original.id then problem.write db.nextTest row else row
    have hg : (saveExisting db problem).problems.rows = db.problems.rows.map g := rfl
    have hgother : ∀ row : ProblemRow, row.id ≠ problem.original.id → g row = row := by
      intro row hne
      simp only [g, beq_eq_false_iff_ne.mpr hne, Bool.false_eq_true, if_false]
    refine ⟨f ∘ g, ?_, hnext, fun row hrow => ?_, fun hn problem' hmem row hrow => ?_⟩
    · rw [List.foldl_cons, hrows, hg, List.map_map]
    · rw [Function.comp_apply, hgother row (Ne.symm (hrow problem List.mem_cons_self))]
      exact hother row fun problem' h => hrow problem' (List.mem_cons_of_mem _ h)
    · obtain ⟨hnew, hn⟩ := List.nodup_cons.mp hn
      rcases List.mem_cons.mp hmem with rfl | hmem
      · have hgrow : g row = problem'.write db.nextTest row := by simp only [g, hrow, beq_self_eq_true, if_true]
        rw [Function.comp_apply, hgrow]
        refine ⟨db.nextTest, hother _ fun q hq heq => hnew ?_⟩
        have hid : q.original.id = problem'.original.id := heq.trans hrow
        exact List.mem_map.mpr ⟨q, hq, hid⟩
      · have hne : row.id ≠ problem.original.id := fun heq =>
          hnew (List.mem_map.mpr ⟨problem', hmem, hrow.symm.trans heq⟩)
        rw [Function.comp_apply, hgother row hne]
        exact hwritten hn problem' hmem row hrow

/-- The row of an added problem, made at some point of the save. -/
def IsAdded (next : Int) (problem : TrackedProblem) (row : ProblemRow) : Prop :=
  next ≤ row.id ∧ ∃ id nextTest, row = addedProblem.make (problem, nextTest) id

theorem saveAdded_rows : ∀ (problems : List TrackedProblem) (db : Db),
    ∃ new, (problems.foldl saveAdded db).problems.rows = db.problems.rows ++ new ∧
      List.Forall₂ (IsAdded db.problems.next) problems new := by
  intro problems
  induction problems with
  | nil => intro db; exact ⟨[], (List.append_nil _).symm, List.Forall₂.nil⟩
  | cons problem problems ih =>
    intro db
    obtain ⟨new, hrows, hnew⟩ := ih (saveAdded db problem)
    let row := addedProblem.make (problem, db.nextTest) db.problems.next
    have hrow : (saveAdded db problem).problems.rows = db.problems.rows ++ [row] := rfl
    have hnext : (saveAdded db problem).problems.next = db.problems.next + 1 := rfl
    refine ⟨row :: new, ?_, List.Forall₂.cons ?_ ?_⟩
    · rw [List.foldl_cons, hrows, hrow, List.append_assoc]; rfl
    · exact ⟨le_of_eq (addedProblem.keyed _ _).symm, _, _, rfl⟩
    · refine hnew.imp fun p r h => ⟨?_, h.2⟩
      have := h.1
      omega

/-- A problem that was not loaded is as it was. -/
theorem saveChanges_other {db : Db} {tracker : Tracker} {row : ProblemRow} (hrow : row ∈ db.problems.rows)
    (h : row.id ∉ tracker.existing.map (·.original.id)) : row ∈ (saveChanges db tracker).problems.rows := by
  obtain ⟨f, hrows, -, hother, -⟩ := saveExisting_rows tracker.existing db
  obtain ⟨new, hrows', -⟩ := saveAdded_rows tracker.added (tracker.existing.foldl saveExisting db)
  have hf : f row = row := hother row fun problem hp heq => h (List.mem_map.mpr ⟨problem, hp, heq⟩)
  unfold saveChanges
  rw [hrows', hrows]
  exact List.mem_append_left _ (hf ▸ List.mem_map_of_mem hrow)

/-! ## The rows after an import -/

/-- The row of a problem the import wrote, with test ids from `next` on. -/
def importedRow (isSchool : Bool) (item : ImportedProblem) (row : ProblemRow) (next : Int) : ProblemRow :=
  { assign row item.manifest with tests := numbered next (importedTests isSchool item) }

theorem write_replace (isSchool : Bool) (item : ImportedProblem) (row : ProblemRow) (next : Int) :
    ((TrackedProblem.load row).replace isSchool item).write next row = importedRow isSchool item row next := by
  have hremoved : row.tests.filter (fun test => !(row.tests.map TestRow.id).contains test.id) = [] := by
    refine List.filter_eq_nil_iff.mpr fun test ht => ?_
    have : (row.tests.map TestRow.id).contains test.id = true := by
      rw [List.contains_iff_mem]; exact List.mem_map_of_mem ht
    simp only [this, Bool.not_true, Bool.false_eq_true, not_false_iff]
  simp only [TrackedProblem.write, TrackedProblem.replace, TrackedProblem.load, assign, saved_fresh, List.nil_append,
    hremoved, importedRow]

/-- A problem with the data and the tests of an archive's problem. -/
structure HasContent (isSchool : Bool) (item : ImportedProblem) (row : ProblemRow) : Prop where
  number : row.number = item.manifest.number
  name : row.name = item.manifest.name
  timeLimit : row.timeLimit = item.manifest.timeLimit
  slowTimeLimit : row.slowTimeLimit = item.manifest.slowTimeLimit.getD item.manifest.timeLimit
  memoryLimit : row.memoryLimit = item.manifest.memoryLimit
  checkerId : row.checkerId = item.manifest.checkerId
  isActive : row.isActive = item.manifest.isActive
  tests : row.tests.map TestRow.content = importedTests isSchool item

theorem numbered_content (next : Int) (tests : List TestContent) :
    (numbered next tests).map TestRow.content = tests := by
  refine List.ext_getElem? fun i => ?_
  simp only [numbered, List.getElem?_map, List.getElem?_mapIdx, Option.map_map]
  exact Option.map_id'

theorem importedRow_content (isSchool : Bool) (item : ImportedProblem) (row : ProblemRow) (next : Int) :
    HasContent isSchool item (importedRow isSchool item row next) :=
  ⟨rfl, rfl, rfl, rfl, rfl, rfl, rfl, numbered_content _ _⟩

section Rows

variable {isSchool : Bool} {contestId : Int} {db : Db} {items : List ImportedProblem}

def importedTracker (isSchool : Bool) (contestId : Int) (db : Db) (items : List ImportedProblem) : Tracker :=
  items.foldl (advance isSchool contestId)
    ⟨(ContestProblemService.existingProblems db contestId items).map TrackedProblem.load, []⟩

def addedItems (db : Db) (contestId : Int) (items : List ImportedProblem) : List ImportedProblem :=
  newItems ((ContestProblemService.existingProblems db contestId items).map TrackedProblem.load) items

theorem mem_existing {row : ProblemRow} : row ∈ ContestProblemService.existingProblems db contestId items ↔
    row ∈ db.problems.rows ∧ row.contestId = contestId ∧ ∃ item ∈ items, item.manifest.number = row.number := by
  simp [ContestProblemService.existingProblems]

theorem mem_addedItems {item : ImportedProblem} : item ∈ addedItems db contestId items ↔
    item ∈ items ∧ ∀ row ∈ db.problems.rows, row.contestId = contestId → row.number ≠ item.manifest.number := by
  simp only [addedItems, newItems, List.mem_filter, Bool.not_eq_true', List.any_eq_false, List.mem_map,
    mem_existing, forall_exists_index, and_imp, hasNumber, beq_iff_eq]
  refine and_congr_right fun hitem => ⟨fun h row hrow hc hn => ?_, fun h problem row hrow hc _ _ _ hload hn => ?_⟩
  · exact h _ row hrow hc item hitem hn.symm rfl hn
  · subst hload
    exact h row hrow hc hn

def IsNew (isSchool : Bool) (contestId next : Int) (item : ImportedProblem) (row : ProblemRow) : Prop :=
  IsAdded next (newProblem isSchool contestId item) row

theorem IsNew.content {next : Int} {item : ImportedProblem} {row : ProblemRow}
    (h : IsNew isSchool contestId next item row) :
    HasContent isSchool item row ∧ row.contestId = contestId ∧ row.text = none := by
  obtain ⟨-, id, nextTest, rfl⟩ := h
  exact ⟨⟨rfl, rfl, rfl, rfl, rfl, rfl, rfl, numbered_content _ _⟩, rfl, rfl⟩

/-- The rows of the problems after an import: `f` of those before, which replaces the loaded
    ones and leaves the others as they were, and the added ones. -/
structure ImportedRows (isSchool : Bool) (contestId : Int) (items : List ImportedProblem) (db db' : Db)
    (f : ProblemRow → ProblemRow) (new : List ProblemRow) : Prop where
  rows : db'.problems.rows = db.problems.rows.map f ++ new
  other : ∀ row ∈ db.problems.rows, row ∉ ContestProblemService.existingProblems db contestId items → f row = row
  replaced : ∀ row ∈ ContestProblemService.existingProblems db contestId items, ∃ item ∈ items,
    item.manifest.number = row.number ∧ ∃ next, f row = importedRow isSchool item row next
  new : List.Forall₂ (IsNew isSchool contestId db.problems.next) (addedItems db contestId items) new

theorem imported_rows (isSchool : Bool) (contestId : Int) (db : Db) (hitems : (items.map (·.manifest.number)).Nodup) :
    ∃ f new, ImportedRows isSchool contestId items db (saveChanges db (importedTracker isSchool contestId db items))
      f new := by
  have htracker : importedTracker isSchool contestId db items = _ := advance_all hitems
  let existing := ContestProblemService.existingProblems db contestId items
  let tracked := (existing.map TrackedProblem.load).map (replaced isSchool items)
  have hids : tracked.map (·.original.id) = existing.map ProblemRow.id := by
    rw [List.map_map, List.map_map]
    refine List.map_congr_left fun row _ => ?_
    simp only [Function.comp_apply, replaced]
    split <;> rfl
  have hnodup : (tracked.map (·.original.id)).Nodup := by
    rw [hids]
    exact db.problems.keys.sublist (List.filter_sublist.map _)
  obtain ⟨f, hrows, hnext, hother, hwritten⟩ := saveExisting_rows tracked db
  obtain ⟨new, hrows', hnew⟩ := saveAdded_rows ((addedItems db contestId items).map (newProblem isSchool contestId))
    (tracked.foldl saveExisting db)
  have hdb : saveChanges db (importedTracker isSchool contestId db items) =
      ((addedItems db contestId items).map (newProblem isSchool contestId)).foldl saveAdded
        (tracked.foldl saveExisting db) := by
    rw [htracker]; rfl
  rw [hdb]
  refine ⟨f, new, by rw [hrows', hrows], fun row hrow hnot => ?_, fun row hrow => ?_, ?_⟩
  · refine hother row fun problem hmem heq => hnot ?_
    have hid : row.id ∈ existing.map ProblemRow.id := hids ▸ List.mem_map.mpr ⟨problem, hmem, heq⟩
    obtain ⟨row', hrow', hid'⟩ := List.mem_map.mp hid
    rw [← db.problems.row_unique (mem_existing.mp hrow').1 hrow hid']
    exact hrow'
  · obtain ⟨-, -, item, hitem, hnumber⟩ := mem_existing.mp hrow
    cases hfind : items.find? (·.manifest.number == row.number) with
    | none => exact absurd (List.find?_eq_none.mp hfind item hitem) (by simp [hnumber])
    | some item =>
      have hnumber : item.manifest.number = row.number := by simpa using List.find?_some hfind
      have hload : replaced isSchool items (TrackedProblem.load row) =
          (TrackedProblem.load row).replace isSchool item := by
        unfold replaced
        rw [show (TrackedProblem.load row).current.number = row.number from rfl, hfind]
      have hmem : (TrackedProblem.load row).replace isSchool item ∈ tracked :=
        hload ▸ List.mem_map_of_mem (List.mem_map_of_mem hrow)
      obtain ⟨next, hnext⟩ := hwritten hnodup _ hmem row rfl
      exact ⟨item, List.mem_of_find?_eq_some hfind, hnumber, next, hnext.trans (write_replace isSchool item row next)⟩
  · rw [List.forall₂_map_left_iff, hnext] at hnew
    exact hnew

variable {db' : Db} {f : ProblemRow → ProblemRow} {new : List ProblemRow}

/-- The row of a loaded or another problem keeps what the archive does not give. -/
theorem ImportedRows.kept (h : ImportedRows isSchool contestId items db db' f new) {row : ProblemRow}
    (hrow : row ∈ db.problems.rows) :
    (f row).id = row.id ∧ (f row).contestId = row.contestId ∧ (f row).number = row.number ∧
    (f row).text = row.text := by
  by_cases hmem : row ∈ ContestProblemService.existingProblems db contestId items
  · obtain ⟨item, -, hnumber, next, hf⟩ := h.replaced row hmem
    rw [hf]
    exact ⟨rfl, rfl, hnumber, rfl⟩
  · rw [h.other row hrow hmem]
    exact ⟨rfl, rfl, rfl, rfl⟩

theorem ImportedRows.mem_old (h : ImportedRows isSchool contestId items db db' f new) {row : ProblemRow}
    (hrow : row ∈ db.problems.rows) : f row ∈ db'.problems.rows :=
  h.rows ▸ List.mem_append_left _ (List.mem_map_of_mem hrow)

theorem ImportedRows.mem_new (h : ImportedRows isSchool contestId items db db' f new) {row : ProblemRow}
    (hrow : row ∈ new) : row ∈ db'.problems.rows := h.rows ▸ List.mem_append_right _ hrow

theorem ImportedRows.cases (h : ImportedRows isSchool contestId items db db' f new) {row : ProblemRow}
    (hrow : row ∈ db'.problems.rows) : (∃ old ∈ db.problems.rows, f old = row) ∨ row ∈ new := by
  rw [h.rows] at hrow
  exact (List.mem_append.mp hrow).imp List.mem_map.mp id

end Rows

/-! ## The law -/

/-- What an import makes of a database. -/
structure Imported (isSchool : Bool) (contestId : Int) (items : List ImportedProblem) (db db' : Db) : Prop where
  /-- A problem with a number of the archive keeps its id and its statement text and gets
      the archive's data and tests. -/
  replaced : ∀ row ∈ db.problems.rows, row.contestId = contestId → ∀ item ∈ items,
    item.manifest.number = row.number → ∃ row' ∈ db'.problems.rows, row'.id = row.id ∧ row'.contestId = contestId ∧
      row'.text = row.text ∧ HasContent isSchool item row'
  /-- Every other problem of the archive is added, once. -/
  added : ∀ item ∈ items, (∀ row ∈ db.problems.rows, row.contestId = contestId → row.number ≠ item.manifest.number) →
    ∃ row' ∈ db'.problems.rows, (∀ row ∈ db.problems.rows, row.id ≠ row'.id) ∧ row'.contestId = contestId ∧
      row'.text = none ∧ HasContent isSchool item row' ∧
      ∀ row'' ∈ db'.problems.rows, row''.contestId = contestId → row''.number = item.manifest.number → row'' = row'
  /-- Problems with other numbers and of other contests are unchanged. -/
  others : ∀ row ∈ db.problems.rows,
    (row.contestId = contestId → ∀ item ∈ items, item.manifest.number ≠ row.number) → row ∈ db'.problems.rows
  /-- Nothing else is there. -/
  only : ∀ row' ∈ db'.problems.rows, (∃ row ∈ db.problems.rows, row.id = row'.id) ∨
    ∃ item ∈ items, row'.contestId = contestId ∧ row'.number = item.manifest.number
  /-- Submissions, check results, contests, checkers and compilators are as before. -/
  same : SameBut db db'

def withoutTestIds (row : ProblemRow) : ProblemRow :=
  { row with tests := (row.tests.map TestRow.content).map (TestRow.mk 0) }

structure SameUpToTestIds (db db' : Db) : Prop where
  problems : db'.problems.rows.map withoutTestIds = db.problems.rows.map withoutTestIds
  same : SameBut db db'

theorem HasContent.again {isSchool : Bool} {item : ImportedProblem} {row : ProblemRow}
    (h : HasContent isSchool item row)
    (next : Int) : withoutTestIds (importedRow isSchool item row next) = withoutTestIds row := by
  have htests : (importedRow isSchool item row next).tests.map TestRow.content = row.tests.map TestRow.content :=
    (numbered_content _ _).trans h.tests.symm
  unfold withoutTestIds
  rw [htests]
  simp only [importedRow, assign, ← h.number, ← h.name, ← h.timeLimit, ← h.memoryLimit, ← h.checkerId, ← h.isActive]
  rw [h.timeLimit, ← h.slowTimeLimit]

section Law

variable {isSchool : Bool} {contestId : Int} {db : Db} {items : List ImportedProblem} {db' : Db}
  {f : ProblemRow → ProblemRow} {new : List ProblemRow}

/-- What an archive replaces the second time: what it replaced, and what it added. -/
theorem ImportedRows.existing (h : ImportedRows isSchool contestId items db db' f new) :
    ContestProblemService.existingProblems db' contestId items =
      (ContestProblemService.existingProblems db contestId items).map f ++ new := by
  let c : ProblemRow → Bool := fun x =>
    x.contestId == contestId && (items.map (·.manifest.number)).contains x.number
  have hold : (db.problems.rows.map f).filter c = (db.problems.rows.filter c).map f := by
    rw [List.filter_map]
    congr 1
    refine List.filter_congr fun row hrow => ?_
    obtain ⟨-, hcontest, hnumber, -⟩ := h.kept hrow
    simp only [c, Function.comp_apply, hcontest, hnumber]
  have hall : new.filter c = new := by
    refine List.filter_eq_self.mpr fun row hrow => ?_
    obtain ⟨item, hitem, hisNew⟩ := (forall₂_exists h.new).2 row hrow
    obtain ⟨hcontent, hcontest, -⟩ := hisNew.content
    have hmem : row.number ∈ items.map (·.manifest.number) :=
      hcontent.number ▸ List.mem_map_of_mem (mem_addedItems.mp hitem).1
    simp only [c, hcontest, beq_self_eq_true, Bool.true_and, List.contains_iff_mem]
    exact hmem
  show db'.problems.rows.filter c = (db.problems.rows.filter c).map f ++ new
  rw [h.rows, List.filter_append, hold, hall]

theorem new_numbers {next : Int} {l : List ImportedProblem} (h : List.Forall₂ (IsNew isSchool contestId next) l new) :
    new.map ProblemRow.number = l.map (·.manifest.number) := by
  induction h with
  | nil => rfl
  | cons h _ ih => rw [List.map_cons, List.map_cons, ih, h.content.1.number]

/-- The contest has one problem for each number of the archive. -/
theorem ImportedRows.numbers (h : ImportedRows isSchool contestId items db db' f new)
    (hitems : (items.map (·.manifest.number)).Nodup)
    (hexisting : ((ContestProblemService.existingProblems db contestId items).map ProblemRow.number).Nodup) :
    ((ContestProblemService.existingProblems db' contestId items).map ProblemRow.number).Nodup := by
  have hkept : ((ContestProblemService.existingProblems db contestId items).map f).map ProblemRow.number =
      (ContestProblemService.existingProblems db contestId items).map ProblemRow.number := by
    rw [List.map_map]
    exact List.map_congr_left fun row hrow => (h.kept (mem_existing.mp hrow).1).2.2.1
  rw [h.existing, List.map_append, hkept, new_numbers h.new]
  refine List.nodup_append.mpr ⟨hexisting, hitems.sublist (List.filter_sublist.map _), ?_⟩
  intro n hn m hm heq
  subst heq
  obtain ⟨row, hrow, hrown⟩ := List.mem_map.mp hn
  obtain ⟨item, hitem, hitemn⟩ := List.mem_map.mp hm
  obtain ⟨hrow, hcontest, -⟩ := mem_existing.mp hrow
  exact (mem_addedItems.mp hitem).2 row hrow hcontest (hrown.trans hitemn.symm)

/-- Every problem with a number of the archive has its content. -/
theorem ImportedRows.content (h : ImportedRows isSchool contestId items db db' f new) {row' : ProblemRow}
    (hrow' : row' ∈ ContestProblemService.existingProblems db' contestId items) :
    ∃ item ∈ items, item.manifest.number = row'.number ∧ HasContent isSchool item row' := by
  obtain ⟨hrow', hcontest, item, hitem, hnumber⟩ := mem_existing.mp hrow'
  rcases h.cases hrow' with ⟨row, hrow, rfl⟩ | hnew
  · obtain ⟨-, hc, hn, -⟩ := h.kept hrow
    obtain ⟨item', hitem', hnumber', next, hf⟩ := h.replaced row
      (mem_existing.mpr ⟨hrow, hc.symm.trans hcontest, item, hitem, hnumber.trans hn⟩)
    exact ⟨item', hitem', hnumber'.trans hn.symm, hf ▸ importedRow_content _ _ _ _⟩
  · obtain ⟨item', hitem', hisNew⟩ := (forall₂_exists h.new).2 row' hnew
    exact ⟨item', (mem_addedItems.mp hitem').1, hisNew.content.1.number.symm, hisNew.content.1⟩

theorem ImportedRows.imported (h : ImportedRows isSchool contestId items db db' f new) (hsame : SameBut db db')
    (hitems : (items.map (·.manifest.number)).Nodup)
    (hnumbers : ((ContestProblemService.existingProblems db' contestId items).map ProblemRow.number).Nodup) :
    Imported isSchool contestId items db db' where
  same := hsame
  replaced row hrow hc item hitem hn := by
    obtain ⟨hid, hc', hn', htext⟩ := h.kept hrow
    have hmem := mem_existing.mpr ⟨h.mem_old hrow, hc'.trans hc, item, hitem, hn.trans hn'.symm⟩
    obtain ⟨item', hitem', hnumber', hcontent⟩ := h.content hmem
    have hsameItem : item' = item :=
      List.inj_on_of_nodup_map hitems hitem' hitem (hnumber'.trans (hn'.trans hn.symm))
    exact ⟨f row, h.mem_old hrow, hid, hc'.trans hc, htext, hsameItem ▸ hcontent⟩
  added item hitem hfree := by
    obtain ⟨row', hrow', hisNew⟩ := (forall₂_exists h.new).1 item (mem_addedItems.mpr ⟨hitem, hfree⟩)
    obtain ⟨hcontent, hc, htext⟩ := hisNew.content
    have hin := h.mem_new hrow'
    refine ⟨row', hin, fun row hrow heq => ?_, hc, htext, hcontent, fun other hotherIn hotherc hothern => ?_⟩
    · have hlt := db.problems.below row hrow
      have hge := hisNew.1
      omega
    · exact List.inj_on_of_nodup_map hnumbers (mem_existing.mpr ⟨hotherIn, hotherc, item, hitem, hothern.symm⟩)
        (mem_existing.mpr ⟨hin, hc, item, hitem, hcontent.number.symm⟩) (hothern.trans hcontent.number.symm)
  others row hrow hnot := by
    have hnotmem : row ∉ ContestProblemService.existingProblems db contestId items := by
      intro hmem
      obtain ⟨-, hc, item, hitem, hn⟩ := mem_existing.mp hmem
      exact hnot hc item hitem hn
    exact h.other row hrow hnotmem ▸ h.mem_old hrow
  only row' hrow' := by
    rcases h.cases hrow' with ⟨row, hrow, rfl⟩ | hnew
    · exact Or.inl ⟨row, hrow, (h.kept hrow).1.symm⟩
    · obtain ⟨item, hitem, hisNew⟩ := (forall₂_exists h.new).2 row' hnew
      exact Or.inr ⟨item, (mem_addedItems.mp hitem).1, hisNew.content.2.1, hisNew.content.1.number⟩

/-- The second time, nothing is added. -/
theorem ImportedRows.none_added (h : ImportedRows isSchool contestId items db db' f new) :
    addedItems db' contestId items = [] := by
  refine List.eq_nil_iff_forall_not_mem.mpr fun item hmem => ?_
  obtain ⟨hitem, hfree⟩ := mem_addedItems.mp hmem
  by_cases hin : item ∈ addedItems db contestId items
  · obtain ⟨row', hrow', hisNew⟩ := (forall₂_exists h.new).1 item hin
    exact hfree row' (h.mem_new hrow') hisNew.content.2.1 hisNew.content.1.number
  · refine hin (mem_addedItems.mpr ⟨hitem, fun row hrow hc hn => ?_⟩)
    obtain ⟨-, hc', hn', -⟩ := h.kept hrow
    exact hfree (f row) (h.mem_old hrow) (hc'.trans hc) (hn'.trans hn)

/-- The second time, the problems are as idle as the first time. -/
theorem ImportedRows.idle (h : ImportedRows isSchool contestId items db db' f new) (hsame : SameBut db db')
    (hidle : db.isBusy ((ContestProblemService.existingProblems db contestId items).map ProblemRow.id) = false) :
    db'.isBusy ((ContestProblemService.existingProblems db' contestId items).map ProblemRow.id) = false := by
  rw [Db.isBusy_eq_false] at hidle ⊢
  intro submission hsub hmem
  rw [hsame.submissions] at hsub
  obtain ⟨row', hrow', hid⟩ := List.mem_map.mp hmem
  rw [h.existing] at hrow'
  rcases List.mem_append.mp hrow' with hold | hnew
  · obtain ⟨row, hrow, rfl⟩ := List.mem_map.mp hold
    have hkept := (h.kept (mem_existing.mp hrow).1).1
    exact hidle submission hsub (List.mem_map.mpr ⟨row, hrow, hkept.symm.trans hid⟩)
  · -- a problem the import added has no submissions
    obtain ⟨item, -, hisNew⟩ := (forall₂_exists h.new).2 row' hnew
    have hlt := Db.submission_problem_lt hsub
    have hge := hisNew.1
    omega

/-- Importing once more what a database has got from an archive changes the ids of tests
    at most. -/
theorem saved_again (hitems : (items.map (·.manifest.number)).Nodup)
    (hcontent : ∀ row ∈ ContestProblemService.existingProblems db contestId items, ∃ item ∈ items,
      item.manifest.number = row.number ∧ HasContent isSchool item row)
    (hadded : addedItems db contestId items = []) :
    SameUpToTestIds db (saveChanges db (importedTracker isSchool contestId db items)) := by
  obtain ⟨f, new, hrows, hother, hreplaced, hnew⟩ := imported_rows isSchool contestId db hitems
  rw [hadded, List.forall₂_nil_left_iff] at hnew
  refine ⟨?_, saveChanges_same _ _⟩
  rw [hrows, hnew, List.append_nil, List.map_map]
  refine List.map_congr_left fun row hrow => ?_
  rw [Function.comp_apply]
  by_cases hmem : row ∈ ContestProblemService.existingProblems db contestId items
  · obtain ⟨item, hitem, hnumber, next, hf⟩ := hreplaced row hmem
    obtain ⟨item', hitem', hnumber', hrow⟩ := hcontent row hmem
    have hsameItem : item' = item := List.inj_on_of_nodup_map hitems hitem' hitem (hnumber'.trans hnumber.symm)
    rw [hf]
    exact (hsameItem ▸ hrow).again next
  · rw [hother row hrow hmem]

end Law

section Service

variable (service : ContestProblemService) {contestId : Int} {db : Db} {items : List ImportedProblem}

theorem single_ok {α : Type} {p : α → Bool} {l : List α} {a : α} (h : single p l = .ok a) : a ∈ l ∧ p a = true := by
  unfold single at h
  split at h <;> cases h
  rename_i hf
  exact List.mem_filter.mp (hf ▸ List.mem_cons_self)

theorem awaiting_ok {α : Type} {fault : Faults} {a : Await} {outcome : Except Exn α} {r : α}
    (h : awaiting fault a outcome = .ok r) : outcome = .ok r := by
  unfold awaiting at h
  split at h
  · cases h
  · exact h

theorem ensureIdle_ok {db : Db} {problemIds : List Int} {u : Unit} :
    ensureIdle db problemIds = .ok u ↔ db.isBusy problemIds = false := by
  unfold ensureIdle
  cases db.isBusy problemIds <;> simp

theorem supported_congr {db' : Db} (h : SameBut db db') : service.supported db' = service.supported db := by
  unfold ContestProblemService.supported
  rw [h.checkers]

/-- What an import that gets to `SaveChanges` has found. -/
structure Prepared (contest : ContestRow) (db : Db) (contestId : Int) (items : List ImportedProblem) : Prop where
  found : single (·.id == contestId) db.contests.rows = .ok contest
  numbers : ((ContestProblemService.existingProblems db contestId items).map ProblemRow.number).Nodup
  idle : db.isBusy ((ContestProblemService.existingProblems db contestId items).map ProblemRow.id) = false
  importable : ∀ item ∈ items, Importable (contest.isSchool service.culture) (service.supported db) item

theorem tracked_numbers : ((ContestProblemService.existingProblems db contestId items).map TrackedProblem.load).map
    (·.current.number) = (ContestProblemService.existingProblems db contestId items).map ProblemRow.number := by
  rw [List.map_map]; rfl

theorem prepareImport_ok {fault : Faults} {tracker : Tracker}
    (h : service.prepareImport fault db contestId items = .ok tracker) :
    ∃ contest, Prepared service contest db contestId items ∧
      tracker = importedTracker (contest.isSchool service.culture) contestId db items := by
  unfold ContestProblemService.prepareImport at h
  simp only [bind_eq_ok] at h
  obtain ⟨contest, hcontest, existing, hexisting, h⟩ := h
  cases awaiting_ok hexisting
  split at h
  · cases h
  · rename_i hdistinct
    simp only [bind_eq_ok] at h
    obtain ⟨u, hidle, supported, hsupported, h⟩ := h
    cases awaiting_ok hsupported
    have hnumbers := (groupBy_distinct _ _).mp (Bool.eq_false_iff.mpr hdistinct)
    have himportable := importProblems_importable h
    rw [importProblems_eq himportable (by rw [tracked_numbers]; exact hnumbers)] at h
    cases h
    exact ⟨contest, ⟨awaiting_ok hcontest, hnumbers, ensureIdle_ok.mp (awaiting_ok hidle), himportable⟩, rfl⟩

theorem prepareImport_eq {contest : ContestRow} (h : Prepared service contest db contestId items) :
    service.prepareImport noFaults db contestId items =
      .ok (importedTracker (contest.isSchool service.culture) contestId db items) := by
  have hdistinct := (groupBy_distinct _ _).mpr h.numbers
  have hidle := (ensureIdle_ok (u := ())).mpr h.idle
  unfold ContestProblemService.prepareImport
  simp only [awaiting, noFaults, h.found]
  show (if _ then _ else _) = _
  rw [hdistinct]
  simp only [Bool.false_eq_true, if_false, hidle]
  exact importProblems_eq h.importable (by rw [tracked_numbers]; exact h.numbers)

/-- Every call of `ImportAsync`, on every database, contest and archive, whatever fails. -/
theorem import_law (fault : Faults) (db : Db) (contestId : Int) (source : Except Exn (List ZipEntry)) :
    match service.importAsync fault db contestId source with
    | (.error _, db') => db' = db
    | (.ok count, db') => ∃ items contest,
      readAsync service.options service.runtime source = .ok items ∧ count = items.length ∧
      contest ∈ db.contests.rows ∧ contest.id = contestId ∧
      Imported (contest.isSchool service.culture) contestId items db db' ∧
      ∃ db'', service.importAsync noFaults db' contestId source = (.ok count, db'') ∧ SameUpToTestIds db' db'' := by
  unfold ContestProblemService.importAsync
  cases hread : readAsync service.options service.runtime source with
  | error e => rfl
  | ok items =>
    simp only
    cases awaiting fault .enter (.ok ()) with
    | error e => rfl
    | ok u =>
      simp only
      cases hprepare : service.prepareImport fault db contestId items with
      | error e => rfl
      | ok tracker =>
        simp only
        cases hsave : awaiting fault .save (.ok (saveChanges db tracker)) with
        | error e => rfl
        | ok db' =>
          simp only
          cases awaiting_ok hsave
          obtain ⟨contest, hprepared, rfl⟩ := prepareImport_ok service hprepare
          obtain ⟨-, -, hitems⟩ := readAsync_accepted service.options service.runtime hread
          obtain ⟨f, new, hrows⟩ := imported_rows (contest.isSchool service.culture) contestId db hitems
          have hsame := saveChanges_same db (importedTracker (contest.isSchool service.culture) contestId db items)
          have hnumbers := hrows.numbers hitems hprepared.numbers
          obtain ⟨hcontest, hid⟩ := single_ok hprepared.found
          refine ⟨items, contest, rfl, rfl, hcontest, by simpa using hid, hrows.imported hsame hitems hnumbers, ?_⟩
          have hagain : Prepared service contest
              (saveChanges db (importedTracker (contest.isSchool service.culture) contestId db items))
                contestId items :=
            ⟨by rw [hsame.contests]; exact hprepared.found, hnumbers, hrows.idle hsame hprepared.idle,
              supported_congr service hsame ▸ hprepared.importable⟩
          rw [prepareImport_eq service hagain]
          exact ⟨_, rfl, saved_again hitems (fun _ => hrows.content) hrows.none_added⟩

end Service

end OlympSystem.Site.ImportLaw
