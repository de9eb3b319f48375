/-
  OlympSystem.Checker.MuseumChecker — `MuseumChecker.cs`.

  The jury input gives `n` and `m`, the user output the rows of a table of `n` columns with
  the numbers 0 to `m`. `toInt32` is `Convert.ToInt32`: nothing is assumed of which texts
  it reads and what it throws. A sequence is enumerated where the code enumerates it first.

  Proved:
  - `readRows_ok`: the loop over the lines gives the rows it has read, up to the blank end.
  - `column_iff`: the test of a column finds the permutations of 1 to `m`.
  - `museum_verdict`: which outputs are accepted; the checker never throws.
-/

import OlympSystem.Checker.TextCheckers
import OlympSystem.Lib.Query

namespace OlympSystem.Checker.MuseumChecker

open Lib.CodeUnits Lib.Query

variable (toInt32 : Units → Except Exn Int)

/-- `Split(' ').Select(v => Convert.ToInt32(v)).ToArray()`. -/
def numbers (line : Units) : Except Exn (List Int) := (split space line).mapM toInt32

def item (array : List Int) (i : Nat) : Except Exn Int :=
  match array[i]? with
  | some v => .ok v
  | none => .error .indexOutOfRange

def selectColumn (data : List (List Int)) (k : Nat) : Except Exn (List Int) := data.mapM fun row => item row k

/-- The loop over the lines: it returns a verdict, or ends with the rows. -/
def readRows (n m : Int) (reader : Units) (data : List (List Int)) :
    Except Exn (CheckerResultStatus ⊕ List (List Int)) :=
  match _h : readLine reader with
  | none => .ok (.inr data)
  | some (line, rest) =>
    if isBlank line then
      if isBlank rest then .ok (.inr data) else .ok (.inl .presentationError)
    else
      match numbers toInt32 (trimEnd space line) with
      | .error e => .error e
      | .ok arr =>
        if (arr.length : Int) ≠ n then .ok (.inl .presentationError)
        else if arr.any fun v => decide (v < 0) || decide (m < v) then .ok (.inl .wrongAnswer)
        else readRows n m rest (data ++ [arr])
termination_by reader.length
decreasing_by exact readLine_length _h

def nonzero (values : List Int) : List Int := values.filter fun v => decide (0 < v)

def repeats (values : List Int) : Bool := (nonzero values).length != (nonzero values).eraseDups.length

def checkColumns (m : Int) (data : List (List Int)) : List Nat → Except Exn CheckerResultStatus
  | [] => .ok .accepted
  | i :: rest => do
    let column ← selectColumn data i
    if repeats column || ((nonzero column).length : Int) != m then return .wrongAnswer
    checkColumns m data rest

def checkInternal (juryInput userOutput : Units) : Except Exn CheckerResultStatus := do
  let jline ← numbers toInt32 juryInput
  let n ← item jline 0
  let m ← item jline 1
  match ← readRows toInt32 n m userOutput [] with
  | .inl status => return status
  | .inr data =>
    if data.length = 0 then return .presentationError
    if (data.length : Int) ≠ max n m then return .wrongAnswer
    if data.any repeats then return .wrongAnswer
    checkColumns m data (List.range n.toNat)

def check (juryInput _juryOutput userOutput : Units) : Except Exn CheckerResultStatus :=
  match checkInternal toInt32 juryInput userOutput with
  | .ok status => .ok status
  | .error _ => .ok .presentationError

def simpleChecker : SimpleChecker :=
  ⟨3, fun juryInput juryOutput userOutput => check toInt32 (units juryInput) (units juryOutput) (units userOutput)⟩

/-! ## What is accepted -/

/-- The row of a line. -/
structure IsRow (n m : Int) (line : Units) (row : List Int) : Prop where
  visible : isBlank line = false
  read : numbers toInt32 (trimEnd space line) = .ok row
  length : (row.length : Int) = n
  entries : ∀ v ∈ row, 0 ≤ v ∧ v ≤ m

/-- The rows of a text: leading lines, and only blank lines after them. -/
def Rows (n m : Int) (text : Units) (rows : List (List Int)) : Prop :=
  ∃ lines blank, readLines text = lines ++ blank ∧ (∀ line ∈ blank, isBlank line = true) ∧
    List.Forall₂ (IsRow toInt32 n m) lines rows

/-- The entries of a column; a row without one has 0. -/
def column (data : List (List Int)) (k : Nat) : List Int := data.map fun row => row.getD k 0

def oneTo (m : Int) : List Int := (List.range m.toNat).map fun (i : Nat) => (i : Int) + 1

structure Arranged (n m : Int) (data : List (List Int)) : Prop where
  size : (data.length : Int) = max n m
  nonempty : 0 < max n m
  rows : ∀ row ∈ data, (row.filter (· ≠ 0)).Nodup
  columns : ∀ k : Nat, (k : Int) < n → ((column data k).filter (· ≠ 0)).Perm (oneTo m)

variable {toInt32} {n m : Int}

/-! ## The loop over the lines -/

theorem not_any_iff {arr : List Int} :
    (arr.any fun v => decide (v < 0) || decide (m < v)) = false ↔ ∀ v ∈ arr, 0 ≤ v ∧ v ≤ m := by
  simp [List.any_eq_false]

theorem rows_none {text : Units} (hread : readLine text = none) {rows : List (List Int)} :
    Rows toInt32 n m text rows ↔ rows = [] := by
  unfold Rows
  rw [readLines_none hread]
  constructor
  · intro h
    obtain ⟨lines, blank, hsplit, -, hrows⟩ := h
    rw [(List.append_eq_nil_iff.mp hsplit.symm).1] at hrows
    exact List.forall₂_nil_left_iff.mp hrows
  · intro h
    subst h
    exact ⟨[], [], rfl, nofun, .nil⟩

theorem rows_nil_of_blank {text line rest : Units} (hread : readLine text = some (line, rest))
    (hline : isBlank line = true)
    {rows : List (List Int)} : Rows toInt32 n m text rows ↔ rows = [] ∧ isBlank rest = true := by
  unfold Rows
  rw [readLines_some hread, readLines_blank]
  constructor
  · rintro ⟨lines, blank, hsplit, hblank, hrows⟩
    cases hrows with
    | nil =>
      rw [List.nil_append] at hsplit
      refine ⟨rfl, fun l hl => hblank l ?_⟩
      rw [← hsplit]
      exact List.mem_cons_of_mem _ hl
    | cons hrow _ =>
      obtain ⟨rfl, -⟩ := List.cons.inj hsplit
      rw [hrow.visible] at hline; cases hline
  · rintro ⟨rfl, hrest⟩
    refine ⟨[], line :: readLines rest, rfl, fun l hl => ?_, .nil⟩
    rcases List.mem_cons.mp hl with rfl | hl
    · exact hline
    · exact hrest l hl

theorem rows_cons {text line rest : Units} (hread : readLine text = some (line, rest)) (hline : isBlank line = false)
    {rows : List (List Int)} :
    Rows toInt32 n m text rows ↔ ∃ row more, rows = row :: more ∧ IsRow toInt32 n m line row ∧
      Rows toInt32 n m rest more := by
  unfold Rows
  rw [readLines_some hread]
  constructor
  · rintro ⟨lines, blank, hsplit, hblank, hrows⟩
    cases hrows with
    | nil =>
      rw [List.nil_append] at hsplit
      rw [hblank line (hsplit ▸ List.mem_cons_self)] at hline; cases hline
    | @cons l row lines more hrow hmore =>
      obtain ⟨rfl, hsame⟩ := List.cons.inj hsplit
      exact ⟨row, more, rfl, hrow, lines, blank, hsame, hblank, hmore⟩
  · rintro ⟨row, more, rfl, hrow, lines, blank, hsplit, hblank, hmore⟩
    exact ⟨line :: lines, blank, by rw [hsplit]; rfl, hblank, .cons hrow hmore⟩

/-- The loop ends with rows when the text has them, and appends them to those before. -/
theorem readRows_ok {text : Units} {data all : List (List Int)} :
    readRows toInt32 n m text data = .ok (.inr all) ↔ ∃ rows, all = data ++ rows ∧ Rows toInt32 n m text rows := by
  induction text using (measure List.length).wf.induction generalizing data with
  | _ text ih =>
    rw [readRows]
    split
    · next hread =>
      rw [Except.ok.injEq, Sum.inr.injEq]
      simp only [rows_none hread, exists_eq_right, List.append_nil]
      exact eq_comm
    · next line rest hread =>
      by_cases hline : isBlank line = true
      · simp only [if_pos hline, rows_nil_of_blank hread hline]
        by_cases hrest : isBlank rest = true
        · rw [if_pos hrest]
          simp only [Except.ok.injEq, Sum.inr.injEq, hrest, and_true, exists_eq_right, List.append_nil]
          exact eq_comm
        · simp [hrest]
      · simp only [if_neg hline, rows_cons hread (Bool.eq_false_iff.mpr hline)]
        have hstep : ∀ arr, numbers toInt32 (trimEnd space line) = .ok arr → (arr.length : Int) = n →
            (arr.any fun v => decide (v < 0) || decide (m < v)) = false → IsRow toInt32 n m line arr :=
          fun arr hread hlength hany => ⟨Bool.eq_false_iff.mpr hline, hread, hlength, not_any_iff.mp hany⟩
        constructor
        · intro h
          split at h
          · cases h
          · next arr harr =>
            split at h
            · cases h
            · next hlength =>
              split at h
              · cases h
              · next hany =>
                obtain ⟨rows, rfl, hrows⟩ := (ih rest (readLine_length hread)).mp h
                refine ⟨arr :: rows, by simp, arr, rows, rfl, ?_, hrows⟩
                exact hstep arr harr (not_not.mp hlength) (Bool.eq_false_iff.mpr hany)
        · rintro ⟨rows, rfl, row, more, rfl, hrow, hmore⟩
          rw [hrow.read]
          simp only [hrow.length, ne_eq, not_true_eq_false, if_false, not_any_iff.mpr hrow.entries, Bool.false_eq_true]
          exact (ih rest (readLine_length hread)).mpr ⟨more, by simp, hmore⟩

/-! ## Rows and columns -/

theorem repeats_iff {values : List Int} : repeats values = false ↔ (nonzero values).Nodup := by
  unfold repeats
  rw [bne_eq_false_iff_eq]
  constructor
  · intro h
    exact nodup_of_eraseDups h.symm
  · intro h
    rw [eraseDups_of_nodup h]

/-- Of entries that are not negative, the positive ones are those that are not zero. -/
theorem nonzero_eq {values : List Int} (h : ∀ v ∈ values, 0 ≤ v) : nonzero values = values.filter (· ≠ 0) := by
  refine List.filter_congr fun v hv => ?_
  have hle := h v hv
  rw [decide_eq_decide]
  omega

theorem mem_oneTo {v : Int} : v ∈ oneTo m ↔ 0 < v ∧ v ≤ m := by
  unfold oneTo
  rw [List.mem_map]
  constructor
  · rintro ⟨i, hi, rfl⟩
    have := List.mem_range.mp hi
    omega
  · rintro ⟨hpos, hle⟩
    exact ⟨(v - 1).toNat, List.mem_range.mpr (by omega), by omega⟩

theorem oneTo_nodup : (oneTo m).Nodup := by
  refine List.nodup_range.map fun i j h => ?_
  have hcast : (i : Int) + 1 = (j : Int) + 1 := h
  omega

theorem oneTo_length : (oneTo m).length = m.toNat := by
  unfold oneTo
  rw [List.length_map, List.length_range]

/-- As many different numbers from 1 to `m` as there are: a permutation of them. -/
theorem column_iff {values : List Int} (h : ∀ v ∈ values, 0 ≤ v ∧ v ≤ m) (hm : 0 ≤ m) :
    (repeats values || ((nonzero values).length : Int) != m) = false ↔ (values.filter (· ≠ 0)).Perm (oneTo m) := by
  rw [Bool.or_eq_false_iff, repeats_iff, bne_eq_false_iff_eq, nonzero_eq fun v hv => (h v hv).1]
  constructor
  · rintro ⟨hnodup, hcount⟩
    have hsub : (values.filter (· ≠ 0)).Subperm (oneTo m) := by
      refine hnodup.subperm fun v hv => ?_
      obtain ⟨hv, hne⟩ := List.mem_filter.mp hv
      obtain ⟨hlow, hhigh⟩ := h v hv
      have hne : v ≠ 0 := by simpa using hne
      exact mem_oneTo.mpr ⟨by omega, hhigh⟩
    refine hsub.perm_of_length_le ?_
    rw [oneTo_length]
    omega
  · intro hperm
    refine ⟨hperm.nodup_iff.mpr oneTo_nodup, ?_⟩
    rw [hperm.length_eq, oneTo_length]
    omega

theorem selectColumn_eq {data : List (List Int)} {k : Nat} (h : ∀ row ∈ data, k < row.length) :
    selectColumn data k = .ok (column data k) := by
  refine mapM_ok fun row hrow => ?_
  unfold item
  rw [List.getD_eq_getElem?_getD, List.getElem?_eq_getElem (h row hrow)]
  rfl

theorem checkColumns_iff {data : List (List Int)} {ks : List Nat} (h : ∀ row ∈ data, ∀ k ∈ ks, k < row.length) :
    checkColumns m data ks = .ok .accepted ↔
      ∀ k ∈ ks, (repeats (column data k) || ((nonzero (column data k)).length : Int) != m) = false := by
  induction ks with
  | nil => simp [checkColumns]
  | cons k ks ih =>
    unfold checkColumns
    rw [selectColumn_eq fun row hrow => h row hrow k List.mem_cons_self, List.forall_mem_cons,
      ← ih fun row hrow k hk => h row hrow k (List.mem_cons_of_mem _ hk)]
    show (if (repeats (column data k) || ((nonzero (column data k)).length : Int) != m) = true then
      Except.ok CheckerResultStatus.wrongAnswer else checkColumns m data ks) = _ ↔ _
    cases hfails : repeats (column data k) || ((nonzero (column data k)).length : Int) != m with
    | true => simp
    | false => simp

/-! ## The verdict -/

theorem Rows.entries {text : Units} {rows : List (List Int)} (h : Rows toInt32 n m text rows) :
    ∀ row ∈ rows, (row.length : Int) = n ∧ ∀ v ∈ row, 0 ≤ v ∧ v ≤ m := by
  obtain ⟨lines, blank, -, -, hrows⟩ := h
  intro row hrow
  obtain ⟨line, -, hline⟩ := (forall₂_exists hrows).2 row hrow
  exact ⟨hline.length, hline.entries⟩

/-- Rows with entries: `n` is positive, since a line has a field, and `m` is not negative. -/
theorem bounds_of_row {row : List Int} (hne : row ≠ []) (hlength : (row.length : Int) = n)
    (hentries : ∀ v ∈ row, 0 ≤ v ∧ v ≤ m) : 0 < n ∧ 0 ≤ m := by
  obtain ⟨v, hv⟩ := List.exists_mem_of_ne_nil row hne
  have hpos := List.length_pos_iff.mpr hne
  obtain ⟨hlow, hhigh⟩ := hentries v hv
  exact ⟨by omega, by omega⟩

theorem numbers_ne_nil {line : Units} {row : List Int} (h : numbers toInt32 line = .ok row) : row ≠ [] := by
  intro hnil
  have hlength := (mapM_eq_ok h).length_eq
  rw [hnil] at hlength
  exact List.splitOn_ne_nil space line (List.length_eq_zero_iff.mp hlength)

/-- The tests after the loop. -/
def verdictOf (n m : Int) (data : List (List Int)) : Except Exn CheckerResultStatus :=
  if data.length = 0 then .ok .presentationError
  else if (data.length : Int) ≠ max n m then .ok .wrongAnswer
  else if data.any repeats then .ok .wrongAnswer
  else checkColumns m data (List.range n.toNat)

theorem checkInternal_eq {juryInput userOutput : Units} {others : List Int}
    (h : numbers toInt32 juryInput = .ok (n :: m :: others)) :
    checkInternal toInt32 juryInput userOutput =
      match readRows toInt32 n m userOutput [] with
      | .error e => .error e
      | .ok (.inl status) => .ok status
      | .ok (.inr data) => verdictOf n m data := by
  unfold checkInternal
  rw [h]
  show (do
    match ← readRows toInt32 n m userOutput [] with
    | .inl status => return status
    | .inr data =>
      if data.length = 0 then return .presentationError
      if (data.length : Int) ≠ max n m then return .wrongAnswer
      if data.any repeats then return .wrongAnswer
      checkColumns m data (List.range n.toNat)) = _
  cases readRows toInt32 n m userOutput [] with
  | error e => rfl
  | ok x =>
    cases x with
    | inl status => rfl
    | inr data => rfl

/-- The loop over the lines never accepts. -/
theorem readRows_verdict {text : Units} {data : List (List Int)} {status : CheckerResultStatus}
    (h : readRows toInt32 n m text data = .ok (.inl status)) : status = .wrongAnswer ∨ status = .presentationError := by
  induction text using (measure List.length).wf.induction generalizing data with
  | _ text ih =>
    rw [readRows] at h
    split at h
    · cases h
    · next line rest hread =>
      split at h
      · split at h
        · cases h
        · cases h; exact Or.inr rfl
      · split at h
        · cases h
        · split at h
          · cases h; exact Or.inr rfl
          · split at h
            · cases h; exact Or.inl rfl
            · exact ih rest (readLine_length hread) h

theorem column_entries {data : List (List Int)} (h : ∀ row ∈ data, ∀ v ∈ row, 0 ≤ v ∧ v ≤ m) (hm : 0 ≤ m) (k : Nat) :
    ∀ v ∈ column data k, 0 ≤ v ∧ v ≤ m := by
  intro v hv
  obtain ⟨row, hrow, rfl⟩ := List.mem_map.mp hv
  rw [List.getD_eq_getElem?_getD]
  cases hget : row[k]? with
  | none => exact ⟨Int.le_refl _, hm⟩
  | some v => exact h row hrow v (List.mem_of_getElem? hget)

theorem rows_iff {data : List (List Int)} (h : ∀ row ∈ data, ∀ v ∈ row, 0 ≤ v ∧ v ≤ m) :
    data.any repeats = false ↔ ∀ row ∈ data, (row.filter (· ≠ 0)).Nodup := by
  rw [List.any_eq_false]
  refine forall₂_congr fun row hrow => ?_
  rw [Bool.not_eq_true, repeats_iff, nonzero_eq fun v hv => (h row hrow v hv).1]

theorem verdictOf_iff {data : List (List Int)} (hdata : ∀ row ∈ data, (row.length : Int) = n ∧ ∀ v ∈ row, 0 ≤ v ∧ v ≤ m)
    (hne : ∀ row ∈ data, row ≠ []) : verdictOf n m data = .ok .accepted ↔ Arranged n m data := by
  have hentries : ∀ row ∈ data, ∀ v ∈ row, 0 ≤ v ∧ v ≤ m := fun row hrow => (hdata row hrow).2
  unfold verdictOf
  by_cases hempty : data.length = 0
  · rw [if_pos hempty]
    refine ⟨nofun, fun harranged => ?_⟩
    have hsize := harranged.size
    have hpos := harranged.nonempty
    omega
  · rw [if_neg hempty]
    obtain ⟨first, hfirst⟩ := List.exists_mem_of_ne_nil data fun h => hempty (List.length_eq_zero_iff.mpr h)
    obtain ⟨hn, hm⟩ := bounds_of_row (hne first hfirst) (hdata first hfirst).1 (hentries first hfirst)
    by_cases hsize : (data.length : Int) = max n m
    · rw [if_neg (not_not.mpr hsize)]
      by_cases hrepeats : data.any repeats = true
      · rw [if_pos hrepeats]
        refine ⟨nofun, fun harranged => ?_⟩
        rw [(rows_iff hentries).mpr harranged.rows] at hrepeats
        cases hrepeats
      · rw [if_neg hrepeats, checkColumns_iff fun row hrow k hk => ?_]
        · have hcolumns : (∀ k ∈ List.range n.toNat,
              (repeats (column data k) || ((nonzero (column data k)).length : Int) != m) = false) ↔
              ∀ k : Nat, (k : Int) < n → ((column data k).filter (· ≠ 0)).Perm (oneTo m) := by
            refine forall_congr' fun k => ?_
            rw [List.mem_range, column_iff (column_entries hentries hm k) hm, Int.lt_toNat]
          rw [hcolumns]
          constructor
          · intro h
            exact ⟨hsize, by omega, (rows_iff hentries).mp (Bool.eq_false_iff.mpr hrepeats), h⟩
          · intro h
            exact h.columns
        · have hlength := (hdata row hrow).1
          have hlt := List.mem_range.mp hk
          omega
    · rw [if_pos hsize]
      exact ⟨nofun, fun harranged => absurd harranged.size hsize⟩

/-- Whether an output is accepted: `max n m` rows, at least one, that form the arrangement. The
    checker never throws. -/
theorem museum_verdict (toInt32 : Units → Except Exn Int) (juryInput juryOutput userOutput : Units) :
    (∃ status, check toInt32 juryInput juryOutput userOutput = .ok status) ∧
    ∀ n m others, numbers toInt32 juryInput = .ok (n :: m :: others) →
      (check toInt32 juryInput juryOutput userOutput = .ok .accepted ↔
        ∃ data, Rows toInt32 n m userOutput data ∧ Arranged n m data) := by
  constructor
  · unfold check
    cases checkInternal toInt32 juryInput userOutput with
    | error e => exact ⟨_, rfl⟩
    | ok status => exact ⟨_, rfl⟩
  · intro n m others hjury
    have hcheck : check toInt32 juryInput juryOutput userOutput = .ok .accepted ↔
        checkInternal toInt32 juryInput userOutput = .ok .accepted := by
      unfold check
      cases checkInternal toInt32 juryInput userOutput with
      | error e => simp
      | ok status => simp
    rw [hcheck, checkInternal_eq hjury]
    have hrows : ∀ data, Rows toInt32 n m userOutput data → (verdictOf n m data = .ok .accepted ↔
        Arranged n m data) := by
      intro data hdata
      refine verdictOf_iff hdata.entries fun row hrow => ?_
      obtain ⟨lines, blank, -, -, hlines⟩ := hdata
      obtain ⟨line, -, hline⟩ := (forall₂_exists hlines).2 row hrow
      exact numbers_ne_nil hline.read
    constructor
    · intro h
      cases hread : readRows toInt32 n m userOutput [] with
      | error e => rw [hread] at h; cases h
      | ok x =>
        rw [hread] at h
        cases x with
        | inl status =>
          obtain rfl := Except.ok.inj h
          exact absurd (readRows_verdict hread) (by simp)
        | inr data =>
          obtain ⟨rows, hall, hdata⟩ := readRows_ok.mp hread
          have hall : data = rows := hall
          exact ⟨rows, hdata, (hrows rows hdata).mp (hall ▸ h)⟩
    · rintro ⟨data, hdata, harranged⟩
      rw [readRows_ok.mpr ⟨data, rfl, hdata⟩]
      exact (hrows data hdata).mpr harranged

/-! ## Every text gets a verdict -/

theorem checkColumns_verdict {data : List (List Int)} {status : CheckerResultStatus} :
    ∀ {ks : List Nat}, checkColumns m data ks = .ok status → IsVerdict status := by
  intro ks
  induction ks with
  | nil =>
    intro h
    cases h; exact Or.inl rfl
  | cons k ks ih =>
    intro h
    obtain ⟨column, -, h⟩ := bind_eq_ok.mp h
    split at h
    · cases h; exact Or.inr (Or.inl rfl)
    · exact ih h

theorem verdictOf_verdict {data : List (List Int)} {status : CheckerResultStatus}
    (h : verdictOf n m data = .ok status) :
    IsVerdict status := by
  unfold verdictOf at h
  split at h
  · cases h; exact Or.inr (Or.inr rfl)
  · split at h
    · cases h; exact Or.inr (Or.inl rfl)
    · split at h
      · cases h; exact Or.inr (Or.inl rfl)
      · exact checkColumns_verdict h

theorem checkInternal_verdict {juryInput userOutput : Units} {status : CheckerResultStatus}
    (h : checkInternal toInt32 juryInput userOutput = .ok status) : IsVerdict status := by
  have hjury := h
  obtain ⟨jline, hline, hjury⟩ := bind_eq_ok.mp hjury
  obtain ⟨n, hn, hjury⟩ := bind_eq_ok.mp hjury
  obtain ⟨m, hm, -⟩ := bind_eq_ok.mp hjury
  match jline with
  | [] => cases hn
  | [_] => cases hm
  | n' :: m' :: others =>
    rw [checkInternal_eq hline] at h
    cases hread : readRows toInt32 n' m' userOutput [] with
    | error e => rw [hread] at h; cases h
    | ok x =>
      rw [hread] at h
      cases x with
      | inl status' =>
        obtain rfl := Except.ok.inj h
        exact Or.inr (readRows_verdict hread)
      | inr data => exact verdictOf_verdict h

theorem museum_gives (toInt32 : Units → Except Exn Int) : GivesVerdict (simpleChecker toInt32) := by
  intro juryInput juryOutput userOutput
  show ∃ verdict, check toInt32 (units juryInput) (units juryOutput) (units userOutput) =
      .ok verdict ∧ IsVerdict verdict
  unfold check
  cases h : checkInternal toInt32 (units juryInput) (units userOutput) with
  | error e => exact ⟨_, rfl, Or.inr (Or.inr rfl)⟩
  | ok status => exact ⟨status, rfl, checkInternal_verdict h⟩

/-! ### A table of two rows -/

def parseInt (text : Units) : Except Exn Int :=
  match Lib.Text.tryParseInt (String.ofList (text.map fun c => Char.ofNat c.toNat)) with
  | some v => .ok v
  | none => .error (.format "The input string was not in a correct format.")

theorem sample_table : check parseInt (units "2 2") [] (units "1 2 \n2 1\n\n") = .ok .accepted ↔
    ∃ data, Rows parseInt 2 2 (units "1 2 \n2 1\n\n") data ∧ Arranged 2 2 data :=
  (museum_verdict parseInt (units "2 2") [] (units "1 2 \n2 1\n\n")).2 2 2 [] (by decide +kernel)

example : check parseInt (units "2 2") [] (units "1 2 \n2 1\n\n") = .ok .accepted := by decide +kernel
example : check parseInt (units "2 2") [] (units "1 2\n1 2") = .ok .wrongAnswer := by decide +kernel

end OlympSystem.Checker.MuseumChecker
