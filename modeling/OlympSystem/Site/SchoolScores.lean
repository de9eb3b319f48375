/-
  OlympSystem.Site.SchoolScores — the points of a school problem without explicit scores,
  by the import's formula and by the manager's `ScoreTests` (`MainWindow.xaml.cs`).

  The manager deals 100 points one by one to the closed tests, the highest number first,
  round after round; the import computes each test's share. The tests of a problem are a
  list in any order; a closed test is known to the deal by its place in that list.

  Proved:
  - `scoreRound_eq`: a round gives a point to the first tests of the order, as many as
    there are points left.
  - `scoreLoop_deal`: the deal ends; a closed test has the whole shares, and one point
    more if its rank is below the rest.
  - `schoolScore_share` / `share_sum`: the import divides by no zero, and its shares are
    100 points.
  - `scoreTests_imported`: dealt over the imported tests, in any order, a test gets what its
    number has by the import.
  - `schoolScores_law`: both together, for what an archive brings into a school contest.
-/

import Mathlib.Algebra.BigOperators.Ring.Finset
import OlympSystem.Site.ContestProblemService

namespace OlympSystem.Site.SchoolScores

open Lib.Query OlympSystem.Checker ProblemArchive

/-! ## The manager -/

/-- `test.Score == null ? 1 : test.Score + 1`. -/
def increment : Option Int → Option Int
  | none => some 1
  | some score => some (score + 1)

/-- The body of the `foreach` over the tests at `order`; `sum--` is done before the test. -/
def scoreRound : (order : List Nat) → (sum : Int) → List TestContent → Int × List TestContent
  | [], sum, tests => (sum, tests)
  | i :: order, sum, tests =>
    if sum = 0 then (sum - 1, tests)
    else scoreRound order (sum - 1) (tests.modify i fun test => { test with score := increment test.score })

def byNumber : TestContent × Nat → TestContent × Nat → Bool := descending (byKey fun place => place.1.number)

/-- `problem.Tests.Where(t => !t.IsOpen).OrderByDescending(t => t.Number)`. -/
def ranked (tests : List TestContent) : List (TestContent × Nat) :=
  orderBy byNumber (tests.zipIdx.filter fun place => !place.1.isOpen)

def closedOrder (tests : List TestContent) : List Nat := (ranked tests).map Prod.snd

/-- The `while` loop; it does not end on tests that are all open. -/
def scoreLoop : (fuel : Nat) → (sum : Int) → List TestContent → Option (List TestContent)
  | 0, _, _ => none
  | fuel + 1, sum, tests =>
    if 0 < sum then
      let (sum, tests) := scoreRound (closedOrder tests) sum tests
      scoreLoop fuel sum tests
    else some tests

def scoreTests (fuel : Nat) (tests : List TestContent) : Option (List TestContent) := scoreLoop fuel 100 tests

/-! ## A round -/

def withScores (tests : List TestContent) (f : Nat → Option Int) : List TestContent :=
  tests.mapIdx fun i test => { test with score := f i }

theorem getElem?_withScores (tests : List TestContent) (f : Nat → Option Int) (i : Nat) :
    (withScores tests f)[i]? = tests[i]?.map fun test => { test with score := f i } := List.getElem?_mapIdx

theorem modify_withScores (tests : List TestContent) (f : Nat → Option Int) (i : Nat) :
    (withScores tests f).modify i (fun test => { test with score := increment test.score }) =
      withScores tests fun j => if j = i then increment (f j) else f j := by
  apply List.ext_getElem?
  intro j
  rw [List.getElem?_modify, getElem?_withScores, getElem?_withScores]
  by_cases hij : j = i
  · subst hij
    simp [Function.comp_def]
  · have hji : ¬i = j := fun h => hij h.symm
    simp [hij, hji]

theorem withScores_none {tests : List TestContent} (h : ∀ test ∈ tests, test.score = none) :
    withScores tests (fun _ => none) = tests := by
  apply List.ext_getElem?
  intro i
  rw [getElem?_withScores]
  cases hi : tests[i]? with
  | none => rfl
  | some test =>
    have hscore := h test (List.mem_of_getElem? hi)
    rw [Option.map_some, ← hscore]

def rescored (f : Nat → Option Int) (place : TestContent × Nat) : TestContent × Nat :=
  ({ place.1 with score := f place.2 }, place.2)

/-- The order of the deal does not look at the scores. -/
theorem closedOrder_withScores (tests : List TestContent) (f : Nat → Option Int) :
    closedOrder (withScores tests f) = closedOrder tests := by
  have hplaces : (withScores tests f).zipIdx = tests.zipIdx.map (rescored f) := by
    apply List.ext_getElem?
    intro i
    rw [List.getElem?_zipIdx, getElem?_withScores, List.getElem?_map, List.getElem?_zipIdx,
      Option.map_map, Option.map_map]
    simp [Function.comp_def, rescored]
  have hkeep : ∀ a b, byNumber (rescored f a) (rescored f b) = byNumber a b := fun _ _ => rfl
  have hsort := orderBy_map (rescored f) hkeep (tests.zipIdx.filter fun place => !place.1.isOpen)
  unfold closedOrder ranked
  rw [hplaces, List.filter_map]
  show (orderBy byNumber ((tests.zipIdx.filter fun place => !place.1.isOpen).map (rescored f))).map Prod.snd = _
  rw [← hsort, List.map_map]
  rfl

theorem withScores_congr {tests : List TestContent} {f g : Nat → Option Int} (h : ∀ i, f i = g i) :
    withScores tests f = withScores tests g := by
  rw [show f = g from funext h]

theorem scoreRound_eq (tests : List TestContent) :
    ∀ (order : List Nat) (left : Nat) (f : Nat → Option Int), order.Nodup →
    scoreRound order left (withScores tests f) =
      (if order.length ≤ left then ((left - order.length : Nat) : Int) else -1,
        withScores tests fun i => if i ∈ order.take left then increment (f i) else f i) := by
  intro order
  induction order with
  | nil =>
    intro left f _
    simp [scoreRound]
  | cons first order ih =>
    intro left f hnodup
    obtain ⟨hfirst, hnodup⟩ := List.nodup_cons.mp hnodup
    cases left with
    | zero => simp [scoreRound]
    | succ left =>
      have hsum : ((left + 1 : Nat) : Int) - 1 = (left : Int) := by omega
      rw [scoreRound, if_neg (by omega), hsum, modify_withScores, ih left _ hnodup]
      refine Prod.ext ?_ ?_
      · simp only [List.length_cons]
        by_cases hle : order.length ≤ left
        · rw [if_pos hle, if_pos (by omega)]
          omega
        · rw [if_neg hle, if_neg (by omega)]
      · apply withScores_congr
        intro i
        have hnot : first ∉ order.take left := fun hmem => hfirst (List.mem_of_mem_take hmem)
        by_cases hi : i = first
        · subst hi
          simp [hnot]
        · simp [hi]

theorem closedOrder_nodup (tests : List TestContent) : (closedOrder tests).Nodup := by
  have hperm : (closedOrder tests).Perm ((tests.zipIdx.filter fun place => !place.1.isOpen).map Prod.snd) :=
    (orderBy_perm byNumber _).map Prod.snd
  refine hperm.nodup_iff.mpr ?_
  have hplaces : (tests.zipIdx.map Prod.snd).Nodup := by
    rw [List.zipIdx_map_snd]
    exact List.nodup_range'
  exact hplaces.sublist (List.filter_sublist.map Prod.snd)

/-- The test at a place of the order. -/
theorem closedOrder_place {tests : List TestContent} {p i : Nat} (h : (closedOrder tests)[p]? = some i) :
    ∃ test, (ranked tests)[p]? = some (test, i) ∧ tests[i]? = some test := by
  rw [closedOrder, List.getElem?_map] at h
  obtain ⟨⟨test, place⟩, hplace, rfl⟩ := Option.map_eq_some_iff.mp h
  have hzip := (List.mem_filter.mp (mem_orderBy.mp (List.mem_of_getElem? hplace))).1
  exact ⟨test, hplace, List.mem_zipIdx_iff_getElem?.mp hzip⟩

/-- The order has the place of each test that is not open. -/
theorem closed_mem_order {tests : List TestContent} {i : Nat} {test : TestContent} (hi : tests[i]? = some test)
    (hclosed : test.isOpen = false) : i ∈ closedOrder tests := by
  have hzip : (test, i) ∈ tests.zipIdx := List.mem_zipIdx_iff_getElem?.mpr hi
  have hrank : (test, i) ∈ ranked tests := mem_orderBy.mpr (List.mem_filter.mpr ⟨hzip, by rw [hclosed]; rfl⟩)
  exact List.mem_map_of_mem hrank

/-! ## The deal -/

/-- What rank `p` of `c` gets of a total, dealt one by one. -/
def dealt (total c p : Nat) : Nat := total / c + if p < total % c then 1 else 0

/-- A total of whole rounds, and of a rest that is smaller than a round. -/
theorem dealt_rounds {total c rounds left : Nat} (htotal : total = left + rounds * c) (hleft : left < c) (p : Nat) :
    dealt total c p = rounds + if p < left then 1 else 0 := by
  have hmod : total % c = left := by rw [htotal, Nat.add_mul_mod_self_right, Nat.mod_eq_of_lt hleft]
  have hdiv : total / c = rounds := by
    rw [htotal, Nat.add_mul_div_right _ _ (by omega), Nat.div_eq_of_lt hleft, Nat.zero_add]
  rw [dealt, hmod, hdiv]

theorem increment_getD (score : Option Int) : (increment score).getD 0 = score.getD 0 + 1 := by
  cases score <;> rfl

/-- Rank `p` is among the first of the order. -/
theorem mem_take_iff {order : List Nat} (h : order.Nodup) {p i : Nat} (hp : order[p]? = some i) (left : Nat) :
    i ∈ order.take left ↔ p < left := by
  obtain ⟨hlt, hi⟩ := List.getElem?_eq_some_iff.mp hp
  have hmem : i ∈ order := hi ▸ List.getElem_mem hlt
  have hidx : order.idxOf i = p := by
    rw [← hi]
    exact h.idxOf_getElem p hlt
  rw [List.mem_take_iff_idxOf_lt hmem, hidx]

/-- From `rounds` whole rounds on, which gave each closed test so many points. -/
theorem scoreLoop_deal (tests : List TestContent) (total : Nat) (hpos : 0 < (closedOrder tests).length) :
    ∀ (fuel rounds : Nat) (f : Nat → Option Int), rounds * (closedOrder tests).length ≤ total →
      total - rounds * (closedOrder tests).length + 1 < fuel → (∀ i ∈ closedOrder tests, (f i).getD 0 = rounds) →
      (∀ i, i ∉ closedOrder tests → f i = none) →
      ∃ g, scoreLoop fuel ((total - rounds * (closedOrder tests).length : Nat) : Int) (withScores tests f) =
          some (withScores tests g) ∧
        (∀ p i, (closedOrder tests)[p]? = some i → (g i).getD 0 = dealt total (closedOrder tests).length p) ∧
        ∀ i, i ∉ closedOrder tests → g i = none := by
  have hnodup := closedOrder_nodup tests
  have hclosed := closedOrder_withScores tests
  generalize closedOrder tests = order at *
  intro fuel
  induction fuel with
  | zero => intro rounds f _ hfuel; omega
  | succ fuel ih =>
    intro rounds f hrounds hfuel hdealt hother
    generalize hleft : total - rounds * order.length = left at hfuel
    have htotal : total = left + rounds * order.length := by omega
    rw [scoreLoop]
    by_cases hzero : left = 0
    · -- whole rounds used the points up
      refine ⟨f, by rw [hzero]; rfl, fun p i hp => ?_, hother⟩
      rw [hdealt i (List.mem_of_getElem? hp), dealt_rounds htotal (by omega), if_neg (by omega), Nat.add_zero]
    rw [if_pos (by omega), hclosed, scoreRound_eq tests order left f hnodup]
    dsimp only
    have hgiven : ∀ i, i ∉ order → (if i ∈ order.take left then increment (f i) else f i) = none := by
      intro i hi
      rw [if_neg fun hmem => hi (List.mem_of_mem_take hmem)]
      exact hother i hi
    by_cases hwhole : order.length ≤ left
    · rw [if_pos hwhole]
      have hnext : left - order.length = total - (rounds + 1) * order.length := by
        rw [Nat.succ_mul]
        omega
      rw [hnext]
      refine ih (rounds + 1) _ ?_ ?_ (fun i hi => ?_) hgiven
      · rw [Nat.succ_mul]
        omega
      · rw [← hnext]
        omega
      · rw [List.take_of_length_le hwhole, if_pos hi, increment_getD, hdealt i hi]
        omega
    · -- the rest is dealt, and the counter is below zero
      rw [if_neg hwhole]
      cases fuel with
      | zero => omega
      | succ fuel =>
        rw [scoreLoop, if_neg (by decide)]
        refine ⟨_, rfl, fun p i hp => ?_, hgiven⟩
        have hmem := List.mem_of_getElem? hp
        rw [dealt_rounds htotal (by omega)]
        by_cases hp' : p < left
        · rw [if_pos ((mem_take_iff hnodup hp left).mpr hp'), if_pos hp', increment_getD, hdealt i hmem]
          omega
        · rw [if_neg fun hin => hp' ((mem_take_iff hnodup hp left).mp hin), if_neg hp', hdealt i hmem, Nat.add_zero]

/-! ## The import -/

/-- `/` of `int`s; `none` is a `DivideByZeroException`. -/
def divide (a b : Int) : Option Int := if b = 0 then none else some (a.tdiv b)

def remainder (a b : Int) : Option Int := if b = 0 then none else some (a.tmod b)

/-- The expression of the import, with what it throws. -/
def schoolScore (openTestCount : Int) (count i : Nat) : Option Int :=
  let closedCount := (count : Int) - openTestCount
  if (i : Int) < openTestCount then some 0
  else
    (divide 100 closedCount).bind fun quotient => (remainder 100 closedCount).map fun rest =>
      quotient + if (count : Int) - rest ≤ i then 1 else 0

/-- What the `i`th of `count` tests gets, the first `opened` of which are open. -/
def share (opened count i : Nat) : Nat := if i < opened then 0 else dealt 100 (count - opened) (count - 1 - i)

theorem schoolScore_share {opened count i : Nat} (h : opened < count) (hi : i < count) :
    schoolScore opened count i = some (share opened count i : Int) := by
  have hclosed : (count : Int) - opened = ((count - opened : Nat) : Int) := by omega
  have hdiv : Int.tdiv 100 ((count - opened : Nat) : Int) = ((100 / (count - opened) : Nat) : Int) := rfl
  have hmod : Int.tmod 100 ((count - opened : Nat) : Int) = ((100 % (count - opened) : Nat) : Int) := rfl
  have hrest : 100 % (count - opened) < count - opened := Nat.mod_lt _ (by omega)
  unfold schoolScore share
  by_cases hopen : i < opened
  · rw [if_pos (by omega), if_pos hopen]
    rfl
  · rw [if_neg (by omega), if_neg hopen, divide, remainder, hclosed, if_neg (by omega), if_neg (by omega), hdiv, hmod,
      dealt]
    by_cases hlast : count - 1 - i < 100 % (count - opened)
    · rw [if_pos hlast, Option.bind_some, Option.map_some, if_pos (by omega)]
      rfl
    · rw [if_neg hlast, Option.bind_some, Option.map_some, if_neg (by omega)]
      rfl

/-- Where the divisor is not zero the import stores the value of the expression. -/
theorem importedScore_school {data : ProblemManifest} {count i : Nat} {number : Int} (hscores : data.scores = none)
    (hcount : (count : Int) - data.openTestCount ≠ 0) :
    importedScore true data count i number = schoolScore data.openTestCount count i := by
  unfold importedScore schoolScore
  rw [hscores, if_pos rfl]
  dsimp only
  by_cases hopen : (i : Int) < data.openTestCount
  · rw [if_pos hopen, if_pos hopen]
  · rw [if_neg hopen, if_neg hopen, divide, remainder, if_neg hcount, if_neg hcount]
    rfl

theorem shares_upto {opened count : Nat} (h : opened < count) : ∀ m, m ≤ count →
    ((List.range m).map (share opened count)).sum =
      (m - opened) * (100 / (count - opened)) + (m - (count - 100 % (count - opened))) := by
  have hrest : 100 % (count - opened) < count - opened := Nat.mod_lt _ (by omega)
  intro m
  induction m with
  | zero => intro _; simp
  | succ m ih =>
    intro hm
    rw [List.range_succ, List.map_append, List.sum_append, ih (by omega), List.map_singleton, List.sum_singleton, share]
    by_cases hopen : m < opened
    · have hnone : m - opened = 0 ∧ m + 1 - opened = 0 := by omega
      rw [if_pos hopen, hnone.1, hnone.2]
      omega
    · have hsucc : m + 1 - opened = m - opened + 1 := by omega
      rw [if_neg hopen, hsucc, Nat.succ_mul, dealt]
      by_cases hlast : count - 1 - m < 100 % (count - opened)
      · rw [if_pos hlast]
        omega
      · rw [if_neg hlast]
        omega

theorem share_sum {opened count : Nat} (h : opened < count) :
    ((List.range count).map (share opened count)).sum = 100 := by
  have hrest : 100 % (count - opened) < count - opened := Nat.mod_lt _ (by omega)
  have hwhole := Nat.div_add_mod 100 (count - opened)
  rw [shares_upto h count (Nat.le_refl count)]
  omega

/-! ## The two distributions -/

/-- A problem whose scores a school contest distributes. -/
structure Distributable (item : ImportedProblem) : Prop where
  scores : item.manifest.scores = none
  opened : 0 ≤ item.manifest.openTestCount
  closed : item.manifest.openTestCount < item.tests.length
  numbers : (item.tests.map ImportedTest.number).Pairwise (· < ·)

def points (test : TestContent) : Int := test.score.getD 0

def unscored (test : TestContent) : TestContent := { test with score := none }

section
variable {item : ImportedProblem}

theorem Distributable.openedNat (h : Distributable item) :
    ∃ opened : Nat, item.manifest.openTestCount = opened ∧ opened < item.tests.length := by
  obtain ⟨opened, hopened⟩ := Int.eq_ofNat_of_zero_le h.opened
  have hlt := h.closed
  exact ⟨opened, hopened, by omega⟩

/-- The tests of a distributable problem, by place. -/
theorem getElem?_importedTests (h : Distributable item) {opened : Nat} (hopened : item.manifest.openTestCount = opened)
    (hlt : opened < item.tests.length) (i : Nat) :
    (importedTests true item)[i]? = item.tests[i]?.map fun test =>
      { number := test.number, input := test.input, output := test.output, isOpen := decide (i < opened),
        isActive := true, score := some (share opened item.tests.length i : Int), comment := none } := by
  rw [importedTests, List.getElem?_mapIdx]
  by_cases hi : i < item.tests.length
  · rw [List.getElem?_eq_getElem hi, Option.map_some, Option.map_some,
      importedScore_school h.scores (by rw [hopened]; omega), hopened, schoolScore_share hlt hi]
    simp
  · rw [List.getElem?_eq_none (by omega)]
    rfl

theorem importedTests_places (h : Distributable item) {opened : Nat} (hopened : item.manifest.openTestCount = opened)
    (hlt : opened < item.tests.length) {test : TestContent} (htest : test ∈ importedTests true item) :
    ∃ i, i < item.tests.length ∧ (importedTests true item)[i]? = some test ∧ test.isOpen = decide (i < opened) ∧
      test.score = some (share opened item.tests.length i : Int) := by
  obtain ⟨i, hi⟩ := List.mem_iff_getElem?.mp htest
  have hplace := hi
  rw [getElem?_importedTests h hopened hlt] at hplace
  obtain ⟨source, hsource, rfl⟩ := Option.map_eq_some_iff.mp hplace
  obtain ⟨hilt, -⟩ := List.getElem?_eq_some_iff.mp hsource
  exact ⟨i, hilt, hi, rfl, rfl⟩

theorem map_points (h : Distributable item) {opened : Nat} (hopened : item.manifest.openTestCount = opened)
    (hlt : opened < item.tests.length) :
    (importedTests true item).map points =
    ((List.range item.tests.length).map (share opened item.tests.length)).map Nat.cast := by
  apply List.ext_getElem?
  intro i
  rw [List.getElem?_map, getElem?_importedTests h hopened hlt, List.getElem?_map, List.getElem?_map]
  by_cases hi : i < item.tests.length
  · rw [List.getElem?_eq_getElem hi, List.getElem?_range hi]
    rfl
  · rw [List.getElem?_eq_none (by omega), List.getElem?_eq_none (by rw [List.length_range]; omega)]
    rfl

/-- Later closed tests have no fewer points, and at most one more. -/
theorem share_closed (count : Nat) {opened i j : Nat} (hi : ¬i < opened) (hj : ¬j < opened) :
    share opened count i ≤ share opened count j + 1 ∧ (i ≤ j → share opened count i ≤ share opened count j) := by
  unfold share dealt
  rw [if_neg hi, if_neg hj]
  refine ⟨?_, fun hle => ?_⟩
  · split <;> split <;> omega
  · split
    · rw [if_pos (by omega)]
    · omega

/-! ### The deal on the imported tests -/

def descendingNumber : TestContent → TestContent → Bool := descending (byKey TestContent.number)

theorem descendingNumber_totalPreorder : TotalPreorder descendingNumber :=
  descending_totalPreorder (byKey_totalPreorder TestContent.number)

theorem ranked_tests (tests : List TestContent) :
    (ranked tests).map Prod.fst = orderBy descendingNumber (tests.filter fun test => !test.isOpen) := by
  have hkeep : ∀ a b : TestContent × Nat, descendingNumber a.1 b.1 = byNumber a b := fun _ _ => rfl
  unfold ranked
  rw [orderBy_map Prod.fst hkeep]
  congr 1
  have hfilter := List.filter_map (f := Prod.fst) (p := fun test : TestContent => !test.isOpen) (l := tests.zipIdx)
  rw [List.zipIdx_map_fst] at hfilter
  exact hfilter.symm

theorem importedTests_numbers (item : ImportedProblem) :
    ((importedTests true item).map unscored).map TestContent.number = item.tests.map ImportedTest.number := by
  apply List.ext_getElem?
  intro i
  simp [importedTests, unscored, List.getElem?_mapIdx, Function.comp_def]

/-- The closed tests of the import are its last ones. -/
theorem closed_imported (h : Distributable item) {opened : Nat} (hopened : item.manifest.openTestCount = opened)
    (hlt : opened < item.tests.length) :
    ((importedTests true item).map unscored).filter (fun test => !test.isOpen) =
      ((importedTests true item).map unscored).drop opened := by
  have hplace : ∀ (i : Nat) (test : TestContent), ((importedTests true item).map unscored)[i]? = some test →
      test.isOpen = decide (i < opened) := by
    intro i test htest
    rw [List.getElem?_map, getElem?_importedTests h hopened hlt, Option.map_map] at htest
    obtain ⟨source, -, rfl⟩ := Option.map_eq_some_iff.mp htest
    rfl
  generalize (importedTests true item).map unscored = tests at hplace
  have hfirst : (tests.take opened).filter (fun test => !test.isOpen) = [] := by
    rw [List.filter_eq_nil_iff]
    intro test htest
    obtain ⟨i, hi, rfl⟩ := List.mem_take_iff_getElem.mp htest
    rw [hplace i _ (List.getElem?_eq_getElem (by omega)), decide_eq_true (by omega)]
    decide
  have hlast : (tests.drop opened).filter (fun test => !test.isOpen) = tests.drop opened := by
    rw [List.filter_eq_self]
    intro test htest
    obtain ⟨i, hi, rfl⟩ := List.mem_drop_iff_getElem.mp htest
    rw [hplace (opened + i) _ (List.getElem?_eq_getElem (by omega)), decide_eq_false (by omega)]
    rfl
  have hsplit := List.filter_append (p := fun test : TestContent => !test.isOpen) (tests.take opened)
    (tests.drop opened)
  rw [List.take_append_drop, hfirst, hlast, List.nil_append] at hsplit
  exact hsplit

/-- The deal goes through them from
    the end. -/
theorem ranked_imported (h : Distributable item) {opened : Nat} (hopened : item.manifest.openTestCount = opened)
    (hlt : opened < item.tests.length) {blank : List TestContent}
    (hblank : blank.Perm ((importedTests true item).map unscored)) :
    (ranked blank).map Prod.fst = (((importedTests true item).map unscored).drop opened).reverse := by
  have hnumbers := importedTests_numbers item
  have hpairwise : (((importedTests true item).map unscored).map TestContent.number).Pairwise (· < ·) := by
    rw [hnumbers]
    exact h.numbers
  have hties : ∀ a ∈ (importedTests true item).map unscored, ∀ b ∈ (importedTests true item).map unscored,
      a.number = b.number → a = b :=
    List.inj_on_of_nodup_map (hpairwise.imp fun hless => ne_of_lt hless)
  have hclosed := (hblank.filter fun test => !test.isOpen).trans (.of_eq (closed_imported h hopened hlt))
  have hreverse := hclosed.trans (List.reverse_perm _).symm
  have hin : ∀ test ∈ blank.filter (fun test => !test.isOpen), test ∈ (importedTests true item).map unscored :=
    fun test htest => hblank.subset (List.mem_filter.mp htest).1
  rw [ranked_tests, orderBy_eq_of_perm descendingNumber_totalPreorder hreverse]
  · apply orderBy_of_sorted
    rw [List.pairwise_reverse]
    have hdrop := (List.pairwise_map.mp hpairwise).sublist (List.drop_sublist opened _)
    exact hdrop.imp fun hless => by
      unfold descendingNumber descending byKey
      exact decide_eq_true hless.le
  · intro a ha b hb hab hba
    unfold descendingNumber descending byKey at hab hba
    exact hties a (hin a ha) b (hin b hb) (le_antisymm (of_decide_eq_true hba) (of_decide_eq_true hab))

/-- What the import gives to a test number. -/
def pointsOf (item : ImportedProblem) (number : Int) : Int :=
  (((importedTests true item).find? fun test => test.number == number).map points).getD 0

theorem pointsOf_eq (h : Distributable item) {test : TestContent} (htest : test ∈ importedTests true item) :
    pointsOf item test.number = points test := by
  have hnumbers : ((importedTests true item).map TestContent.number).Nodup := by
    have hpairwise := h.numbers
    rw [← importedTests_numbers, List.map_map] at hpairwise
    exact hpairwise.imp fun hless => ne_of_lt hless
  unfold pointsOf
  rw [← List.head?_filter, filter_key_unique hnumbers htest]
  rfl

/-- The place of rank `p` is that of the import's `p`th test from the end. -/
theorem ranked_place (h : Distributable item) {opened : Nat} (hopened : item.manifest.openTestCount = opened)
    (hlt : opened < item.tests.length) {blank : List TestContent}
    (hblank : blank.Perm ((importedTests true item).map unscored)) {p i : Nat} {test : TestContent}
    (hp : (ranked blank)[p]? = some (test, i)) :
    p < item.tests.length - opened ∧
      pointsOf item test.number = (dealt 100 (item.tests.length - opened) p : Int) := by
  have hlength : ((importedTests true item).map unscored).length = item.tests.length := by
    rw [List.length_map, importedTests, List.length_mapIdx]
  have hfirst : ((ranked blank).map Prod.fst)[p]? = some test := by rw [List.getElem?_map, hp]; rfl
  rw [ranked_imported h hopened hlt hblank] at hfirst
  obtain ⟨hrank, -⟩ := List.getElem?_eq_some_iff.mp hfirst
  rw [List.length_reverse, List.length_drop, hlength] at hrank
  rw [List.getElem?_reverse (by rw [List.length_drop, hlength]; exact hrank), List.getElem?_drop, List.length_drop,
    hlength, List.getElem?_map] at hfirst
  obtain ⟨source, hsource, rfl⟩ := Option.map_eq_some_iff.mp hfirst
  refine ⟨hrank, ?_⟩
  show pointsOf item source.number = _
  rw [pointsOf_eq h (List.mem_of_getElem? hsource)]
  rw [getElem?_importedTests h hopened hlt] at hsource
  obtain ⟨content, -, rfl⟩ := Option.map_eq_some_iff.mp hsource
  have hclosed : ¬opened + (item.tests.length - opened - 1 - p) < opened := by omega
  have hend : item.tests.length - 1 - (opened + (item.tests.length - opened - 1 - p)) = p := by omega
  show ((share opened item.tests.length (opened + (item.tests.length - opened - 1 - p)) : Nat) : Int) = _
  rw [share, if_neg hclosed, hend]

theorem ranked_length (h : Distributable item) {opened : Nat} (hopened : item.manifest.openTestCount = opened)
    (hlt : opened < item.tests.length) {blank : List TestContent}
    (hblank : blank.Perm ((importedTests true item).map unscored)) :
    (closedOrder blank).length = item.tests.length - opened := by
  have hranked := congrArg List.length (ranked_imported h hopened hlt hblank)
  rw [List.length_map, List.length_reverse, List.length_drop, List.length_map, importedTests,
    List.length_mapIdx] at hranked
  rw [closedOrder, List.length_map, hranked]

/-- An open test of the import has no points. -/
theorem pointsOf_open (h : Distributable item) {test : TestContent}
    (htest : test ∈ (importedTests true item).map unscored)
    (hopen : test.isOpen = true) : pointsOf item test.number = 0 := by
  obtain ⟨opened, hopened, hlt⟩ := h.openedNat
  obtain ⟨source, hsource, rfl⟩ := List.mem_map.mp htest
  obtain ⟨i, -, -, hplace, hscore⟩ := importedTests_places h hopened hlt hsource
  have hsourceOpen : source.isOpen = true := hopen
  rw [hplace] at hsourceOpen
  show pointsOf item source.number = 0
  rw [pointsOf_eq h hsource, points, hscore, share, if_pos (of_decide_eq_true hsourceOpen)]
  rfl

theorem scoreTests_imported (h : Distributable item) {blank : List TestContent}
    (hblank : blank.Perm ((importedTests true item).map unscored)) {fuel : Nat} (hfuel : 101 < fuel) :
    ∃ scored, scoreTests fuel blank = some scored ∧
      (scored.map fun test => (test.number, points test)).Perm
        ((importedTests true item).map fun test => (test.number, points test)) := by
  obtain ⟨opened, hopened, hlt⟩ := h.openedNat
  have hlength := ranked_length h hopened hlt hblank
  have hstart : withScores blank (fun _ => none) = blank := by
    apply withScores_none
    intro test htest
    obtain ⟨source, -, rfl⟩ := List.mem_map.mp (hblank.subset htest)
    rfl
  obtain ⟨g, hloop, hclosed, hother⟩ := scoreLoop_deal blank 100 (by omega) fuel 0 (fun _ => none) (by omega)
    (by omega) (fun _ _ => rfl) (fun _ _ => rfl)
  rw [hstart] at hloop
  refine ⟨withScores blank g, by rw [scoreTests, ← hloop]; simp, ?_⟩
  have hpoints : (withScores blank g).map (fun test => (test.number, points test)) =
      blank.map fun test => (test.number, pointsOf item test.number) := by
    apply List.ext_getElem?
    intro i
    rw [List.getElem?_map, getElem?_withScores, List.getElem?_map, Option.map_map]
    cases hi : blank[i]? with
    | none => rfl
    | some test =>
      have hmem : test ∈ (importedTests true item).map unscored := hblank.subset (List.mem_of_getElem? hi)
      have hvalue : (g i).getD 0 = pointsOf item test.number := by
        by_cases hin : i ∈ closedOrder blank
        · obtain ⟨p, hp⟩ := List.mem_iff_getElem?.mp hin
          obtain ⟨other, hplace, hother⟩ := closedOrder_place hp
          rw [hi] at hother
          cases hother
          rw [hclosed p _ hp, (ranked_place h hopened hlt hblank hplace).2, hlength]
        · rw [hother i hin, Option.getD_none]
          refine (pointsOf_open h hmem ?_).symm
          cases hopen : test.isOpen with
          | true => rfl
          | false => exact absurd (closed_mem_order hi hopen) hin
      exact congrArg (fun value => some (test.number, value)) hvalue
  rw [hpoints]
  refine (hblank.map _).trans (.of_eq ?_)
  rw [List.map_map]
  apply List.map_congr_left
  intro test htest
  exact congrArg (Prod.mk test.number) (pointsOf_eq h htest)

/-- The scores that a school contest gives the tests of a problem. -/
structure Distribution (item : ImportedProblem) : Prop where
  /-- No division by zero: each test's expression has a value, and it is stored. -/
  evaluated : ∀ i < item.tests.length, ∃ score,
    schoolScore item.manifest.openTestCount item.tests.length i = some score ∧
    (importedTests true item)[i]?.map TestContent.score = some (some score)
  opened : ∀ test ∈ importedTests true item, test.isOpen = true → test.score = some 0
  nonneg : ∀ test ∈ importedTests true item, ∃ score, test.score = some score ∧ 0 ≤ score
  total : ((importedTests true item).map points).sum = 100
  even : ∀ a ∈ importedTests true item, ∀ b ∈ importedTests true item, a.isOpen = false → b.isOpen = false →
    points a ≤ points b + 1 ∧ (a.number ≤ b.number → points a ≤ points b)
  /-- The manager's deal on the same tests without scores, in any order. -/
  legacy : ∀ blank : List TestContent, blank.Perm ((importedTests true item).map unscored) → ∀ fuel, 101 < fuel →
    ∃ scored, scoreTests fuel blank = some scored ∧
      (scored.map fun test => (test.number, points test)).Perm
        ((importedTests true item).map fun test => (test.number, points test))

/-- Of two tests the one with the higher number is the later one. -/
theorem place_le (h : Distributable item) {i j : Nat} {a b : TestContent} (hi : (importedTests true item)[i]? = some a)
    (hj : (importedTests true item)[j]? = some b) (hle : a.number ≤ b.number) : i ≤ j := by
  by_cases hlt : j < i
  · have hpairwise := h.numbers
    rw [← importedTests_numbers, List.map_map] at hpairwise
    obtain ⟨hilt, rfl⟩ := List.getElem?_eq_some_iff.mp hi
    obtain ⟨hjlt, rfl⟩ := List.getElem?_eq_some_iff.mp hj
    have hless := List.pairwise_iff_getElem.mp (List.pairwise_map.mp hpairwise) j i hjlt hilt hlt
    exact absurd hle (not_le.mpr hless)
  · omega

theorem distribution (h : Distributable item) : Distribution item := by
  obtain ⟨opened, hopened, hlt⟩ := h.openedNat
  refine ⟨fun i hi => ?_, fun test htest hopen => ?_, fun test htest => ?_, ?_, fun a ha b hb hclosed hclosed' => ?_,
    fun blank hblank fuel hfuel => scoreTests_imported h hblank hfuel⟩
  · refine ⟨share opened item.tests.length i, by rw [hopened]; exact schoolScore_share hlt hi, ?_⟩
    rw [getElem?_importedTests h hopened hlt, List.getElem?_eq_getElem hi]
    rfl
  · obtain ⟨i, -, -, hplace, hscore⟩ := importedTests_places h hopened hlt htest
    rw [hplace] at hopen
    rw [hscore, share, if_pos (of_decide_eq_true hopen)]
    rfl
  · obtain ⟨i, -, -, -, hscore⟩ := importedTests_places h hopened hlt htest
    exact ⟨_, hscore, by omega⟩
  · rw [map_points h hopened hlt, ← Nat.cast_list_sum, share_sum hlt]
    rfl
  · obtain ⟨i, -, hi, hplace, hscore⟩ := importedTests_places h hopened hlt ha
    obtain ⟨j, -, hj, hplace', hscore'⟩ := importedTests_places h hopened hlt hb
    rw [hplace] at hclosed
    rw [hplace'] at hclosed'
    obtain ⟨hone, hlater⟩ := share_closed item.tests.length (of_decide_eq_false hclosed)
      (of_decide_eq_false hclosed')
    rw [points, points, hscore, hscore', Option.getD_some, Option.getD_some]
    refine ⟨by omega, fun hle => ?_⟩
    have := hlater (place_le h hi hj hle)
    omega

end

/-- What is imported into a school contest without explicit scores is distributable. -/
theorem imported_distributable {options : ContestImportOptions} {runtime : Runtime}
    {source : Except Exn (List ZipEntry)} {items : List ImportedProblem}
    (hread : readAsync options runtime source = .ok items)
    {item : ImportedProblem} (hitem : item ∈ items) (hscores : item.manifest.scores = none) {contestId : Int}
    {supported : List Int} {tracker tracker' : Tracker}
    (himport : importProblem true contestId supported tracker item = .ok tracker') : Distributable item := by
  obtain ⟨-, haccepted, -⟩ := readAsync_accepted options runtime hread
  have hitem := haccepted item hitem
  refine ⟨hscores, hitem.openTestCount.1, ?_, hitem.numbers⟩
  have hle := hitem.openTestCount.2
  by_cases hall : item.manifest.openTestCount = item.tests.length
  · -- the guard before the distribution
    unfold importProblem at himport
    dsimp only at himport
    rw [hscores, hall] at himport
    by_cases hsupported : supported.contains item.manifest.checkerId = true
    · rw [hsupported] at himport
      simp at himport
    · rw [Bool.not_eq_true] at hsupported
      rw [hsupported] at himport
      simp at himport
  · omega

theorem schoolScores_law :
    (∀ (options : ContestImportOptions) (runtime : Runtime) (source : Except Exn (List ZipEntry))
        (items : List ImportedProblem), readAsync options runtime source = .ok items →
      ∀ item ∈ items, item.manifest.scores = none →
        ∀ (contestId : Int) (supported : List Int) (tracker tracker' : Tracker),
          importProblem true contestId supported tracker item = .ok tracker' → Distributable item) ∧
    ∀ item : ImportedProblem, Distributable item → Distribution item := by
  refine ⟨?_, fun item h => distribution h⟩
  intro options runtime source items hread item hitem hscores contestId supported tracker tracker' himport
  exact imported_distributable hread hitem hscores himport

/-! ### One open test and three closed ones -/

def schoolRuntime : Runtime := ⟨.asciiOnly, fun _ => .ok (some { number := 1, name := "Sum", openTestCount := 1 })⟩

def schoolEntries : List ZipEntry :=
  ⟨"A/problem.json", 0, .ok []⟩ :: ([1, 2, 5, 9] : List Nat).flatMap fun number =>
    [⟨"A/input" ++ toString number ++ ".txt", 0, .ok []⟩, ⟨"A/output" ++ toString number ++ ".txt", 0, .ok []⟩]

def sampleProblem : ImportedProblem :=
  ⟨"A", { number := 1, name := "Sum", openTestCount := 1 }, [⟨1, [], []⟩, ⟨2, [], []⟩, ⟨5, [], []⟩, ⟨9, [], []⟩]⟩

/-- The archive is imported into a school contest that has no problems yet. -/
theorem sampleProblem_distributed :
    (importedTests true sampleProblem).map (·.score) = [some 0, some 33, some 33, some 34] ∧
      Distributable sampleProblem ∧ Distribution sampleProblem := by
  have hread : readAsync {} schoolRuntime (.ok schoolEntries) = .ok [sampleProblem] := by decide +kernel
  have himport : importProblem true 1 [4] ⟨[], []⟩ sampleProblem = .ok ⟨[], [newProblem true 1 sampleProblem]⟩ := rfl
  obtain ⟨himported, hdistributed⟩ := schoolScores_law
  have hsample := himported {} schoolRuntime _ _ hread sampleProblem List.mem_cons_self rfl 1 [4] _ _ himport
  exact ⟨by decide, hsample, hdistributed sampleProblem hsample⟩

end OlympSystem.Site.SchoolScores
