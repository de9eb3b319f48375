/-
  OlympSystem.Site.AntiCheatReports — the plagiarism reports of `AntiCheatReportService`
  (`Olymp.Site/Services/AntiCheat/AntiCheatReportService.cs`).

  The similarity of two texts and the threshold are a parameter, as `double` is: any
  values, and any of them may be said to exceed the threshold. `token n` is whether the
  `n`-th look at the token finds a cancellation. `calls` records for whose texts the
  similarity was asked.

  Proved:
  - `compareAll_ok`: the loops ask for the pairs of `Lib.Pairs`, in order.
  - `reports_cases` / `reports_increasing`: what the groups of cases are.
  - `compare_complete`: for every history and selection each pair is compared once, and
    the reports hold what exceeds the threshold.
  - `contest_complete` / `selected_complete`: so it is for the three queries.
  - `Complete.similarity`: with the service of the site, a report does not depend on the
    order in which a pair was compared.
-/

import Mathlib.Data.Prod.Lex
import OlympSystem.Lib.Pairs
import OlympSystem.Checker.EditDistances
import OlympSystem.Lib.Query
import OlympSystem.Site.Accounts

namespace OlympSystem.Site.Accounts.AntiCheat

open Lib.Query Lib.Tables Lib.Pairs

/-- A submission with its user, as `Include(x => x.User)` loads it. -/
structure Loaded extends Submission where
  user : User
  user_id : user.id = userId

/-- `ISubmissionSimilarityService`, with the threshold it is compared to. -/
structure SimilarityService where
  Similarity : Type
  compareSimilarity : String → String → Except Exn Similarity
  /-- `similarity > threshold`. -/
  exceeds : Similarity → Bool

variable (service : SimilarityService) (token : Nat → Bool)

structure PlagiarismCase where
  submission1 : Loaded
  submission2 : Loaded
  similarity : service.Similarity

structure PlagiarismReport where
  competitor1 : User
  competitor2 : User
  cases : List (PlagiarismCase service)

/-! ## Compare -/

/-- Where the loops are: the looks at the token, the calls of the service, and the cases. -/
structure Progress where
  looks : Nat
  calls : List (Loaded × Loaded)
  cases : List (PlagiarismCase service)

/-- The case of two submissions, the one of the user with the smaller id first. -/
def orient (submission other : Loaded) (similarity : service.Similarity) : PlagiarismCase service :=
  if submission.userId < other.userId then ⟨submission, other, similarity⟩ else ⟨other, submission, similarity⟩

def compareWith (selectedIds : List Int) (submission : Loaded) (progress : Progress service) (other : Loaded) :
    Except Exn (Progress service) :=
  if token progress.looks then .error .operationCanceled
  else
    let progress := { progress with looks := progress.looks + 1 }
    if submission.userId == other.userId then .ok progress
    else if selectedIds.contains other.id && decide (other.id < submission.id) then .ok progress
    else
      match service.compareSimilarity submission.text other.text with
      | .error e => .error e
      | .ok similarity => .ok { progress with
          calls := progress.calls ++ [(submission, other)]
          cases := if service.exceeds similarity then progress.cases ++ [orient service submission other similarity]
            else progress.cases }

/-- Both loops; `byProblem` is the lookup of the history. -/
def compareAll (selected history : List Loaded) : Except Exn (Progress service) :=
  selected.foldlM (fun progress submission =>
    (groupJoin submission.problemId (·.problemId) history).foldlM
      (compareWith service token (selected.map (·.id)) submission) progress) ⟨0, [], []⟩

def userPair (x : PlagiarismCase service) : Int × Int := (x.submission1.userId, x.submission2.userId)

/-- The groups of cases, in order of the pairs of ids. -/
def reports (cases : List (PlagiarismCase service)) : List (PlagiarismReport service) :=
  (orderBy (byKey fun group => toLex group.1) (groupBy (userPair service) cases)).filterMap fun group =>
    group.2.head?.map fun first => ⟨first.submission1.user, first.submission2.user, group.2⟩

def compare (selected history : List Loaded) :
    Except Exn (List (Loaded × Loaded) × List (PlagiarismReport service)) :=
  match compareAll service token selected history with
  | .error e => .error e
  | .ok progress =>
    if token progress.looks then .error .operationCanceled else .ok (progress.calls, reports service progress.cases)

/-! ## The loops -/

/-- The pairs a call is made for: of one problem, by different users. -/
def related (a b : Loaded) : Bool := a.problemId == b.problemId && a.userId != b.userId

/-- The pairs of a history that are compared. -/
abbrev compared (selected history : List Loaded) : List (Loaded × Loaded) :=
  pairs (·.id) selected history related

/-- What a call adds to the cases. -/
def caseOf (pair : Loaded × Loaded) : Option (PlagiarismCase service) :=
  match service.compareSimilarity pair.1.text pair.2.text with
  | .error _ => none
  | .ok similarity => if service.exceeds similarity then some (orient service pair.1 pair.2 similarity) else none

/-- Calls were made for these pairs, and nothing else happened. -/
structure Asked (progress : Progress service) (l : List (Loaded × Loaded)) (progress' : Progress service) : Prop where
  calls : progress'.calls = progress.calls ++ l
  cases : progress'.cases = progress.cases ++ l.filterMap (caseOf service)
  answered : ∀ pair ∈ l, ∃ similarity, service.compareSimilarity pair.1.text pair.2.text = .ok similarity

section Loops

variable {service token} {selectedIds : List Int} {submission : Loaded}

theorem Asked.refl (progress : Progress service) : Asked service progress [] progress :=
  ⟨(List.append_nil _).symm, (List.append_nil _).symm, fun _ h => (nomatch h)⟩

theorem Asked.trans {p₁ p₂ p₃ : Progress service} {l m : List (Loaded × Loaded)} (h : Asked service p₁ l p₂)
    (h' : Asked service p₂ m p₃) : Asked service p₁ (l ++ m) p₃ := by
  refine ⟨?_, ?_, fun pair hp => ?_⟩
  · rw [h'.calls, h.calls, List.append_assoc]
  · rw [h'.cases, h.cases, List.filterMap_append, List.append_assoc]
  · rcases List.mem_append.mp hp with hp | hp
    · exact h.answered pair hp
    · exact h'.answered pair hp

/-- A loop asks what its rounds ask. -/
theorem foldlM_asked {α : Type} {round : Progress service → α → Except Exn (Progress service)}
    {f : α → List (Loaded × Loaded)} (hround : ∀ p a p', round p a = .ok p' → Asked service p (f a) p') :
    ∀ (l : List α) {p p' : Progress service}, l.foldlM round p = .ok p' → Asked service p (l.flatMap f) p' := by
  intro l
  induction l with
  | nil =>
    intro p p' h
    obtain rfl := Except.ok.inj h
    exact Asked.refl p
  | cons a l ih =>
    intro p p' h
    rw [List.foldlM_cons] at h
    obtain ⟨q, hq, hrest⟩ := bind_eq_ok.mp h
    rw [List.flatMap_cons]
    exact (hround p a q hq).trans (ih hrest)

theorem foldlM_total {α : Type} {round : Progress service → α → Except Exn (Progress service)}
    (hround : ∀ p a, ∃ p', round p a = .ok p') :
    ∀ (l : List α) (p : Progress service), ∃ p', l.foldlM round p = .ok p' := by
  intro l
  induction l with
  | nil => exact fun p => ⟨p, rfl⟩
  | cons a l ih =>
    intro p
    obtain ⟨q, hq⟩ := hround p a
    obtain ⟨p', hp'⟩ := ih q
    refine ⟨p', ?_⟩
    rw [List.foldlM_cons, hq]
    exact hp'

def isAsked (selectedIds : List Int) (submission other : Loaded) : Bool :=
  submission.userId != other.userId && !(selectedIds.contains other.id && decide (other.id < submission.id))

theorem compareWith_asked {p p' : Progress service} {other : Loaded}
    (h : compareWith service token selectedIds submission p other = .ok p') :
    Asked service p (if isAsked selectedIds submission other then [(submission, other)] else []) p' := by
  simp only [compareWith] at h
  split at h
  · cases h
  · split at h
    · next hsame =>
      obtain rfl := Except.ok.inj h
      simp only [isAsked, bne, hsame, Bool.not_true, Bool.false_and, Bool.false_eq_true, if_false]
      exact ⟨(List.append_nil _).symm, (List.append_nil _).symm, fun _ h => (nomatch h)⟩
    · next hdiffer =>
      split at h
      · next hskip =>
        obtain rfl := Except.ok.inj h
        simp only [isAsked, hskip, Bool.not_true, Bool.and_false, Bool.false_eq_true, if_false]
        exact ⟨(List.append_nil _).symm, (List.append_nil _).symm, fun _ h => (nomatch h)⟩
      · next hask =>
        have hasked : isAsked selectedIds submission other = true := by
          simp only [isAsked, bne, Bool.not_eq_true] at hdiffer hask ⊢
          rw [hdiffer, hask]
          rfl
        rw [if_pos hasked]
        split at h
        · cases h
        · next similarity hsimilarity =>
          obtain rfl := Except.ok.inj h
          refine ⟨rfl, ?_, fun pair hp => ?_⟩
          · simp only [List.filterMap_cons, List.filterMap_nil, caseOf, hsimilarity]
            split <;> simp
          · rw [List.mem_singleton.mp hp]
            exact ⟨similarity, hsimilarity⟩

/-- One submission against those of its problem. -/
theorem inner_asked (selected : List Loaded) (history : List Loaded) :
    (groupJoin submission.problemId (·.problemId) history).flatMap (fun other =>
      if isAsked (selected.map (·.id)) submission other then [(submission, other)] else []) =
      (history.filter (taken (·.id) selected related submission)).map (submission, ·) := by
  unfold groupJoin
  induction history with
  | nil => rfl
  | cons other history ih =>
    rw [List.filter_cons, List.filter_cons]
    have htaken : taken (·.id) selected related submission other =
        (submission.problemId == other.problemId && isAsked (selected.map (·.id)) submission other) := by
      simp only [taken, related, isAsked, Bool.and_assoc]
    rw [htaken]
    by_cases hproblem : (submission.problemId == other.problemId) = true
    · simp only [hproblem, Bool.true_and, if_true, List.flatMap_cons, ih]
      split <;> rfl
    · simp only [Bool.not_eq_true] at hproblem
      simp only [hproblem, Bool.false_and, Bool.false_eq_true, if_false]
      exact ih

/-- The loops ask for each pair that is compared, in order. -/
theorem compareAll_ok {selected history : List Loaded} {progress : Progress service}
    (h : compareAll service token selected history = .ok progress) :
    Asked service ⟨0, [], []⟩ (compared selected history) progress := by
  refine foldlM_asked (fun p submission p' hround => ?_) selected h
  rw [← inner_asked selected history]
  exact foldlM_asked (fun _ _ _ hbody => compareWith_asked hbody) _ hround

theorem compareWith_total (htoken : ∀ n, token n = false)
    (hservice : ∀ a b, ∃ similarity, service.compareSimilarity a b = .ok similarity) (p : Progress service)
    (other : Loaded) : ∃ p', compareWith service token selectedIds submission p other = .ok p' := by
  obtain ⟨similarity, hsimilarity⟩ := hservice submission.text other.text
  simp only [compareWith, htoken, Bool.false_eq_true, if_false, hsimilarity]
  split
  · exact ⟨_, rfl⟩
  · split <;> exact ⟨_, rfl⟩

end Loops

/-! ## The reports -/

section Reports

variable {service} {cases : List (PlagiarismCase service)}

/-- The cases of a report, and the ids of its users. -/
def IsReportOf (group : (Int × Int) × List (PlagiarismCase service)) (report : PlagiarismReport service) : Prop :=
  group.1 = (report.competitor1.id, report.competitor2.id) ∧ group.2 = report.cases

/-- Every group has a first case, and with it a report. -/
theorem reports_of (cases : List (PlagiarismCase service)) : List.Forall₂ IsReportOf
    (orderBy (byKey fun group => toLex group.1) (groupBy (userPair service) cases)) (reports service cases) := by
  refine filterMap_forall₂ fun group hgroup => ?_
  obtain ⟨hne, helements⟩ := groupBy_elements (mem_orderBy.mp hgroup)
  obtain ⟨first, rest, hcons⟩ := List.exists_cons_of_ne_nil hne
  have hfirst := (helements first (by rw [hcons]; exact List.mem_cons_self)).2
  refine ⟨_, by rw [hcons]; rfl, ?_, hcons⟩
  show group.1 = (first.submission1.user.id, first.submission2.user.id)
  rw [first.submission1.user_id, first.submission2.user_id]
  exact hfirst.symm

theorem reports_cases (cases : List (PlagiarismCase service)) :
    ((reports service cases).flatMap PlagiarismReport.cases).Perm cases := by
  have hmap := map_eq_of_forall₂ ((reports_of cases).imp fun _ _ h => h.2)
  rw [List.flatMap_def, ← hmap, ← List.flatMap_def]
  exact ((orderBy_perm _ _).flatMap_right _).trans (groupBy_perm _ _)

/-- The pairs of ids increase. -/
theorem reports_increasing (cases : List (PlagiarismCase service)) :
    (reports service cases).Pairwise fun r r' =>
      toLex (r.competitor1.id, r.competitor2.id) < toLex (r'.competitor1.id, r'.competitor2.id) := by
  have hmap := map_eq_of_forall₂ ((reports_of cases).imp fun _ _ h => h.1)
  have hsorted := orderBy_sorted (byKey_totalPreorder fun group : (Int × Int) × List (PlagiarismCase service) =>
    toLex group.1) (groupBy (userPair service) cases)
  have hkeys : ((orderBy (byKey fun group => toLex group.1) (groupBy (userPair service) cases)).map Prod.fst).Nodup :=
    ((orderBy_perm _ _).map _).nodup_iff.mpr (groupBy_keys _ _)
  have hstrict : ((orderBy (byKey fun group => toLex group.1) (groupBy (userPair service) cases)).map
      Prod.fst).Pairwise fun k k' => toLex k < toLex k' := by
    refine List.pairwise_map.mpr ((hsorted.and (List.pairwise_map.mp hkeys)).imp fun {a b} hab => ?_)
    have hle : toLex a.1 ≤ toLex b.1 := of_decide_eq_true hab.1
    exact lt_of_le_of_ne hle fun heq => hab.2 heq
  rw [hmap] at hstrict
  exact List.pairwise_map.mp hstrict

/-- A case is in the report of its users. -/
theorem reports_users {report : PlagiarismReport service} (hreport : report ∈ reports service cases)
    {x : PlagiarismCase service} (hx : x ∈ report.cases) :
    x.submission1.userId = report.competitor1.id ∧ x.submission2.userId = report.competitor2.id := by
  obtain ⟨group, hgroup, hkey, hcases⟩ := (forall₂_exists (reports_of cases)).2 report hreport
  rw [← hcases] at hx
  exact Prod.mk.inj (((groupBy_elements (mem_orderBy.mp hgroup)).2 x hx).2.trans hkey)

end Reports

/-! ## The law -/

/-- What a comparison of a selection with a history returns. -/
structure Complete (selected history : List Loaded) (calls : List (Loaded × Loaded))
    (reports : List (PlagiarismReport service)) : Prop where
  /-- Each pair of submissions to one problem by different users, one of them selected, is compared. -/
  compared : ∀ a b, s(a, b) ∈ calls.map unordered ↔ a ∈ history ∧ b ∈ history ∧ a.problemId = b.problemId ∧
    a.userId ≠ b.userId ∧ (a ∈ selected ∨ b ∈ selected)
  compared_once : (calls.map unordered).Nodup
  /-- The cases are the pairs whose similarity exceeds the threshold. -/
  cases : ∀ x : PlagiarismCase service, x ∈ reports.flatMap PlagiarismReport.cases ↔
    x.submission1.userId < x.submission2.userId ∧ service.exceeds x.similarity = true ∧
      ∃ pair ∈ calls, unordered pair = s(x.submission1, x.submission2) ∧
        service.compareSimilarity pair.1.text pair.2.text = .ok x.similarity
  cases_once : ((reports.flatMap PlagiarismReport.cases).map fun x => s(x.submission1, x.submission2)).Nodup
  increasing : reports.Pairwise fun r r' =>
    toLex (r.competitor1.id, r.competitor2.id) < toLex (r'.competitor1.id, r'.competitor2.id)
  users : ∀ report ∈ reports, ∀ x ∈ report.cases,
    x.submission1.userId = report.competitor1.id ∧ x.submission2.userId = report.competitor2.id

section Law

variable {service token} {selected history : List Loaded}

theorem related_iff {a b : Loaded} : related a b = true ↔ a.problemId = b.problemId ∧ a.userId ≠ b.userId := by
  simp [related]

theorem related_symm (a b : Loaded) : related a b = related b a := by
  rw [Bool.eq_iff_iff, related_iff, related_iff]
  exact and_congr eq_comm ne_comm

theorem orient_pair (a b : Loaded) (similarity : service.Similarity) :
    s((orient service a b similarity).submission1, (orient service a b similarity).submission2) = s(a, b) := by
  unfold orient
  split
  · rfl
  · exact Sym2.eq_swap

theorem orient_lt {a b : Loaded} (h : a.userId ≠ b.userId) (similarity : service.Similarity) :
    (orient service a b similarity).submission1.userId < (orient service a b similarity).submission2.userId := by
  unfold orient
  split
  · assumption
  · show b.userId < a.userId
    omega

theorem mem_caseOf {pair : Loaded × Loaded} {x : PlagiarismCase service} : caseOf service pair = some x ↔
    service.exceeds x.similarity = true ∧ service.compareSimilarity pair.1.text pair.2.text = .ok x.similarity ∧
      x = orient service pair.1 pair.2 x.similarity := by
  unfold caseOf
  cases hsimilarity : service.compareSimilarity pair.1.text pair.2.text with
  | error e => simp
  | ok similarity =>
    have hvalue : (orient service pair.1 pair.2 similarity).similarity = similarity := by
      unfold orient
      split <;> rfl
    by_cases hexceeds : service.exceeds similarity = true
    · simp only [if_pos hexceeds, Option.some.injEq, Except.ok.injEq]
      constructor
      · intro heq
        rw [← heq, hvalue]
        exact ⟨hexceeds, rfl, rfl⟩
      · intro ⟨_, heq, hx⟩
        rw [hx, ← heq]
    · simp only [if_neg hexceeds, Except.ok.injEq]
      constructor
      · intro h
        cases h
      · intro ⟨hx, heq, _⟩
        exact absurd (heq ▸ hx) hexceeds

/-- A case is made of its pair in one way. -/
theorem eq_orient {a b : Loaded} {x : PlagiarismCase service} (hsame : s(a, b) = s(x.submission1, x.submission2))
    (hlt : x.submission1.userId < x.submission2.userId) : x = orient service a b x.similarity := by
  unfold orient
  rcases Sym2.eq_iff.mp hsame with ⟨ha, hb⟩ | ⟨ha, hb⟩
  · rw [ha, hb, if_pos hlt]
  · rw [ha, hb, if_neg (by omega)]

/-- The cases are of some of the pairs, each of its own. -/
theorem cases_sublist (l : List (Loaded × Loaded)) :
    ((l.filterMap (caseOf service)).map fun x => s(x.submission1, x.submission2)).Sublist (l.map unordered) := by
  induction l with
  | nil => exact .refl _
  | cons pair l ih =>
    cases hcase : caseOf service pair with
    | none =>
      rw [List.filterMap_cons_none hcase]
      exact ih.cons _
    | some x =>
      rw [List.filterMap_cons_some hcase, List.map_cons, List.map_cons]
      have hpair : s(x.submission1, x.submission2) = unordered pair := by
        rw [(mem_caseOf.mp hcase).2.2]
        exact orient_pair pair.1 pair.2 x.similarity
      rw [hpair]
      exact ih.cons_cons _

/-- A comparison that returns. -/
theorem compare_returns {calls : List (Loaded × Loaded)} {result : List (PlagiarismReport service)}
    (h : compare service token selected history = .ok (calls, result)) :
    calls = compared selected history ∧ result = reports service (calls.filterMap (caseOf service)) := by
  unfold compare at h
  split at h
  · cases h
  · next progress hprogress =>
    split at h
    · cases h
    · obtain ⟨rfl, rfl⟩ := Prod.mk.inj (Except.ok.inj h)
      have hasked := compareAll_ok hprogress
      have hcalls : progress.calls = compared selected history := hasked.calls
      have hcases : progress.cases = (compared selected history).filterMap (caseOf service) := hasked.cases
      exact ⟨hcalls, by rw [hcalls, hcases]⟩

variable (hids : (history.map (·.id)).Nodup) (hselected : selected.Subperm history)

include hids hselected

/-- What is compared, and what comes of it. -/
theorem complete_reports : Complete service selected history (compared selected history)
    (reports service ((compared selected history).filterMap (caseOf service))) := by
  have hhistory : history.Nodup := hids.of_map
  have hkeys : ∀ a ∈ history, ∀ b ∈ history, a.id = b.id → a = b :=
    fun a ha b hb heq => List.inj_on_of_nodup_map hids ha hb heq
  have hsub : ∀ a ∈ selected, a ∈ history := fun _ ha => hselected.subset ha
  have hnodup : selected.Nodup := by
    obtain ⟨l, hperm, hsublist⟩ := hselected
    exact hperm.nodup_iff.mp (hhistory.sublist hsublist)
  have hirrefl : ∀ a, related a a = false := fun a => by simp [related]
  have honce := unordered_nodup hkeys hsub hirrefl hnodup hhistory
  have hperm := reports_cases ((compared selected history).filterMap (caseOf service))
  have hmem : ∀ a b, s(a, b) ∈ (compared selected history).map unordered ↔ a ∈ history ∧ b ∈ history ∧
      a.problemId = b.problemId ∧ a.userId ≠ b.userId ∧ (a ∈ selected ∨ b ∈ selected) := by
    intro a b
    rw [mem_unordered hkeys hsub related_symm, related_iff]
    simp only [and_assoc]
  refine ⟨hmem, honce, fun x => ?_, ?_, reports_increasing _, fun _ hreport _ hx => reports_users hreport hx⟩
  · rw [hperm.mem_iff, List.mem_filterMap]
    constructor
    · intro ⟨pair, hpair, hcase⟩
      obtain ⟨hexceeds, hsimilarity, horient⟩ := mem_caseOf.mp hcase
      have hdiffer := ((hmem pair.1 pair.2).mp (List.mem_map_of_mem hpair)).2.2.2.1
      refine ⟨?_, hexceeds, pair, hpair, ?_, hsimilarity⟩
      · rw [horient]
        exact orient_lt hdiffer _
      · rw [horient]
        exact (orient_pair pair.1 pair.2 x.similarity).symm
    · intro ⟨hlt, hexceeds, pair, hpair, hsame, hsimilarity⟩
      exact ⟨pair, hpair, mem_caseOf.mpr ⟨hexceeds, hsimilarity, eq_orient hsame hlt⟩⟩
  · exact (hperm.map _).nodup_iff.mpr (honce.sublist (cases_sublist _))

/-- For every history with unique ids and every selection contained in it; a comparison
    that is not cancelled, of a service that does not throw, returns. -/
theorem compare_complete (service : SimilarityService) (token : Nat → Bool) :
    (∀ calls result, compare service token selected history = .ok (calls, result) →
      Complete service selected history calls result) ∧
    ((∀ n, token n = false) → (∀ a b, ∃ similarity, service.compareSimilarity a b = .ok similarity) →
      ∃ calls result, compare service token selected history = .ok (calls, result)) := by
  constructor
  · intro calls result h
    obtain ⟨rfl, rfl⟩ := compare_returns h
    exact complete_reports hids hselected
  · intro htoken hservice
    obtain ⟨progress, hprogress⟩ : ∃ progress, compareAll service token selected history = .ok progress :=
      foldlM_total (fun p submission => foldlM_total (fun q other => compareWith_total htoken hservice q other) _ p)
        selected _
    refine ⟨progress.calls, reports service progress.cases, ?_⟩
    unfold compare
    rw [hprogress]
    simp [htoken]

end Law

def sampleLoaded (id : Int) (text : String) (commitTime userId : Int) : Loaded where
  id := id
  text := text
  statusCode := 2
  commitTime := commitTime
  lastModification := commitTime
  userId := userId
  problemId := 1
  compilatorId := 1
  user := ⟨userId, none, none, 0, "user", false, false, none, none, none⟩
  user_id := rfl

def sampleSelected : List Loaded := [sampleLoaded 2 "one" 10 2, sampleLoaded 3 "two" 20 1, sampleLoaded 4 "own" 30 2]

def sampleHistory : List Loaded := sampleLoaded 1 "old" 0 3 :: sampleSelected

def sampleService : SimilarityService := ⟨Bool, fun a b => .ok (a.length == b.length), id⟩

theorem sample_complete : ∃ calls result,
    compare sampleService (fun _ => false) sampleSelected sampleHistory = .ok (calls, result) ∧
      Complete sampleService sampleSelected sampleHistory calls result := by
  obtain ⟨hlaw, hreturns⟩ := compare_complete (by decide : (sampleHistory.map (·.id)).Nodup)
    (List.sublist_cons_self _ _).subperm sampleService fun _ => false
  obtain ⟨calls, result, h⟩ := hreturns (fun _ => rfl) fun _ _ => ⟨_, rfl⟩
  exact ⟨calls, result, h, hlaw calls result h⟩

example : (compare sampleService (fun _ => false) sampleSelected sampleHistory).map
    (fun r => (r.1.map fun pair => (pair.1.id, pair.2.id), r.2.map fun x => (x.competitor1.id, x.competitor2.id))) =
      .ok ([(2, 1), (2, 3), (3, 1), (3, 4), (4, 1)], [(1, 2), (1, 3), (2, 3)]) := by
  decide +kernel

/-! ## The queries -/

def includeUser (db : Db) (x : Submission) : Option Loaded :=
  match h : db.users.find? x.userId with
  | none => none
  | some account => some { x with user := account.user, user_id := (Table.find?_some h).2 }

def loadAsync (db : Db) (query : List Submission) : List Loaded :=
  orderBy (byKey fun x => x.id) (query.filterMap (includeUser db))

/-- `ContestSubmissions`: those of the contest's competitors. -/
def contestSubmissions (db : Db) (contestId : Int) : List Submission :=
  (db.competitors.filter (·.contestId == contestId)).flatMap fun x =>
    db.history.submissions.rows.filter (·.userId == x.id)

def findContestPlagiarismAsync (db : Db) (contestId : Int) :
    Except Exn (List (Loaded × Loaded) × List (PlagiarismReport service)) :=
  let submissions := loadAsync db (contestSubmissions db contestId)
  compare service token submissions submissions

/-- A selection against all submissions to its problems. -/
def compareSelected (db : Db) (isSelected : Submission → Bool) :
    Except Exn (List (Loaded × Loaded) × List (PlagiarismReport service)) :=
  let problemIds := (db.history.submissions.rows.filter isSelected).map Submission.problemId
  let history := loadAsync db (db.history.submissions.rows.filter fun x => problemIds.contains x.problemId)
  compare service token (history.filter fun x => isSelected x.toSubmission) history

def inPeriod (startTime endTime : Int) (x : Submission) : Bool :=
  decide (startTime ≤ x.commitTime) && decide (x.commitTime ≤ endTime)

def findPlagiarismByDateAsync (db : Db) (startTime endTime : Int) :
    Except Exn (List (Loaded × Loaded) × List (PlagiarismReport service)) :=
  compareSelected service token db (inPeriod startTime endTime)

def findPlagiarismByUserAsync (db : Db) (userName : String) :
    Except OperationExn (List (Loaded × Loaded) × List (PlagiarismReport service)) :=
  match (orderBy (byKey User.id) (db.users.rows.map Account.user)).find? fun x =>
      x.userName == some userName || x.name == userName with
  | none => .error .entityNotFound
  | some user =>
    match compareSelected service token db (·.userId == user.id) with
    | .error e => .error (.other e)
    | .ok result => .ok result

section Queries

variable {service token} {db : Db} {calls : List (Loaded × Loaded)} {result : List (PlagiarismReport service)}

theorem includeUser_some {x : Submission} {loaded : Loaded} (h : includeUser db x = some loaded) :
    loaded.toSubmission = x ∧ ∃ account ∈ db.users.rows, loaded.user = account.user := by
  unfold includeUser at h
  split at h
  · cases h
  · next account haccount =>
    cases h
    exact ⟨rfl, account, (Table.find?_some haccount).1, rfl⟩

/-- What is loaded has the ids of what was asked for. -/
theorem loadAsync_ids {query : List Submission} (h : (query.map Submission.id).Nodup) :
    ((loadAsync db query).map (·.id)).Nodup := by
  have hsub : ((query.filterMap (includeUser db)).map (·.id)).Sublist (query.map Submission.id) := by
    clear h
    induction query with
    | nil => exact .refl _
    | cons x query ih =>
      cases hx : includeUser db x with
      | none =>
        rw [List.filterMap_cons_none hx]
        exact ih.cons _
      | some loaded =>
        rw [List.filterMap_cons_some hx, List.map_cons, List.map_cons, (includeUser_some hx).1]
        exact ih.cons_cons _
  exact ((orderBy_perm _ _).map _).nodup_iff.mpr (h.sublist hsub)

theorem mem_loadAsync {query : List Submission} {a : Loaded} (h : a ∈ loadAsync db query) : a.toSubmission ∈ query := by
  obtain ⟨x, hx, hload⟩ := List.mem_filterMap.mp (mem_orderBy.mp h)
  rw [(includeUser_some hload).1]
  exact hx

theorem loadAsync_of {query all : List Submission} {a : Loaded} (ha : a ∈ loadAsync db all)
    (hquery : a.toSubmission ∈ query) :
    a ∈ loadAsync db query := by
  obtain ⟨x, -, hload⟩ := List.mem_filterMap.mp (mem_orderBy.mp ha)
  rw [(includeUser_some hload).1] at hquery
  exact mem_orderBy.mpr (List.mem_filterMap.mpr ⟨x, hquery, hload⟩)

/-- A submission is of one competitor. -/
theorem contestSubmissions_ids (db : Db) (contestId : Int) :
    ((contestSubmissions db contestId).map Submission.id).Nodup := by
  have hkeys := db.history.submissions.keys
  have hnodup : (contestSubmissions db contestId).Nodup := by
    have hcompetitors : ((db.competitors.filter (·.contestId == contestId)).map fun c => c.id).Nodup :=
      (Db.competitor_ids db).sublist (List.filter_sublist.map _)
    refine List.nodup_flatMap.mpr ⟨fun _ _ => hkeys.of_map.filter _, (List.pairwise_map.mp hcompetitors).imp ?_⟩
    intro c c' hne x hx hx'
    have huser := beq_iff_eq.mp (List.mem_filter.mp hx).2
    have huser' := beq_iff_eq.mp (List.mem_filter.mp hx').2
    exact hne (huser.symm.trans huser')
  refine hnodup.map_on fun a ha b hb heq => ?_
  obtain ⟨_, -, ha⟩ := List.mem_flatMap.mp ha
  obtain ⟨_, -, hb⟩ := List.mem_flatMap.mp hb
  exact Table.row_unique (List.mem_filter.mp ha).1 (List.mem_filter.mp hb).1 heq

/-- The submissions of a contest's competitors are compared with each other. -/
theorem contest_complete {contestId : Int}
    (h : findContestPlagiarismAsync service token db contestId = .ok (calls, result)) :
    Complete service (loadAsync db (contestSubmissions db contestId)) (loadAsync db (contestSubmissions db contestId))
      calls result :=
  (compare_complete (loadAsync_ids (contestSubmissions_ids db contestId)) (List.Subperm.refl _) service token).1 _ _ h

/-- A selection is compared with all submissions there are. -/
theorem selected_complete {isSelected : Submission → Bool}
    (h : compareSelected service token db isSelected = .ok (calls, result)) : (calls.map unordered).Nodup ∧
    ∀ a ∈ loadAsync db db.history.submissions.rows, ∀ b ∈ loadAsync db db.history.submissions.rows,
      (s(a, b) ∈ calls.map unordered ↔ a.problemId = b.problemId ∧ a.userId ≠ b.userId ∧
        (isSelected a.toSubmission = true ∨ isSelected b.toSubmission = true)) := by
  have hkeys := db.history.submissions.keys
  have hcomplete := (compare_complete (loadAsync_ids (hkeys.sublist (List.filter_sublist.map _)))
    List.filter_sublist.subperm service token).1 _ _ h
  refine ⟨hcomplete.compared_once, fun a ha b hb => ?_⟩
  rw [hcomplete.compared]
  -- a submission to a problem that was selected is in the history
  have hhistory : ∀ x ∈ loadAsync db db.history.submissions.rows, ∀ y ∈ loadAsync db db.history.submissions.rows,
      isSelected y.toSubmission = true → x.problemId = y.problemId →
      x ∈ loadAsync db (db.history.submissions.rows.filter fun x => ((db.history.submissions.rows.filter isSelected).map
        Submission.problemId).contains x.problemId) := by
    intro x hx y hy hselected hproblem
    refine loadAsync_of hx (List.mem_filter.mpr ⟨mem_loadAsync hx, ?_⟩)
    rw [List.contains_iff_mem, hproblem]
    exact List.mem_map_of_mem (List.mem_filter.mpr ⟨mem_loadAsync hy, hselected⟩)
  simp only [List.mem_filter]
  constructor
  · intro ⟨_, _, hproblem, huser, hselected⟩
    exact ⟨hproblem, huser, hselected.imp And.right And.right⟩
  · intro ⟨hproblem, huser, hselected⟩
    rcases hselected with hs | hs
    · exact ⟨hhistory a ha a ha hs rfl, hhistory b hb a ha hs hproblem.symm, hproblem, huser,
        Or.inl ⟨hhistory a ha a ha hs rfl, hs⟩⟩
    · exact ⟨hhistory a ha b hb hs hproblem, hhistory b hb b hb hs rfl, hproblem, huser,
        Or.inr ⟨hhistory b hb b hb hs rfl, hs⟩⟩

end Queries

/-! ## The similarity of the site -/

open Lib.CodeUnits Checker.SimpleSubmissionSimilarityService in
/-- `SimpleSubmissionSimilarityService`, over rational numbers. -/
def simpleService (isFiltered : UInt16 → Bool) (threshold : ℚ) : SimilarityService where
  Similarity := ℚ
  compareSimilarity source1 source2 := .ok (compareSimilarity isFiltered (units source1) (units source2))
  exceeds similarity := decide (threshold < similarity)

/-- A pair is compared in one order; a report has the similarity of its two submissions in both. -/
theorem Complete.similarity {isFiltered : UInt16 → Bool} {threshold : ℚ} {selected history : List Loaded}
    {calls : List (Loaded × Loaded)} {reports : List (PlagiarismReport (simpleService isFiltered threshold))}
    (h : Complete (simpleService isFiltered threshold) selected history calls reports) :
    ∀ x ∈ reports.flatMap PlagiarismReport.cases,
      (simpleService isFiltered threshold).compareSimilarity x.submission1.text x.submission2.text = .ok x.similarity ∧
      (simpleService isFiltered threshold).compareSimilarity x.submission2.text x.submission1.text =
        .ok x.similarity := by
  intro x hx
  obtain ⟨-, -, pair, -, hpair, hsimilarity⟩ := (h.cases x).mp hx
  have hsymm : ∀ a b, (simpleService isFiltered threshold).compareSimilarity a b =
      (simpleService isFiltered threshold).compareSimilarity b a := fun a b =>
    congrArg Except.ok (Checker.SimpleSubmissionSimilarityService.compareSimilarity_comm isFiltered _ _)
  rcases Sym2.eq_iff.mp hpair with ⟨h1, h2⟩ | ⟨h1, h2⟩
  · rw [h1, h2] at hsimilarity
    exact ⟨hsimilarity, (hsymm _ _).trans hsimilarity⟩
  · rw [h1, h2] at hsimilarity
    exact ⟨(hsymm _ _).trans hsimilarity, hsimilarity⟩

end OlympSystem.Site.Accounts.AntiCheat
