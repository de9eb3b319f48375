/-
  OlympSystem.Site.NameImport — participants imported by name.

  A name is looked up among the trimmed names of the contest, without case, as they were
  before the import; the names of the list are different without case, so what one round
  adds no other round looks for.

  Proved:
  - `importName_returns`: what a round does.
  - `imported_loop`: the rounds add the absent names, in the order of the list.
  - `importAsync_imported`: what an import that returns has checked and done.
  - `again_returns` / `again_throws`: what the same import does after it.
  - `names_imported`: all of it, and that an import that throws has changed nothing.
-/

import OlympSystem.Site.CompetitorRuns

namespace OlympSystem.Site.Accounts.CompetitorManagement

open Lib.Text Lib.Query Lib.Transactions

variable (service : CompetitorManagementService)

/-- `existing[name]`. -/
def withName (existing : List Competitor) (name : String) : List Competitor :=
  existing.filter fun x => service.upper.equals (trim x.name) name

def isAbsent (existing : List Competitor) (name : String) : Bool := (withName service existing name).isEmpty

/-- The rounds for these names have added these competitors, and nothing else. -/
structure Added (contestId : Int) (existing : List Competitor) (names : List String) (added : List Competitor)
    (db db' : Db) : Prop extends Same db db' where
  competitors : db'.competitors = db.competitors ++ added
  participations : db'.participations = db.participations
  claims : db'.claims = db.claims
  absent : added.map (fun c => c.name) = names.filter (isAbsent service existing)
  approved : ∀ c ∈ added, c.isApproved = true ∧ c.contestId = contestId
  once : ∀ name ∈ names, (withName service existing name).length ≤ 1

variable {service} {o : Outside OperationExn} {db db' : Db} {contestId : Int} {existing : List Competitor}

/-! ## The rounds -/

/-- A round goes past a name that is there once, and adds one that is not there. -/
theorem importName_returns {added added' : Nat} {name : String}
    (h : Returns o (importName service contestId existing added name) db added' db') :
    (withName service existing name).length = 1 ∧ added' = added ∧ db' = db ∨
      withName service existing name = [] ∧ added' = added + 1 ∧
        ∃ new, Creates db db' new [] ∧ new.name = name ∧ new.isApproved = true ∧ new.contestId = contestId := by
  obtain ⟨hcount, hround⟩ := Returns.throwIf_bind (Returns.cancelled_bind h)
  have hcount := of_decide_eq_false hcount
  split at hround
  · next hone =>
    obtain ⟨rfl, rfl⟩ := Returns.pure hround
    exact Or.inl ⟨hone, rfl, rfl⟩
  · next hone =>
    obtain ⟨_, hadd⟩ := Returns.now_bind hround
    obtain ⟨_, hcreate, rfl⟩ := Returns.bind_pure hadd
    have hcreates := createAsync_returns hcreate
    refine Or.inr ⟨List.length_eq_zero_iff.mp ?_, rfl, _, hcreates, rfl, rfl, rfl⟩
    show (existing.filter _).length = 0
    omega

theorem Added.nil (db : Db) : Added service contestId existing [] [] db db where
  toSame := ⟨rfl, rfl, rfl, rfl, rfl, rfl, Int.le_refl _⟩
  competitors := (List.append_nil _).symm
  participations := rfl
  claims := rfl
  absent := rfl
  approved := fun _ h => (nomatch h)
  once := fun _ h => (nomatch h)

theorem Added.snoc {db₁ : Db} {done : List String} {added : List Competitor} {count count' : Nat} {name : String}
    (h : Added service contestId existing done added db db₁)
    (hround : Returns o (importName service contestId existing count name) db₁ count' db')
    (hcount : count = added.length) :
    ∃ added', Added service contestId existing (done ++ [name]) added' db db' ∧ count' = added'.length := by
  rcases importName_returns hround with ⟨hone, rfl, rfl⟩ | ⟨hnone, rfl, new, hcreates, rfl, happroved, rfl⟩
  · have habsent : isAbsent service existing name = false := by
      unfold isAbsent
      exact List.isEmpty_eq_false_iff.mpr fun hnil => by simp [hnil] at hone
    refine ⟨added, { h with absent := ?_, once := fun x hx => ?_ }, hcount⟩
    · rw [List.filter_append, List.filter_cons_of_neg (by simp [habsent]), List.filter_nil, List.append_nil, h.absent]
    · rcases List.mem_append.mp hx with hx | hx
      · exact h.once x hx
      · rw [List.mem_singleton.mp hx]
        exact hone.le
  · have habsent : isAbsent service existing new.name = true := List.isEmpty_iff.mpr hnone
    refine ⟨added ++ [new], ⟨h.toSame.trans hcreates.toSame, ?_, ?_, hcreates.claims.trans h.claims, ?_, ?_, ?_⟩, ?_⟩
    · rw [hcreates.competitors, h.competitors, List.append_assoc]
    · rw [hcreates.participations, h.participations]
      exact List.append_nil _
    · rw [List.map_append, h.absent, List.filter_append, List.filter_cons_of_pos habsent]
      rfl
    · intro c hc
      rcases List.mem_append.mp hc with hc | hc
      · exact h.approved c hc
      · rw [List.mem_singleton.mp hc]
        exact ⟨happroved, rfl⟩
    · intro x hx
      rcases List.mem_append.mp hx with hx | hx
      · exact h.once x hx
      · rw [List.mem_singleton.mp hx, hnone]
        exact Nat.zero_le 1
    · rw [List.length_append, hcount]
      rfl

/-- The rounds add the absent names. -/
theorem imported_loop {names : List String} {count : Nat}
    (h : Returns o (names.foldlM (importName service contestId existing) 0) db count db') :
    ∃ added, Added service contestId existing names added db db' ∧ count = added.length := by
  have hinv : ∃ done added, done ++ [] = names ∧ Added service contestId existing done added db db' ∧
      count = added.length := by
    refine Returns.foldlM (fun rest acc db₁ => ∃ done added, done ++ rest = names ∧
      Added service contestId existing done added db db₁ ∧ acc = added.length) ?_ ⟨[], [], rfl, Added.nil db, rfl⟩ h
    intro name rest acc db₁ acc' db₂ hbefore hround
    obtain ⟨done, added, hdone, hadded, hcount⟩ := hbefore
    obtain ⟨added', hnext, hcount'⟩ := hadded.snoc hround hcount
    exact ⟨done ++ [name], added', by rw [← hdone, List.append_assoc]; rfl, hnext, hcount'⟩
  obtain ⟨done, added, hdone, hadded, hcount⟩ := hinv
  rw [List.append_nil] at hdone
  exact ⟨added, hdone ▸ hadded, hcount⟩

/-! ## What is imported -/

/-- What an import that returns has checked and done. -/
structure NamesImported (service : CompetitorManagementService) (contestId : Int) (names : List String) (db : Db)
    (summary : ParticipantImportSummary) (db' : Db) : Prop where
  some_names : names ≠ []
  distinct : (names.map service.upper.fold).Nodup
  individual : ∃ contest, db.contests.find? contestId = some contest ∧ contest.isAcm service.culture = false
  added : ∃ added, Added service contestId (ofContest contestId db) names added db db' ∧ summary.added = added.length
  total : summary.added + summary.existing = names.length
  one : ∀ name ∈ names, ∃ c, withName service (ofContest contestId db') name = [c]

theorem ofContest_added {names : List String} {added : List Competitor}
    (h : Added service contestId existing names added db db') :
    ofContest contestId db' = ofContest contestId db ++ added := by
  unfold ofContest
  rw [h.competitors, List.filter_append, List.filter_eq_self.mpr fun c hc => beq_iff_eq.mpr (h.approved c hc).2]

/-- Every name is there once after the import. -/
theorem added_one {names : List String} {added : List Competitor} (htrimmed : ∀ name ∈ names, trim name = name)
    (hdistinct : (names.map service.upper.fold).Nodup) (h : Added service contestId existing names added db db')
    {name : String} (hname : name ∈ names) : ∃ c, withName service (existing ++ added) name = [c] := by
  have hkeys : (added.map fun c => service.upper.fold (trim c.name)) =
      (names.filter (isAbsent service existing)).map service.upper.fold := by
    rw [← h.absent, List.map_map]
    refine List.map_congr_left fun c hc => ?_
    have hlisted : c.name ∈ added.map fun c => c.name := List.mem_map_of_mem hc
    rw [h.absent] at hlisted
    exact congrArg service.upper.fold (htrimmed c.name (List.mem_filter.mp hlisted).1)
  have hnodup : (added.map fun c => service.upper.fold (trim c.name)).Nodup := by
    rw [hkeys]
    exact hdistinct.sublist (List.filter_sublist.map _)
  have hsplit : withName service (existing ++ added) name = withName service existing name ++
      withName service added name :=
    List.filter_append existing added
  rw [hsplit]
  cases habsent : isAbsent service existing name with
  | true =>
    have hmem : name ∈ added.map fun c => c.name := by
      rw [h.absent]
      exact List.mem_filter.mpr ⟨hname, habsent⟩
    obtain ⟨c, hc, hcname⟩ := List.mem_map.mp hmem
    have hone := filter_key_unique hnodup hc
    rw [hcname, htrimmed name hname] at hone
    exact ⟨c, by rw [List.isEmpty_iff.mp habsent]; exact hone⟩
  | false =>
    -- what was added has another name
    have hnone : withName service added name = [] := by
      refine List.filter_eq_nil_iff.mpr fun c hc hequal => ?_
      have hlisted : c.name ∈ added.map fun c => c.name := List.mem_map_of_mem hc
      rw [h.absent] at hlisted
      obtain ⟨hlisted, hcabsent⟩ := List.mem_filter.mp hlisted
      have hsame : service.upper.fold (trim c.name) = service.upper.fold name := beq_iff_eq.mp hequal
      rw [htrimmed c.name hlisted] at hsame
      rw [List.inj_on_of_nodup_map hdistinct hlisted hname hsame, habsent] at hcabsent
      cases hcabsent
    have hlength := h.once name hname
    rw [hnone, List.append_nil]
    exact List.length_eq_one_iff.mp
      (Nat.le_antisymm hlength (List.length_pos_iff.mpr (List.isEmpty_eq_false_iff.mp habsent)))

theorem importAsync_imported {names : List String} {summary : ParticipantImportSummary}
    (htrimmed : ∀ name ∈ names, trim name = name)
    (h : Returns o (importAsync service contestId names) db summary db') :
    NamesImported service contestId names db summary db' := by
  obtain ⟨⟨hempty, hduplicates, hcontest⟩, count, hloop, rfl⟩ := importAsync_returns service h
  obtain ⟨added, hadded, rfl⟩ := imported_loop hloop
  have hdistinct : (names.map service.upper.fold).Nodup := by
    refine nodup_of_eraseDups ?_
    rw [List.length_map]
    exact bne_eq_false_iff_eq.mp hduplicates
  have hlength : added.length ≤ names.length := by
    rw [← List.length_map (f := fun c : Competitor => c.name), hadded.absent]
    exact List.length_filter_le _ _
  refine ⟨List.isEmpty_eq_false_iff.mp hempty, hdistinct, hcontest, ⟨added, hadded, rfl⟩,
    Nat.add_sub_cancel' hlength, fun name hname => ?_⟩
  rw [ofContest_added hadded]
  exact added_one htrimmed hdistinct hadded hname

/-! ## The same import again -/

section Again

variable {names : List String} {o₂ : Outside OperationExn} {db₂ : Db} {summary : ParticipantImportSummary}

theorem again_returns {again : ParticipantImportSummary}
    (himported : NamesImported service contestId names db summary db')
    (h : Returns o₂ (importAsync service contestId names) db' again db₂) :
    again = ⟨0, names.length⟩ ∧ db₂ = db' := by
  obtain ⟨-, count, hloop, rfl⟩ := importAsync_returns service h
  -- every round goes past its name
  have hpast : count = 0 ∧ db₂ = db' := by
    refine (Returns.foldlM (fun rest acc db₃ => (∀ name ∈ rest, name ∈ names) ∧ acc = 0 ∧ db₃ = db') ?_
      ⟨fun _ h => h, rfl, rfl⟩ hloop).2
    intro name rest acc db₃ acc' db₄ hbefore hround
    obtain ⟨hrest, rfl, rfl⟩ := hbefore
    refine ⟨fun x hx => hrest x (List.mem_cons_of_mem _ hx), ?_⟩
    obtain ⟨c, hone⟩ := himported.one name (hrest name List.mem_cons_self)
    rcases importName_returns hround with ⟨-, hsame⟩ | ⟨hnone, -⟩
    · exact hsame
    · rw [hnone] at hone
      cases hone
  obtain ⟨rfl, rfl⟩ := hpast
  exact ⟨rfl, rfl⟩

/-- It throws only what comes from outside. -/
theorem again_throws {e : OperationExn} (himported : NamesImported service contestId names db summary db')
    (h : Throws o₂ (importAsync service contestId names) db' e) : e = canceled ∨ ∃ n, o₂.fault n = some e := by
  obtain ⟨added, hadded, -⟩ := himported.added
  obtain ⟨contest, hcontest, hindividual⟩ := himported.individual
  rw [← hadded.contests] at hcontest
  rcases Throws.throwIf_bind h with ⟨hempty, -⟩ | ⟨-, h₁⟩
  · exact absurd (List.isEmpty_iff.mp hempty) himported.some_names
  rcases Throws.throwIf_bind h₁ with ⟨hduplicates, -⟩ | ⟨-, h₂⟩
  · rw [eraseDups_of_nodup himported.distinct, List.length_map] at hduplicates
    simp at hduplicates
  rcases Throws.transaction h₂ with hfault | h₃
  · exact Or.inr hfault
  rcases findCompetitors_throws h₃ with hfault | ⟨hnone, -⟩ | ⟨found, hfound, h₄⟩
  · exact Or.inr hfault
  · rw [hcontest] at hnone
    cases hnone
  obtain rfl : contest = found := Option.some.inj (hcontest.symm.trans hfound)
  rcases Throws.throwIf_bind h₄ with ⟨hacm, -⟩ | ⟨-, h₅⟩
  · rw [hacm] at hindividual
    cases hindividual
  -- no name is there twice
  obtain ⟨_, name, db₂, hname, hround⟩ := Throws.foldlM (Throws.bind_pure h₅)
  obtain ⟨c, hone⟩ := himported.one name hname
  have hsingle : (withName service (ofContest contestId db') name).length = 1 := by
    rw [hone]
    rfl
  rcases Throws.cancelled_bind hround with ⟨-, rfl⟩ | hcounted
  · exact Or.inl rfl
  rcases Throws.throwIf_bind hcounted with ⟨hcount, -⟩ | ⟨-, hcreate⟩
  · have hmany : 1 < (withName service (ofContest contestId db') name).length := of_decide_eq_true hcount
    omega
  · split at hcreate
    · exact absurd hcreate Throws.pure
    · next hnot => exact absurd hsingle hnot

end Again

theorem names_imported (service : CompetitorManagementService) (contestId : Int) (names : List String) :
    (∀ o db summary db', (∀ name ∈ names, trim name = name) →
      Returns o (importAsync service contestId names) db summary db' →
        NamesImported service contestId names db summary db' ∧
        ∀ o₂, (∀ again db₂, Returns o₂ (importAsync service contestId names) db' again db₂ →
            again = ⟨0, names.length⟩ ∧ db₂ = db') ∧
          ∀ e, Throws o₂ (importAsync service contestId names) db' e → e = canceled ∨ ∃ n, o₂.fault n = some e) ∧
    Atomic (importAsync service contestId names) := by
  refine ⟨fun o db summary db' htrimmed h => ?_, atomic_import service contestId names⟩
  have himported := importAsync_imported htrimmed h
  exact ⟨himported, fun _ => ⟨fun _ _ hagain => again_returns himported hagain,
    fun _ hagain => again_throws himported hagain⟩⟩

def sampleNames : List String := ["TEAM", "New"]

def sampleImported : Db := (importAsync sampleService 1 sampleNames (calm 0) ⟨sampleDb, 0⟩).2.db

theorem sample_names :
    NamesImported sampleService 1 sampleNames sampleDb ⟨1, 1⟩ sampleImported ∧
      sampleImported.competitors.map (fun c => c.name) = ["Team", "New"] ∧
      (importAsync sampleService 1 sampleNames (calm 0) ⟨sampleImported, 0⟩).2.db = sampleImported := by
  have hreturns : Returns (calm 0) (importAsync sampleService 1 sampleNames) sampleDb ⟨1, 1⟩ sampleImported :=
    Returns.of_run (by decide +kernel)
  obtain ⟨himported, hagain⟩ := (names_imported sampleService 1 sampleNames).1 (calm 0) sampleDb ⟨1, 1⟩ sampleImported
    (by decide) hreturns
  have hsecond : (importAsync sampleService 1 sampleNames (calm 0) ⟨sampleImported, 0⟩).1 = .ok ⟨0, 2⟩ := by
    decide +kernel
  exact ⟨himported, by decide +kernel, ((hagain (calm 0)).1 ⟨0, 2⟩ _ (Returns.of_run hsecond)).2⟩

end OlympSystem.Site.Accounts.CompetitorManagement
