/-
  OlympSystem.Site.LoginAssignment — who gets which login.

  The pool is the file without the logins that the contest uses; a competitor without a
  login takes the first of the pool, and the competitors come in the order of their
  registration. `toName` and `freeLogins` are what the rounds zip.

  Proved:
  - `withoutNames_entries` / `withoutNames_length`: what the pool is, and that a name in use
    takes at most one login out of it.
  - `given_loop`: the rounds make the assignments, one after the other.
  - `generated_distinct` / `generated_enough`: the generated logins are enough for everyone.
  - `logins_assigned`: what a call that returns has assigned; that a call that throws has
    changed nothing; that generated logins are never refused.
-/

import OlympSystem.Site.CompetitorRuns

namespace OlympSystem.Site.Accounts.CompetitorManagement

open Lib.Text Lib.Query Lib.Dictionaries Lib.Transactions

variable (service : CompetitorManagementService)

/-- The competitors without a login, in the order in which they get one. -/
def toName (contestId : Int) (db : Db) : List Competitor :=
  orderBy registrationOrder ((ofContest contestId db).filter (·.userName.isNone))

def isFree (participants : List Competitor) (login : String × String) : Bool :=
  participants.all fun c => !c.userName.any (service.upper.equals · login.1)

/-- The file, without the logins that the contest uses. -/
def freeLogins (contestId : Int) (logins : List (String × String)) (db : Db) : List (String × String) :=
  logins.filter (isFree service (ofContest contestId db))

/-- Who gets which login and password. -/
def assignments (contestId : Int) (logins : List (String × String)) (db : Db) : List (Competitor × String × String) :=
  (toName contestId db).zip (freeLogins service contestId logins db)

/-- These assignments are made, and nothing else. -/
structure Given (db db' : Db) (assignments : List (Competitor × String × String)) : Prop extends Same db db' where
  given : ∀ a ∈ assignments, ∃ stamp, named a.1 a.2.1 a.2.2 stamp ∈ db'.competitors
  kept : ∀ c ∈ db.competitors, (∀ a ∈ assignments, a.1.id ≠ c.id) → c ∈ db'.competitors
  no_others : ∀ c ∈ db'.competitors, ∃ old ∈ db.competitors, old.id = c.id
  claims : db'.claims = db.claims ++ assignments.map fun a => contestClaim a.1
  participations : db'.participations = db.participations

/-! ## The pool -/

variable {service}

theorem withoutNames_none {participant : Competitor} (h : participant.userName = none) (available : Logins service)
    (participants : List Competitor) :
    withoutNames service available (participant :: participants) = withoutNames service available participants := by
  unfold withoutNames
  rw [List.foldl_cons, h]

theorem withoutNames_some {participant : Competitor} {username : String} (h : participant.userName = some username)
    (available : Logins service) (participants : List Competitor) :
    withoutNames service available (participant :: participants) =
      withoutNames service (available.remove username) participants := by
  unfold withoutNames
  rw [List.foldl_cons, h]

theorem withoutNames_entries (available : Logins service) (participants : List Competitor) :
    (withoutNames service available participants).entries = available.entries.filter (isFree service participants) := by
  induction participants generalizing available with
  | nil => exact (List.filter_eq_self.mpr fun _ _ => rfl).symm
  | cons participant participants ih =>
    cases hname : participant.userName with
    | none =>
      rw [withoutNames_none hname, ih]
      refine List.filter_congr fun login _ => ?_
      simp [isFree, hname]
    | some username =>
      rw [withoutNames_some hname, ih]
      show (available.entries.filter _).filter _ = _
      rw [List.filter_filter]
      refine List.filter_congr fun login _ => ?_
      rw [Bool.eq_iff_iff]
      simp only [isFree, UpperCase.equals, List.all_cons, hname, Option.any_some, Bool.and_eq_true, bne_iff_ne,
        Bool.not_eq_true', beq_eq_false_iff_ne, ne_comm, and_comm]

/-- A name in use takes at most one login out of the pool. -/
theorem withoutNames_length (available : Logins service) (participants : List Competitor) :
    available.entries.length ≤
      (withoutNames service available participants).entries.length +
      (participants.filter (·.userName.isSome)).length := by
  induction participants generalizing available with
  | nil => exact Nat.le_refl _
  | cons participant participants ih =>
    cases hname : participant.userName with
    | none =>
      rw [withoutNames_none hname, List.filter_cons_of_neg (by simp [hname])]
      exact ih available
    | some username =>
      rw [withoutNames_some hname, List.filter_cons_of_pos (by simp [hname]), List.length_cons]
      have hrest := ih (available.remove username)
      have hremove := available.length_remove username
      omega

variable {o : Outside OperationExn} {db db' : Db}

theorem addLogins_returns {logins : List (String × String)} {available : Logins service} {e : OperationExn}
    (h : Returns o (logins.foldlM (fun (available : Logins service) (login, password) =>
      Work.orThrow (available.tryAdd login password) e) Dict.empty) db available db') :
    db' = db ∧ available.entries = logins := by
  have hdone : db' = db ∧ available.entries ++ [] = logins := by
    refine Returns.foldlM (fun rest (acc : Logins service) db₁ => db₁ = db ∧ acc.entries ++ rest = logins) ?_
      ⟨rfl, rfl⟩ h
    intro login rest acc db₁ acc' db₂ hbefore hround
    obtain ⟨rfl, hentries⟩ := hbefore
    obtain ⟨hadd, rfl⟩ := Returns.orThrow hround
    refine ⟨rfl, ?_⟩
    rw [Dict.mem_tryAdd hadd, List.append_assoc]
    exact hentries
  rwa [List.append_nil] at hdone

/-- Logins that are different without case are all added. -/
theorem addLogins_distinct {logins : List (String × String)} {e : OperationExn} : ∀ {available : Logins service},
    ((available.entries ++ logins).map fun login => service.upper.fold login.1).Nodup →
      ∃ all, logins.foldlM (fun (available : Logins service) (login, password) =>
        Work.orThrow (available.tryAdd login password) e) available = (pure all : Op (Logins service)) := by
  induction logins with
  | nil => intro available _; exact ⟨available, rfl⟩
  | cons login logins ih =>
    intro available hnodup
    rcases login with ⟨login, password⟩
    have hfresh : service.upper.fold login ∉ available.entries.map fun e => service.upper.fold e.1 := by
      intro hmem
      rw [List.map_append, List.map_cons] at hnodup
      exact (List.nodup_append.mp hnodup).2.2 _ hmem _ List.mem_cons_self rfl
    obtain ⟨next, hnext⟩ : ∃ next, available.tryAdd login password = some next := ⟨_, dif_neg hfresh⟩
    have hentries := Dict.mem_tryAdd hnext
    obtain ⟨all, hall⟩ := @ih next (by rwa [hentries, List.append_assoc])
    refine ⟨all, ?_⟩
    rw [List.foldlM_cons]
    show Work.bind (Work.orThrow (available.tryAdd login password) e) _ = _
    rw [hnext]
    exact hall

/-! ## The rounds -/

theorem Given.nil (db : Db) : Given db db [] where
  toSame := ⟨rfl, rfl, rfl, rfl, rfl, rfl, Int.le_refl _⟩
  given := fun _ h => absurd h List.not_mem_nil
  kept := fun _ hc _ => hc
  no_others := fun c hc => ⟨c, hc, rfl⟩
  claims := (List.append_nil _).symm
  participations := rfl

theorem Given.snoc {db₁ : Db} {done : List (Competitor × String × String)} {participant : Competitor}
    {login password : String} {stamp : Int} (h : Given db db₁ done) (hfresh : ∀ a ∈ done, a.1.id ≠ participant.id)
    (hrep : Replaces db₁ db' participant (named participant login password stamp))
    (hclaims : db'.claims = db₁.claims ++ [contestClaim participant]) :
    Given db db' (done ++ [(participant, login, password)]) where
  toSame := h.toSame.trans hrep.toSame
  given a ha := by
    rcases List.mem_append.mp ha with ha | ha
    · obtain ⟨stamp, hnamed⟩ := h.given a ha
      exact ⟨stamp, (hrep.competitors _).mpr (Or.inr ⟨hnamed, hfresh a ha⟩)⟩
    · rw [List.mem_singleton.mp ha]
      exact ⟨stamp, hrep.new_stored⟩
  kept c hc hother := by
    have hdone := h.kept c hc fun a ha => hother a (List.mem_append_left _ ha)
    have hne := hother _ (List.mem_append_right _ List.mem_cons_self)
    exact (hrep.competitors c).mpr (Or.inr ⟨hdone, hne.symm⟩)
  no_others c hc := by
    rcases (hrep.competitors c).mp hc with rfl | ⟨hc, -⟩
    · exact h.no_others participant hrep.stored
    · exact h.no_others c hc
  claims := by rw [hclaims, h.claims, List.map_append, List.append_assoc]; rfl
  participations := hrep.participations.trans h.participations

theorem mem_toName {contestId : Int} {c : Competitor} :
    c ∈ toName contestId db ↔ (c ∈ db.competitors ∧ c.contestId = contestId) ∧ c.userName = none := by
  unfold toName
  rw [mem_orderBy, List.mem_filter, mem_ofContest, Option.isNone_iff_eq_none]

theorem toName_nodup (contestId : Int) (db : Db) : ((toName contestId db).map fun c => c.id).Nodup :=
  ((orderBy_perm _ _).map _).nodup_iff.mpr ((ofContest_nodup contestId db).sublist (List.filter_sublist.map _))

/-- A round gives the first login of the pool. -/
theorem given_round {contestId : Int} {db₁ db₂ : Db} {available available' : Logins service} {participant : Competitor}
    {done : List (Competitor × String × String)} (hmem : participant ∈ toName contestId db) (hgiven : Given db db₁ done)
    (hfresh : ∀ a ∈ done, a.1.id ≠ participant.id)
    (h : Returns o (assignNext service contestId available participant) db₁ available' db₂) :
    ∃ login password, available.entries = (login, password) :: available'.entries ∧
      Given db db₂ (done ++ [(participant, login, password)]) := by
  obtain ⟨⟨hstored, rfl⟩, -⟩ := mem_toName.mp hmem
  have htake := Returns.cancelled_bind h
  obtain ⟨⟨login, password⟩, hfirst, hwrites⟩ := Returns.orThrow_bind htake
  obtain ⟨_, hassign, rfl⟩ := Returns.bind_pure hwrites
  obtain ⟨⟨stamp, hrep⟩, hclaims⟩ := assignLogin_replaces (hgiven.kept _ hstored hfresh) hassign
  obtain ⟨rest, hentries⟩ := List.head?_eq_some_iff.mp hfirst
  refine ⟨login, password, ?_, hgiven.snoc hfresh hrep hclaims⟩
  rw [hentries, Dict.remove_head hentries]

/-- The rounds give the logins of the pool in their order. -/
theorem given_loop {contestId : Int} {available rest : Logins service}
    (h : Returns o ((toName contestId db).foldlM (assignNext service contestId) available) db rest db') :
    Given db db' ((toName contestId db).zip available.entries) := by
  -- the rounds so far have zipped those who are done with the logins that are gone
  have hinv : ∃ done used, done ++ [] = toName contestId db ∧ used ++ rest.entries = available.entries ∧
      done.length = used.length ∧ Given db db' (done.zip used) := by
    refine Returns.foldlM (fun rest (acc : Logins service) db₁ => ∃ done used, done ++ rest = toName contestId db ∧
      used ++ acc.entries = available.entries ∧ done.length = used.length ∧ Given db db₁ (done.zip used)) ?_
      ⟨[], [], rfl, rfl, rfl, Given.nil db⟩ h
    intro participant rest acc db₁ acc' db₂ hbefore hround
    obtain ⟨done, used, hdone, hused, hlength, hgiven⟩ := hbefore
    have hmem : participant ∈ toName contestId db := by
      rw [← hdone]
      exact List.mem_append_right _ List.mem_cons_self
    have hnodup := toName_nodup contestId db
    rw [← hdone, List.map_append, List.map_cons] at hnodup
    have hfresh : ∀ a ∈ done.zip used, a.1.id ≠ participant.id := fun a ha =>
      (List.nodup_append.mp hnodup).2.2 _ (List.mem_map_of_mem (List.of_mem_zip ha).1) _ List.mem_cons_self
    obtain ⟨login, password, hentries, hnext⟩ := given_round hmem hgiven hfresh hround
    refine ⟨done ++ [participant], used ++ [(login, password)], ?_, ?_, ?_, ?_⟩
    · rw [← hdone, List.append_assoc]; rfl
    · rw [← hused, hentries, List.append_assoc]; rfl
    · rw [List.length_append, List.length_append, hlength]; rfl
    · rwa [List.zip_append hlength]
  obtain ⟨done, used, hdone, hused, hlength, hgiven⟩ := hinv
  rw [← hdone, ← hused, List.zip_append hlength, List.zip_nil_left, List.append_nil]
  exact hgiven

/-! ## What is assigned -/

/-- What a call that returns has done with the file. -/
structure LoginsAssigned (service : CompetitorManagementService) (contestId : Int) (logins : List (String × String))
    (db db' : Db) : Prop where
  distinct : (logins.map fun login => service.upper.fold login.1).Nodup
  enough : (toName contestId db).length ≤ (freeLogins service contestId logins db).length
  given : Given db db' (assignments service contestId logins db)
  given_distinct : ((assignments service contestId logins db).map fun a => service.upper.fold a.2.1).Nodup
  /-- Whoever had a login keeps it, with its password and claims. -/
  kept : ∀ c ∈ db.competitors, c.userName ≠ none → c ∈ db'.competitors ∧
    ∀ claim, claim.userId = c.id → (claim ∈ db'.claims ↔ claim ∈ db.claims)

theorem assignLoginsAsync_assigned {contestId : Int} {logins : List (String × String)} {u : Unit}
    (h : Returns o (assignLoginsAsync service contestId logins) db u db') :
    LoginsAssigned service contestId logins db db' := by
  obtain ⟨available, db₁, hlogins, hrest⟩ := Returns.bind h
  obtain ⟨rfl, hentries⟩ := addLogins_returns hlogins
  obtain ⟨contest, -, hassign⟩ := findCompetitors_bind (Returns.transaction hrest)
  obtain ⟨henough, hloops⟩ := Returns.throwIf_bind hassign
  obtain ⟨rest, hloop, -⟩ := Returns.bind_pure hloops
  have hfree : (withoutNames service available (ofContest contestId db₁)).entries =
      freeLogins service contestId logins db₁ := by
    rw [withoutNames_entries, hentries]
    rfl
  have hdistinct : (logins.map fun login => service.upper.fold login.1).Nodup := hentries ▸ available.keys
  have hgiven : Given db₁ db' (assignments service contestId logins db₁) := by
    have hzip := given_loop hloop
    rwa [hfree] at hzip
  refine ⟨hdistinct, ?_, hgiven, ?_, fun c hc hnamed => ?_⟩
  · have hlength := (orderBy_perm registrationOrder ((ofContest contestId db₁).filter (·.userName.isNone))).length_eq
    rw [decide_eq_false_iff_not, hfree, ← hlength] at henough
    exact Nat.le_of_not_lt henough
  · -- they are among those of the file, in the order of the file
    have hsub : ((assignments service contestId logins db₁).map Prod.snd).Sublist logins := by
      unfold assignments
      rw [List.zip_eq_zip_take_min, List.map_snd_zip (by simp)]
      exact (List.take_sublist _ _).trans List.filter_sublist
    have hnodup := hdistinct.sublist (hsub.map _)
    rwa [List.map_map] at hnodup
  · have hother : ∀ a ∈ assignments service contestId logins db₁, a.1.id ≠ c.id := by
      intro a ha heq
      obtain ⟨⟨hstored, -⟩, hunnamed⟩ := mem_toName.mp (List.of_mem_zip ha).1
      exact hnamed (Db.competitor_unique hstored hc heq ▸ hunnamed)
    refine ⟨hgiven.kept c hc hother, fun claim huser => ?_⟩
    rw [hgiven.claims, List.mem_append, or_iff_left]
    intro hmem
    obtain ⟨a, ha, rfl⟩ := List.mem_map.mp hmem
    exact hother a ha huser

/-! ## Generated logins -/

theorem generated_distinct (upper : UpperCase) (count : Nat) (random : Nat → String) :
    ((generatedLogins count random).map fun login => upper.fold login.1).Nodup := by
  unfold generatedLogins
  rw [List.map_map]
  refine List.Nodup.map ?_ List.nodup_range
  intro i j hij
  simp only [Function.comp_apply] at hij
  rw [UpperCase.fold_append, UpperCase.fold_append, List.append_cancel_left_eq,
    UpperCase.fold_digits upper (padded_digits 3 (i + 1)), UpperCase.fold_digits upper (padded_digits 3 (j + 1))] at hij
  have hnumber := padded_injective (String.toList_injective hij)
  omega

/-- There is one for everyone in the contest, and those who have a login take at most one each. -/
theorem generated_enough {available : Logins service} {participants : List Competitor} {random : Nat → String}
    (h : available.entries = generatedLogins participants.length random) :
    (participants.filter (·.userName.isNone)).length ≤
    (withoutNames service available participants).entries.length := by
  have hpool := withoutNames_length available participants
  have hsplit := List.length_eq_length_filter_add (l := participants) (·.userName.isSome)
  have hnone : participants.filter (fun c => !c.userName.isSome) = participants.filter (·.userName.isNone) :=
    List.filter_congr fun c _ => Option.not_isSome c.userName
  have hcount : available.entries.length = participants.length := by
    rw [h]
    simp [generatedLogins]
  rw [hnone] at hsplit
  omega

/-- `OperationValidationException`: the duplicate logins and the too few logins are of this kind. -/
def IsValidation (e : OperationExn) : Prop := ∃ key args, e = .operationValidation key args

/-- The database and the user manager throw no `OperationValidationException`. -/
def NoValidation (o : Outside OperationExn) : Prop := ∀ n e, o.fault n = some e → ¬IsValidation e

theorem access_noValidation {α : Type} {f : Db → Except OperationExn (α × Db)} {e : OperationExn} (ho : NoValidation o)
    (hf : ∀ e, f db = .error e → ¬IsValidation e) (h : Throws o (Work.access f) db e) : ¬IsValidation e := by
  rcases Throws.access h with ⟨n, hfault⟩ | herror
  · exact ho n e hfault
  · exact hf e herror

theorem concurrencyFailure_noValidation : ¬IsValidation UserManager.concurrencyFailure := by
  intro h
  obtain ⟨_, _, h⟩ := h
  cases h

theorem updateAsync_noValidation {participant : Competitor} {e : OperationExn} (ho : NoValidation o)
    (h : Throws o (UserManager.updateAsync participant) db e) : ¬IsValidation e := by
  refine access_noValidation ho (fun e herror => ?_) h
  split at herror <;> cases herror
  exact concurrencyFailure_noValidation

theorem addClaimAsync_noValidation {participant : Competitor} {claimType claimValue : String} {e : OperationExn}
    (ho : NoValidation o) (h : Throws o (UserManager.addClaimAsync participant claimType claimValue) db e) :
    ¬IsValidation e := by
  refine access_noValidation ho (fun e herror => ?_) h
  split at herror <;> cases herror
  exact concurrencyFailure_noValidation

theorem assignLogin_noValidation {contestId : Int} {participant : Competitor} {login password : String}
    {e : OperationExn}
    (ho : NoValidation o) (h : Throws o (assignLogin contestId participant login password) db e) : ¬IsValidation e := by
  rcases Throws.bind h with hname | ⟨_, _, -, hrest⟩
  · exact updateAsync_noValidation ho hname
  rcases Throws.bind hrest with hadd | ⟨_, _, -, hclaim⟩
  · rcases Throws.throwIf_bind hadd with ⟨-, rfl⟩ | ⟨-, hpassword⟩
    · exact fun ⟨_, _, h⟩ => (nomatch h)
    · exact updateAsync_noValidation ho hpassword
  exact addClaimAsync_noValidation ho (Throws.bind_pure hclaim)

theorem assignNext_noValidation {contestId : Int} {available : Logins service} {participant : Competitor}
    {e : OperationExn} (ho : NoValidation o) (h : Throws o (assignNext service contestId available participant) db e) :
    ¬IsValidation e := by
  rcases Throws.cancelled_bind h with ⟨-, rfl⟩ | htake
  · exact fun ⟨_, _, h⟩ => (nomatch h)
  rcases Throws.bind htake with hfirst | ⟨_, _, -, hassign⟩
  · rw [(Throws.orThrow hfirst).2]
    exact fun ⟨_, _, h⟩ => (nomatch h)
  exact assignLogin_noValidation ho (Throws.bind_pure hassign)

/-- Logins that were generated for as many competitors as the contest has are not refused. -/
theorem generated_noValidation {contestId : Int} {random : Nat → String} {e : OperationExn} (ho : NoValidation o)
    (h : Throws o (assignLoginsAsync service contestId (generatedLogins (ofContest contestId db).length random)) db e) :
    ¬IsValidation e := by
  rcases Throws.bind h with hadd | ⟨available, db₁, hadd, hassign⟩
  · have hdistinct : (((Dict.empty : Logins service).entries ++
        generatedLogins (ofContest contestId db).length random).map fun login => service.upper.fold login.1).Nodup :=
      generated_distinct service.upper (ofContest contestId db).length random
    obtain ⟨all, hall⟩ := addLogins_distinct
      (e := .operationValidation "The file contains duplicate logins." []) hdistinct
    exact absurd (hall ▸ hadd) Throws.pure
  obtain ⟨rfl, hentries⟩ := addLogins_returns hadd
  rcases Throws.transaction hassign with ⟨n, hfault⟩ | hassign
  · exact ho n e hfault
  rcases findCompetitors_throws hassign with ⟨n, hfault⟩ | ⟨-, rfl⟩ | ⟨contest, -, hassign⟩
  · exact ho n e hfault
  · exact fun ⟨_, _, h⟩ => (nomatch h)
  rcases Throws.throwIf_bind hassign with ⟨hfew, -⟩ | ⟨-, hloops⟩
  · have hfew := of_decide_eq_true hfew
    have henough := generated_enough hentries
    omega
  obtain ⟨_, _, _, -, hround⟩ := Throws.foldlM (Throws.bind_pure hloops)
  exact assignNext_noValidation ho hround

/-- What the second piece of a call on generated logins has done. -/
def GeneratedOk (service : CompetitorManagementService) (contestId : Int) (logins : List (String × String))
    (db : Db) (call : Call) (db' : Db) : Prop :=
  (∃ e, call = .over (.error e) ∧ ¬IsValidation e ∧ db' = db) ∨
    call = .over (.ok .unit) ∧ LoginsAssigned service contestId logins db db'

/-- The two pieces of a call on generated logins, the contest being the same in both. -/
theorem generateLogins_ok {contestId : Int} {random : Nat → String} {o₂ : Outside OperationExn} {db₁ db₂ db₃ : Db}
    {call call₂ : Call} (ho : NoValidation o) (ho₂ : NoValidation o₂)
    (hcount : (Call.start (.generateLogins contestId random)).advance service o db = (call, db₁))
    (hsame : ofContest contestId db₂ = ofContest contestId db)
    (hassign : call.advance service o₂ db₂ = (call₂, db₃)) :
    GeneratedOk service contestId (generatedLogins (ofContest contestId db).length random) db₂ call₂ db₃ := by
  rcases piece_outcome (Quiet.query _).atomic hcount with ⟨count, _, hreturns, rfl⟩ | ⟨e, hthrows, rfl, -⟩
  · obtain ⟨rfl, -⟩ := Returns.query hreturns.returns
    rw [← hsame]
    rcases piece_outcome (atomic_assignLogins _ _ _) hassign with ⟨u, _, hreturns, rfl⟩ | ⟨e, hthrows, rfl, rfl⟩
    · rw [← hsame] at hreturns
      exact Or.inr ⟨rfl, assignLoginsAsync_assigned hreturns.returns⟩
    · rw [← hsame] at hthrows
      exact Or.inl ⟨e, rfl, generated_noValidation ho₂ hthrows, rfl⟩
  · -- the count was refused, and the call is over
    obtain ⟨n, hfault⟩ := Throws.query hthrows
    cases hassign
    exact Or.inl ⟨e, rfl, ho n e hfault, rfl⟩

theorem logins_assigned (service : CompetitorManagementService) (contestId : Int) :
    (∀ logins o db u db', Returns o (assignLoginsAsync service contestId logins) db u db' →
      LoginsAssigned service contestId logins db db') ∧
    (∀ logins, Atomic (assignLoginsAsync service contestId logins)) ∧
    ∀ random o o₂ db db₁ db₂ db₃ call call₂, NoValidation o → NoValidation o₂ →
      (Call.start (.generateLogins contestId random)).advance service o db = (call, db₁) →
      ofContest contestId db₂ = ofContest contestId db → call.advance service o₂ db₂ = (call₂, db₃) →
      GeneratedOk service contestId (generatedLogins (ofContest contestId db).length random) db₂ call₂ db₃ :=
  ⟨fun _ _ _ _ _ h => assignLoginsAsync_assigned h, fun logins => atomic_assignLogins service contestId logins,
    fun _ _ _ _ _ _ _ _ _ ho ho₂ hcount hsame hassign => generateLogins_ok ho ho₂ hcount hsame hassign⟩

section Sample

def sampleFile : List (String × String) :=
  [("taken", "x"), ("login", "secret"), ("word", "pass"), ("spare", "y")]

/-- Registered after `namelessCompetitor`, and without a login like it. -/
def lateCompetitor : Competitor := { sampleCompetitor with registrationDate := some 20 }

def namelessCompetitor : Competitor := { newCompetitor "Other" 1 with id := 3, registrationDate := some 10 }

/-- A contest of three, of which one has a login; a competitor of the other contest has none. -/
def nameableDb : Db :=
  { sampleDb with
    users := ⟨[.olympUser sampleUser, .competitor lateCompetitor, .competitor namelessCompetitor,
      .competitor { newCompetitor "Third" 1 with id := 4, userName := some "TAKEN" },
      .competitor { newCompetitor "Fourth" 2 with id := 5 }], 6, by decide, by decide⟩
    stamps := by decide
    members_of := by
      intro p hp
      rw [List.mem_singleton.mp hp]
      exact ⟨⟨sampleUser, List.mem_cons_self, rfl⟩, lateCompetitor, List.mem_cons_of_mem _ List.mem_cons_self, rfl⟩
    claims_of := by decide
    history_of := fun _ h => (nomatch h) }

theorem calm_noValidation (now : Int) : NoValidation (calm now) := fun _ _ h => (nomatch h)

def sampleAssigned : Db := (assignLoginsAsync sampleService 1 sampleFile (calm 0) ⟨nameableDb, 0⟩).2.db

def sampleAssigning : Call × Db :=
  (Call.generating 1 (generatedLogins (ofContest 1 nameableDb).length fun _ => "word")).advance sampleService (calm 0)
    nameableDb

/-- The earlier one comes first, and the login that is taken, in other letters, goes to nobody. -/
theorem sample_logins :
    assignments sampleService 1 sampleFile nameableDb =
        [(namelessCompetitor, "login", "secret"), (lateCompetitor, "word", "pass")] ∧
      LoginsAssigned sampleService 1 sampleFile nameableDb sampleAssigned ∧
      GeneratedOk sampleService 1 (generatedLogins (ofContest 1 nameableDb).length fun _ => "word") nameableDb
        sampleAssigning.1 sampleAssigning.2 := by
  have hreturns : Returns (calm 0) (assignLoginsAsync sampleService 1 sampleFile) nameableDb () sampleAssigned :=
    Returns.of_run (by decide +kernel)
  obtain ⟨hassigned, -, hgenerated⟩ := logins_assigned sampleService 1
  refine ⟨by decide +kernel, hassigned sampleFile (calm 0) nameableDb () sampleAssigned hreturns, ?_⟩
  exact hgenerated (fun _ => "word") (calm 0) (calm 0) nameableDb nameableDb nameableDb sampleAssigning.2 _
    sampleAssigning.1 (calm_noValidation 0) (calm_noValidation 0) rfl rfl (Prod.eta sampleAssigning).symm

end Sample

end OlympSystem.Site.Accounts.CompetitorManagement
