/-
  OlympSystem.Site.CompetitorChanges — what the operations on competitors do.

  Whatever the arguments, a call that returns has made a sequence of a few kinds of
  changes: a competitor is created, its flags are set, it is removed, a login is given to
  it or taken from it. What holds of every change holds of every call.

  Proved:
  - `changes_tracked`: the loops over the competitors of a contest.
  - one lemma for each operation of the service: what it changes when it returns.
  - `deleteAsync_removes` and `deleteWithoutSubmissionsAsync_removes`: what exactly is gone.
-/

import Mathlib.Logic.Relation
import OlympSystem.Site.CompetitorManagementService

namespace OlympSystem.Site.Accounts.CompetitorManagement

open Lib.Text Lib.Query Lib.Transactions

/-- The claim that says in which contest a competitor takes part. -/
def contestClaim (competitor : Competitor) : UserClaim :=
  ⟨competitor.id, competitorContest, toString competitor.contestId⟩

inductive Change (db db' : Db) : Prop where
  /-- A new competitor has no login, and its members are free. -/
  | create (new : Competitor) (members : List Int) (h : Creates db db' new members)
      (hunnamed : new.userName = none ∧ new.passwordHash = none)
      (hfree : ∀ id ∈ members, ∀ c ∈ db.competitors, c.contestId = new.contestId → db.isMember id c = false)
  | flags (old new : Competitor) (h : Replaces db db' old new) (hclaims : db'.claims = db.claims)
      (hkeeps : new.userName = old.userName ∧ new.passwordHash = old.passwordHash ∧ new.contestId = old.contestId)
  | remove (id : Int) (h : Removes db db' [id]) (hrow : ∃ c ∈ db.competitors, c.id = id)
      (hhistory : db.history.mentions id = false)
  | assignLogin (old new : Competitor) (h : Replaces db db' old new) (hunnamed : old.userName = none)
      (hnamed : new.userName ≠ none ∧ new.passwordHash ≠ none) (hcontest : new.contestId = old.contestId)
      (hclaims : db'.claims = db.claims ++ [contestClaim old])
  | removeLogin (old new : Competitor) (h : Replaces db db' old new)
      (hunnamed : new.userName = none ∧ new.passwordHash = none) (hcontest : new.contestId = old.contestId)
      (hclaims : db'.claims = db.claims.filter (· != contestClaim old))

abbrev Changes : Db → Db → Prop := Relation.ReflTransGen Change

theorem Change.same {db db' : Db} (h : Change db db') : Same db db' := by
  cases h with
  | create _ _ h | flags _ _ h | remove _ h | assignLogin _ _ h | removeLogin _ _ h => exact h.toSame

/-- What every change keeps of what holds. -/
theorem Changes.keeps {P : Db → Prop} (hchange : ∀ db db', Change db db' → P db → P db') {db db' : Db}
    (h : Changes db db') (hP : P db) : P db' := by
  induction h with
  | refl => exact hP
  | tail _ hc ih => exact hchange _ _ hc ih

section Operations

variable {o : Outside OperationExn} {db db' : Db} (service : CompetitorManagementService)

/-! ## Tracked competitors -/

/-- A write of a competitor that was read from the database as it is. -/
theorem replaces_tracked {old participant new : Competitor} (hold : old ∈ db.competitors)
    (hid : participant.id = old.id)
    (h : ∃ row, row.id = participant.id ∧ row.concurrencyStamp = participant.concurrencyStamp ∧
      Replaces db db' row new) : Replaces db db' old new := by
  obtain ⟨row, hrow, -, hrep⟩ := h
  rwa [← Db.competitor_unique hrep.stored hold (hrow.trans hid)]

theorem updateAsync_tracked {old participant new : Competitor} (hold : old ∈ db.competitors)
    (h : Returns o (UserManager.updateAsync participant) db new db') (hid : participant.id = old.id) :
    Replaces db db' old new ∧ db'.claims = db.claims ∧ new = UserManager.stamped db participant := by
  obtain ⟨hnew, hclaims, hrow⟩ := updateAsync_returns h
  exact ⟨replaces_tracked hold hid hrow, hclaims, hnew⟩

/-- A loop over competitors that were read, each round of which writes over its own. -/
theorem changes_tracked {β : Type} {Q : Competitor → Prop} {f : β → Competitor → Op β}
    (hround : ∀ acc p db acc' db', p ∈ db.competitors → Q p → Returns o (f acc p) db acc' db' →
      Change db db' ∧ ∃ new, Replaces db db' p new) :
    ∀ {l : List Competitor} {acc acc' : β} {db db' : Db}, (∀ p ∈ l, p ∈ db.competitors ∧ Q p) →
      (l.map fun p => p.id).Nodup → Returns o (l.foldlM f acc) db acc' db' → Changes db db' := by
  intro l acc acc' db db' hl hnodup h
  refine (Returns.foldlM (fun rest _ db₁ => Changes db db₁ ∧ (∀ p ∈ rest, p ∈ db₁.competitors ∧ Q p) ∧
    (rest.map fun p => p.id).Nodup) ?_ ⟨.refl, hl, hnodup⟩ h).1
  intro p rest acc db₁ acc₁ db₂ hbefore hp
  obtain ⟨hchanges, hrest, hnodup⟩ := hbefore
  obtain ⟨hstored, hQ⟩ := hrest p List.mem_cons_self
  obtain ⟨hchange, new, hrep⟩ := hround acc p db₁ acc₁ db₂ hstored hQ hp
  obtain ⟨hfresh, hnodup⟩ := List.nodup_cons.mp hnodup
  refine ⟨hchanges.tail hchange, fun q hq => ?_, hnodup⟩
  obtain ⟨hqstored, hqQ⟩ := hrest q (List.mem_cons_of_mem _ hq)
  have hne : q.id ≠ p.id := fun heq => hfresh (List.mem_map.mpr ⟨q, hq, heq⟩)
  exact ⟨(hrep.competitors q).mpr (Or.inr ⟨hqstored, hne⟩), hqQ⟩

/-- A lookup that returns has found something, and changes nothing. -/
theorem find_returns {α : Type} {f : Db → Option α} {found : α}
    (h : Returns o (do let x ← Work.query f; Work.orThrow x .entityNotFound : Op α) db found db') :
    f db = some found ∧ db' = db := by
  have hthrow := Returns.query_bind h
  exact Returns.orThrow hthrow

theorem findCompetitors_returns {contestId : Int} {found : Contest × List Competitor}
    (h : Returns o (findCompetitors contestId) db found db') :
    db' = db ∧ found.2 = ofContest contestId db ∧ db.contests.find? contestId = some found.1 := by
  obtain ⟨hfound, rfl⟩ := find_returns h
  obtain ⟨contest, hcontest, rfl⟩ := Option.map_eq_some_iff.mp hfound
  exact ⟨rfl, rfl, hcontest⟩

/-- What comes after the query goes on with the contest and its competitors. -/
theorem findCompetitors_bind {α : Type} {contestId : Int} {k : Contest × List Competitor → Op α} {a : α}
    (h : Returns o (findCompetitors contestId >>= k) db a db') :
    ∃ contest, db.contests.find? contestId = some contest ∧
      Returns o (k (contest, ofContest contestId db)) db a db' := by
  obtain ⟨⟨contest, participants⟩, db₁, hfind, hk⟩ := Returns.bind h
  obtain ⟨rfl, rfl, hcontest⟩ := findCompetitors_returns hfind
  exact ⟨contest, hcontest, hk⟩

/-- What is thrown comes from outside, or the contest is not there, or it comes after the query. -/
theorem findCompetitors_throws {α : Type} {contestId : Int} {k : Contest × List Competitor → Op α} {e : OperationExn}
    (h : Throws o (findCompetitors contestId >>= k) db e) : (∃ n, o.fault n = some e) ∨
      db.contests.find? contestId = none ∧ e = .entityNotFound ∨
      ∃ contest, db.contests.find? contestId = some contest ∧ Throws o (k (contest, ofContest contestId db)) db e := by
  rcases Throws.bind h with hfind | ⟨⟨contest, participants⟩, db₁, hfind, hk⟩
  · rcases Throws.bind hfind with hquery | ⟨found, db₁, hquery, hthrow⟩
    · exact Or.inl (Throws.query hquery)
    · obtain ⟨rfl, rfl⟩ := Returns.query hquery
      obtain ⟨hnone, rfl⟩ := Throws.orThrow hthrow
      exact Or.inr (Or.inl ⟨Option.map_eq_none_iff.mp hnone, rfl⟩)
  · obtain ⟨rfl, rfl, hcontest⟩ := findCompetitors_returns hfind
    exact Or.inr (Or.inr ⟨contest, hcontest, hk⟩)

theorem mem_ofContest {contestId : Int} {c : Competitor} :
    c ∈ ofContest contestId db ↔ c ∈ db.competitors ∧ c.contestId = contestId := by
  unfold ofContest
  rw [List.mem_filter, beq_iff_eq]

theorem ofContest_nodup (contestId : Int) (db : Db) : ((ofContest contestId db).map fun c => c.id).Nodup :=
  (Db.competitor_ids db).sublist (List.filter_sublist.map _)

/-! ## Flags and approval -/

theorem approveAllAsync_changes {contestId : Int} {u : Unit} (h : Returns o (approveAllAsync contestId) db u db') :
    Changes db db' := by
  obtain ⟨contest, -, hloop⟩ := findCompetitors_bind (Returns.transaction h)
  refine changes_tracked (Q := fun _ => True) ?_ (fun p hp => ⟨?_, trivial⟩) ?_ hloop
  · intro _ p db₁ _ db₂ hp _ hround
    have hwrite := Returns.cancelled_bind hround
    obtain ⟨new, hupdate, -⟩ := Returns.bind_pure hwrite
    obtain ⟨hrep, hclaims, rfl⟩ := updateAsync_tracked hp hupdate rfl
    exact ⟨.flags p _ hrep hclaims ⟨rfl, rfl, rfl⟩, _, hrep⟩
  · exact (mem_ofContest.mp (List.mem_filter.mp hp).1).1
  · exact (ofContest_nodup contestId db).sublist (List.filter_sublist.map _)

/-! ## Logins -/

def named (participant : Competitor) (login password : String) (stamp : Int) : Competitor :=
  { participant with
    userName := some login
    passwordHash := some (UserManager.hashPassword password)
    concurrencyStamp := stamp }

/-- The three writes are one. -/
theorem assignLogin_replaces {contestId : Int} {participant : Competitor} {login password : String} {u : Unit}
    (hp : participant ∈ db.competitors) (h : Returns o (assignLogin contestId participant login password) db u db') :
    (∃ stamp, Replaces db db' participant (named participant login password stamp)) ∧
      db'.claims = db.claims ++ [⟨participant.id, competitorContest, toString contestId⟩] := by
  obtain ⟨renamed, db₁, hname, h⟩ := Returns.bind h
  obtain ⟨hrep, hclaims, rfl⟩ := updateAsync_tracked hp hname rfl
  obtain ⟨secured, db₂, hadd, h⟩ := Returns.bind h
  obtain ⟨-, hpassword⟩ := Returns.throwIf_bind hadd
  obtain ⟨hrep₂, hclaims₂, rfl⟩ := updateAsync_tracked hrep.new_stored hpassword rfl
  obtain ⟨new, hclaim, -⟩ := Returns.bind_pure h
  obtain ⟨rfl, hclaims₃, hrow⟩ := addClaimAsync_returns hclaim
  refine ⟨⟨_, (hrep.trans hrep₂).trans (replaces_tracked hrep₂.new_stored rfl hrow)⟩, ?_⟩
  rw [hclaims₃, hclaims₂, hclaims]
  rfl

theorem assignLogin_change {participant : Competitor} {login password : String} {u : Unit}
    (hp : participant ∈ db.competitors) (hunnamed : participant.userName = none)
    (h : Returns o (assignLogin participant.contestId participant login password) db u db') :
    Change db db' ∧ ∃ new, Replaces db db' participant new := by
  obtain ⟨⟨stamp, hrep⟩, hclaims⟩ := assignLogin_replaces hp h
  exact ⟨.assignLogin participant _ hrep hunnamed ⟨Option.some_ne_none _, Option.some_ne_none _⟩ rfl hclaims, _, hrep⟩

theorem removeLogin_change {participant : Competitor} {u : Unit} (hp : participant ∈ db.competitors)
    (h : Returns o (removeLogin participant.contestId participant) db u db') :
    Change db db' ∧ ∃ new, Replaces db db' participant new := by
  obtain ⟨unnamed, db₁, hname, h⟩ := Returns.bind h
  obtain ⟨hrep, hclaims, rfl⟩ := updateAsync_tracked hp hname rfl
  obtain ⟨unsecured, db₂, hpassword, h⟩ := Returns.bind h
  obtain ⟨hrep₂, hclaims₂, rfl⟩ := updateAsync_tracked hrep.new_stored hpassword rfl
  obtain ⟨new, hclaim, -⟩ := Returns.bind_pure h
  obtain ⟨rfl, hclaims₃, hrow⟩ := removeClaimAsync_returns hclaim
  have hrep₃ := (hrep.trans hrep₂).trans (replaces_tracked hrep₂.new_stored rfl hrow)
  refine ⟨.removeLogin participant _ hrep₃ ⟨rfl, rfl⟩ rfl ?_, _, hrep₃⟩
  rw [hclaims₃, hclaims₂, hclaims]
  rfl

theorem removeLoginsAsync_changes {contestId : Int} {u : Unit} (h : Returns o (removeLoginsAsync contestId) db u db') :
    Changes db db' := by
  obtain ⟨contest, -, hloop⟩ := findCompetitors_bind (Returns.transaction h)
  refine changes_tracked (Q := fun p => p.contestId = contestId) ?_ (fun p hp => mem_ofContest.mp hp)
    (ofContest_nodup contestId db) hloop
  intro _ p db₁ _ db₂ hp hcontest hround
  have hremove := Returns.cancelled_bind hround
  rw [← hcontest] at hremove
  exact removeLogin_change hp hremove

/-- A round of the assignment that returns has given the competitor a login. -/
theorem assignNext_change {contestId : Int} {available available' : Logins service} {participant : Competitor}
    (hp : participant ∈ db.competitors) (hq : participant.contestId = contestId ∧ participant.userName = none)
    (h : Returns o (assignNext service contestId available participant) db available' db') :
    Change db db' ∧ ∃ new, Replaces db db' participant new := by
  have htake := Returns.cancelled_bind h
  obtain ⟨⟨login, password⟩, -, hwrites⟩ := Returns.orThrow_bind htake
  obtain ⟨_, hassign, -⟩ := Returns.bind_pure hwrites
  rw [← hq.1] at hassign
  exact assignLogin_change hp hq.2 hassign

theorem assignLoginsAsync_changes {contestId : Int} {logins : List (String × String)} {u : Unit}
    (h : Returns o (assignLoginsAsync service contestId logins) db u db') : Changes db db' := by
  obtain ⟨available, db₁, hlogins, hrest⟩ := Returns.bind h
  have hsame : db₁ = db := by
    refine Returns.foldlM (fun _ _ db₂ => db₂ = db) ?_ rfl hlogins
    intro x rest acc db₂ acc' db₃ hdb hround
    rw [← hdb]
    exact (Returns.orThrow hround).2
  subst hsame
  obtain ⟨contest, -, hassign⟩ := findCompetitors_bind (Returns.transaction hrest)
  obtain ⟨-, hloops⟩ := Returns.throwIf_bind hassign
  obtain ⟨_, hloop, -⟩ := Returns.bind_pure hloops
  refine changes_tracked (Q := fun p => p.contestId = contestId ∧ p.userName = none) ?_ (fun p hp => ?_) ?_ hloop
  · intro acc p db₁ acc' db₂ hp hq hround
    exact assignNext_change service hp hq hround
  · obtain ⟨hmem, hunnamed⟩ := List.mem_filter.mp (mem_orderBy.mp hp)
    obtain ⟨hstored, hcontest⟩ := mem_ofContest.mp hmem
    exact ⟨hstored, hcontest, Option.isNone_iff_eq_none.mp hunnamed⟩
  · refine ((orderBy_perm _ _).map _).nodup_iff.mpr ?_
    exact (ofContest_nodup contestId _).sublist (List.filter_sublist.map _)

/-! ## Registration and import -/

theorem createAsync_change {participant : Competitor} {members : List OlympUser} {u : Unit}
    (h : Returns o (UserManager.createAsync participant members) db u db')
    (hunnamed : participant.userName = none ∧ participant.passwordHash = none)
    (hfree : ∀ user ∈ members, ∀ c ∈ db.competitors, c.contestId = participant.contestId →
      db.isMember user.id c = false) : Change db db' := by
  refine .create _ _ (createAsync_returns h) hunnamed fun id hid c hc hcontest => ?_
  obtain ⟨user, huser, rfl⟩ := List.mem_map.mp hid
  exact hfree user huser c hc hcontest

theorem findContest_returns {contestId : Int} {contest : Contest}
    (h : Returns o (findContest contestId) db contest db') :
    db' = db ∧ db.contests.find? contestId = some contest := by
  obtain ⟨hfound, rfl⟩ := find_returns h
  exact ⟨rfl, hfound⟩

/-- Nobody who was asked for is in the contest yet. -/
theorem anyRegistered_free {contestId : Int} {userIds : List Int}
    (h : Returns o (anyRegistered contestId userIds) db false db') :
    db' = db ∧ ∀ id ∈ userIds, ∀ c ∈ db.competitors, c.contestId = contestId → db.isMember id c = false := by
  obtain ⟨hany, rfl⟩ := Returns.query h
  refine ⟨rfl, fun id hid c hc hcontest => ?_⟩
  have hnone := List.any_eq_false.mp hany.symm c (mem_ofContest.mpr ⟨hc, hcontest⟩)
  exact Bool.eq_false_iff.mpr fun hmember => hnone (List.any_eq_true.mpr ⟨id, hid, hmember⟩)

theorem findOlympUser_returns {userId : Int} {found : OlympUser × Option Organization}
    (h : Returns o (findOlympUser userId) db found db') : db' = db ∧ found.1.id = userId := by
  obtain ⟨hfound, rfl⟩ := find_returns h
  obtain ⟨user, huser, rfl⟩ := Option.map_eq_some_iff.mp hfound
  exact ⟨rfl, beq_iff_eq.mp (List.find?_some huser :)⟩

theorem registerIndividualAsync_change {contestId userId : Int} {outOfCompetition : Bool} {u : Unit}
    (h : Returns o (registerIndividualAsync service contestId userId outOfCompetition) db u db') : Change db db' := by
  obtain ⟨contest, db₁, hcontest, h₁⟩ := Returns.bind (Returns.transaction h)
  obtain ⟨rfl, -⟩ := findContest_returns hcontest
  obtain ⟨_, h₂⟩ := Returns.now_bind h₁
  obtain ⟨-, h₃⟩ := Returns.throwIf_bind h₂
  obtain ⟨⟨user, organization⟩, db₂, huser, h₄⟩ := Returns.bind h₃
  obtain ⟨rfl, hid⟩ := findOlympUser_returns huser
  obtain ⟨registered, db₃, hregistered, h₅⟩ := Returns.bind h₄
  obtain ⟨rfl, h₆⟩ := Returns.throwIf_bind h₅
  obtain ⟨rfl, hfree⟩ := anyRegistered_free hregistered
  obtain ⟨-, h₇⟩ := Returns.throwIf_bind h₆
  obtain ⟨-, h₈⟩ := Returns.throwIf_bind h₇
  obtain ⟨_, hcreate⟩ := Returns.now_bind h₈
  refine createAsync_change hcreate ⟨rfl, rfl⟩ fun member hmember c hc hof => ?_
  rw [List.mem_singleton.mp hmember]
  exact hfree _ (List.mem_singleton.mpr hid) c hc hof

/-- Those of the organization who are asked for, and can be seen. -/
def selectable (organizationId : Int) (memberIds : List Int) (db : Db) : List OlympUser :=
  db.olympUsers.filter fun x => memberIds.contains x.id && x.organizationId == some organizationId && !x.isHidden

def newTeam (contestId organizationId coachId : Int) (name memberInfos : String) (registrationDate : Int) :
    Competitor :=
  { newCompetitor name contestId with
    organizationId := some organizationId
    coachId := some coachId
    memberInfos := some memberInfos
    registrationDate := some registrationDate }

/-- What a registration of a team that returns has checked, and that its last step creates the team. -/
theorem registerTeamAsync_returns {contestId organizationId coachId : Int} {name : String} {participants : List String}
    {u : Unit} (h : Returns o (registerTeamAsync service contestId organizationId coachId name participants) db u db') :
    ∃ members memberInfos registrationDate,
      (participants.length = 3 ∧ ∀ text ∈ participants, ';' ∉ text.toList) ∧
      members = selectable organizationId (participants.filterMap tryParseInt) db ∧
      (∀ id ∈ participants.filterMap tryParseInt, ∀ c ∈ db.competitors, c.contestId = contestId →
        db.isMember id c = false) ∧
      participants.mapM (memberInfo members) = .ok memberInfos ∧
      Returns o (UserManager.createAsync (newTeam contestId organizationId coachId name
        (String.intercalate ";" memberInfos) registrationDate) members) db u db' := by
  obtain ⟨hfields, h₁⟩ := Returns.throwIf_bind h
  obtain ⟨-, h₂⟩ := Returns.throwIf_bind h₁
  obtain ⟨contest, db₁, hcontest, h₃⟩ := Returns.bind (Returns.transaction h₂)
  obtain ⟨rfl, -⟩ := findContest_returns hcontest
  obtain ⟨_, h₄⟩ := Returns.now_bind h₃
  obtain ⟨-, h₅⟩ := Returns.throwIf_bind h₄
  have h₆ := Returns.query_bind h₅
  obtain ⟨-, h₇⟩ := Returns.throwIf_bind h₆
  have h₈ := Returns.query_bind h₇
  obtain ⟨-, h₉⟩ := Returns.throwIf_bind h₈
  have h₁₀ := Returns.query_bind h₉
  obtain ⟨-, h₁₁⟩ := Returns.throwIf_bind h₁₀
  obtain ⟨registered, db₂, hregistered, h₁₂⟩ := Returns.bind h₁₁
  obtain ⟨rfl, h₁₃⟩ := Returns.throwIf_bind h₁₂
  obtain ⟨rfl, hfree⟩ := anyRegistered_free hregistered
  obtain ⟨infos, db₃, hinfos, h₁₄⟩ := Returns.bind h₁₃
  obtain ⟨hinfos, rfl⟩ := Returns.lift hinfos
  obtain ⟨k, hcreate⟩ := Returns.now_bind h₁₄
  refine ⟨_, infos, o.clock k, ?_, rfl, hfree, hinfos, hcreate⟩
  simp only [Bool.or_eq_false_iff, bne_eq_false_iff_eq, List.any_eq_false] at hfields
  obtain ⟨⟨-, hlength⟩, htexts⟩ := hfields
  exact ⟨hlength, fun text htext hmem => htexts text htext (by simp [hmem])⟩

theorem registerTeamAsync_change {contestId organizationId coachId : Int} {name : String} {participants : List String}
    {u : Unit} (h : Returns o (registerTeamAsync service contestId organizationId coachId name participants) db u db') :
    Change db db' := by
  obtain ⟨members, _, _, -, rfl, hfree, -, hcreate⟩ := registerTeamAsync_returns service h
  -- the members are among those who were asked for
  refine createAsync_change hcreate ⟨rfl, rfl⟩ fun member hmember c hc hof => ?_
  have hasked := (List.mem_filter.mp hmember).2
  simp only [Bool.and_eq_true] at hasked
  exact hfree _ (List.contains_iff_mem.mp hasked.1.1) c hc hof

theorem importName_changes {contestId : Int} {existing : List Competitor} {added added' : Nat} {name : String}
    (h : Returns o (importName service contestId existing added name) db added' db') : Changes db db' := by
  have h₁ := Returns.cancelled_bind h
  obtain ⟨-, h₂⟩ := Returns.throwIf_bind h₁
  split at h₂
  · obtain ⟨-, rfl⟩ := Returns.pure h₂
    exact .refl
  · obtain ⟨_, h₃⟩ := Returns.now_bind h₂
    obtain ⟨_, hcreate, -⟩ := Returns.bind_pure h₃
    exact .single (createAsync_change hcreate ⟨rfl, rfl⟩ fun user huser => absurd huser List.not_mem_nil)

/-- The rounds of an import come after its checks. -/
theorem importAsync_returns {contestId : Int} {names : List String} {summary : ParticipantImportSummary}
    (h : Returns o (importAsync service contestId names) db summary db') :
    (names.isEmpty = false ∧ ((names.map service.upper.fold).eraseDups.length != names.length) = false ∧
      ∃ contest, db.contests.find? contestId = some contest ∧ contest.isAcm service.culture = false) ∧
    ∃ added, Returns o (names.foldlM (importName service contestId (ofContest contestId db)) 0) db added db' ∧
      summary = ⟨added, names.length - added⟩ := by
  obtain ⟨hempty, h₁⟩ := Returns.throwIf_bind h
  obtain ⟨hduplicates, h₂⟩ := Returns.throwIf_bind h₁
  obtain ⟨contest, hcontest, h₃⟩ := findCompetitors_bind (Returns.transaction h₂)
  obtain ⟨hacm, h₄⟩ := Returns.throwIf_bind h₃
  obtain ⟨added, hloop, hsummary⟩ := Returns.bind_pure h₄
  exact ⟨⟨hempty, hduplicates, contest, hcontest, hacm⟩, added, hloop, hsummary⟩

theorem importAsync_changes {contestId : Int} {names : List String} {summary : ParticipantImportSummary}
    (h : Returns o (importAsync service contestId names) db summary db') : Changes db db' := by
  obtain ⟨-, added, hloop, -⟩ := importAsync_returns service h
  refine Returns.foldlM (fun _ _ db₁ => Changes _ db₁) ?_ .refl hloop
  intro name rest acc db₁ acc' db₂ hchanges hround
  exact hchanges.trans (importName_changes service hround)

/-! ## Deletion -/

theorem findWithMembers_returns {contestId participantId : Int} {found : Competitor × List Int}
    (h : Returns o (findWithMembers contestId participantId) db found db') :
    db' = db ∧ found.1 ∈ db.competitors ∧ found.1.id = participantId ∧ found.1.contestId = contestId := by
  obtain ⟨hfound, rfl⟩ := find_returns h
  obtain ⟨participant, hparticipant, rfl⟩ := Option.map_eq_some_iff.mp hfound
  have hboth := List.find?_some hparticipant
  simp only [Bool.and_eq_true, beq_iff_eq] at hboth
  exact ⟨rfl, List.mem_of_find?_eq_some hparticipant, hboth⟩

theorem refuse_returns {f : Db → Bool} {u : Unit}
    (h : Returns o (do let any ← Work.query f; Work.throwIf any recordsExist : Op Unit) db u db') : db' = db := by
  have hthrow := Returns.query_bind h
  exact (Returns.throwIf hthrow).2

theorem deleteAsync_removes {contestId participantId : Int} {u : Unit}
    (h : Returns o (CompetitorManagement.deleteAsync contestId participantId) db u db') :
    (∃ c ∈ db.competitors, c.id = participantId ∧ c.contestId = contestId) ∧
      db.history.mentions participantId = false ∧ Removes db db' [participantId] := by
  obtain ⟨⟨participant, members⟩, db₁, hfind, h₁⟩ := Returns.bind h
  obtain ⟨rfl, hstored, rfl, hcontest⟩ := findWithMembers_returns hfind
  obtain ⟨_, db₂, hsubmissions, h₂⟩ := Returns.bind h₁
  obtain rfl := refuse_returns hsubmissions
  obtain ⟨_, db₃, hmessages, h₃⟩ := Returns.bind h₂
  obtain rfl := refuse_returns hmessages
  obtain ⟨hhistory, -, hremoves⟩ := deleteAsync_returns h₃
  exact ⟨⟨participant, hstored, rfl, hcontest⟩, hhistory, hremoves⟩

/-- What the bulk deletion has to delete. -/
def toDelete (contestId : Int) (db : Db) : List Competitor := (ofContest contestId db).filter (withoutSubmissions db)

/-- The loop of the bulk deletion. -/
theorem deleteEach_removes {contestId : Int} {ids : List Int} {u u' : Unit}
    (h : Returns o (ids.foldlM (fun _ participantId => do
      Work.throwIfCancelled canceled
      CompetitorManagement.deleteAsync contestId participantId) u) db u' db') : Removes db db' ids ∧
        Changes db db' := by
  have hdone : ∃ done, done ++ [] = ids ∧ Removes db db' done ∧ Changes db db' := by
    refine Returns.foldlM (fun rest _ db₁ => ∃ done, done ++ rest = ids ∧ Removes db db₁ done ∧ Changes db db₁) ?_
      ⟨[], rfl, Removes.refl db, .refl⟩ h
    intro id rest _ db₁ _ db₂ hbefore hround
    obtain ⟨done, hids, hremoves, hchanges⟩ := hbefore
    obtain ⟨⟨c, hc, hid, -⟩, hhistory, hremoved⟩ := deleteAsync_removes (Returns.cancelled_bind hround)
    refine ⟨done ++ [id], by rw [← hids, List.append_assoc]; rfl, hremoves.trans hremoved, hchanges.tail ?_⟩
    exact .remove id hremoved ⟨c, hc, hid⟩ hhistory
  obtain ⟨done, rfl, hremoves, hchanges⟩ := hdone
  rw [List.append_nil]
  exact ⟨hremoves, hchanges⟩

/-- The clock is read third: after the begin and the contest. -/
theorem deleteWithoutSubmissionsAsync_ended {contestId : Int} {n : Nat} {s' : Session Db}
    (h : ReturnsFrom o (deleteWithoutSubmissionsAsync contestId) ⟨db, 0⟩ n s') :
    ∃ contest, db.contests.find? contestId = some contest ∧ contest.endTime < o.clock 2 := by
  obtain ⟨t, hwork, -⟩ := ReturnsFrom.transaction h
  obtain ⟨contest, hfound, h₁⟩ := ReturnsFrom.find_bind hwork
  have h₂ := ReturnsFrom.now_bind h₁
  obtain ⟨hended, -⟩ := ReturnsFrom.throwIf_bind h₂
  refine ⟨contest, hfound, ?_⟩
  simpa using hended

theorem deleteWithoutSubmissionsAsync_removes {contestId : Int} {n : Nat}
    (h : Returns o (deleteWithoutSubmissionsAsync contestId) db n db') :
    n = (toDelete contestId db).length ∧ Removes db db' ((toDelete contestId db).map fun c => c.id) ∧
      Changes db db' := by
  obtain ⟨contest, db₁, hcontest, h₁⟩ := Returns.bind (Returns.transaction h)
  obtain ⟨rfl, -⟩ := findContest_returns hcontest
  obtain ⟨k, h₂⟩ := Returns.now_bind h₁
  obtain ⟨-, h₃⟩ := Returns.throwIf_bind h₂
  obtain ⟨_, hloop, rfl⟩ := Returns.bind_pure (Returns.query_bind h₃)
  obtain ⟨hremoves, hchanges⟩ := deleteEach_removes hloop
  -- the ids in the order of the query
  have hperm := (orderBy_perm (byKey fun x : Competitor => x.id) (toDelete contestId db₁)).map fun c => c.id
  exact ⟨hperm.length_eq.trans (List.length_map _), hremoves.perm hperm, hchanges⟩

end Operations

end OlympSystem.Site.Accounts.CompetitorManagement
