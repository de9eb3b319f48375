/-
  OlympSystem.Site.CompetitorIsolation — the calls for one contest leave the others alone.

  `OnlyIn contestId`: competitors of other contests stay, with all columns, their members and
  their claims. It composes, so it is shown for the writes and then for the calls, a loop
  over competitors one round at a time.

  Proved:
  - `onlyIn_tracked`: a change that writes over one competitor is one of its contest.
  - `advance_onlyIn`: a piece of a call changes the contest of the call only.
  - `isolated_run`: throughout every run a contest that no call is for is as it was.
-/

import OlympSystem.Site.CompetitorRuns

namespace OlympSystem.Site.Accounts.CompetitorManagement

open Lib.Query Lib.Runs Lib.Transactions

/-- Nothing changes but for the competitors of the contest, and what refers to them. -/
structure OnlyIn (contestId : Int) (db db' : Db) : Prop where
  same : Same db db'
  competitors : ∀ c, c.contestId ≠ contestId → (c ∈ db'.competitors ↔ c ∈ db.competitors)
  members : ∀ c ∈ db.competitors, c.contestId ≠ contestId → ∀ userId, db'.isMember userId c = db.isMember userId c
  claims : ∀ c ∈ db.competitors, c.contestId ≠ contestId → ∀ claim, claim.userId = c.id →
    (claim ∈ db'.claims ↔ claim ∈ db.claims)

/-! ## Members -/

section Members

variable {db db' : Db} {c : Competitor}

theorem isMember_same (h : db'.participations = db.participations) (userId : Int) (c : Competitor) :
    db'.isMember userId c = db.isMember userId c := by
  unfold Db.isMember
  rw [h]

theorem isMember_created {new : Competitor} {members : List Int} (h : Creates db db' new members)
    (hc : c ∈ db.competitors) (userId : Int) : db'.isMember userId c = db.isMember userId c := by
  rw [Bool.eq_iff_iff, isMember_iff, isMember_iff, h.participations, List.mem_append, List.mem_map]
  constructor
  · intro hp
    rcases hp with hp | ⟨id, -, heq⟩
    · exact hp
    · exact absurd (congrArg Participation.competitorId heq).symm (h.fresh c hc)
  · exact Or.inl

theorem isMember_removed {ids : List Int} (h : Removes db db' ids) (hout : c.id ∉ ids) (userId : Int) :
    db'.isMember userId c = db.isMember userId c := by
  rw [Bool.eq_iff_iff, isMember_iff, isMember_iff, h.participations, List.mem_filter]
  simp [hout]

end Members

namespace OnlyIn

variable {contestId : Int} {db db₁ db' : Db}

theorem refl (contestId : Int) (db : Db) : OnlyIn contestId db db where
  same := ⟨rfl, rfl, rfl, rfl, rfl, rfl, Int.le_refl _⟩
  competitors _ _ := Iff.rfl
  members _ _ _ _ := rfl
  claims _ _ _ _ _ := Iff.rfl

theorem trans (h : OnlyIn contestId db db₁) (h' : OnlyIn contestId db₁ db') : OnlyIn contestId db db' where
  same := h.same.trans h'.same
  competitors c hc := (h'.competitors c hc).trans (h.competitors c hc)
  members c hmem hc userId :=
    (h'.members c ((h.competitors c hc).mpr hmem) hc userId).trans (h.members c hmem hc userId)
  claims c hmem hc claim hclaim :=
    (h'.claims c ((h.competitors c hc).mpr hmem) hc claim hclaim).trans (h.claims c hmem hc claim hclaim)

/-! ## Writes -/

theorem of_replaces {old new : Competitor} (h : Replaces db db' old new) (hold : old.contestId = contestId)
    (hnew : new.contestId = contestId)
    (hclaims : ∀ claim, claim.userId ≠ old.id → (claim ∈ db'.claims ↔ claim ∈ db.claims)) :
    OnlyIn contestId db db' where
  same := h.toSame
  competitors c hc := by
    rw [h.competitors]
    constructor
    · intro hmem
      rcases hmem with rfl | hmem
      · exact absurd hnew hc
      · exact hmem.1
    · intro hmem
      refine Or.inr ⟨hmem, fun hid => hc ?_⟩
      rw [Db.competitor_unique hmem h.stored hid, hold]
  members c _ _ userId := isMember_same h.participations userId c
  claims c hmem hc claim hclaim := by
    refine hclaims claim fun hid => hc ?_
    rw [Db.competitor_unique hmem h.stored (hclaim.symm.trans hid), hold]

theorem of_creates {new : Competitor} {members : List Int} (h : Creates db db' new members)
    (hnew : new.contestId = contestId) : OnlyIn contestId db db' where
  same := h.toSame
  competitors c hc := by
    rw [h.competitors, List.mem_append, List.mem_singleton]
    constructor
    · intro hmem
      rcases hmem with hmem | rfl
      · exact hmem
      · exact absurd hnew hc
    · exact Or.inl
  members _ hmem _ userId := isMember_created h hmem userId
  claims c _ _ claim _ := by rw [h.claims]

theorem of_removes {ids : List Int} (h : Removes db db' ids)
    (hids : ∀ c ∈ db.competitors, c.id ∈ ids → c.contestId = contestId) : OnlyIn contestId db db' where
  same := h.toSame
  competitors c hc := by
    rw [h.competitors, List.mem_filter]
    constructor
    · exact And.left
    · intro hmem
      refine ⟨hmem, ?_⟩
      have hout : c.id ∉ ids := fun hid => hc (hids c hmem hid)
      simpa using hout
  members c hmem hc userId := isMember_removed h (fun hid => hc (hids c hmem hid)) userId
  claims c hmem hc claim hclaim := by
    have hout : c.id ∉ ids := fun hid => hc (hids c hmem hid)
    rw [h.claims, List.mem_filter, hclaim]
    simp [hout]

end OnlyIn

section Operations

variable {o : Outside OperationExn} {db db' : Db} {contestId : Int}

/-! ## Loops -/

/-- What is written over is one competitor. -/
theorem replaces_unique {old new p new' : Competitor} (h : Replaces db db' old new) (h' : Replaces db db' p new') :
    old = p := by
  by_contra hne
  have hid : p.id ≠ old.id := fun hid => hne (Db.competitor_unique h.stored h'.stored hid.symm)
  have hstays : p ∈ db'.competitors := (h.competitors p).mpr (Or.inr ⟨h'.stored, hid⟩)
  rcases (h'.competitors p).mp hstays with heq | ⟨-, hne⟩
  · have hold := db.stamps _ (Db.mem_competitors.mp h'.stored)
    have hstamp := h'.stamp
    rw [← heq] at hstamp
    have hlt : p.concurrencyStamp < db.nextStamp := hold
    omega
  · exact hne rfl

/-- A change that writes over one competitor is one of its contest. -/
theorem onlyIn_tracked {p new : Competitor} (h : Change db db') (hp : Replaces db db' p new)
    (hcontest : p.contestId = contestId) : OnlyIn contestId db db' := by
  have hstamp : ¬new ∈ db.competitors := by
    intro hmem
    have hold : new.concurrencyStamp < db.nextStamp := db.stamps _ (Db.mem_competitors.mp hmem)
    have hnew := hp.stamp
    omega
  cases h with
  | create new' members h =>
    -- the one that is written over would stay
    have hstays : p ∈ db'.competitors := h.competitors ▸ List.mem_append_left _ hp.stored
    rcases (hp.competitors p).mp hstays with heq | ⟨-, hne⟩
    · exact absurd (heq ▸ hp.stored) hstamp
    · exact absurd rfl hne
  | flags old new' h hclaims hkeeps =>
    obtain rfl := replaces_unique h hp
    exact .of_replaces h hcontest (hkeeps.2.2.trans hcontest) fun claim _ => by rw [hclaims]
  | remove id h =>
    have hmem := hp.new_stored
    rw [h.competitors] at hmem
    exact absurd (List.mem_filter.mp hmem).1 hstamp
  | assignLogin old new' h _ _ hsame hclaims =>
    obtain rfl := replaces_unique h hp
    refine .of_replaces h hcontest (hsame.trans hcontest) fun claim hne => ?_
    rw [hclaims, List.mem_append, List.mem_singleton]
    exact ⟨fun hor => hor.resolve_right fun heq => hne (heq ▸ rfl), Or.inl⟩
  | removeLogin old new' h _ hsame hclaims =>
    obtain rfl := replaces_unique h hp
    refine .of_replaces h hcontest (hsame.trans hcontest) fun claim hne => ?_
    have hother : claim ≠ contestClaim old := fun heq => hne (heq ▸ rfl)
    rw [hclaims, List.mem_filter, bne_iff_ne]
    exact ⟨And.left, fun hmem => ⟨hmem, hother⟩⟩

/-- A loop over competitors of the contest, each round of which writes over its own. -/
theorem onlyIn_loop {β : Type} {Q : Competitor → Prop} {f : β → Competitor → Op β}
    (hround : ∀ acc p db acc' db', p ∈ db.competitors → p.contestId = contestId ∧ Q p →
      Returns o (f acc p) db acc' db' →
      Change db db' ∧ ∃ new, Replaces db db' p new)
    {l : List Competitor} {acc acc' : β} (hl : ∀ p ∈ l, p ∈ db.competitors ∧ p.contestId = contestId ∧ Q p)
    (hnodup : (l.map fun p => p.id).Nodup) (h : Returns o (l.foldlM f acc) db acc' db') : OnlyIn contestId db db' := by
  refine (Returns.foldlM (fun rest _ db₁ => OnlyIn contestId db db₁ ∧
    (∀ p ∈ rest, p ∈ db₁.competitors ∧ p.contestId = contestId ∧ Q p) ∧ (rest.map fun p => p.id).Nodup) ?_
    ⟨.refl contestId db, hl, hnodup⟩ h).1
  intro p rest acc₁ db₁ acc₂ db₂ hbefore hreturns
  obtain ⟨honly, hrest, hids⟩ := hbefore
  obtain ⟨hp, hq⟩ := hrest p List.mem_cons_self
  obtain ⟨hchange, new, hrep⟩ := hround acc₁ p db₁ acc₂ db₂ hp hq hreturns
  rw [List.map_cons, List.nodup_cons] at hids
  refine ⟨honly.trans (onlyIn_tracked hchange hrep hq.1), fun q hqmem => ?_, hids.2⟩
  obtain ⟨hstored, hrestq⟩ := hrest q (List.mem_cons_of_mem _ hqmem)
  refine ⟨(hrep.competitors q).mpr (Or.inr ⟨hstored, fun hid => hids.1 ?_⟩), hrestq⟩
  exact hid ▸ List.mem_map_of_mem hqmem

theorem approveAllAsync_onlyIn {u : Unit} (h : Returns o (approveAllAsync contestId) db u db') :
    OnlyIn contestId db db' := by
  obtain ⟨contest, -, hloop⟩ := findCompetitors_bind (Returns.transaction h)
  refine onlyIn_loop (Q := fun _ => True) ?_ (fun p hp => ?_) ?_ hloop
  · intro _ p db₁ _ db₂ hp _ hround
    obtain ⟨new, hupdate, -⟩ := Returns.bind_pure (Returns.cancelled_bind hround)
    obtain ⟨hrep, hclaims, rfl⟩ := updateAsync_tracked hp hupdate rfl
    exact ⟨.flags p _ hrep hclaims ⟨rfl, rfl, rfl⟩, _, hrep⟩
  · obtain ⟨hstored, hcontest⟩ := mem_ofContest.mp (List.mem_filter.mp hp).1
    exact ⟨hstored, hcontest, trivial⟩
  · exact (ofContest_nodup contestId db).sublist (List.filter_sublist.map _)

theorem removeLoginsAsync_onlyIn {u : Unit} (h : Returns o (removeLoginsAsync contestId) db u db') :
    OnlyIn contestId db db' := by
  obtain ⟨contest, -, hloop⟩ := findCompetitors_bind (Returns.transaction h)
  refine onlyIn_loop (Q := fun _ => True) ?_ (fun p hp => ?_) (ofContest_nodup contestId db) hloop
  · intro _ p db₁ _ db₂ hp hq hround
    have hremove := Returns.cancelled_bind hround
    rw [← hq.1] at hremove
    exact removeLogin_change hp hremove
  · exact ⟨(mem_ofContest.mp hp).1, (mem_ofContest.mp hp).2, trivial⟩

theorem assignLoginsAsync_onlyIn (service : CompetitorManagementService) {logins : List (String × String)} {u : Unit}
    (h : Returns o (assignLoginsAsync service contestId logins) db u db') : OnlyIn contestId db db' := by
  obtain ⟨available, db₁, hlogins, hrest⟩ := Returns.bind h
  obtain rfl : db₁ = db := hlogins.quiet (Quiet.foldlM (fun _ _ => Quiet.orThrow _ _) _ _)
  obtain ⟨contest, -, hassign⟩ := findCompetitors_bind (Returns.transaction hrest)
  obtain ⟨-, hloops⟩ := Returns.throwIf_bind hassign
  obtain ⟨_, hloop, -⟩ := Returns.bind_pure hloops
  refine onlyIn_loop (Q := fun p => p.userName = none) ?_ (fun p hp => ?_) ?_ hloop
  · intro acc p db₂ acc' db₃ hp hq hround
    exact assignNext_change service hp hq hround
  · obtain ⟨hmem, hunnamed⟩ := List.mem_filter.mp (mem_orderBy.mp hp)
    obtain ⟨hstored, hcontest⟩ := mem_ofContest.mp hmem
    exact ⟨hstored, hcontest, Option.isNone_iff_eq_none.mp hunnamed⟩
  · refine ((orderBy_perm _ _).map _).nodup_iff.mpr ?_
    exact (ofContest_nodup contestId _).sublist (List.filter_sublist.map _)

/-! ## Registration and import -/

theorem createAsync_onlyIn {participant : Competitor} {members : List OlympUser} {u : Unit}
    (h : Returns o (UserManager.createAsync participant members) db u db')
    (hcontest : participant.contestId = contestId) :
    OnlyIn contestId db db' :=
  .of_creates (createAsync_returns h) hcontest

def newIndividual (contestId : Int) (user : OlympUser) (organization : Option Organization) (outOfCompetition : Bool)
    (registrationDate : Int) : Competitor :=
  { newCompetitor (getParticipantName user organization) contestId with
    isHidden := user.isHidden
    isOutOfCompetition := outOfCompetition
    organizationId := user.organizationId
    registrationDate := some registrationDate }

/-- Registration is on: the contest is to be seen, and not over by the clock as the call reads it,
    after the begin of the transaction and the contest. -/
structure RegistrationOpen (culture : Domain.Culture) (o : Outside OperationExn) (db : Db)
    (contestId : Int) (acm : Bool) :
    Prop where
  intro ::
  contest : ∃ contest, db.contests.find? contestId = some contest ∧ contest.isHidden = false ∧
    contest.isAcm culture = acm ∧ o.clock 2 ≤ contest.endTime

variable (service : CompetitorManagementService)

/-- The last step of a registration that returns creates the competitor. -/
theorem registerIndividualAsync_returns {userId : Int} {outOfCompetition : Bool} {u : Unit}
    (h : Returns o (registerIndividualAsync service contestId userId outOfCompetition) db u db') :
    ∃ user organization registrationDate, user.id = userId ∧
      Returns o
        (UserManager.createAsync (newIndividual contestId user organization outOfCompetition registrationDate) [user])
        db u db' := by
  obtain ⟨contest, db₁, hcontest, h₁⟩ := Returns.bind (Returns.transaction h)
  obtain ⟨rfl, -⟩ := findContest_returns hcontest
  obtain ⟨k, h₂⟩ := Returns.now_bind h₁
  obtain ⟨-, h₃⟩ := Returns.throwIf_bind h₂
  obtain ⟨⟨user, organization⟩, db₂, huser, h₄⟩ := Returns.bind h₃
  obtain ⟨rfl, hid⟩ := findOlympUser_returns huser
  obtain ⟨registered, db₃, hregistered, h₅⟩ := Returns.bind h₄
  obtain ⟨rfl, h₆⟩ := Returns.throwIf_bind h₅
  obtain ⟨rfl, -⟩ := anyRegistered_free hregistered
  obtain ⟨-, h₇⟩ := Returns.throwIf_bind h₆
  obtain ⟨-, h₈⟩ := Returns.throwIf_bind h₇
  obtain ⟨k', hcreate⟩ := Returns.now_bind h₈
  exact ⟨user, organization, o.clock k', hid, hcreate⟩

/-! What registrations that return have checked. -/

theorem registerIndividualAsync_open {userId : Int} {outOfCompetition : Bool} {u : Unit} {s' : Session Db}
    (h : ReturnsFrom o (registerIndividualAsync service contestId userId outOfCompetition) ⟨db, 0⟩ u s') :
    RegistrationOpen service.culture o db contestId false := by
  obtain ⟨t, hwork, -⟩ := ReturnsFrom.transaction h
  obtain ⟨contest, hfound, h₁⟩ := ReturnsFrom.find_bind hwork
  obtain ⟨hopen, -⟩ := ReturnsFrom.throwIf_bind (ReturnsFrom.now_bind h₁)
  simp only [Bool.or_eq_false_iff, decide_eq_false_iff_not, not_lt] at hopen
  exact ⟨contest, hfound, hopen.1.1, hopen.1.2, hopen.2⟩

theorem registerTeamAsync_open {organizationId coachId : Int} {name : String} {participants : List String} {u : Unit}
    {s' : Session Db}
    (h : ReturnsFrom o (registerTeamAsync service contestId organizationId coachId name participants) ⟨db, 0⟩ u s') :
    RegistrationOpen service.culture o db contestId true := by
  obtain ⟨-, h₁⟩ := ReturnsFrom.throwIf_bind h
  obtain ⟨-, h₂⟩ := ReturnsFrom.throwIf_bind h₁
  obtain ⟨t, hwork, -⟩ := ReturnsFrom.transaction h₂
  obtain ⟨contest, hfound, h₃⟩ := ReturnsFrom.find_bind hwork
  obtain ⟨hopen, -⟩ := ReturnsFrom.throwIf_bind (ReturnsFrom.now_bind h₃)
  simp only [Bool.or_eq_false_iff, Bool.not_eq_false', decide_eq_false_iff_not, not_lt] at hopen
  exact ⟨contest, hfound, hopen.1.1, hopen.1.2, hopen.2⟩

theorem importName_onlyIn {existing : List Competitor} {added added' : Nat} {name : String}
    (h : Returns o (importName service contestId existing added name) db added' db') : OnlyIn contestId db db' := by
  obtain ⟨-, h₁⟩ := Returns.throwIf_bind (Returns.cancelled_bind h)
  split at h₁
  · obtain ⟨-, rfl⟩ := Returns.pure h₁
    exact .refl contestId db'
  · obtain ⟨_, h₂⟩ := Returns.now_bind h₁
    obtain ⟨_, hcreate, -⟩ := Returns.bind_pure h₂
    exact createAsync_onlyIn hcreate rfl

theorem importAsync_onlyIn {names : List String} {summary : ParticipantImportSummary}
    (h : Returns o (importAsync service contestId names) db summary db') : OnlyIn contestId db db' := by
  obtain ⟨-, added, hloop, -⟩ := importAsync_returns service h
  refine Returns.foldlM (fun _ _ db₁ => OnlyIn contestId db db₁) ?_ (.refl contestId db) hloop
  intro name rest acc db₁ acc' db₂ honly hround
  exact honly.trans (importName_onlyIn service hround)

/-! ## Flags and deletion -/

theorem flags_onlyIn {read new : Competitor} {flag : Flag} (ht : Tracks db read)
    (h : Returns o (UserManager.updateAsync (flag.set read)) db new db') : OnlyIn read.contestId db db' := by
  obtain ⟨rfl, hclaims, row, hid, hstamp, hrep⟩ := updateAsync_returns h
  have hread : row = read := by
    cases flag <;> exact ht.row row hrep.stored hid hstamp
  refine .of_replaces hrep (congrArg Competitor.contestId hread) ?_ fun claim _ => by rw [hclaims]
  cases flag <;> rfl

theorem deleteRow_onlyIn {participant : Competitor} {members : List Int} {u : Unit} (ht : Tracks db participant)
    (h : Returns o (UserManager.deleteAsync participant members) db u db') : OnlyIn participant.contestId db db' := by
  obtain ⟨-, ⟨row, hrow, hid, hstamp⟩, hremoves⟩ := deleteAsync_returns h
  refine .of_removes hremoves fun c hc hcid => ?_
  rw [Db.competitor_unique hc hrow ((List.mem_singleton.mp hcid).trans hid.symm), ht.row row hrow hid hstamp]

theorem deleteWithoutSubmissionsAsync_onlyIn {n : Nat}
    (h : Returns o (deleteWithoutSubmissionsAsync contestId) db n db') :
    OnlyIn contestId db db' := by
  obtain ⟨-, hremoves, -⟩ := deleteWithoutSubmissionsAsync_removes h
  refine .of_removes hremoves fun c hc hcid => ?_
  obtain ⟨c', hc', hid⟩ := List.mem_map.mp hcid
  obtain ⟨hstored, hcontest⟩ := mem_ofContest.mp (List.mem_filter.mp hc').1
  rw [Db.competitor_unique hc hstored hid.symm, hcontest]

end Operations

/-! ## Calls -/

def Operation.contestId : Operation → Int
  | .registerIndividual contestId _ _ | .registerTeam contestId _ _ _ _ | .set contestId _ _ | .delete contestId _
  | .deleteWithoutSubmissions contestId | .approveAll contestId | .import contestId _ | .assignLogins contestId _
  | .generateLogins contestId _ | .removeLogins contestId => contestId

/-- The call is over, or it is for the contest. -/
def Call.isFor (contestId : Int) : Call → Prop
  | .start operation => operation.contestId = contestId
  | .updating participant => participant.contestId = contestId
  | .deleting contestId' _ _ _ | .deletingMessages contestId' _ _ _ | .deletingRow contestId' _ _ _
  | .generating contestId' _ => contestId' = contestId
  | .over _ => True

section Pieces

variable {service : CompetitorManagementService} {o : Outside OperationExn} {db db' : Db} {contestId : Int}

/-- A call of the contest, and what its piece leaves. -/
def Confined (contestId : Int) (db : Db) (call' : Call) (db' : Db) :
    Prop := OnlyIn contestId db db' ∧ call'.isFor contestId

theorem confined_piece {α : Type} {w : Op α} {next : α → Call} {call' : Call} (h : piece w next o db = (call', db'))
    (hw : Atomic w) (honly : ∀ a, Returns o w db a db' → OnlyIn contestId db db')
    (hnext : ∀ a, Returns o w db a db' → (next a).isFor contestId) : Confined contestId db call' db' := by
  rcases piece_cases hw h with ⟨a, hreturns, rfl⟩ | ⟨⟨e, rfl⟩, rfl⟩
  · exact ⟨honly a hreturns, hnext a hreturns⟩
  · exact ⟨.refl contestId db', trivial⟩

theorem confined_quiet {α : Type} {w : Op α} {next : α → Call} {call' : Call} (h : piece w next o db = (call', db'))
    (hw : Quiet w) (hnext : ∀ a, Returns o w db a db' → (next a).isFor contestId) :
    Confined contestId db call' db' := by
  refine confined_piece h hw.atomic (fun a hr => ?_) hnext
  rw [hr.quiet hw]
  exact .refl contestId db

theorem begin_confined {operation : Operation} {call' : Call} (h : operation.begin service o db = (call', db')) :
    Confined operation.contestId db call' db' := by
  cases operation with
  | registerIndividual =>
    refine confined_piece h (Atomic.transaction _) (fun _ hr => ?_) fun _ _ => trivial
    obtain ⟨user, organization, registrationDate, -, hcreate⟩ := registerIndividualAsync_returns service hr
    exact createAsync_onlyIn hcreate rfl
  | registerTeam =>
    refine confined_piece h (atomic_registerTeam _ _ _ _ _ _) (fun _ hr => ?_) fun _ _ => trivial
    obtain ⟨_, _, _, -, -, -, -, hcreate⟩ := registerTeamAsync_returns service hr
    exact createAsync_onlyIn hcreate rfl
  | set contestId participantId flag =>
    refine confined_quiet h (quiet_find _) fun participant hr => ?_
    have hfound := List.find?_some (find_returns hr).1
    simp only [Bool.and_eq_true, beq_iff_eq] at hfound
    cases flag <;> exact hfound.2
  | delete => exact confined_quiet h (quiet_find _) fun _ _ => rfl
  | deleteWithoutSubmissions =>
    exact confined_piece h (Atomic.transaction _) (fun _ hr => deleteWithoutSubmissionsAsync_onlyIn hr)
      fun _ _ => trivial
  | approveAll =>
    exact confined_piece h (Atomic.transaction _) (fun _ hr => approveAllAsync_onlyIn hr) fun _ _ => trivial
  | «import» =>
    exact confined_piece h (atomic_import _ _ _) (fun _ hr => importAsync_onlyIn service hr) fun _ _ => trivial
  | assignLogins =>
    exact confined_piece h (atomic_assignLogins _ _ _) (fun _ hr => assignLoginsAsync_onlyIn service hr)
      fun _ _ => trivial
  | generateLogins => exact confined_quiet h (Quiet.query _) fun _ _ => rfl
  | removeLogins =>
    exact confined_piece h (Atomic.transaction _) (fun _ hr => removeLoginsAsync_onlyIn hr) fun _ _ => trivial

/-- A piece of a call changes the contest of the call only. -/
theorem advance_onlyIn {call call' : Call} (hok : CallOk db call) (hfor : call.isFor contestId)
    (h : call.advance service o db = (call', db')) : Confined contestId db call' db' := by
  cases call with
  | start operation => exact hfor ▸ begin_confined h
  | updating participant =>
    obtain ⟨read, flag, rfl, ht⟩ := hok
    refine confined_piece h (Atomic.access _) (fun _ hr => ?_) fun _ _ => trivial
    have hread : read.contestId = contestId := by
      rw [← hfor]
      cases flag <;> rfl
    exact hread ▸ flags_onlyIn ht hr
  | deleting | deletingMessages => exact confined_quiet h (quiet_refuse _) fun _ _ => hfor
  | deletingRow contestId' participantId participant members =>
    refine confined_piece h (Atomic.access _) (fun _ hr => ?_) fun _ _ => trivial
    have honly := deleteRow_onlyIn hok.1 hr
    rwa [hok.2.2, show contestId' = contestId from hfor] at honly
  | generating contestId' logins =>
    refine confined_piece h (atomic_assignLogins _ _ _) (fun _ hr => ?_) fun _ _ => trivial
    exact hfor ▸ assignLoginsAsync_onlyIn service hr
  | «over» =>
    cases h
    exact ⟨.refl contestId db, trivial⟩

end Pieces

/-! ## Runs -/

/-- The competitors of the contest are the same, with their members and claims. -/
structure Keeps (contestId : Int) (db db' : Db) : Prop where
  competitors : ∀ c, c.contestId = contestId → (c ∈ db'.competitors ↔ c ∈ db.competitors)
  members : ∀ c ∈ db.competitors, c.contestId = contestId → ∀ userId, db'.isMember userId c = db.isMember userId c
  claims : ∀ c ∈ db.competitors, c.contestId = contestId → ∀ claim, claim.userId = c.id →
    (claim ∈ db'.claims ↔ claim ∈ db.claims)

theorem Keeps.refl (contestId : Int) (db : Db) : Keeps contestId db db :=
  ⟨fun _ _ => Iff.rfl, fun _ _ _ _ => rfl, fun _ _ _ _ _ => Iff.rfl⟩

theorem Keeps.then_elsewhere {contestId other : Int} {db db₁ db' : Db} (h : Keeps contestId db db₁)
    (h' : OnlyIn other db₁ db') (hne : contestId ≠ other) : Keeps contestId db db' where
  competitors c hc := (h'.competitors c (hc ▸ hne)).trans (h.competitors c hc)
  members c hmem hc userId :=
    (h'.members c ((h.competitors c hc).mpr hmem) (hc ▸ hne) userId).trans (h.members c hmem hc userId)
  claims c hmem hc claim hclaim :=
    (h'.claims c ((h.competitors c hc).mpr hmem) (hc ▸ hne) claim hclaim).trans (h.claims c hmem hc claim hclaim)

/-- The call is for another contest. -/
def Elsewhere (contestId : Int) (call : Call) : Prop := ∃ other, contestId ≠ other ∧ call.isFor other

theorem keeps_step {service : CompetitorManagementService} {contestId : Int} {db : Db} {s s' : St} {e : Ev}
    (hevent : ∀ operation, e = .call operation → operation.contestId ≠ contestId)
    (hs : Inv s ∧ (∀ a, Elsewhere contestId (s.call a)) ∧ Keeps contestId db s.db) (h : step service s e = some s') :
    Inv s' ∧ (∀ a, Elsewhere contestId (s'.call a)) ∧ Keeps contestId db s'.db := by
  obtain ⟨hinv, hcalls, hkeeps⟩ := hs
  refine ⟨(inv_step hinv h).1, ?_⟩
  rcases step_cases h with ⟨operation, rfl, rfl⟩ | ⟨a, o, call, db', rfl, ha, hadvance, rfl⟩
  · refine ⟨fun b => ?_, hkeeps⟩
    rw [call_append]
    split
    · exact ⟨operation.contestId, (hevent operation rfl).symm, rfl⟩
    · exact hcalls b
  · obtain ⟨other, hne, hfor⟩ := hcalls a
    obtain ⟨honly, hfor'⟩ := advance_onlyIn (hinv a) hfor hadvance
    refine ⟨fun b => ?_, hkeeps.then_elsewhere honly hne⟩
    rw [call_set db' ha call]
    split
    · exact ⟨other, hne, hfor'⟩
    · exact hcalls b

/-- In any interleaving of calls for other contests a contest is as it was. -/
theorem isolated_run (service : CompetitorManagementService) (db : Db) (contestId : Int) (es : List Ev)
    (helsewhere : ∀ operation, Ev.call operation ∈ es → operation.contestId ≠ contestId) :
    Always (step service) (fun s => Keeps contestId db s.db) (init db) es := by
  have hstart : ∀ a, Elsewhere contestId ((init db).call a) := fun _ => ⟨contestId + 1, by omega, trivial⟩
  have hinv : Always (step service) (fun s => Inv s ∧ (∀ a, Elsewhere contestId (s.call a)) ∧ Keeps contestId db s.db)
      (init db) es := by
    refine always_of_mem (fun s e s' he hs h => keeps_step ?_ hs h) ⟨inv_init db, hstart, .refl contestId db⟩
    rintro operation rfl
    exact helsewhere operation he
  exact hinv.mono fun _ hs => hs.2.2

def acmCompetitor : Competitor := { newCompetitor "Acm" 2 with id := 3, concurrencyStamp := 2, isApproved := true }

/-- Each contest has a competitor, that of the second with a member and a claim. -/
def claimedDb : Db :=
  { sampleDb with
    users := ⟨[.olympUser sampleUser, .competitor sampleCompetitor, .competitor acmCompetitor], 4, by decide, by decide⟩
    nextStamp := 3
    participations := [⟨1, 2⟩, ⟨1, 3⟩]
    claims := [⟨3, "competitor-contest", "2"⟩]
    stamps := by decide
    participations_key := by decide
    members_of := by
      intro p hp
      refine ⟨⟨sampleUser, List.mem_cons_self, ?_⟩, ?_⟩
      · rcases List.mem_cons.mp hp with rfl | hp
        · rfl
        · rw [List.mem_singleton.mp hp]
          rfl
      · rcases List.mem_cons.mp hp with rfl | hp
        · exact ⟨sampleCompetitor, List.mem_cons_of_mem _ List.mem_cons_self, rfl⟩
        · rw [List.mem_singleton.mp hp]
          exact ⟨acmCompetitor, List.mem_cons_of_mem _ (List.mem_cons_of_mem _ List.mem_cons_self), rfl⟩
    claims_of := by decide
    history_of := fun _ h => (nomatch h) }

/-- The first contest gets a participant, and loses the one it had. -/
def elsewhereRun : List Ev :=
  [.call (.import 1 ["Third"]), .call (.delete 1 2), .advance 0 (calm 0), .advance 1 (calm 0), .advance 1 (calm 0),
    .advance 1 (calm 0), .advance 1 (calm 0)]

theorem isolated_sample :
    (let db := (final (step sampleService) (init claimedDb) elsewhereRun).db
    db.competitors.map (fun c => (c.id, c.contestId)) = [(3, 2), (4, 1)] ∧ db.isMember 1 acmCompetitor = true ∧
      db.claims = [⟨3, "competitor-contest", "2"⟩]) ∧
      Always (step sampleService) (fun s => Keeps 2 claimedDb s.db) (init claimedDb) elsewhereRun := by
  refine ⟨by decide +kernel, isolated_run sampleService claimedDb 2 elsewhereRun fun operation h => ?_⟩
  simp only [elsewhereRun, List.mem_cons, Ev.call.injEq, reduceCtorEq, List.not_mem_nil, or_false] at h
  rcases h with rfl | rfl <;> decide

end OlympSystem.Site.Accounts.CompetitorManagement
