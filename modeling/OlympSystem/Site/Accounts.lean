/-
  OlympSystem.Site.Accounts — the users of the site, and what refers to them
  (`Olymp.Domain/Models`, `OlympContext.cs`), with the operations of `UserManager`.

  `OlympUser` and `Competitor` share one table and its ids. A participation is a row of
  the table that joins the members of a competitor. Each write gives a user a concurrency
  stamp that was not given out before, and an update or a deletion of a tracked user finds
  its row only if the stamp is the one that was read. The foreign keys are fields of `Db`.

  Deleting a user takes its claims with it; its submissions and messages refuse it, and so
  does a participation that the context has not loaded.

  Proved:
  - `save_replaces`, `insert_creates`, `remove_removes`: what each write makes of the tables.
  - `updateAsync_returns` and its like: what an operation that returns has done.
-/

import OlympSystem.Exceptions
import OlympSystem.Lib.Transactions
import OlympSystem.Site.Database

namespace OlympSystem.Site.Accounts

open Lib.Tables Lib.Transactions

/-- The exceptions of `OperationExceptions.cs`; a localized message is its key and arguments. -/
inductive OperationExn where
  | entityNotFound
  | operationValidation (key : String) (args : List String)
  | identityOperation (errors : List String)
  | other (e : Exn)
  deriving DecidableEq, Repr

/-! ## Entities -/

structure Contest where
  id : Int
  abbr : String
  startTime : Int
  endTime : Int
  isOpen : Bool
  isHidden : Bool
  deriving DecidableEq, Repr

def Contest.isAcm (culture : Domain.Culture) (contest : Contest) : Bool := culture.startsWith contest.abbr "acm"

structure Organization where
  id : Int
  name : String
  deriving DecidableEq, Repr

structure User where
  id : Int
  userName : Option String
  passwordHash : Option String
  concurrencyStamp : Int
  name : String
  isDisqualified : Bool
  isHidden : Bool
  registrationDate : Option Int
  coachId : Option Int
  organizationId : Option Int
  deriving DecidableEq, Repr

structure OlympUser extends User where
  firstName : Option String
  lastName : Option String
  details : Option String
  deriving DecidableEq, Repr

structure Competitor extends User where
  isApproved : Bool
  isOutOfCompetition : Bool
  memberInfos : Option String
  contestId : Int
  deriving DecidableEq, Repr

/-- A row of the table of users. -/
inductive Account where
  | olympUser (user : OlympUser)
  | competitor (competitor : Competitor)
  deriving DecidableEq, Repr

namespace Account

def user : Account → User
  | .olympUser u => u.toUser
  | .competitor c => c.toUser

def id (account : Account) : Int := account.user.id

def olympUser? : Account → Option OlympUser
  | .olympUser u => some u
  | .competitor _ => none

def competitor? : Account → Option Competitor
  | .olympUser _ => none
  | .competitor c => some c

def mapCompetitor (f : Competitor → Competitor) : Account → Account
  | .olympUser u => .olympUser u
  | .competitor c => .competitor (f c)

@[simp] theorem id_olympUser (u : OlympUser) : (Account.olympUser u).id = u.id := rfl

@[simp] theorem id_competitor (c : Competitor) : (Account.competitor c).id = c.id := rfl

end Account

structure Participation where
  memberId : Int
  competitorId : Int
  deriving DecidableEq, Repr

structure UserClaim where
  userId : Int
  claimType : String
  claimValue : String
  deriving DecidableEq, Repr

structure Submission where
  id : Int
  text : String
  statusCode : Int
  commitTime : Int
  lastModification : Int
  userId : Int
  problemId : Int
  compilatorId : Int
  deriving DecidableEq, Repr

structure Message where
  id : Int
  userText : Option String
  juryText : Option String
  sendTime : Option Int
  userId : Option Int
  problemId : Option Int
  contestId : Int
  deriving DecidableEq, Repr

structure History where
  submissions : Table Submission Submission.id
  messages : Table Message Message.id
  checkResults : List CheckResultRow

def History.mentions (history : History) (userId : Int) : Bool :=
  history.submissions.rows.any (·.userId == userId) || history.messages.rows.any (·.userId == some userId)

structure Db where
  contests : Table Contest Contest.id
  organizations : Table Organization Organization.id
  problems : Table ProblemRow ProblemRow.id
  compilators : Table CompilatorRow CompilatorRow.id
  users : Table Account Account.id
  nextStamp : Int
  participations : List Participation
  claims : List UserClaim
  history : History
  stamps : ∀ account ∈ users.rows, account.user.concurrencyStamp < nextStamp
  participations_key : participations.Nodup
  members_of : ∀ p ∈ participations, (∃ user, .olympUser user ∈ users.rows ∧ user.id = p.memberId) ∧
    ∃ competitor, .competitor competitor ∈ users.rows ∧ competitor.id = p.competitorId
  claims_of : ∀ claim ∈ claims, ∃ account ∈ users.rows, account.id = claim.userId
  history_of : ∀ id, history.mentions id = true → ∃ account ∈ users.rows, account.id = id

namespace Db

variable (db : Db)

def olympUsers : List OlympUser := db.users.rows.filterMap Account.olympUser?

def competitors : List Competitor := db.users.rows.filterMap Account.competitor?

/-- `x.Members.Any(m => m.Id == userId)`. -/
def isMember (userId : Int) (competitor : Competitor) : Bool := db.participations.contains ⟨userId, competitor.id⟩

def membersOf (competitorId : Int) : List Int :=
  (db.participations.filter (·.competitorId == competitorId)).map Participation.memberId

variable {db}

@[simp] theorem mem_olympUsers {user : OlympUser} : user ∈ db.olympUsers ↔ .olympUser user ∈ db.users.rows := by
  constructor
  · intro h
    obtain ⟨account, hmem, heq⟩ := List.mem_filterMap.mp h
    cases account with
    | olympUser u => cases heq; exact hmem
    | competitor => cases heq
  · intro h
    exact List.mem_filterMap.mpr ⟨_, h, rfl⟩

@[simp] theorem mem_competitors {competitor : Competitor} :
    competitor ∈ db.competitors ↔ .competitor competitor ∈ db.users.rows := by
  constructor
  · intro h
    obtain ⟨account, hmem, heq⟩ := List.mem_filterMap.mp h
    cases account with
    | olympUser => cases heq
    | competitor c => cases heq; exact hmem
  · intro h
    exact List.mem_filterMap.mpr ⟨_, h, rfl⟩

theorem competitor_unique {a b : Competitor} (ha : a ∈ db.competitors) (hb : b ∈ db.competitors) (h : a.id = b.id) :
    a = b := by
  have := Table.row_unique (mem_competitors.mp ha) (mem_competitors.mp hb) h
  cases this; rfl

theorem competitor_ids (db : Db) : (db.competitors.map fun c => c.id).Nodup := by
  refine List.Nodup.map_on (fun a ha b hb h => competitor_unique ha hb h) ?_
  refine db.users.keys.of_map.filterMap fun a b c ha hb => ?_
  cases a <;> cases b <;> simp_all [Account.competitor?]

theorem olympUser_unique {a b : OlympUser} (ha : a ∈ db.olympUsers) (hb : b ∈ db.olympUsers) (h : a.id = b.id) :
    a = b := by
  have := Table.row_unique (mem_olympUsers.mp ha) (mem_olympUsers.mp hb) h
  cases this; rfl

theorem olympUser_ids (db : Db) : (db.olympUsers.map fun u => u.id).Nodup := by
  refine List.Nodup.map_on (fun a ha b hb h => olympUser_unique ha hb h) ?_
  refine db.users.keys.of_map.filterMap fun a b c ha hb => ?_
  cases a <;> cases b <;> simp_all [Account.olympUser?]

/-- No id is that of a competitor and of a user who can be a member. -/
theorem competitor_ne_olympUser {competitor : Competitor} {user : OlympUser} (hc : competitor ∈ db.competitors)
    (hu : user ∈ db.olympUsers) : competitor.id ≠ user.id := by
  intro h
  have := Table.row_unique (mem_competitors.mp hc) (mem_olympUsers.mp hu) h
  cases this

/-! ## Writes -/

/-- The row of a tracked competitor is there, with the stamp that was read. -/
def Stored (db : Db) (participant : Competitor) : Prop :=
  ∃ row ∈ db.competitors, row.id = participant.id ∧ row.concurrencyStamp = participant.concurrencyStamp

instance (db : Db) (participant : Competitor) : Decidable (db.Stored participant) :=
  inferInstanceAs (Decidable (∃ row ∈ db.competitors,
    row.id = participant.id ∧ row.concurrencyStamp = participant.concurrencyStamp))

def saved (db : Db) (participant row : Competitor) : Competitor :=
  if row.id = participant.id ∧ row.concurrencyStamp = participant.concurrencyStamp then
    { participant with concurrencyStamp := db.nextStamp }
  else row

theorem saved_id (db : Db) (participant row : Competitor) : (db.saved participant row).id = row.id := by
  unfold saved
  split
  · next h => exact h.1.symm
  · rfl

/-- All columns of a tracked competitor are written to its row, with a new stamp. -/
def save (db : Db) (participant : Competitor) : Db :=
  { db with
    users := db.users.update {
      apply := Account.mapCompetitor (db.saved participant)
      keeps := by
        rintro (u | c)
        · rfl
        · exact db.saved_id participant c }
    nextStamp := db.nextStamp + 1
    stamps := by
      intro account h
      obtain ⟨u | c, hmem, rfl⟩ := List.mem_map.mp h
      · have := db.stamps _ hmem
        exact Int.lt_add_one_of_le (Int.le_of_lt this)
      · show (db.saved participant c).concurrencyStamp < db.nextStamp + 1
        unfold saved
        split
        · exact Int.lt_succ _
        · exact Int.lt_add_one_of_le (Int.le_of_lt (db.stamps _ hmem))
    members_of := by
      intro p hp
      obtain ⟨⟨u, hu, huid⟩, c, hc, hcid⟩ := db.members_of p hp
      exact ⟨⟨u, List.mem_map_of_mem hu, huid⟩, db.saved participant c, List.mem_map_of_mem hc,
        (db.saved_id participant c).trans hcid⟩
    claims_of := by
      intro claim hclaim
      obtain ⟨account, hmem, hid⟩ := db.claims_of claim hclaim
      refine ⟨_, List.mem_map_of_mem hmem, ?_⟩
      cases account with
      | olympUser => exact hid
      | competitor c => exact (db.saved_id participant c).trans hid
    history_of := by
      intro id h
      obtain ⟨account, hmem, hid⟩ := db.history_of id h
      refine ⟨_, List.mem_map_of_mem hmem, ?_⟩
      cases account with
      | olympUser => exact hid
      | competitor c => exact (db.saved_id participant c).trans hid }

def created (db : Db) (participant : Competitor) : Competitor :=
  { participant with id := db.users.next, concurrencyStamp := db.nextStamp }

/-- A new competitor, and its participations. -/
def insert (db : Db) (participant : Competitor) (members : List Int)
    (hmembers : ∀ id ∈ members, ∃ user ∈ db.olympUsers, user.id = id) (hnodup : members.Nodup) : Db :=
  { db with
    users := db.users.insert ⟨fun _ id => .competitor { participant with id := id, concurrencyStamp := db.nextStamp },
      fun _ _ => rfl⟩ ()
    nextStamp := db.nextStamp + 1
    participations := db.participations ++ members.map (⟨·, db.users.next⟩)
    stamps := by
      intro account h
      rcases List.mem_append.mp h with h | h
      · exact Int.lt_add_one_of_le (Int.le_of_lt (db.stamps _ h))
      · rw [List.mem_singleton.mp h]
        exact Int.lt_succ _
    participations_key := by
      refine List.nodup_append.mpr ⟨db.participations_key, hnodup.map fun a b hab => ?_, fun p hp q hq heq => ?_⟩
      · exact congrArg Participation.memberId hab
      · obtain ⟨-, c, hc, hcid⟩ := db.members_of p hp
        obtain ⟨id, -, rfl⟩ := List.mem_map.mp hq
        have hlt : c.id < db.users.next := db.users.below _ hc
        have hnext : c.id = db.users.next := by rw [hcid, heq]
        omega
    members_of := by
      intro p hp
      rcases List.mem_append.mp hp with hp | hp
      · obtain ⟨⟨u, hu, huid⟩, c, hc, hcid⟩ := db.members_of p hp
        exact ⟨⟨u, List.mem_append_left _ hu, huid⟩, c, List.mem_append_left _ hc, hcid⟩
      · obtain ⟨id, hid, rfl⟩ := List.mem_map.mp hp
        obtain ⟨u, hu, huid⟩ := hmembers id hid
        exact ⟨⟨u, List.mem_append_left _ (mem_olympUsers.mp hu), huid⟩, _,
          List.mem_append_right _ List.mem_cons_self, rfl⟩
    claims_of := by
      intro claim hclaim
      obtain ⟨account, hmem, hid⟩ := db.claims_of claim hclaim
      exact ⟨account, List.mem_append_left _ hmem, hid⟩
    history_of := by
      intro id h
      obtain ⟨account, hmem, hid⟩ := db.history_of id h
      exact ⟨account, List.mem_append_left _ hmem, hid⟩ }

/-- A competitor without history goes, with its participations and claims. -/
def remove (db : Db) (id : Int) (hrow : ∃ row ∈ db.competitors, row.id = id)
    (hhistory : db.history.mentions id = false) : Db :=
  { db with
    users := db.users.remove (·.id == id)
    participations := db.participations.filter (·.competitorId != id)
    claims := db.claims.filter (·.userId != id)
    stamps := fun account h => db.stamps account (List.mem_filter.mp h).1
    participations_key := db.participations_key.filter _
    members_of := by
      intro p hp
      obtain ⟨hp, hne⟩ := List.mem_filter.mp hp
      obtain ⟨⟨u, hu, huid⟩, c, hc, hcid⟩ := db.members_of p hp
      obtain ⟨row, hrow, rfl⟩ := hrow
      have hmember : u.id ≠ row.id := fun h => db.competitor_ne_olympUser hrow (mem_olympUsers.mpr hu) h.symm
      refine ⟨⟨u, List.mem_filter.mpr ⟨hu, ?_⟩, huid⟩, c, List.mem_filter.mpr ⟨hc, ?_⟩, hcid⟩
      · simpa using hmember
      · rw [← hcid] at hne
        simpa using hne
    claims_of := by
      intro claim hclaim
      obtain ⟨hclaim, hne⟩ := List.mem_filter.mp hclaim
      obtain ⟨account, hmem, hid⟩ := db.claims_of claim hclaim
      refine ⟨account, List.mem_filter.mpr ⟨hmem, ?_⟩, hid⟩
      rw [← hid] at hne
      simpa using hne
    history_of := by
      intro userId h
      obtain ⟨account, hmem, rfl⟩ := db.history_of userId h
      refine ⟨account, List.mem_filter.mpr ⟨hmem, ?_⟩, rfl⟩
      by_contra hne
      have heq : account.id = id := by simpa using hne
      rw [heq, hhistory] at h
      cases h }

def addClaim (db : Db) (claim : UserClaim) (h : ∃ account ∈ db.users.rows, account.id = claim.userId) : Db :=
  { db with
    claims := db.claims ++ [claim]
    claims_of := by
      intro c hc
      rcases List.mem_append.mp hc with hc | hc
      · exact db.claims_of c hc
      · rw [List.mem_singleton.mp hc]; exact h }

def removeClaim (db : Db) (claim : UserClaim) : Db :=
  { db with
    claims := db.claims.filter (· != claim)
    claims_of := fun c hc => db.claims_of c (List.mem_filter.mp hc).1 }

end Db

/-! ## The user manager -/

namespace UserManager

def concurrencyFailure : OperationExn := .identityOperation ["ConcurrencyFailure"]

/-- `DbUpdateException`: a key refuses the write. -/
def updateFailure : OperationExn := .other (.external "DbUpdateException")

def memberIds (members : List OlympUser) : List Int := members.map fun user => user.id

/-- The members are tracked, and joined to the new competitor. -/
def createAsync (participant : Competitor) (members : List OlympUser) : Work Db OperationExn Unit :=
  Work.access fun db =>
    if h : (∀ id ∈ memberIds members, ∃ user ∈ db.olympUsers, user.id = id) ∧ (memberIds members).Nodup then
      .ok ((), db.insert participant _ h.1 h.2)
    else .error updateFailure

/-- The tracked competitor as the write leaves it. -/
def stamped (db : Db) (participant : Competitor) : Competitor :=
  { participant with concurrencyStamp := db.nextStamp }

def updateAsync (participant : Competitor) : Work Db OperationExn Competitor :=
  Work.access fun db =>
    if db.Stored participant then .ok (stamped db participant, db.save participant) else .error concurrencyFailure

/-- `members` are those that were loaded, and cleared. -/
def deleteAsync (participant : Competitor) (members : List Int) : Work Db OperationExn Unit :=
  Work.access fun db =>
    if hrow : db.Stored participant then
      if h : db.history.mentions participant.id = false ∧ ∀ id ∈ db.membersOf participant.id, id ∈ members then
        .ok ((), db.remove participant.id (hrow.imp fun _ h => ⟨h.1, h.2.1⟩) h.1)
      else .error updateFailure
    else .error concurrencyFailure

def setUserNameAsync (participant : Competitor) (userName : Option String) : Work Db OperationExn Competitor :=
  updateAsync { participant with userName := userName }

/-- `OlympPasswordHasher`: the password of a competitor is not hashed. -/
def hashPassword (password : String) : String := password

def addPasswordAsync (participant : Competitor) (password : String) : Work Db OperationExn Competitor := do
  Work.throwIf participant.passwordHash.isSome (.identityOperation ["UserAlreadyHasPassword"])
  updateAsync { participant with passwordHash := some (hashPassword password) }

def removePasswordAsync (participant : Competitor) : Work Db OperationExn Competitor :=
  updateAsync { participant with passwordHash := none }

def addClaimAsync (participant : Competitor) (claimType claimValue : String) : Work Db OperationExn Competitor :=
  Work.access fun db =>
    if h : db.Stored participant then
      have hrow : ∃ account ∈ db.users.rows, account.id = participant.id :=
        h.elim fun row h => ⟨.competitor row, Db.mem_competitors.mp h.1, h.2.1⟩
      .ok (stamped db participant, (db.addClaim ⟨participant.id, claimType, claimValue⟩ hrow).save participant)
    else .error concurrencyFailure

def removeClaimAsync (participant : Competitor) (claimType claimValue : String) : Work Db OperationExn Competitor :=
  Work.access fun db =>
    if db.Stored participant then
      .ok (stamped db participant, (db.removeClaim ⟨participant.id, claimType, claimValue⟩).save participant)
    else .error concurrencyFailure

end UserManager

/-! ## What the writes leave -/

/-- The tables the user manager does not write, and the users who can be members. -/
structure Same (db db' : Db) : Prop where
  contests : db'.contests = db.contests
  organizations : db'.organizations = db.organizations
  problems : db'.problems = db.problems
  compilators : db'.compilators = db.compilators
  history : db'.history = db.history
  olympUsers : db'.olympUsers = db.olympUsers
  nextStamp : db.nextStamp ≤ db'.nextStamp

theorem Same.trans {db db₁ db₂ : Db} (h : Same db db₁) (h' : Same db₁ db₂) : Same db db₂ :=
  ⟨h'.contests.trans h.contests, h'.organizations.trans h.organizations, h'.problems.trans h.problems,
    h'.compilators.trans h.compilators, h'.history.trans h.history, h'.olympUsers.trans h.olympUsers,
    h.nextStamp.trans h'.nextStamp⟩

/-- One competitor is written over. -/
structure Replaces (db db' : Db) (old new : Competitor) : Prop extends Same db db' where
  stored : old ∈ db.competitors
  id : new.id = old.id
  stamp : db.nextStamp ≤ new.concurrencyStamp
  competitors : ∀ c, c ∈ db'.competitors ↔ c = new ∨ c ∈ db.competitors ∧ c.id ≠ old.id
  participations : db'.participations = db.participations

/-- One competitor is new. -/
structure Creates (db db' : Db) (new : Competitor) (members : List Int) : Prop extends Same db db' where
  competitors : db'.competitors = db.competitors ++ [new]
  stamp : db.nextStamp ≤ new.concurrencyStamp
  fresh : ∀ c ∈ db.competitors, c.id ≠ new.id
  no_claims : ∀ claim ∈ db.claims, claim.userId ≠ new.id
  claims : db'.claims = db.claims
  participations : db'.participations = db.participations ++ members.map (⟨·, new.id⟩)

/-- Competitors are gone, with what refers to them. -/
structure Removes (db db' : Db) (ids : List Int) : Prop extends Same db db' where
  competitors : db'.competitors = db.competitors.filter fun c => !ids.contains c.id
  participations : db'.participations = db.participations.filter fun p => !ids.contains p.competitorId
  claims : db'.claims = db.claims.filter fun claim => !ids.contains claim.userId

section Writes

variable {db : Db}

theorem filterMap_mapCompetitor (f : Competitor → Competitor) (rows : List Account) :
    (rows.map (Account.mapCompetitor f)).filterMap Account.competitor? = (rows.filterMap Account.competitor?).map f ∧
      (rows.map (Account.mapCompetitor f)).filterMap Account.olympUser? = rows.filterMap Account.olympUser? := by
  induction rows with
  | nil => exact ⟨rfl, rfl⟩
  | cons account rows ih =>
    cases account with
    | olympUser u => exact ⟨ih.1, congrArg (u :: ·) ih.2⟩
    | competitor c => exact ⟨congrArg (f c :: ·) ih.1, ih.2⟩

theorem Replaces.new_stored {db' : Db} {old new : Competitor} (h : Replaces db db' old new) : new ∈ db'.competitors :=
  (h.competitors new).mpr (Or.inl rfl)

theorem Replaces.trans {db₁ db₂ : Db} {a b c : Competitor} (h : Replaces db db₁ a b) (h' : Replaces db₁ db₂ b c) :
    Replaces db db₂ a c where
  toSame := h.toSame.trans h'.toSame
  stored := h.stored
  id := h'.id.trans h.id
  stamp := h.nextStamp.trans h'.stamp
  competitors x := by
    rw [h'.competitors, h.competitors, h.id]
    constructor
    · rintro (rfl | ⟨rfl | hx, hne⟩)
      · exact Or.inl rfl
      · exact absurd h.id hne
      · exact Or.inr hx
    · rintro (rfl | hx)
      · exact Or.inl rfl
      · exact Or.inr ⟨Or.inr hx, hx.2⟩
  participations := h'.participations.trans h.participations

theorem isMember_iff {userId : Int} {c : Competitor} :
    db.isMember userId c = true ↔ ⟨userId, c.id⟩ ∈ db.participations := by
  unfold Db.isMember
  exact List.contains_iff_mem

/-- The members of a new competitor are those it was created with. -/
theorem Creates.isMember_new {db' : Db} {new : Competitor} {members : List Int} (h : Creates db db' new members)
    {userId : Int} : db'.isMember userId new = true ↔ userId ∈ members := by
  rw [isMember_iff, h.participations, List.mem_append, List.mem_map]
  constructor
  · intro hp
    rcases hp with hold | ⟨id, hid, heq⟩
    · obtain ⟨-, competitor, hcompetitor, hsame⟩ := db.members_of _ hold
      exact absurd hsame (h.fresh competitor (Db.mem_competitors.mpr hcompetitor))
    · cases heq; exact hid
  · intro hid
    exact Or.inr ⟨userId, hid, rfl⟩

theorem Removes.refl (db : Db) : Removes db db [] :=
  ⟨⟨rfl, rfl, rfl, rfl, rfl, rfl, Int.le_refl _⟩, by simp, by simp, by simp⟩

theorem filter_contains_append {α : Type} (key : α → Int) (xs ys : List Int) (l : List α) :
    (l.filter fun a => !xs.contains (key a)).filter (fun a => !ys.contains (key a)) =
      l.filter fun a => !(xs ++ ys).contains (key a) := by
  rw [List.filter_filter]
  refine List.filter_congr fun a _ => ?_
  rw [Bool.eq_iff_iff]
  simp [and_comm]

theorem Removes.trans {db₁ db₂ : Db} {xs ys : List Int} (h : Removes db db₁ xs) (h' : Removes db₁ db₂ ys) :
    Removes db db₂ (xs ++ ys) where
  toSame := h.toSame.trans h'.toSame
  competitors := by rw [h'.competitors, h.competitors, filter_contains_append fun c : Competitor => c.id]
  participations := by rw [h'.participations, h.participations, filter_contains_append Participation.competitorId]
  claims := by rw [h'.claims, h.claims, filter_contains_append UserClaim.userId]

theorem Removes.perm {db' : Db} {xs ys : List Int} (hp : xs.Perm ys) (h : Removes db db' xs) : Removes db db' ys := by
  have hcontains : ∀ k, ys.contains k = xs.contains k := fun k => hp.symm.contains_eq
  refine ⟨h.toSame, ?_, ?_, ?_⟩ <;> simp only [hcontains]
  exacts [h.competitors, h.participations, h.claims]

/-- An update writes over the row with the id and the stamp. -/
theorem save_replaces {participant row : Competitor} (hrow : row ∈ db.competitors) (hid : row.id = participant.id)
    (hstamp : row.concurrencyStamp = participant.concurrencyStamp) :
    Replaces db (db.save participant) row (UserManager.stamped db participant) := by
  have hmap := filterMap_mapCompetitor (db.saved participant) db.users.rows
  have hcompetitors : (db.save participant).competitors = db.competitors.map (db.saved participant) := hmap.1
  have hnext : db.nextStamp ≤ (db.save participant).nextStamp := Int.le_of_lt (Int.lt_succ _)
  refine ⟨⟨rfl, rfl, rfl, rfl, rfl, hmap.2, hnext⟩, hrow, hid.symm, Int.le_refl _, fun c => ?_, rfl⟩
  rw [hcompetitors, List.mem_map]
  constructor
  · intro hold
    obtain ⟨x, hx, rfl⟩ := hold
    by_cases hxid : x.id = row.id
    · rw [Db.competitor_unique hx hrow hxid]
      exact Or.inl (if_pos ⟨hid, hstamp⟩)
    · refine Or.inr ⟨?_, by rwa [db.saved_id participant x]⟩
      rw [Db.saved, if_neg fun h => hxid (h.1.trans hid.symm)]
      exact hx
  · rintro (rfl | ⟨hc, hne⟩)
    · exact ⟨row, hrow, if_pos ⟨hid, hstamp⟩⟩
    · exact ⟨c, hc, if_neg fun h => hne (h.1.trans hid.symm)⟩

theorem insert_creates (participant : Competitor) (members : List Int)
    (hmembers : ∀ id ∈ members, ∃ user ∈ db.olympUsers, user.id = id) (hnodup : members.Nodup) :
    Creates db (db.insert participant members hmembers hnodup) (db.created participant) members where
  contests := rfl
  organizations := rfl
  problems := rfl
  compilators := rfl
  history := rfl
  olympUsers := (List.filterMap_append).trans (List.append_nil _)
  nextStamp := Int.le_of_lt (Int.lt_succ _)
  competitors := List.filterMap_append
  stamp := Int.le_refl _
  fresh c hc := Int.ne_of_lt (db.users.below _ (Db.mem_competitors.mp hc))
  no_claims claim hclaim := by
    obtain ⟨account, hmem, hid⟩ := db.claims_of claim hclaim
    rw [← hid]
    exact Int.ne_of_lt (db.users.below _ hmem)
  claims := rfl
  participations := rfl

theorem remove_removes (id : Int) (hrow : ∃ row ∈ db.competitors, row.id = id)
    (hhistory : db.history.mentions id = false) : Removes db (db.remove id hrow hhistory) [id] := by
  obtain ⟨row, hmem, rfl⟩ := hrow
  have hcontains : ∀ k : Int, [row.id].contains k = (k == row.id) := fun k => by
    rw [Bool.eq_iff_iff]
    simp
  refine ⟨⟨rfl, rfl, rfl, rfl, rfl, ?_, Int.le_refl _⟩, ?_, ?_, ?_⟩
  · show (db.users.rows.filter fun account => !(account.id == row.id)).filterMap Account.olympUser? = _
    rw [List.filterMap_filter]
    refine List.filterMap_congr fun account haccount => ?_
    cases account with
    | olympUser u =>
      have hne : u.id ≠ row.id := (Db.competitor_ne_olympUser hmem (Db.mem_olympUsers.mpr haccount)).symm
      simp [Account.olympUser?, hne]
    | competitor c => simp [Account.olympUser?]
  · show (db.users.rows.filter fun account => !(account.id == row.id)).filterMap Account.competitor? = _
    rw [List.filterMap_filter, Db.competitors, List.filter_filterMap]
    refine List.filterMap_congr fun account _ => ?_
    cases account with
    | olympUser u => simp [Account.competitor?]
    | competitor c => simp [Account.competitor?, Option.filter]
  · simp only [hcontains]
    rfl
  · simp only [hcontains]
    rfl

end Writes

/-! ## What the operations leave -/

section Operations

variable {o : Outside OperationExn} {db db' : Db} {participant participant' : Competitor}

theorem createAsync_returns {members : List OlympUser} {u : Unit}
    (h : Returns o (UserManager.createAsync participant members) db u db') :
    Creates db db' (db.created participant) (UserManager.memberIds members) := by
  have haccess := Returns.access h
  split at haccess
  · next hkeys => cases haccess; exact insert_creates participant _ hkeys.1 hkeys.2
  · cases haccess

theorem updateAsync_returns (h : Returns o (UserManager.updateAsync participant) db participant' db') :
    participant' = UserManager.stamped db participant ∧ db'.claims = db.claims ∧
      ∃ row, row.id = participant.id ∧ row.concurrencyStamp = participant.concurrencyStamp ∧
        Replaces db db' row participant' := by
  have haccess := Returns.access h
  split at haccess
  · next hstored =>
    obtain ⟨row, hrow, hid, hstamp⟩ := hstored
    cases haccess
    exact ⟨rfl, rfl, row, hid, hstamp, save_replaces hrow hid hstamp⟩
  · cases haccess

theorem deleteAsync_returns {members : List Int} {u : Unit}
    (h : Returns o (UserManager.deleteAsync participant members) db u db') :
    db.history.mentions participant.id = false ∧ db.Stored participant ∧ Removes db db' [participant.id] := by
  have haccess := Returns.access h
  split at haccess
  · next hstored =>
    split at haccess
    · next hkeys =>
      cases haccess
      exact ⟨hkeys.1, hstored, remove_removes _ _ _⟩
    · cases haccess
  · cases haccess

theorem addClaimAsync_returns {claimType claimValue : String}
    (h : Returns o (UserManager.addClaimAsync participant claimType claimValue) db participant' db') :
    participant' = UserManager.stamped db participant ∧
      db'.claims = db.claims ++ [⟨participant.id, claimType, claimValue⟩] ∧
      ∃ row, row.id = participant.id ∧ row.concurrencyStamp = participant.concurrencyStamp ∧
        Replaces db db' row participant' := by
  have haccess := Returns.access h
  split at haccess
  · next hstored =>
    obtain ⟨row, hrow, hid, hstamp⟩ := hstored
    cases haccess
    have hrep := @save_replaces (db.addClaim ⟨participant.id, claimType, claimValue⟩
      ⟨.competitor row, Db.mem_competitors.mp hrow, hid⟩) _ _ hrow hid hstamp
    exact ⟨rfl, rfl, row, hid, hstamp, ⟨⟨rfl, rfl, rfl, rfl, rfl, hrep.olympUsers, hrep.nextStamp⟩, hrow,
      hrep.id, hrep.stamp, hrep.competitors, rfl⟩⟩
  · cases haccess

theorem removeClaimAsync_returns {claimType claimValue : String}
    (h : Returns o (UserManager.removeClaimAsync participant claimType claimValue) db participant' db') :
    participant' = UserManager.stamped db participant ∧
      db'.claims = db.claims.filter (· != ⟨participant.id, claimType, claimValue⟩) ∧
      ∃ row, row.id = participant.id ∧ row.concurrencyStamp = participant.concurrencyStamp ∧
        Replaces db db' row participant' := by
  have haccess := Returns.access h
  split at haccess
  · next hstored =>
    obtain ⟨row, hrow, hid, hstamp⟩ := hstored
    cases haccess
    have hrep := @save_replaces (db.removeClaim ⟨participant.id, claimType, claimValue⟩) _ _ hrow hid hstamp
    exact ⟨rfl, rfl, row, hid, hstamp, ⟨⟨rfl, rfl, rfl, rfl, rfl, hrep.olympUsers, hrep.nextStamp⟩, hrow,
      hrep.id, hrep.stamp, hrep.competitors, rfl⟩⟩
  · cases haccess

end Operations

end OlympSystem.Site.Accounts
