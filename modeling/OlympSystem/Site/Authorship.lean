/-
  OlympSystem.Site.Authorship — whose submissions and messages the pages store.

  The handler asks whether the user has some competitor that may post; the page takes the
  one competitor its lookup finds. A lookup that finds two throws, and nothing is stored;
  so where something is stored, both have looked at the same competitor.

  The handler looks at the clock up to three times. `k` is the number of the access at which
  it first does: the page has made that many accesses when it has loaded what it shows.

  Proved:
  - `handle_returns`: what the handler has seen of a user that it lets post.
  - `author_of_mayPost`: the author that the page then chooses.
  - `rightly_attributed`: what is true of every such author.
  - `authorship_law`: of everything that a request stores.
-/

import OlympSystem.Site.CompetitorRuns
import OlympSystem.Site.ContestPages

namespace OlympSystem.Site.Accounts.ContestPages

open Lib.Tables Lib.Transactions
open CompetitorManagement (calm sampleCompetitor sampleDb)

/-- The contest is visible and, by the clock as it is read at `k` and right after, under way;
    after its end `afterEnd` decides. -/
structure AllowedAt (o : Outside OperationExn) (k : Nat) (contest : Contest) (afterEnd : Bool) : Prop where
  visible : contest.isHidden = false
  begun : contest.startTime ≤ o.clock k
  running : o.clock (k + 1) ≤ contest.endTime ∨ afterEnd = true

/-- The competitor may be the author in the contest. -/
structure Eligible (contest : Contest) (c : Competitor) : Prop where
  contest : c.contestId = contest.id
  approved : c.isApproved = true
  fair : c.isDisqualified = false

/-- What the handler sees of a user that it lets post. It looks at the clock, at the account, and
    for a competitor at the clock again. -/
inductive MayPost (o : Outside OperationExn) (k : Nat) (db : Db) (contest : Contest) (userId : Int) : Prop where
  | competitor (c : Competitor) (hstored : c ∈ db.competitors) (hsigned : c.id = userId)
      (heligible : Eligible contest c)
      (htime : o.clock (k + 3) ≤ contest.endTime)
  | user (user : OlympUser) (hstored : user ∈ db.olympUsers) (hsigned : user.id = userId)
      (hfair : user.isDisqualified = false) (hopen : contest.isOpen = true)
  | member (user : OlympUser) (hstored : user ∈ db.olympUsers) (hsigned : user.id = userId)
      (hfair : user.isDisqualified = false) (hclosed : contest.isOpen = false) (c : Competitor)
      (hmember : c ∈ competitorsWith contest.id userId db) (heligible : Eligible contest c)
      (hout : c.isOutOfCompetition = true)

inductive Author (o : Outside OperationExn) (k : Nat) (db : Db) (contest : Contest) (userId author : Int) : Prop where
  /-- The signed-in competitor himself. -/
  | competitor (c : Competitor) (hstored : c ∈ db.competitors) (hsigned : c.id = userId) (hauthor : c.id = author)
      (heligible : Eligible contest c) (htime : o.clock (k + 3) ≤ contest.endTime)
  /-- The signed-in user himself, in an open contest. -/
  | user (user : OlympUser) (hstored : user ∈ db.olympUsers) (hsigned : user.id = userId) (hauthor : user.id = author)
      (hfair : user.isDisqualified = false) (hopen : contest.isOpen = true)
  /-- In a closed contest, the one competitor with the signed-in user among its members. -/
  | member (user : OlympUser) (hstored : user ∈ db.olympUsers) (hsigned : user.id = userId)
      (hfair : user.isDisqualified = false) (hclosed : contest.isOpen = false) (c : Competitor)
      (hcompetitor : c ∈ db.competitors) (hauthor : c.id = author) (heligible : Eligible contest c)
      (hout : c.isOutOfCompetition = true)
      (hunique : ∀ x ∈ db.competitors, x.contestId = contest.id ∧ db.isMember userId x = true ↔ x = c)

/-- No competitor is the author who should not be, and in a closed contest no user of the site. -/
structure RightlyAttributed (db : Db) (contest : Contest) (author : Int) : Prop where
  competitors : ∀ c ∈ db.competitors, c.id = author → Eligible contest c
  users : contest.isOpen = false → ∀ user ∈ db.olympUsers, user.id ≠ author

/-- What holds of the author of what a request has stored. -/
def Authorship (afterEnd : Contest → Bool) (o : Outside OperationExn) (k : Nat) (db : Db)
    (contestId userId author : Int) : Prop :=
  ∃ contest, db.contests.find? contestId = some contest ∧ AllowedAt o k contest (afterEnd contest) ∧
    Author o k db contest userId author ∧ RightlyAttributed db contest author

section Handler

variable {o : Outside OperationExn} {s s' : Session Db} {contest : Contest}

theorem allowed_returns {afterEnd : Bool} (h : ReturnsFrom o (allowed contest afterEnd) s true s') :
    s' = ⟨s.db, s.count + 2⟩ ∧ AllowedAt o s.count contest afterEnd := by
  unfold allowed at h
  split at h
  · exact absurd (ReturnsFrom.pure h).1 Bool.true_eq_false.mp
  · next hvisible =>
    have h₁ := ReturnsFrom.now_bind h
    split at h₁
    · exact absurd (ReturnsFrom.pure h₁).1 Bool.true_eq_false.mp
    · next hbegun =>
      have h₂ := ReturnsFrom.now_bind h₁
      obtain ⟨hrunning, rfl⟩ := ReturnsFrom.pure h₂
      refine ⟨rfl, Bool.eq_false_iff.mpr hvisible, not_lt.mp hbegun, ?_⟩
      exact (Bool.or_eq_true_iff.mp hrunning.symm).imp of_decide_eq_true id

theorem allow_returns {requirement : OperationName} (h : ReturnsFrom o (allow contest requirement) s true s') :
    s' = ⟨s.db, s.count + 2⟩ := by
  cases requirement with
  | submitSolution | sendMessage => exact (allowed_returns h).1
  | viewSolution => exact absurd (ReturnsFrom.pure h).1 Bool.true_eq_false.mp

/-- A user of the site that the handler lets post. -/
theorem olympUser_mayPost {k : Nat} {user : OlympUser} {userId : Int} (hstored : user ∈ s.db.olympUsers)
    (hsigned : user.id = userId) (hfair : user.isDisqualified = false)
    (h : ReturnsFrom o (if contest.isOpen then pure Decision.succeed else do
      let hasCompetitor ← Work.query fun db => (competitorsWith contest.id user.id db).any fun x =>
        x.isApproved && x.isOutOfCompetition && !x.isDisqualified
      return if hasCompetitor then .succeed else .undecided) s .succeed s') :
    s'.db = s.db ∧ MayPost o k s.db contest userId := by
  split at h
  · next hopen =>
    obtain ⟨-, rfl⟩ := ReturnsFrom.pure h
    exact ⟨rfl, .user user hstored hsigned hfair hopen⟩
  · next hclosed =>
    have h₁ := ReturnsFrom.query_bind h
    obtain ⟨hdecision, rfl⟩ := ReturnsFrom.pure h₁
    split at hdecision
    · next hany =>
      obtain ⟨c, hc, hflags⟩ := List.any_eq_true.mp hany
      simp only [Bool.and_eq_true, Bool.not_eq_true'] at hflags
      have hcontest := (mem_competitorsWith.mp hc).2.1
      exact ⟨rfl, .member user hstored hsigned hfair (Bool.eq_false_iff.mpr hclosed) c (hsigned ▸ hc)
        ⟨hcontest, hflags.1.1, hflags.2⟩ hflags.1.2⟩
    · cases hdecision

theorem handle_returns {principal : Principal} (hrole : principal.isAdmin = false ∧ principal.isJury = false)
    {requirement : OperationName}
    (h : ReturnsFrom o (handleRequirementAsync principal requirement contest) s .succeed s') :
    s'.db = s.db ∧ (∃ t, ReturnsFrom o (allow contest requirement) s true t) ∧
      MayPost o s.count s.db contest principal.userId := by
  unfold handleRequirementAsync at h
  rw [hrole.1, hrole.2, Bool.or_self, if_neg Bool.false_ne_true] at h
  obtain ⟨allows, t, hallow, h₁⟩ := ReturnsFrom.bind h
  have hdb : t.db = s.db := hallow.returns.quiet (quiet_allow contest requirement)
  have h₂ := ReturnsFrom.query_bind h₁
  rw [hdb] at h₂
  generalize hfound : s.db.users.find? principal.userId = found at h₂
  rcases found with _ | account
  · cases (ReturnsFrom.pure h₂).1
  · obtain ⟨hstored, hid⟩ := Table.find?_some hfound
    simp only at h₂
    split at h₂
    · cases (ReturnsFrom.pure h₂).1
    · next hrefused =>
      rw [Bool.or_eq_true, not_or, Bool.not_eq_true', Bool.not_eq_false, Bool.not_eq_true] at hrefused
      obtain ⟨rfl, hfair⟩ := hrefused
      obtain rfl := allow_returns hallow
      cases account with
      | competitor c =>
        simp only at h₂
        split at h₂
        · next hflags =>
          rw [Bool.and_eq_true, beq_iff_eq] at hflags
          have h₃ := ReturnsFrom.now_bind h₂
          obtain ⟨hdecision, rfl⟩ := ReturnsFrom.pure h₃
          split at hdecision
          · next htime =>
            exact ⟨rfl, ⟨_, hallow⟩,
              .competitor c (Db.mem_competitors.mpr hstored) hid ⟨hflags.2, hflags.1, hfair⟩ htime⟩
          · cases hdecision
        · cases (ReturnsFrom.pure h₂).1
      | olympUser user =>
        obtain ⟨hdb', hmay⟩ := olympUser_mayPost (k := s.count) (s := ⟨s.db, s.count + 3⟩)
          (Db.mem_olympUsers.mpr hstored) hid hfair h₂
        exact ⟨hdb', ⟨_, hallow⟩, hmay⟩

theorem authorize_returns {principal : Principal} (hrole : principal.isAdmin = false ∧ principal.isJury = false)
    {requirement : OperationName} (h : ReturnsFrom o (authorizeAsync principal contest requirement) s true s') :
    s'.db = s.db ∧ (∃ t, ReturnsFrom o (allow contest requirement) s true t) ∧
      MayPost o s.count s.db contest principal.userId := by
  obtain ⟨decision, t, hhandle, h₁⟩ := ReturnsFrom.bind h
  obtain ⟨hdecision, rfl⟩ := ReturnsFrom.pure h₁
  rw [beq_iff_eq.mp hdecision.symm] at hhandle
  exact handle_returns hrole hhandle

end Handler

/-! ## The author -/

section Chosen

variable {o : Outside OperationExn} {k : Nat} {db : Db} {contest : Contest}

/-- Only users of the site are members. -/
theorem competitorsWith_competitor {c : Competitor} (hc : c ∈ db.competitors) (contestId : Int) :
    competitorsWith contestId c.id db = [] := by
  rw [List.eq_nil_iff_forall_not_mem]
  intro x hx
  have hmember := List.contains_iff_mem.mp (mem_competitorsWith.mp hx).2.2
  obtain ⟨⟨user, huser, hid⟩, -⟩ := db.members_of _ hmember
  exact Db.competitor_ne_olympUser hc (Db.mem_olympUsers.mpr huser) hid.symm

/-- The handler's query and the page's have seen the same competitor. -/
theorem author_of_mayPost {userId : Int} {found : Option Int} (hmay : MayPost o k db contest userId)
    (hfound : (competitorsWith contest.id userId db).map (fun c => c.id) = found.toList) :
    Author o k db contest userId (author contest userId found) := by
  unfold author
  cases hmay with
  | competitor c hstored hsigned heligible htime =>
    subst hsigned
    rw [competitorsWith_competitor hstored] at hfound
    have hnone : found = none := Option.toList_eq_nil_iff.mp hfound.symm
    refine .competitor c hstored rfl ?_ heligible htime
    rw [hnone, Option.getD_none, ite_self]
  | user user hstored hsigned hfair hopen =>
    exact .user user hstored hsigned (by rw [if_pos hopen, hsigned]) hfair hopen
  | member user hstored hsigned hfair hclosed c hmember heligible hout =>
    have hfound' := hfound ▸ List.mem_map_of_mem (f := fun c : Competitor => c.id) hmember
    have hsome : found = some c.id := Option.mem_toList.mp hfound'
    refine .member user hstored hsigned hfair hclosed c (mem_competitorsWith.mp hmember).1 ?_ heligible hout ?_
    · rw [if_neg (Bool.eq_false_iff.mp hclosed), hsome, Option.getD_some]
    · intro x hx
      constructor
      · intro hof
        have hxfound := hfound ▸ List.mem_map_of_mem (f := fun c : Competitor => c.id)
          (mem_competitorsWith.mpr ⟨hx, hof⟩)
        rw [hsome] at hxfound
        exact Db.competitor_unique hx (mem_competitorsWith.mp hmember).1 (List.mem_singleton.mp hxfound)
      · rintro rfl
        exact (mem_competitorsWith.mp hmember).2

theorem rightly_attributed {userId author : Int} (h : Author o k db contest userId author) :
    RightlyAttributed db contest author := by
  cases h with
  | competitor c hstored _ hauthor heligible | member _ _ _ _ _ c hstored hauthor heligible =>
    subst hauthor
    exact ⟨fun x hx hid => Db.competitor_unique hx hstored hid ▸ heligible,
      fun _ user huser => (Db.competitor_ne_olympUser hstored huser).symm⟩
  | user user hstored _ hauthor _ hopen =>
    subst hauthor
    exact ⟨fun x hx hid => absurd hid (Db.competitor_ne_olympUser hx hstored),
      fun hclosed => absurd hopen (Bool.eq_false_iff.mp hclosed)⟩

theorem authorship_of {afterEnd : Contest → Bool} {contestId userId : Int} {found : Option Int}
    (hcontest : db.contests.find? contestId = some contest) (hallowed : AllowedAt o k contest (afterEnd contest))
    (hmay : MayPost o k db contest userId)
    (hfound : (competitorsWith contestId userId db).map (fun c => c.id) = found.toList) :
    Authorship afterEnd o k db contestId userId (author contest userId found) := by
  rw [← (Table.find?_some hcontest).2] at hfound
  have hauthor := author_of_mayPost hmay hfound
  exact ⟨contest, hcontest, hallowed, hauthor, rightly_attributed hauthor⟩

end Chosen

/-! ## Requests -/

section Requests

variable {o : Outside OperationExn} {db : Db} {s s' : Session Db} {principal : Principal} {id : Int}
  {result : ActionResult}

/-- After the load: a request that is refused changes nothing. -/
theorem guarded_returns (hrole : principal.isAdmin = false ∧ principal.isJury = false) {contest : Contest}
    {requirement : OperationName} {errors : List ModelError} {post : Action ActionResult}
    (h : ReturnsFrom o (do
      let authorized ← authorizeAsync principal contest requirement
      if !authorized then pure .forbid
      else if !errors.isEmpty then pure (.page errors)
      else post) s result s') :
    s'.db = s.db ∨ ((∃ t, ReturnsFrom o (allow contest requirement) s true t) ∧
      MayPost o s.count s.db contest principal.userId) ∧ Returns o post s.db result s'.db := by
  obtain ⟨authorized, t, hauthorize, h₁⟩ := ReturnsFrom.bind h
  have hdb : t.db = s.db := hauthorize.returns.quiet (quiet_authorize _ _ _)
  split at h₁
  · obtain ⟨-, rfl⟩ := ReturnsFrom.pure h₁
    exact Or.inl hdb
  · next hauthorized =>
    rw [Bool.not_eq_true', Bool.not_eq_false] at hauthorized
    subst hauthorized
    split at h₁
    · obtain ⟨-, rfl⟩ := ReturnsFrom.pure h₁
      exact Or.inl hdb
    · have hpost := h₁.returns
      rw [hdb] at hpost
      exact Or.inr ⟨(authorize_returns hrole hauthorize).2, hpost⟩

/-- The load of a page that is there makes three accesses. -/
theorem load_returns {load : Option Submits.Loaded}
    (h : ReturnsFrom o (Submits.loadAsync principal id) ⟨db, 0⟩ load s') :
    s'.db = db ∧ ∀ page ∈ load, s' = ⟨db, 3⟩ ∧ db.contests.find? id = some page.contest := by
  obtain ⟨competitor, -, h₁⟩ := ReturnsFrom.read_bind h
  have h₂ := ReturnsFrom.query_bind h₁
  generalize hfound : (db.contests.find? id).map _ = found at h₂
  rcases found with _ | ⟨contest, problems, submissions⟩
  · obtain ⟨rfl, rfl⟩ := ReturnsFrom.pure h₂
    exact ⟨rfl, fun page hpage => absurd hpage (Option.not_mem_none page)⟩
  · have h₃ := ReturnsFrom.query_bind h₂
    obtain ⟨rfl, rfl⟩ := ReturnsFrom.pure h₃
    obtain ⟨contest', hcontest, hparts⟩ := Option.map_eq_some_iff.mp hfound
    obtain rfl : contest' = contest := congrArg Prod.fst hparts
    refine ⟨rfl, fun page hpage => ?_⟩
    cases hpage
    exact ⟨rfl, hcontest⟩

/-- A request on submissions stores nothing, or one submission of the right author. -/
theorem submits_returns (hrole : principal.isAdmin = false ∧ principal.isJury = false) {windows1251 : String → String}
    {input : Submits.InputModel} {binding : List ModelError}
    (h : ReturnsFrom o (Submits.onPostAsync windows1251 principal id input binding) ⟨db, 0⟩ result s') :
    s'.db.history.submissions.rows = db.history.submissions.rows ∨
      ∃ submission, s'.db.history.submissions.rows = db.history.submissions.rows ++ [submission] ∧
        Authorship (·.isOpen) o 3 db id principal.userId submission.userId := by
  obtain ⟨load, t, hload, h₁⟩ := ReturnsFrom.bind h
  obtain ⟨hdb, hfound⟩ := load_returns hload
  rcases load with _ | page
  · obtain ⟨-, rfl⟩ := ReturnsFrom.pure h₁
    exact Or.inl (by rw [hdb])
  · obtain ⟨rfl, hcontest⟩ := hfound page rfl
    rcases guarded_returns hrole h₁ with hsame | ⟨⟨⟨_, hallow⟩, hmay⟩, hpost⟩
    · exact Or.inl (by rw [hsame])
    · obtain ⟨current, db₂, hcurrent, h₂⟩ := Returns.bind hpost
      obtain ⟨rfl, hone⟩ := findCurrent_returns hcurrent
      obtain ⟨problemId, -, h₃⟩ := Returns.orThrow_bind h₂
      obtain ⟨compilatorId, -, h₄⟩ := Returns.orThrow_bind h₃
      obtain ⟨code, -, h₅⟩ := Returns.orThrow_bind h₄
      obtain ⟨_, h₆⟩ := Returns.now_bind h₅
      obtain ⟨_, h₇⟩ := Returns.now_bind h₆
      obtain ⟨_, hsave, -⟩ := Returns.bind_pure h₇
      have haccess := Returns.access hsave
      split at haccess
      · injection haccess with haccess
        injection haccess with _ hadded
        rw [← hadded]
        exact Or.inr ⟨_, rfl, authorship_of hcontest (allowed_returns hallow).2 hmay hone⟩
      · cases haccess

/-- A request on questions stores nothing, or one message of the right author. -/
theorem sendMessage_returns (hrole : principal.isAdmin = false ∧ principal.isJury = false)
    {input : SendMessage.InputModel} {binding : List ModelError}
    (h : ReturnsFrom o (SendMessage.onPostAsync principal id input binding) ⟨db, 0⟩ result s') :
    s'.db.history.messages.rows = db.history.messages.rows ∨
      ∃ message, s'.db.history.messages.rows = db.history.messages.rows ++ [message] ∧
        ∃ author, message.userId = some author ∧ Authorship (fun _ => false) o 1 db id principal.userId author := by
  have h₁ := ReturnsFrom.query_bind h
  generalize hfound : (db.contests.find? id).map _ = found at h₁
  rcases found with _ | page
  · obtain ⟨-, rfl⟩ := ReturnsFrom.pure h₁
    exact Or.inl rfl
  · obtain ⟨contest, hcontest, rfl⟩ := Option.map_eq_some_iff.mp hfound
    rcases guarded_returns hrole h₁ with hsame | ⟨⟨⟨_, hallow⟩, hmay⟩, hpost⟩
    · exact Or.inl (by rw [hsame])
    · obtain ⟨current, db₂, hcurrent, h₂⟩ := Returns.bind hpost
      obtain ⟨rfl, hone⟩ := findCurrent_returns hcurrent
      obtain ⟨_, h₃⟩ := Returns.now_bind h₂
      obtain ⟨_, hsave, -⟩ := Returns.bind_pure h₃
      have haccess := Returns.access hsave
      split at haccess
      · injection haccess with haccess
        injection haccess with _ hadded
        rw [← hadded]
        exact Or.inr ⟨_, rfl, _, rfl, authorship_of hcontest (allowed_returns hallow).2 hmay hone⟩
      · cases haccess

/-- What is true of every row that a request stores when it returns, if it stores nothing
    when it throws. -/
theorem stored_of_returns {α row : Type} {w : Action α} (hw : Atomic w) (rows : Db → List row) {P : row → Prop}
    (hreturns : ∀ a s', ReturnsFrom o w ⟨db, 0⟩ a s' →
      rows s'.db = rows db ∨ ∃ posted, rows s'.db = rows db ++ [posted] ∧ P posted) :
    ∀ x ∈ rows (w o ⟨db, 0⟩).2.db, x ∉ rows db → P x := by
  intro x hafter hbefore
  rcases hrun : w o ⟨db, 0⟩ with ⟨e | a, s⟩
  · have hdb := hw o ⟨db, 0⟩ e (by rw [hrun])
    rw [hdb] at hafter
    exact absurd hafter hbefore
  · rw [hrun] at hafter
    rcases hreturns a s hrun with hsame | ⟨posted, hadd, hposted⟩
    · exact absurd (hsame ▸ hafter) hbefore
    · rw [hadd] at hafter
      rcases List.mem_append.mp hafter with hold | hnew
      · exact absurd hold hbefore
      · rw [List.mem_singleton.mp hnew]
        exact hposted

end Requests

/-- Every submission and every message that a request has stored is rightly authored. -/
theorem authorship_law (principal : Principal) (hrole : principal.isAdmin = false ∧ principal.isJury = false)
    (o : Outside OperationExn) (db : Db) (id : Int) (binding : List ModelError) :
    (∀ windows1251 input, ∀ submission ∈
        (Submits.onPostAsync windows1251 principal id input binding o ⟨db, 0⟩).2.db.history.submissions.rows,
      submission ∉ db.history.submissions.rows →
        Authorship (·.isOpen) o 3 db id principal.userId submission.userId) ∧
      ∀ input, ∀ message ∈ (SendMessage.onPostAsync principal id input binding o ⟨db, 0⟩).2.db.history.messages.rows,
        message ∉ db.history.messages.rows →
          ∃ author, message.userId = some author ∧
            Authorship (fun _ => false) o 1 db id principal.userId author := by
  refine ⟨fun windows1251 input => ?_, fun input => ?_⟩
  · refine stored_of_returns (atomic_submits windows1251 principal id input binding)
      (fun db => db.history.submissions.rows) fun result s' h => ?_
    exact submits_returns hrole h
  · refine stored_of_returns (atomic_sendMessage principal id input binding)
      (fun db => db.history.messages.rows) fun result s' h => ?_
    exact sendMessage_returns hrole h

/-! ## A sample -/

/-- The team is out of competition, and there is a problem to solve. -/
def sampleContest : Db :=
  { sampleDb.save { sampleCompetitor with isOutOfCompetition := true } with
    problems := ⟨[⟨1, 1, "Sum", none, true, 1000, 1000, 64, 1, 1, []⟩], 2, by decide, by decide⟩
    compilators := ⟨[⟨1, "gcc", none, true⟩], 2, by decide, by decide⟩ }

def sampleSubmission : Submission := ⟨1, "int main()", 0, 0, 0, 2, 1, 1⟩

def sampleMessage : Message := ⟨1, some "Is it so?!", none, some 0, some 2, none, 1⟩

theorem sample_authorship :
    (sampleSubmission ∈ (Submits.onPostAsync id ⟨1, false, false⟩ 1 ⟨some 1, some 1, some "int main()"⟩ [] (calm 0)
        ⟨sampleContest, 0⟩).2.db.history.submissions.rows ∧
      sampleMessage ∈ (SendMessage.onPostAsync ⟨1, false, false⟩ 1 ⟨none, some "Is it so?!"⟩ [] (calm 0)
        ⟨sampleContest, 0⟩).2.db.history.messages.rows) ∧
    Authorship (·.isOpen) (calm 0) 3 sampleContest 1 1 2 ∧
      ∃ author, some 2 = some author ∧ Authorship (fun _ => false) (calm 0) 1 sampleContest 1 1 author := by
  have hposted : sampleSubmission ∈ (Submits.onPostAsync id ⟨1, false, false⟩ 1 ⟨some 1, some 1, some "int main()"⟩ []
      (calm 0) ⟨sampleContest, 0⟩).2.db.history.submissions.rows := by decide +kernel
  have hsent : sampleMessage ∈ (SendMessage.onPostAsync ⟨1, false, false⟩ 1 ⟨none, some "Is it so?!"⟩ []
      (calm 0) ⟨sampleContest, 0⟩).2.db.history.messages.rows := by decide +kernel
  have hlaw := authorship_law ⟨1, false, false⟩ ⟨rfl, rfl⟩ (calm 0) sampleContest 1 []
  exact ⟨⟨hposted, hsent⟩, hlaw.1 id _ sampleSubmission hposted List.not_mem_nil,
    hlaw.2 _ sampleMessage hsent List.not_mem_nil⟩

end OlympSystem.Site.Accounts.ContestPages
