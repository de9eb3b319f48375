/-
  OlympSystem.Site.Credentials — the logins of competitors.

  A competitor with a user name has a password and one claim that names its own contest;
  one without has neither. The name, the password and the claim are written one after the
  other, in one transaction for all competitors of a contest.

  Proved:
  - `credentials_change`: every change keeps this.
  - `credentials_kept`: so does every run, and a call on logins that fails has changed
    nothing.
-/

import OlympSystem.Site.CompetitorRuns

namespace OlympSystem.Site.Accounts.CompetitorManagement

open Lib.Runs Lib.Transactions

/-- The values of the claims that say in which contest the user competes. -/
def contestClaims (db : Db) (userId : Int) : List String :=
  (db.claims.filter fun claim => claim.userId == userId && claim.claimType == competitorContest).map (·.claimValue)

def HasCredentials (db : Db) (competitor : Competitor) : Prop :=
  (competitor.userName = none ↔ competitor.passwordHash = none) ∧
    (competitor.passwordHash = none ↔ contestClaims db competitor.id = []) ∧
    (competitor.userName ≠ none → contestClaims db competitor.id = [toString competitor.contestId])

def Credentials (db : Db) : Prop := ∀ competitor ∈ db.competitors, HasCredentials db competitor

instance (db : Db) (competitor : Competitor) : Decidable (HasCredentials db competitor) :=
  inferInstanceAs (Decidable (_ ∧ _ ∧ _))

instance (db : Db) : Decidable (Credentials db) :=
  inferInstanceAs (Decidable (∀ competitor ∈ db.competitors, HasCredentials db competitor))

section Changes

variable {db db' : Db}

/-- What a competitor has depends on its names, its contest and its claims alone. -/
theorem hasCredentials_congr {a b : Competitor} (hnames : b.userName = a.userName ∧ b.passwordHash = a.passwordHash)
    (hcontest : b.contestId = a.contestId) (hclaims : contestClaims db' b.id = contestClaims db a.id)
    (h : HasCredentials db a) : HasCredentials db' b := by
  unfold HasCredentials at h ⊢
  rwa [hnames.1, hnames.2, hcontest, hclaims]

theorem contestClaims_same (hclaims : db'.claims = db.claims) (userId : Int) :
    contestClaims db' userId = contestClaims db userId := by
  unfold contestClaims
  rw [hclaims]

theorem contestClaims_assigned {old : Competitor} (hclaims : db'.claims = db.claims ++ [contestClaim old])
    (userId : Int) :
    contestClaims db' userId = contestClaims db userId ++ if userId = old.id then [toString old.contestId] else [] := by
  unfold contestClaims
  rw [hclaims, List.filter_append, List.map_append]
  congr 1
  by_cases hid : userId = old.id
  · simp [contestClaim, hid]
  · simp [contestClaim, hid, Ne.symm hid]

theorem contestClaims_unassigned {old : Competitor} (hclaims : db'.claims = db.claims.filter (· != contestClaim old))
    (userId : Int) : contestClaims db' userId =
      if userId = old.id then (contestClaims db userId).filter (· != toString old.contestId)
      else contestClaims db userId := by
  unfold contestClaims
  rw [hclaims, List.filter_filter]
  split
  · next hid =>
    rw [List.filter_map, List.filter_filter]
    refine congrArg _ (List.filter_congr fun claim _ => ?_)
    rcases claim with ⟨id, claimType, claimValue⟩
    rw [Bool.eq_iff_iff]
    simp only [contestClaim, hid, Function.comp_apply, Bool.and_eq_true, beq_iff_eq, bne_iff_ne, ne_eq,
      UserClaim.mk.injEq, not_and]
    constructor
    · rintro ⟨⟨rfl, rfl⟩, hne⟩
      exact ⟨hne rfl rfl, rfl, rfl⟩
    · rintro ⟨hne, rfl, rfl⟩
      exact ⟨⟨rfl, rfl⟩, fun _ _ => hne⟩
  · next hid =>
    refine congrArg _ (List.filter_congr fun claim _ => ?_)
    by_cases huser : claim.userId = userId
    · have hne : claim ≠ contestClaim old := fun heq => hid (by rw [← huser, heq]; rfl)
      simp [hne]
    · simp [huser]

theorem contestClaims_removed {ids : List Int}
    (hclaims : db'.claims = db.claims.filter fun claim => !ids.contains claim.userId)
    {userId : Int} (h : userId ∉ ids) : contestClaims db' userId = contestClaims db userId := by
  unfold contestClaims
  rw [hclaims, List.filter_filter]
  refine congrArg _ (List.filter_congr fun claim _ => ?_)
  by_cases hid : claim.userId = userId
  · simp [hid, h]
  · simp [hid]

theorem hasCredentials_replaces {old new c : Competitor} (h : Replaces db db' old new) (hc : c ∈ db'.competitors)
    (hcredentials : Credentials db) (hnew : HasCredentials db' new)
    (hclaims : ∀ id, id ≠ old.id → contestClaims db' id = contestClaims db id) : HasCredentials db' c := by
  rcases (h.competitors c).mp hc with rfl | ⟨hc, hne⟩
  · exact hnew
  · exact hasCredentials_congr ⟨rfl, rfl⟩ rfl (hclaims c.id hne) (hcredentials c hc)

theorem credentials_change (h : Change db db') (hcredentials : Credentials db) : Credentials db' := by
  intro c hc
  cases h with
  | create new members h hunnamed =>
    have hsame := contestClaims_same h.claims
    rw [h.competitors] at hc
    rcases List.mem_append.mp hc with hc | hc
    · exact hasCredentials_congr ⟨rfl, rfl⟩ rfl (hsame c.id) (hcredentials c hc)
    · have hnone : contestClaims db new.id = [] := by
        unfold contestClaims
        rw [List.map_eq_nil_iff, List.filter_eq_nil_iff]
        intro claim hclaim
        simp [h.no_claims claim hclaim]
      rw [List.mem_singleton.mp hc]
      unfold HasCredentials
      rw [hsame, hnone, hunnamed.1, hunnamed.2]
      simp
  | flags old new h hclaims hkeeps =>
    have hsame := contestClaims_same hclaims
    refine hasCredentials_replaces h hc hcredentials ?_ fun id _ => hsame id
    exact hasCredentials_congr ⟨hkeeps.1, hkeeps.2.1⟩ hkeeps.2.2
      ((hsame new.id).trans (by rw [h.id])) (hcredentials old h.stored)
  | remove id h =>
    rw [h.competitors] at hc
    obtain ⟨hc, hne⟩ := List.mem_filter.mp hc
    refine hasCredentials_congr ⟨rfl, rfl⟩ rfl (contestClaims_removed h.claims ?_) (hcredentials c hc)
    simpa using hne
  | assignLogin old new h hunnamed hnamed hcontest hclaims =>
    have hassigned := contestClaims_assigned hclaims
    refine hasCredentials_replaces h hc hcredentials ?_ fun id hne => ?_
    · -- the competitor had no claim, and has one now
      obtain ⟨hpassword, hclaim, -⟩ := hcredentials old h.stored
      have hone : contestClaims db' new.id = [toString new.contestId] := by
        rw [hassigned, h.id, if_pos rfl, hclaim.mp (hpassword.mp hunnamed), hcontest, List.nil_append]
      unfold HasCredentials
      rw [hone]
      simp [hnamed.1, hnamed.2]
    · rw [hassigned, if_neg hne, List.append_nil]
  | removeLogin old new h hunnamed hcontest hclaims =>
    have hunassigned := contestClaims_unassigned hclaims
    refine hasCredentials_replaces h hc hcredentials ?_ fun id hne => ?_
    · obtain ⟨hpassword, hclaim, hown⟩ := hcredentials old h.stored
      have hnone : contestClaims db' new.id = [] := by
        rw [hunassigned, h.id, if_pos rfl]
        by_cases hname : old.userName = none
        · rw [hclaim.mp (hpassword.mp hname)]
          rfl
        · rw [hown hname]
          simp
      unfold HasCredentials
      rw [hnone, hunnamed.1, hunnamed.2]
      simp
    · rw [hunassigned, if_neg hne]

end Changes

/-! ## Runs -/

/-- A call that assigns, generates or removes logins. -/
def OfLogins : Call → Prop
  | .start (.assignLogins _ _) | .start (.generateLogins _ _) | .start (.removeLogins _) | .generating _ _ => True
  | _ => False

/-- Unless it ends well, a step of a call on logins leaves everything as it was. -/
def FailsClean (s : St) : Ev → St → Prop
  | .call _, _ => True
  | .advance a _, s' => OfLogins (s.call a) → (∀ value, s'.call a ≠ .over (.ok value)) → s'.db = s.db

theorem credentials_kept (service : CompetitorManagementService) (db : Db) (h : Credentials db) (es : List Ev) :
    Always (step service) (fun s => Credentials s.db) (init db) es ∧
      Along (step service) FailsClean (init db) es := by
  refine ⟨always_kept service (fun _ _ => credentials_change) h es,
    along_inv service (fun s e s' hinv hstep => ?_) db es⟩
  obtain ⟨-, -, hends⟩ := inv_step hinv hstep
  cases e with
  | call operation => trivial
  | advance a o =>
    intro _ hnot
    rcases hends with hsame | ⟨value, hover⟩
    · exact hsame
    · exact absurd hover (hnot value)

def assignOne : List Ev := [.call (.assignLogins 1 [("login", "secret")]), .advance 0 (calm 0)]

theorem sample_credentials :
    (final (step sampleService) (init sampleDb) assignOne).db.claims = [⟨2, competitorContest, "1"⟩] ∧
      Always (step sampleService) (fun s => Credentials s.db) (init sampleDb) assignOne ∧
      Along (step sampleService) FailsClean (init sampleDb) assignOne :=
  ⟨by decide +kernel, credentials_kept sampleService sampleDb (by decide) assignOne⟩

end OlympSystem.Site.Accounts.CompetitorManagement
