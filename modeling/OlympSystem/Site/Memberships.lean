/-
  OlympSystem.Site.Memberships — a user is in at most one competitor of each contest.

  The invariant speaks of the users of the site; whoever is signed in, the pages look up
  the competitors of a contest with that id among their members.

  Proved:
  - `oneMembership_change`: every change keeps the invariant.
  - `lookups_of_oneMembership`: under it the lookups of the pages find one at most.
  - `memberships_unique`: so it is throughout every run of the service.
-/

import OlympSystem.Site.CompetitorRuns
import OlympSystem.Site.ContestPages

namespace OlympSystem.Site.Accounts.CompetitorManagement

open Lib.Runs ContestPages

/-- Every user is in at most one competitor of each contest. -/
def OneMembership (db : Db) : Prop :=
  ∀ user ∈ db.olympUsers, ∀ a ∈ db.competitors, ∀ b ∈ db.competitors, a.contestId = b.contestId →
    db.isMember user.id a = true → db.isMember user.id b = true → a = b

instance (db : Db) : Decidable (OneMembership db) :=
  inferInstanceAs (Decidable (∀ user ∈ db.olympUsers, ∀ a ∈ db.competitors, ∀ b ∈ db.competitors,
    a.contestId = b.contestId → db.isMember user.id a = true → db.isMember user.id b = true → a = b))

section Changes

variable {db db' : Db}

/-- No participation is new, and every competitor was one of the same contest. -/
theorem oneMembership_of_old (husers : db'.olympUsers = db.olympUsers)
    (hparticipations : ∀ p ∈ db'.participations, p ∈ db.participations)
    (hold : ∀ c ∈ db'.competitors, ∃ c₀ ∈ db.competitors, c₀.id = c.id ∧ c₀.contestId = c.contestId)
    (hone : OneMembership db) : OneMembership db' := by
  intro user huser a ha b hb hcontest hina hinb
  rw [husers] at huser
  obtain ⟨a₀, ha₀, haid, hacontest⟩ := hold a ha
  obtain ⟨b₀, hb₀, hbid, hbcontest⟩ := hold b hb
  have hmember : ∀ c c₀ : Competitor, c₀.id = c.id → db'.isMember user.id c = true → db.isMember user.id c₀ = true :=
    fun c c₀ hid hin => isMember_iff.mpr (hid ▸ hparticipations _ (isMember_iff.mp hin))
  have hsame : a₀ = b₀ := hone user huser a₀ ha₀ b₀ hb₀ (by rw [hacontest, hbcontest, hcontest])
    (hmember a a₀ haid hina) (hmember b b₀ hbid hinb)
  exact Db.competitor_unique ha hb (by rw [← haid, ← hbid, hsame])

theorem oneMembership_replaces {old new : Competitor} (h : Replaces db db' old new)
    (hcontest : new.contestId = old.contestId) (hone : OneMembership db) : OneMembership db' := by
  refine oneMembership_of_old h.olympUsers (fun p hp => h.participations ▸ hp) (fun c hc => ?_) hone
  rcases (h.competitors c).mp hc with rfl | ⟨hc, -⟩
  · exact ⟨old, h.stored, h.id.symm, hcontest.symm⟩
  · exact ⟨c, hc, rfl, rfl⟩

/-- A new competitor changes the members of no other. -/
theorem isMember_creates {new c : Competitor} {members : List Int} (h : Creates db db' new members) {userId : Int}
    (hin : db'.isMember userId c = true) :
    (c ∈ db.competitors → db.isMember userId c = true) ∧ (c = new → userId ∈ members) := by
  refine ⟨fun hc => ?_, fun heq => h.isMember_new.mp (heq ▸ hin)⟩
  have hp := isMember_iff.mp hin
  rw [h.participations] at hp
  rcases List.mem_append.mp hp with hold | hnew
  · exact isMember_iff.mpr hold
  · obtain ⟨id, -, heq⟩ := List.mem_map.mp hnew
    exact absurd (Participation.mk.inj heq).2.symm (h.fresh c hc)

theorem oneMembership_change (h : Change db db') (hone : OneMembership db) : OneMembership db' := by
  cases h with
  | create new members h _ hfree =>
    intro user huser a ha b hb hcontest hina hinb
    rw [h.olympUsers] at huser
    rw [h.competitors] at ha hb
    obtain ⟨haold, hanew⟩ := isMember_creates h hina
    obtain ⟨hbold, hbnew⟩ := isMember_creates h hinb
    -- a member of the new competitor was in no other
    have htaken : ∀ c ∈ db.competitors, c.contestId = new.contestId → db.isMember user.id c = true →
        user.id ∉ members :=
      fun c hc hof hin hid => by simp [hfree user.id hid c hc hof] at hin
    rcases List.mem_append.mp ha with ha | ha <;> rcases List.mem_append.mp hb with hb | hb
    · exact hone user huser a ha b hb hcontest (haold ha) (hbold hb)
    · have hb := List.mem_singleton.mp hb
      exact absurd (hbnew hb) (htaken a ha (hb ▸ hcontest) (haold ha))
    · have ha := List.mem_singleton.mp ha
      exact absurd (hanew ha) (htaken b hb (ha ▸ hcontest.symm) (hbold hb))
    · rw [List.mem_singleton.mp ha, List.mem_singleton.mp hb]
  | remove id h =>
    refine oneMembership_of_old h.olympUsers (fun p hp => ?_) (fun c hc => ⟨c, ?_, rfl, rfl⟩) hone
    · rw [h.participations] at hp
      exact (List.mem_filter.mp hp).1
    · rw [h.competitors] at hc
      exact (List.mem_filter.mp hc).1
  | flags old new h _ hkeeps => exact oneMembership_replaces h hkeeps.2.2 hone
  | assignLogin old new h _ _ hcontest | removeLogin old new h _ hcontest =>
    exact oneMembership_replaces h hcontest hone

end Changes

/-! ## Lookups -/

/-- The lookups of the pages find one competitor at most, and do not throw. -/
def LookupsSucceed (db : Db) : Prop :=
  ∀ contestId userId, (competitorsWith contestId userId db).length ≤ 1 ∧
    ∃ found, currentCompetitor contestId userId db = .ok found

theorem lookups_of_oneMembership {db : Db} (hone : OneMembership db) : LookupsSucceed db := by
  intro contestId userId
  have hsame : ∀ a ∈ competitorsWith contestId userId db, ∀ b ∈ competitorsWith contestId userId db, a = b := by
    intro a ha b hb
    obtain ⟨hastored, hacontest, hina⟩ := mem_competitorsWith.mp ha
    obtain ⟨hbstored, hbcontest, hinb⟩ := mem_competitorsWith.mp hb
    -- whoever is a member is a user of the site
    obtain ⟨⟨user, huser, rfl⟩, -⟩ := db.members_of _ (isMember_iff.mp hina)
    exact hone user (Db.mem_olympUsers.mpr huser) a hastored b hbstored (hacontest.trans hbcontest.symm) hina hinb
  have hnodup : (competitorsWith contestId userId db).Nodup := (Db.competitor_ids db).of_map.filter _
  unfold currentCompetitor
  rcases hfound : competitorsWith contestId userId db with _ | ⟨a, _ | ⟨b, rest⟩⟩
  · exact ⟨Nat.zero_le 1, none, rfl⟩
  · exact ⟨Nat.le_refl 1, some a.id, rfl⟩
  · rw [hfound] at hsame hnodup
    have hab := hsame a List.mem_cons_self b (List.mem_cons_of_mem _ List.mem_cons_self)
    exact absurd (hab ▸ List.mem_cons_self) (List.nodup_cons.mp hnodup).1

/-! ## Runs -/

theorem memberships_unique (service : CompetitorManagementService) (db : Db) (h : OneMembership db) (es : List Ev) :
    Always (step service) (fun s => OneMembership s.db ∧ LookupsSucceed s.db) (init db) es :=
  (always_kept service (fun _ _ => oneMembership_change) h es).mono fun _ hone => ⟨hone, lookups_of_oneMembership hone⟩

/-- Two registrations of a user for one contest at a time. -/
def registerTwice : List Ev :=
  [.call (.registerTeam 2 1 1 "Team" ["1", "a", "b"]), .call (.registerTeam 2 1 1 "Again" ["c", "+1", "d"]),
    .advance 1 (calm 0), .advance 0 (calm 0)]

theorem sample_memberships :
    (final (step sampleService) (init sampleDb) registerTwice).db.competitors.map
    (fun c => c.name) = ["Team", "Again"] ∧
      Always (step sampleService) (fun s => OneMembership s.db ∧ LookupsSucceed s.db) (init sampleDb) registerTwice :=
  ⟨by decide +kernel, memberships_unique sampleService sampleDb (by decide) registerTwice⟩

end OlympSystem.Site.Accounts.CompetitorManagement
