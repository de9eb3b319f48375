/-
  OlympSystem.Site.QueueLedger — what the queue owes and what it has paid.

  A submission that is queued or claimed is owed one check result. A claim and a failed
  check leave the debt; the save of a returned check pays it; a retest that finds the
  submission judged makes a new one.

  `balance`: the results a submission has and the one it is owed.

  Proved:
  - `balance_step`: a step changes the balance of a submission only by a retest of it.
  - `results_ledger`: in every timely run, the results and the debt of a submission are
    those it began with and one for each time it was queued again. No result is lost and
    none is doubled, for any number of checkers, imports, retests and failures.
  - `a_late_save_pays_twice`: two overlapping checks of one debt leave two results.
-/

import OlympSystem.Site.ExclusiveJudging
import OlympSystem.Site.ResultAgreement

namespace OlympSystem.Site.QueueLedger

open Lib.Runs Lib.Tables OlympSystem.Checker CheckerManager Queue ExclusiveJudging

/-- Queued or claimed. -/
def isOpen (x : SubmissionRow) : Bool := x.statusCode == 0 || x.statusCode == 1

def results (db : Db) (id : Int) : Nat := db.checkResults.countP (·.submissionId == id)

/-- What the submission is owed. -/
def owed (db : Db) (id : Int) : Nat := if (db.submissions.find? id).any isOpen then 1 else 0

def balance (db : Db) (id : Int) : Nat := results db id + owed db id

/-- The submissions a plan queues again, if they are judged. -/
def requeues : Plan → SubmissionRow → Bool
  | .import _, _ => false
  | .retest problemId exceptAccepted, x => retested problemId exceptAccepted x
  | .retestCompilationErrors problemIds, x => hasCompilationError problemIds x

/-- The step queues the submission again. -/
def Requeues (id : Int) (s : St) (e : Ev) (_ : St) : Bool :=
  match e with
  | .commit a =>
    match s.call a with
    | .ready plan => (s.db.submissions.find? id).any fun x => requeues plan x
    | _ => false
  | _ => false

variable {deployment : Deployment}

/-! ## Writes -/

/-- An update of the submissions, as the lookup of one of them sees it. -/
theorem find?_updateSubmissions (db : Db) (u : SubmissionUpdate) (id : Int) :
    (db.updateSubmissions u).submissions.find? id = (db.submissions.find? id).map u.apply :=
  Table.find?_update db.submissions u.toUpdate id

theorem owed_update {db : Db} {u : SubmissionUpdate} {id : Int}
    (h : ∀ x, db.submissions.find? id = some x → isOpen (u.apply x) = isOpen x) :
    owed (db.updateSubmissions u) id = owed db id := by
  unfold owed
  rw [find?_updateSubmissions]
  cases hx : db.submissions.find? id with
  | none => rfl
  | some x => simp only [Option.map_some, Option.any_some, h x hx]

theorem owed_claim (db : Db) (loaded : Loaded) (span now id : Int) :
    owed (db.updateSubmissions ((claimUpdate now).restrict (isClaimed loaded span))) id = owed db id := by
  refine owed_update fun x _ => ?_
  rw [SubmissionUpdate.restrict_apply]
  split
  · next hclaimed =>
    simp only [isClaimed, isPending, Bool.and_eq_true, beq_iff_eq, Bool.or_eq_true, decide_eq_true_eq] at hclaimed
    rcases hclaimed.2 with h0 | ⟨h1, -⟩
    · simp [isOpen, claimUpdate, h0]
    · simp [isOpen, claimUpdate, h1]
  · rfl

/-- A judged submission that a plan queues again was not open. -/
theorem requeues_judged {plan : Plan} {x : SubmissionRow} (h : requeues plan x = true) : isOpen x = false := by
  cases plan with
  | «import» tracker => cases h
  | retest problemId exceptAccepted =>
    simp only [requeues, retested, Bool.and_eq_true, bne_iff_ne] at h
    simp [isOpen, h.1.1.2, h.1.2]
  | retestCompilationErrors problemIds =>
    simp only [requeues, hasCompilationError, Bool.and_eq_true, decide_eq_true_eq] at h
    have hcode := makeStatusCode_ne h.2
    simp [isOpen, hcode.1, hcode.2]

/-- The write of a plan queues what the plan selects and leaves the rest. -/
theorem find?_write (db : Db) (now : Int) (plan : Plan) (id : Int) :
    (plan.write db now).submissions.find? id =
      (db.submissions.find? id).map fun x => if requeues plan x then (requeue now).apply x else x := by
  cases plan with
  | «import» tracker =>
    unfold Plan.write
    rw [(ImportLaw.saveChanges_same db tracker).submissions]
    simp [requeues]
  | retest problemId exceptAccepted => exact find?_updateSubmissions db _ id
  | retestCompilationErrors problemIds => exact find?_updateSubmissions db _ id

theorem balance_commit (db : Db) (now : Int) (plan : Plan) (id : Int) :
    balance (plan.write db now) id =
      balance db id + if (db.submissions.find? id).any (requeues plan) then 1 else 0 := by
  unfold balance results owed
  rw [(write_within db now plan).checkResults, find?_write]
  cases db.submissions.find? id with
  | none => simp
  | some x =>
    simp only [Option.map_some, Option.any_some]
    by_cases h : requeues plan x = true
    · have hqueued : isOpen ((requeue now).apply x) = true := rfl
      simp [h, hqueued, requeues_judged h]
    · simp [h]

/-! ## The save -/

section Save

variable {db : Db} {check : Check}

theorem find?_saveChanges (check : Check) (db : Db) (id : Int) :
    (check.saveChanges db).submissions.find? id =
      (db.submissions.find? id).map fun x => if x.id = check.original.id then check.write x else x := by
  have hupdate : (check.saveChanges db).submissions =
      (db.updateSubmissions (check.writeUpdate.restrict (·.id == check.original.id))).submissions := by
    unfold Check.saveChanges
    cases check.result <;> rfl
  rw [hupdate, find?_updateSubmissions]
  simp only [funext (ResultAgreement.write_cases check)]

/-- The save leaves the other submissions alone. -/
theorem balance_saveOther {id : Int} (hid : id ≠ check.original.id)
    (hresult : ∀ row, check.result = some row → row.submissionId = check.original.id) :
    balance (check.saveChanges db) id = balance db id := by
  have howed : owed (check.saveChanges db) id = owed db id := by
    unfold owed
    rw [find?_saveChanges]
    cases hx : db.submissions.find? id with
    | none => rfl
    | some x =>
      have hne : x.id ≠ check.original.id := by rw [(Table.find?_some hx).2]; exact hid
      simp [hne]
  have hresults : results (check.saveChanges db) id = results db id := by
    unfold Check.saveChanges
    cases hrow : check.result with
    | none => rfl
    | some row =>
      have hne : (row.submissionId == id) = false := beq_eq_false_iff_ne.mpr fun e => hid (e ▸ hresult row hrow)
      show (db.checkResults ++ [row]).countP (·.submissionId == id) = db.checkResults.countP (·.submissionId == id)
      simp [hne]
  unfold balance
  rw [howed, hresults]

/-- The save of a failed check leaves the debt, that of a returned one pays it. -/
theorem balance_save (hmarked : Marked db check) (ha : Attached check) (hended : Ended deployment check) (id : Int) :
    balance (check.saveChanges db) id = balance db id := by
  by_cases hid : id = check.original.id
  · subst hid
    obtain ⟨x, hx, hxid, hstatus, -⟩ := hmarked.submission
    have hfind : db.submissions.find? check.original.id = some x := hxid ▸ Table.find?_of_mem hx
    have h1 : check.original.statusCode = 1 := by rw [ha.original]
    have hopen : isOpen x = true := by simp [isOpen, hstatus]
    unfold balance owed
    rw [find?_saveChanges, hfind]
    simp only [Option.map_some, Option.any_some, hxid, if_true, hopen]
    rcases hended with hf | ⟨row, hrow⟩
    · have hwrite : (check.write x).statusCode = 0 := by
        simp only [Check.write, saved, hf.statusCode, h1]
        rfl
      have hsame : results (check.saveChanges db) check.original.id = results db check.original.id := by
        unfold Check.saveChanges
        rw [hf.result]
        rfl
      simp [hsame, isOpen, hwrite]
    · have hwrite : (check.write x).statusCode = row.statusCode := by
        have hne : ¬row.statusCode = check.original.statusCode := by rw [h1]; exact hrow.code.2
        simp only [Check.write, saved, hrow.statusCode, if_neg hne]
      have hmore : results (check.saveChanges db) check.original.id = results db check.original.id + 1 := by
        unfold Check.saveChanges
        rw [hrow.result]
        show (db.checkResults ++ [row]).countP (·.submissionId == check.original.id) = _
        simp [results, hrow.submission]
      simp [hmore, isOpen, hwrite, hrow.code.1, hrow.code.2]
  · refine balance_saveOther hid fun row hrow => ?_
    rcases hended with hf | ⟨row', hrow'⟩
    · rw [hf.result] at hrow
      cases hrow
    · rw [hrow'.result] at hrow
      cases hrow
      exact hrow'.submission

end Save

/-! ## Runs -/

theorem balance_step {s s' : St} {e : Ev} (h : Inv deployment s) (hs : step deployment s e = some s') (id : Int) :
    balance s'.db id = balance s.db id + if Requeues id s e s' then 1 else 0 := by
  rcases step_writes hs with hw | ⟨hdb, hnot⟩
  · generalize s'.db = db at hw
    cases hw with
    | claim a checker loaded span at_ _ _ =>
      unfold balance
      rw [owed_claim]
      rfl
    | save a check hc =>
      have hshape := h.shape a
      have hmarked := h.marked a check (by rw [hc]; rfl)
      rw [hc] at hshape
      exact balance_save hmarked hshape.1 hshape.2 id
    | commit a plan hc =>
      simp only [Requeues, hc]
      exact balance_commit s.db s.now plan id
  · rw [hdb]
    cases e with
    | commit a => exact absurd rfl (hnot a).2
    | _ => rfl

/-- In every run from every database, with any checkers, imports and retests, in which no
    check is in flight two minutes after its claim: the results and the debt of a
    submission grow by one each time a retest queues it again, and by nothing else. -/
theorem results_ledger (deployment : Deployment) (db : Db) (now : Int) (es : List Ev) (id : Int)
    (h : Always (step deployment) Timely (init db now) es) :
    balance (final (step deployment) (init db now) es).db id =
      balance db id + count (step deployment) (Requeues id) (init db now) es := by
  have hinv : Always (step deployment) (Inv deployment) (init db now) es :=
    always_under (fun _ _ _ hi ht _ hs => inv_step hi ht hs) (inv_init deployment db now) h
  refine final_of_count (f := fun s => balance s.db id) ?_ hinv
  intro s e s' hi hs
  exact balance_step hi hs id

/-- A check fails, the next one returns, and the problem is retested and checked again. -/
def failThenRetest : List Ev :=
  claimed 0 ++ [.abort 0, .stamp 0, .enter 0, .save 0, .leave 0] ++ claimed 1 ++ checked 1 .completed ++
    [.retestAsync 1 1 false, .enter 2, .prepare 2, .commit 2, .leave 2] ++ claimed 3 ++ checked 3 .totalTimeLimit

theorem sample_ledger :
    let s := final (step sampleDeployment) (init sampleDb 0) failThenRetest
    (results s.db 1 = 2 ∧ owed s.db 1 = 0 ∧ balance sampleDb 1 = 1) ∧
      balance s.db 1 =
        balance sampleDb 1 + count (step sampleDeployment) (Requeues 1) (init sampleDb 0) failThenRetest :=
  ⟨by decide +kernel, results_ledger sampleDeployment sampleDb 0 failThenRetest 1 (by decide +kernel)⟩

/-- A check that outlives its claim is paid for beside the one that took its submission. -/
theorem a_late_save_pays_twice :
    let s := final (step sampleDeployment) (init sampleDb 0) ResultAgreement.lateSave
    results s.db 1 = 2 ∧ balance sampleDb 1 = 1 ∧
      count (step sampleDeployment) (Requeues 1) (init sampleDb 0) ResultAgreement.lateSave = 0 := by
  decide +kernel

end OlympSystem.Site.QueueLedger
