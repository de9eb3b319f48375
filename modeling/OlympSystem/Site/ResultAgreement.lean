/-
  OlympSystem.Site.ResultAgreement — the result in a submission's row against the check
  result that was saved last for it.

  A save writes the columns of the submission that differ from what was read when it was
  claimed. When two checks of one submission overlap (the second claimed it after two
  minutes), the second one leaves out a column whose value it does not change, and the
  row keeps what the first one wrote there.

  `Agree`: every submission that is neither queued nor claimed and was judged in the run
  has the status, the score and the per-test results of its last check result.

  Proved:
  - `agree_iff_unchanged`: in every run, results agree in every state exactly when every
    save of a returned check finds in the row what the check read at its claim, in each
    column that it leaves out.
  - `a_late_save_mixes_results`: two overlapping checks leave the score of the first one
    with the status of the second one.
-/

import OlympSystem.Site.Queue

namespace OlympSystem.Site.ResultAgreement

open Lib.Runs Lib.Tables Lib.Query OlympSystem.Checker CheckerManager Queue ImportLaw

/-- The check result saved last for a submission, less the first `n` of the table. -/
def lastResult (n : Nat) (results : List CheckResultRow) (id : Int) : Option CheckResultRow :=
  lastOrDefault ((results.drop n).filter (·.submissionId == id))

def RowAgrees (n : Nat) (results : List CheckResultRow) (x : SubmissionRow) : Prop :=
  x.statusCode ≠ 0 → x.statusCode ≠ 1 → ∀ row ∈ lastResult n results x.id,
    x.statusCode = row.statusCode ∧ x.score = row.score ∧ x.scoresByTest = row.testResults

instance (n : Nat) (results : List CheckResultRow) (x : SubmissionRow) : Decidable (RowAgrees n results x) :=
  inferInstanceAs (Decidable (x.statusCode ≠ 0 → x.statusCode ≠ 1 → ∀ row ∈ lastResult n results x.id,
    x.statusCode = row.statusCode ∧ x.score = row.score ∧ x.scoresByTest = row.testResults))

def Agree (n : Nat) (s : St) : Prop := ∀ x ∈ s.db.submissions.rows, RowAgrees n s.db.checkResults x

instance (n : Nat) (s : St) : Decidable (Agree n s) :=
  inferInstanceAs (Decidable (∀ x ∈ s.db.submissions.rows, RowAgrees n s.db.checkResults x))

/-- A column that the save leaves out holds what was read at the claim. -/
def Unchanged {α : Type} (original current stored : α) : Prop := current = original → stored = original

/-- The save of a returned check finds the columns it leaves out unchanged. -/
def SavesAll (s : St) : Ev → St → Prop
  | .save a, _ => ∀ check ∈ (s.call a).inFlight, check.result ≠ none →
      ∀ x ∈ s.db.submissions.rows, x.id = check.original.id →
        Unchanged check.original.score check.current.score x.score ∧
          Unchanged check.original.scoresByTest check.current.scoresByTest x.scoresByTest
  | _, _ => True

variable {deployment : Deployment} {n : Nat}

/-! ## Writes that leave the agreement alone -/

/-- An update that only queues or claims submissions. -/
theorem agree_update {db : Db} (u : SubmissionUpdate)
    (hu : ∀ x, u.apply x = x ∨ (u.apply x).statusCode = 0 ∨ (u.apply x).statusCode = 1)
    (h : ∀ x ∈ db.submissions.rows, RowAgrees n db.checkResults x) :
    ∀ x ∈ (db.updateSubmissions u).submissions.rows, RowAgrees n db.checkResults x := by
  intro x hx
  obtain ⟨y, hy, rfl⟩ := List.mem_map.mp hx
  rcases hu y with e | e | e
  · rw [e]; exact h y hy
  · intro h0; exact absurd e h0
  · intro _ h1; exact absurd e h1

theorem restrict_cases (u : SubmissionUpdate) (p : SubmissionRow → Bool) (x : SubmissionRow) :
    (u.restrict p).apply x = x ∨ (u.restrict p).apply x = u.apply x := by
  rw [SubmissionUpdate.restrict_apply]
  split
  · exact Or.inr rfl
  · exact Or.inl rfl

theorem agree_claim {db : Db} (now : Int) (p : SubmissionRow → Bool)
    (h : ∀ x ∈ db.submissions.rows, RowAgrees n db.checkResults x) :
    ∀ x ∈ (db.updateSubmissions ((claimUpdate now).restrict p)).submissions.rows, RowAgrees n db.checkResults x :=
  agree_update _ (fun x => (restrict_cases (claimUpdate now) p x).imp id fun e => Or.inr (by rw [e]; rfl)) h

theorem agree_requeue {db : Db} (now : Int) (p : SubmissionRow → Bool)
    (h : ∀ x ∈ db.submissions.rows, RowAgrees n db.checkResults x) :
    ∀ x ∈ (db.updateSubmissions ((requeue now).restrict p)).submissions.rows, RowAgrees n db.checkResults x :=
  agree_update _ (fun x => (restrict_cases (requeue now) p x).imp id fun e => Or.inl (by rw [e]; rfl)) h

theorem agree_commit {db : Db} (now : Int) (plan : Plan)
    (h : ∀ x ∈ db.submissions.rows, RowAgrees n db.checkResults x) :
    ∀ x ∈ (plan.write db now).submissions.rows, RowAgrees n (plan.write db now).checkResults x := by
  cases plan with
  | «import» tracker =>
    have hsame := saveChanges_same db tracker
    unfold Plan.write
    rw [hsame.submissions, hsame.checkResults]
    exact h
  | retest problemId exceptAccepted => exact agree_requeue now _ h
  | retestCompilationErrors problemIds => exact agree_requeue now _ h

/-! ## The save -/

theorem lastResult_append {results : List CheckResultRow} (hn : n ≤ results.length) (row : CheckResultRow) (id : Int) :
    lastResult n (results ++ [row]) id = if row.submissionId = id then some row else lastResult n results id := by
  unfold lastResult lastOrDefault
  rw [List.drop_append_of_le_length hn, List.filter_append, List.filter_singleton]
  by_cases h : row.submissionId = id
  · rw [beq_iff_eq.mpr h, if_pos h, cond_true, List.getLast?_concat]
  · rw [beq_eq_false_iff_ne.mpr h, if_neg h, cond_false, List.append_nil]

/-- The row of a check after its save. -/
theorem write_cases (check : Check) (x : SubmissionRow) :
    (check.writeUpdate.restrict (·.id == check.original.id)).apply x =
      if x.id = check.original.id then check.write x else x := by
  rw [SubmissionUpdate.restrict_apply]
  simp only [beq_iff_eq]
  rfl

theorem agree_saveFailed {db : Db} {check : Check} (ha : Attached check) (hf : Failed check)
    (h : ∀ x ∈ db.submissions.rows, RowAgrees n db.checkResults x) :
    ∀ x ∈ (check.saveChanges db).submissions.rows, RowAgrees n (check.saveChanges db).checkResults x := by
  unfold Check.saveChanges
  rw [hf.result]
  refine agree_update _ (fun x => ?_) h
  rw [write_cases]
  split
  · refine Or.inr (Or.inl ?_)
    have h1 : check.original.statusCode = 1 := by rw [ha.original]
    simp only [Check.write, saved, hf.statusCode, h1]
    rfl
  · exact Or.inl rfl

/-- The save of a returned check keeps the agreement exactly when it finds unchanged what
    it leaves out. -/
theorem agree_saveSucceeded {db : Db} {check : Check} {row : CheckResultRow} (hn : n ≤ db.checkResults.length)
    (ha : Attached check) (hs : Succeeded deployment check row)
    (h : ∀ x ∈ db.submissions.rows, RowAgrees n db.checkResults x) :
    (∀ x ∈ (check.saveChanges db).submissions.rows, RowAgrees n (check.saveChanges db).checkResults x) ↔
      ∀ x ∈ db.submissions.rows, x.id = check.original.id →
        Unchanged check.original.score check.current.score x.score ∧
          Unchanged check.original.scoresByTest check.current.scoresByTest x.scoresByTest := by
  have hrows : (check.saveChanges db).submissions.rows =
      db.submissions.rows.map fun x => if x.id = check.original.id then check.write x else x := by
    unfold Check.saveChanges
    rw [hs.result]
    exact List.map_congr_left fun x _ => write_cases check x
  have hresults : (check.saveChanges db).checkResults = db.checkResults ++ [row] := by
    unfold Check.saveChanges
    rw [hs.result]; rfl
  rw [hrows, hresults, List.forall_mem_map]
  refine forall₂_congr fun x hx => ?_
  by_cases hid : x.id = check.original.id
  · rw [if_pos hid]
    have hwid : (check.write x).id = check.original.id := hid
    have h1 : check.original.statusCode = 1 := by rw [ha.original]
    have hcode : (check.write x).statusCode = row.statusCode := by
      have hne : ¬row.statusCode = check.original.statusCode := by rw [h1]; exact hs.code.2
      simp only [Check.write, saved, hs.statusCode, if_neg hne]
    unfold RowAgrees
    rw [hcode, hwid, lastResult_append hn, if_pos hs.submission]
    have hscore : (check.write x).score = row.score ↔ Unchanged check.original.score check.current.score x.score := by
      rw [← hs.score]; exact saved_eq_current
    have htests : (check.write x).scoresByTest = row.testResults ↔
        Unchanged check.original.scoresByTest check.current.scoresByTest x.scoresByTest := by
      rw [← hs.scoresByTest]; exact saved_eq_current
    constructor
    · intro hagree _
      obtain ⟨-, h2, h3⟩ := hagree hs.code.1 hs.code.2 row rfl
      exact ⟨hscore.mp h2, htests.mp h3⟩
    · intro hunchanged _ _ row' hrow'
      cases hrow'
      exact ⟨rfl, hscore.mpr (hunchanged hid).1, htests.mpr (hunchanged hid).2⟩
  · rw [if_neg hid]
    have hother : ¬row.submissionId = x.id := fun e => hid (by rw [← e, hs.submission])
    have hx' := h x hx
    unfold RowAgrees at hx' ⊢
    rw [lastResult_append hn, if_neg hother]
    exact ⟨fun _ e => absurd e hid, fun _ => hx'⟩

/-! ## Runs -/

/-- What the steps keep: every check as its point says, and no check result lost. -/
def Inv (deployment : Deployment) (n : Nat) (s : St) : Prop :=
  (∀ a, Shape deployment (s.call a)) ∧ n ≤ s.db.checkResults.length

theorem results_grow {s s' : St} {e : Ev} (hs : step deployment s e = some s') :
    s.db.checkResults.length ≤ s'.db.checkResults.length := by
  rcases step_writes hs with hw | ⟨hdb, -⟩
  · generalize s'.db = db' at hw
    cases hw with
    | claim => exact Nat.le_refl _
    | save a check _ =>
      unfold Check.saveChanges
      cases check.result with
      | none => exact Nat.le_refl _
      | some row =>
        show _ ≤ (s.db.checkResults ++ [row]).length
        rw [List.length_append]; omega
    | commit a plan _ => rw [(write_within s.db s.now plan).checkResults]
  · rw [hdb]

theorem inv_step {s s' : St} {e : Ev} (h : Inv deployment n s) (hs : step deployment s e = some s') :
    Inv deployment n s' :=
  ⟨shape_step h.1 hs, h.2.trans (results_grow hs)⟩

theorem agree_step {s s' : St} {e : Ev} (hi : Inv deployment n s) (h : Agree n s)
    (hs : step deployment s e = some s') : Agree n s' ↔ SavesAll s e s' := by
  unfold Agree at h ⊢
  rcases step_writes hs with hw | ⟨hdb, hnot⟩
  · generalize s'.db = db' at hw
    cases hw with
    | claim a checker loaded span at_ _ _ => exact iff_of_true (agree_claim at_ _ h) trivial
    | commit a plan _ => exact iff_of_true (agree_commit s.now plan h) trivial
    | save a check hc =>
      have hshape := hi.1 a
      rw [hc] at hshape
      obtain ⟨ha, hf | ⟨row, hrow⟩⟩ := hshape
      · refine iff_of_true (agree_saveFailed ha hf h) fun check' hcheck' hresult => ?_
        rw [hc] at hcheck'
        cases hcheck'
        exact absurd hf.result hresult
      · rw [agree_saveSucceeded hi.2 ha hrow h]
        constructor
        · intro hall check' hcheck' _
          rw [hc] at hcheck'
          cases hcheck'
          exact hall
        · intro hall
          exact hall check (by rw [hc]; rfl) (by rw [hrow.result]; exact Option.some_ne_none _)
  · rw [hdb]
    refine iff_of_true h ?_
    cases e with
    | save a => exact absurd rfl (hnot a).1
    | _ => trivial

/-- In every run from every database: results agree throughout exactly when every save of
    a returned check finds unchanged what it leaves out. -/
theorem agree_iff_unchanged (deployment : Deployment) (db : Db) (now : Int) (es : List Ev) :
    Always (step deployment) (Agree db.checkResults.length) (init db now) es ↔
      Along (step deployment) SavesAll (init db now) es := by
  have hinit : Agree db.checkResults.length (init db now) := by
    intro x _ _ _ row hrow
    unfold lastResult at hrow
    simp [init, lastOrDefault] at hrow
  exact always_iff_along (fun s e s' hi hs => inv_step hi hs) (fun s e s' hi h hs => agree_step hi h hs)
    ⟨fun a => shape_init db now a, Nat.le_refl _⟩ hinit

/-! ### Two checks of one submission -/

/-- The first check takes more than two minutes; a second one claims the submission, and
    is saved after it with a compilation error. -/
def lateSave : List Ev :=
  claimed 0 ++ [.tick 1200000001] ++ claimed 1 ++ checked 0 .completed ++ checked 1 .totalTimeLimit

/-- The row has the second check's status with the first check's score and results. -/
theorem a_late_save_mixes_results :
    let s := final (step sampleDeployment) (init sampleDb 0) lateSave
    s.db.submissions.rows.map (fun x => (x.statusCode, x.score, x.scoresByTest)) =
        [(-1, some 30, some "30;WrongAnswer")] ∧
      s.db.checkResults.map (fun row => (row.submissionId, row.statusCode, row.score, row.testResults)) =
        [(1, -1002, some 30, some "30;WrongAnswer"), (1, -1, none, none)] ∧
      ¬Agree 0 s := by
  decide +kernel

end OlympSystem.Site.ResultAgreement
