/-
  Lib.Runs — runs of a deterministic step function over labelled events.

  `step s e` is the state after event `e`, or `none` when `e` is not enabled in `s`.
  The run of a list of events from `s` takes them in order and stops at the first one
  that is not enabled, so every list of events is a run and nothing about a run has
  to be assumed.

  - `final`: the state a run ends in.
  - `Always Q`: `Q` holds in every state of the run, the first included.
  - `Along P`: `P s e s'` holds of every step the run takes.
  - `count P`: how many steps of the run meet `P`.
  - `Takes`: the steps that a run takes, with the states before and after.

  Proved:
  - `always_of_inv`: an invariant that implies `Q` makes `Always Q`.
  - `always_under` / `along_under`: the same for an invariant that steps keep only
    between states of which an assumption `T` holds throughout the run.
  - `along_of_inv`: what an invariant gives of each step.
  - `always_of_takes` / `always_of_mem`: an invariant that the steps (or the events) of a run
    keep holds throughout it.
  - `always_along` / `always_both`: an invariant kept by the steps that meet a condition
    holds throughout the runs whose steps all meet it.
  - `always_iff_along`: where a step keeps `Q` exactly when `P` holds of it, `Q` holds
    throughout a run exactly when `P` holds along it.
  - `final_of_count`: a number that grows by one at the steps that meet `P`, and stays at
    the others, has grown by their count.
  - `count_le_measure`: the steps of a kind are no more than a measure that each of them
    makes smaller.
-/

namespace Lib.Runs

variable {S E : Type} (step : S → E → Option S)

/-- The state the run of `es` from `s` ends in. -/
def final : S → List E → S
  | s, [] => s
  | s, e :: es =>
    match step s e with
    | none => s
    | some s' => final s' es

def Always (Q : S → Prop) : S → List E → Prop
  | s, [] => Q s
  | s, e :: es => Q s ∧
    match step s e with
    | none => True
    | some s' => Always Q s' es

def Along (P : S → E → S → Prop) : S → List E → Prop
  | _, [] => True
  | s, e :: es =>
    match step s e with
    | none => True
    | some s' => P s e s' ∧ Along P s' es

instance decidableAlways (Q : S → Prop) [DecidablePred Q] : ∀ s es, Decidable (Always step Q s es)
  | s, [] => inferInstanceAs (Decidable (Q s))
  | s, e :: es => by
    unfold Always
    exact match step s e with
      | none => inferInstanceAs (Decidable (Q s ∧ True))
      | some s' => @instDecidableAnd _ _ inferInstance (decidableAlways Q s' es)

instance decidableAlong (P : S → E → S → Prop) [∀ s e s', Decidable (P s e s')] : ∀ s es, Decidable (Along step P s es)
  | _, [] => inferInstanceAs (Decidable True)
  | s, e :: es => by
    unfold Along
    exact match step s e with
      | none => inferInstanceAs (Decidable True)
      | some s' => @instDecidableAnd _ _ inferInstance (decidableAlong P s' es)

def count (P : S → E → S → Bool) : S → List E → Nat
  | _, [] => 0
  | s, e :: es =>
    match step s e with
    | none => 0
    | some s' => (if P s e s' then 1 else 0) + count P s' es

/-- The run of `es` from `s₀` takes the step of `e` from `s` to `s'`. -/
inductive Takes : S → List E → S → E → S → Prop where
  | here {s s' : S} {e : E} {es : List E} (h : step s e = some s') : Takes s (e :: es) s e s'
  | later {s₀ s₁ s s' : S} {e₀ e : E} {es : List E} (h : step s₀ e₀ = some s₁) (hrest : Takes s₁ es s e s') :
      Takes s₀ (e₀ :: es) s e s'

variable {step}

theorem Takes.mem {s₀ s s' : S} {es : List E} {e : E} (h : Takes step s₀ es s e s') : e ∈ es := by
  induction h with
  | here => exact List.mem_cons_self
  | later _ _ ih => exact List.mem_cons_of_mem _ ih

theorem Takes.enabled {s₀ s s' : S} {es : List E} {e : E} (h : Takes step s₀ es s e s') : step s e = some s' := by
  induction h with
  | here h => exact h
  | later _ _ ih => exact ih

@[simp] theorem final_nil (s : S) : final step s [] = s := rfl

theorem Always.head {Q : S → Prop} {s : S} {es : List E} (h : Always step Q s es) : Q s := by
  cases es with
  | nil => exact h
  | cons e es => exact h.1

theorem Always.tail {Q : S → Prop} {s s' : S} {e : E} {es : List E} (h : Always step Q s (e :: es))
    (hs : step s e = some s') : Always step Q s' es := by
  have := h.2; rw [hs] at this; exact this

theorem Always.last {Q : S → Prop} : ∀ {es : List E} {s : S}, Always step Q s es → Q (final step s es) := by
  intro es
  induction es with
  | nil => intro s h; exact h
  | cons e es ih =>
    intro s h
    unfold final
    split
    · exact h.head
    · exact ih (h.tail ‹_›)

theorem Always.mono {Q Q' : S → Prop} (hQ : ∀ s, Q s → Q' s) :
    ∀ {es : List E} {s : S}, Always step Q s es → Always step Q' s es := by
  intro es
  induction es with
  | nil => intro s h; exact hQ s h
  | cons e es ih =>
    intro s h
    refine ⟨hQ s h.head, ?_⟩
    split
    · trivial
    · exact ih (h.tail ‹_›)

/-! ## The invariant rules -/

/-- The rule under an assumption: steps keep `I` between states where `T` holds. -/
theorem always_under {I T : S → Prop} (hstep : ∀ s e s', I s → T s → T s' → step s e = some s' → I s') :
    ∀ {es : List E} {s : S}, I s → Always step T s es → Always step I s es := by
  intro es
  induction es with
  | nil => intro s hI _; exact hI
  | cons e es ih =>
    intro s hI hT
    refine ⟨hI, ?_⟩
    split
    · trivial
    · rename_i s' hs
      exact ih (hstep s e s' hI hT.head (hT.tail hs).head hs) (hT.tail hs)

/-- What holds of each step taken from a state of an invariant, under an assumption. -/
theorem along_under {I T : S → Prop} {P : S → E → S → Prop}
    (hP : ∀ s e s', I s → T s → T s' → step s e = some s' → P s e s') :
    ∀ {es : List E} {s : S}, Always step I s es → Always step T s es → Along step P s es := by
  intro es
  induction es with
  | nil => intro _ _ _; trivial
  | cons e es ih =>
    intro s hI hT
    unfold Along
    split
    · trivial
    · rename_i s' hs
      exact ⟨hP s e s' hI.head hT.head (hT.tail hs).head hs, ih (hI.tail hs) (hT.tail hs)⟩

theorem always_true : ∀ (es : List E) (s : S), Always step (fun _ => True) s es := by
  intro es
  induction es with
  | nil => intro _; trivial
  | cons e es ih =>
    intro s
    refine ⟨trivial, ?_⟩
    split
    · trivial
    · exact ih _

theorem always_of_inv {I : S → Prop} (hstep : ∀ s e s', I s → step s e = some s' → I s') {s : S} (hs : I s)
    (es : List E) : Always step I s es :=
  always_under (fun s e s' hI _ _ => hstep s e s' hI) hs (always_true es s)

theorem along_of_inv {I : S → Prop} {P : S → E → S → Prop} (hP : ∀ s e s', I s → step s e = some s' → P s e s')
    {s : S} {es : List E} (h : Always step I s es) : Along step P s es :=
  along_under (fun s e s' hI _ _ => hP s e s' hI) h (always_true es s)

/-- The rule for an invariant that is kept by the steps which the run takes. -/
theorem always_of_takes {I : S → Prop} : ∀ {es : List E} {s : S},
    (∀ t e t', Takes step s es t e t' → I t → I t') → I s → Always step I s es := by
  intro es
  induction es with
  | nil => intro s _ hI; exact hI
  | cons e es ih =>
    intro s hstep hI
    refine ⟨hI, ?_⟩
    split
    · trivial
    · rename_i s' hs
      exact ih (fun t e' t' ht => hstep t e' t' (.later hs ht)) (hstep s e s' (.here hs) hI)

/-- The rule for an invariant that is kept by the events of the run. -/
theorem always_of_mem {I : S → Prop} {es : List E} (hstep : ∀ s e s', e ∈ es → I s → step s e = some s' → I s')
    {s : S} (hs : I s) : Always step I s es :=
  always_of_takes (fun t e t' ht hI => hstep t e t' ht.mem hI ht.enabled) hs

/-- The rule for runs whose steps all meet `P`. -/
theorem always_along {I : S → Prop} {P : S → E → S → Prop}
    (hstep : ∀ s e s', I s → P s e s' → step s e = some s' → I s') :
    ∀ {es : List E} {s : S}, I s → Along step P s es → Always step I s es := by
  intro es
  induction es with
  | nil => intro s hI _; exact hI
  | cons e es ih =>
    intro s hI hP
    refine ⟨hI, ?_⟩
    split
    · trivial
    · rename_i s' hs
      unfold Along at hP
      rw [hs] at hP
      exact ih (hstep s e s' hI hP.1 hs) hP.2

/-- The rule for runs whose steps all meet `P`, from states of which `T` holds. -/
theorem always_both {I T : S → Prop} {P : S → E → S → Prop}
    (hstep : ∀ s e s', I s → T s → P s e s' → step s e = some s' → I s') :
    ∀ {es : List E} {s : S}, I s → Always step T s es → Along step P s es → Always step I s es := by
  intro es
  induction es with
  | nil => intro s hI _ _; exact hI
  | cons e es ih =>
    intro s hI hT hP
    refine ⟨hI, ?_⟩
    split
    · trivial
    · rename_i s' hs
      unfold Along at hP
      rw [hs] at hP
      exact ih (hstep s e s' hI hT.head hP.1 hs) (hT.tail hs) hP.2

/-- The exactness rule: if from a state of the invariant a step keeps `Q` exactly when
    `P` holds of it, then `Q` holds throughout a run exactly when `P` holds along it. -/
theorem always_iff_along {I Q : S → Prop} {P : S → E → S → Prop} (hI : ∀ s e s', I s → step s e = some s' → I s')
    (hQ : ∀ s e s', I s → Q s → step s e = some s' → (Q s' ↔ P s e s')) :
    ∀ {es : List E} {s : S}, I s → Q s → (Always step Q s es ↔ Along step P s es) := by
  intro es
  induction es with
  | nil => intro s _ hs; exact ⟨fun _ => trivial, fun _ => hs⟩
  | cons e es ih =>
    intro s hi hs
    unfold Always Along
    split
    · exact ⟨fun _ => trivial, fun _ => ⟨hs, trivial⟩⟩
    · rename_i s' he
      have hq := hQ s e s' hi hs he
      constructor
      · rintro ⟨-, h⟩
        exact ⟨hq.mp h.head, (ih (hI s e s' hi he) h.head).mp h⟩
      · rintro ⟨hp, h⟩
        have hs' := hq.mpr hp
        exact ⟨hs, (ih (hI s e s' hi he) hs').mpr h⟩

/-- The counting rule: in a run that keeps `I`, a number that grows by one at the steps that
    meet `P` has grown by their count. -/
theorem final_of_count {I : S → Prop} {P : S → E → S → Bool} {f : S → Nat}
    (hstep : ∀ s e s', I s → step s e = some s' → f s' = f s + if P s e s' then 1 else 0) :
    ∀ {es : List E} {s : S}, Always step I s es → f (final step s es) = f s + count step P s es := by
  intro es
  induction es with
  | nil => intro s _; rfl
  | cons e es ih =>
    intro s h
    unfold final count
    split
    · rfl
    · rename_i s' hs
      rw [ih (h.tail hs), hstep s e s' h.head hs]
      omega

/-- The bounding rule: in a run of events of a kind, the steps that meet `P` are no more than
    a measure that falls with each of them and does not grow with the others. -/
theorem count_le_measure {I : S → Prop} {K : E → Prop} {P : S → E → S → Bool} {m : S → Nat}
    (hstep : ∀ s e s', I s → K e → step s e = some s' → I s' ∧ m s' + (if P s e s' then 1 else 0) ≤ m s) :
    ∀ {es : List E} {s : S}, I s → (∀ e ∈ es, K e) → count step P s es ≤ m s := by
  intro es
  induction es with
  | nil => intro s _ _; exact Nat.zero_le _
  | cons e es ih =>
    intro s hI hK
    unfold count
    split
    · exact Nat.zero_le _
    · rename_i s' hs
      obtain ⟨hI', hle⟩ := hstep s e s' hI (hK e List.mem_cons_self) hs
      have := ih hI' fun e' he => hK e' (List.mem_cons_of_mem _ he)
      omega

/-! ## Point updates of a function -/

def upd {ι α : Type} [DecidableEq ι] (f : ι → α) (i : ι) (v : α) : ι → α := fun j => if j = i then v else f j

@[simp] theorem upd_same {ι α : Type} [DecidableEq ι] (f : ι → α) (i : ι) (v : α) : upd f i v i = v := by simp [upd]

@[simp] theorem upd_ne {ι α : Type} [DecidableEq ι] (f : ι → α) {i j : ι} (v : α) (h : j ≠ i) :
    upd f i v j = f j := by simp [upd, h]

end Lib.Runs
