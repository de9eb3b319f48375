/-
  Lib.Program — asynchronous calls as trees of their awaits.

  A `Prog` is a call that shares fields of type `σ` and a semaphore with other calls and
  sends requests `Q` to a server that answers `A`. Its nodes are what other calls can
  get in between, or what the outside decides: the wait for the semaphore (which can be
  cancelled), a request with its answer or failure, an access to the fields, a look at
  the call's own cancellation. Between two nodes runs ordinary sequential code.

  `andThen` continues a call with its result, whether value or exception: `bind` and
  `finallyRelease` are cases of it.

  `solo p s a` runs `p` alone: the semaphore is free, nothing is cancelled, and the
  `n`-th request is answered by `a n`. `against p s f` runs it alone against a server that
  reads the requests: `f n q` answers `q` as the `n`-th. `May p s o` says that `p` may end in
  `o` when nobody else is at the fields: waits, answers and cancellation are as they come.

  Proved:
  - `solo_andThen`: the solo run of a continued call, and its cases `solo_bind` and
    `solo_finallyRelease`.
  - `solo_answers`: the log of a solo run has the answers of the stream, in order.
  - `against_eq_solo`: a run against a server is a solo run on the answers it got.
  - `may_andThen`: an outcome of a continued call, whatever the outside does, is one of its
    first part and one of what follows; its cases for calls that return.
  - `may_solo`: a solo run is one of the outcomes.
  - `within_bind`: what each part of a call does at most to the fields, the call does.
-/

namespace Lib.Program

inductive Prog (σ ε Q A α : Type) where
  /-- The call returns, or throws. -/
  | ret (result : Except ε α)
  | wait (k : Except ε Unit → Prog σ ε Q A α)
  | release (k : Prog σ ε Q A α)
  | call (request : Q) (k : Except ε A → Prog σ ε Q A α)
  /-- The fields are changed by `f`; `k` gets them as they were. -/
  | access (f : σ → σ) (k : σ → Prog σ ε Q A α)
  /-- Whether the call is cancelled. -/
  | poll (k : Bool → Prog σ ε Q A α)

namespace Prog

variable {σ ε Q A α β : Type}

def andThen (f : Except ε α → Prog σ ε Q A β) : Prog σ ε Q A α → Prog σ ε Q A β
  | .ret r => f r
  | .wait k => .wait fun r => (k r).andThen f
  | .release k => .release (k.andThen f)
  | .call q k => .call q fun r => (k r).andThen f
  | .access g k => .access g fun s => (k s).andThen f
  | .poll k => .poll fun b => (k b).andThen f

def bind (p : Prog σ ε Q A α) (f : α → Prog σ ε Q A β) : Prog σ ε Q A β :=
  p.andThen fun
    | .ok a => f a
    | .error e => .ret (.error e)

instance : Monad (Prog σ ε Q A) where
  pure a := .ret (.ok a)
  bind := bind

def throw (e : ε) : Prog σ ε Q A α := .ret (.error e)

/-- `try { p } finally { Release() }`. -/
def finallyRelease (p : Prog σ ε Q A α) : Prog σ ε Q A α := p.andThen fun r => .release (.ret r)

def waitSemaphore : Prog σ ε Q A Unit := .wait .ret

def request (q : Q) : Prog σ ε Q A A := .call q .ret

def get : Prog σ ε Q A σ := .access id fun s => .ret (.ok s)

def modify (f : σ → σ) : Prog σ ε Q A Unit := .access f fun _ => .ret (.ok ())

def throwIfCancelled (e : ε) : Prog σ ε Q A Unit := .poll fun b => if b then throw e else .ret (.ok ())

def lift (r : Except ε α) : Prog σ ε Q A α := .ret r

/-! ## The solo run -/

structure Outcome (σ ε Q A α : Type) where
  log : List (Q × Except ε A)
  result : Except ε α
  fields : σ

def Outcome.after (log : List (Q × Except ε A)) (o : Outcome σ ε Q A α) : Outcome σ ε Q A α :=
  { o with log := log ++ o.log }

def solo : Prog σ ε Q A α → σ → (Nat → Except ε A) → Outcome σ ε Q A α
  | .ret r, s, _ => ⟨[], r, s⟩
  | .wait k, s, a => solo (k (.ok ())) s a
  | .release k, s, a => solo k s a
  | .call q k, s, a => (solo (k (a 0)) s fun n => a (n + 1)).after [(q, a 0)]
  | .access f k, s, a => solo (k s) (f s) a
  | .poll k, s, a => solo (k false) s a

@[simp] theorem solo_ret (r : Except ε α) (s : σ) (a : Nat → Except ε A) :
    solo (.ret r : Prog σ ε Q A α) s a = ⟨[], r, s⟩ := rfl

@[simp] theorem Outcome.after_after (l m : List (Q × Except ε A)) (o : Outcome σ ε Q A α) :
    (o.after m).after l = o.after (l ++ m) := by simp [Outcome.after]

@[simp] theorem Outcome.after_result (l : List (Q × Except ε A)) (o : Outcome σ ε Q A α) :
    (o.after l).result = o.result := rfl

theorem solo_andThen (f : Except ε α → Prog σ ε Q A β) : ∀ (p : Prog σ ε Q A α) (s : σ) (a : Nat → Except ε A),
    solo (p.andThen f) s a =
      (solo (f (solo p s a).result) (solo p s a).fields fun n => a (n + (solo p s a).log.length)).after
        (solo p s a).log := by
  intro p
  induction p with
  | ret r => intro s a; rfl
  | wait k ih => intro s a; exact ih _ s a
  | release k ih => intro s a; exact ih s a
  | call q k ih =>
    intro s a
    show Outcome.after _ (solo ((k (a 0)).andThen f) s _) = _
    rw [ih]
    simp only [Outcome.after_after]
    have hlen : ∀ n, n + ((solo (k (a 0)) s fun n => a (n + 1)).log.length + 1) =
        n + (solo (k (a 0)) s fun n => a (n + 1)).log.length + 1 := fun n => rfl
    simp only [solo, Outcome.after, List.cons_append, List.nil_append, List.length_cons, hlen]
  | access g k ih => intro s a; exact ih _ _ a
  | poll k ih => intro s a; exact ih _ s a

/-- After a first part that returns, the second goes on with the answers that follow. -/
theorem solo_bind {p : Prog σ ε Q A α} (f : α → Prog σ ε Q A β) {s : σ} {a : Nat → Except ε A} {x : α}
    (h : (solo p s a).result = .ok x) :
    solo (p >>= f) s a =
      (solo (f x) (solo p s a).fields fun n => a (n + (solo p s a).log.length)).after (solo p s a).log := by
  show solo (p.andThen _) s a = _
  rw [solo_andThen, h]

theorem solo_bind_lift {r : Except ε α} (f : α → Prog σ ε Q A β) {s : σ} {a : Nat → Except ε A} {x : α}
    (h : r = .ok x) : solo (lift r >>= f) s a = solo (f x) s a := by
  rw [h]; rfl

/-- What returns has a first part that returned. -/
theorem solo_bind_ok {p : Prog σ ε Q A α} {f : α → Prog σ ε Q A β} {s : σ} {a : Nat → Except ε A} {y : β}
    (h : (solo (p >>= f) s a).result = .ok y) : ∃ x, (solo p s a).result = .ok x := by
  have h : (solo (p.andThen _) s a).result = .ok y := h
  rw [solo_andThen] at h
  cases hp : (solo p s a).result with
  | ok x => exact ⟨x, rfl⟩
  | error e => rw [hp] at h; cases h

theorem solo_finallyRelease (p : Prog σ ε Q A α) (s : σ) (a : Nat → Except ε A) :
    solo p.finallyRelease s a = solo p s a := by
  unfold finallyRelease
  rw [solo_andThen]
  show Outcome.after (solo p s a).log ⟨[], _, _⟩ = _
  simp [Outcome.after]

/-- The `k`-th request is answered by `a k`. -/
theorem solo_answers : ∀ (p : Prog σ ε Q A α) (s : σ) (a : Nat → Except ε A) (k : Nat) (x : Q × Except ε A),
    (solo p s a).log[k]? = some x → x.2 = a k := by
  intro p
  induction p with
  | ret r => intro s a k x h; simp at h
  | wait k ih => intro s a; exact ih _ s a
  | release k ih => intro s a; exact ih s a
  | call q f ih =>
    intro s a k x h
    have h : ((q, a 0) :: (solo (f (a 0)) s fun n => a (n + 1)).log)[k]? = some x := h
    cases k with
    | zero =>
      have hx : (q, a 0) = x := by simpa using h
      rw [← hx]
    | succ k => exact ih (a 0) s _ k x (by simpa using h)
  | access g k ih => intro s a; exact ih _ _ a
  | poll k ih => intro s a; exact ih _ s a

@[simp] theorem solo_request (q : Q) (s : σ) (a : Nat → Except ε A) :
    solo (request q : Prog σ ε Q A A) s a = ⟨[(q, a 0)], a 0, s⟩ := rfl

@[simp] theorem solo_lift (r : Except ε α) (s : σ) (a : Nat → Except ε A) :
    solo (lift r : Prog σ ε Q A α) s a = ⟨[], r, s⟩ := rfl

@[simp] theorem solo_pure (x : α) (s : σ) (a : Nat → Except ε A) :
    solo (pure x : Prog σ ε Q A α) s a = ⟨[], .ok x, s⟩ := rfl

/-! ## A run against a server -/

def against : Prog σ ε Q A α → σ → (Nat → Q → Except ε A) → Outcome σ ε Q A α
  | .ret r, s, _ => ⟨[], r, s⟩
  | .wait k, s, f => against (k (.ok ())) s f
  | .release k, s, f => against k s f
  | .call q k, s, f => (against (k (f 0 q)) s fun n => f (n + 1)).after [(q, f 0 q)]
  | .access g k, s, f => against (k s) (g s) f
  | .poll k, s, f => against (k false) s f

/-- `rest` stands for the answers past the last request. -/
theorem against_eq_solo (rest : Except ε A) : ∀ (p : Prog σ ε Q A α) (s : σ) (f : Nat → Q → Except ε A),
    ∃ a, against p s f = solo p s a ∧ ∀ k x, (solo p s a).log[k]? = some x → x.2 = f k x.1 := by
  intro p
  induction p with
  | ret r => intro s f; exact ⟨fun _ => rest, rfl, fun k x h => by simp at h⟩
  | wait k ih => intro s f; exact ih _ s f
  | release k ih => intro s f; exact ih s f
  | call q k ih =>
    intro s f
    obtain ⟨a, hrun, hlog⟩ := ih (f 0 q) s fun n => f (n + 1)
    refine ⟨fun n => match n with | 0 => f 0 q | n + 1 => a n, ?_, fun i x h => ?_⟩
    · show Outcome.after _ _ = Outcome.after _ _
      rw [hrun]
    · have h : ((q, f 0 q) :: (solo (k (f 0 q)) s a).log)[i]? = some x := h
      cases i with
      | zero =>
        have hx : (q, f 0 q) = x := by simpa using h
        rw [← hx]
      | succ i => exact hlog i x (by simpa using h)
  | access g k ih => intro s f; exact ih _ _ f
  | poll k ih => intro s f; exact ih _ s f

/-! ## Every outcome -/

def May : Prog σ ε Q A α → σ → Outcome σ ε Q A α → Prop
  | .ret r, s, o => o = ⟨[], r, s⟩
  | .wait k, s, o => ∃ r, May (k r) s o
  | .release k, s, o => May k s o
  | .call q k, s, o => ∃ r o', May (k r) s o' ∧ o = o'.after [(q, r)]
  | .access f k, s, o => May (k s) (f s) o
  | .poll k, s, o => ∃ b, May (k b) s o

theorem may_solo : ∀ (p : Prog σ ε Q A α) (s : σ) (a : Nat → Except ε A), May p s (solo p s a) := by
  intro p
  induction p with
  | ret r => intro s a; rfl
  | wait k ih => intro s a; exact ⟨.ok (), ih _ s a⟩
  | release k ih => intro s a; exact ih s a
  | call q k ih => intro s a; exact ⟨a 0, _, ih (a 0) s _, rfl⟩
  | access f k ih => intro s a; exact ih _ _ a
  | poll k ih => intro s a; exact ⟨false, ih _ s a⟩

theorem may_andThen {f : Except ε α → Prog σ ε Q A β} : ∀ {p : Prog σ ε Q A α} {s : σ} {o : Outcome σ ε Q A β},
    May (p.andThen f) s o → ∃ o₁ o₂, May p s o₁ ∧ May (f o₁.result) o₁.fields o₂ ∧ o = o₂.after o₁.log := by
  intro p
  induction p with
  | ret r => intro s o h; exact ⟨⟨[], r, s⟩, o, rfl, h, rfl⟩
  | wait k ih =>
    intro s o h
    obtain ⟨r, h⟩ := h
    obtain ⟨o₁, o₂, h₁, h₂, ho⟩ := ih r h
    exact ⟨o₁, o₂, ⟨r, h₁⟩, h₂, ho⟩
  | release k ih => intro s o h; exact ih h
  | call q k ih =>
    intro s o h
    obtain ⟨r, o', h, rfl⟩ := h
    obtain ⟨o₁, o₂, h₁, h₂, rfl⟩ := ih r h
    exact ⟨o₁.after [(q, r)], o₂, ⟨r, o₁, h₁, rfl⟩, h₂, Outcome.after_after _ _ _⟩
  | access g k ih => intro s o h; exact ih _ h
  | poll k ih =>
    intro s o h
    obtain ⟨b, h⟩ := h
    obtain ⟨o₁, o₂, h₁, h₂, ho⟩ := ih b h
    exact ⟨o₁, o₂, ⟨b, h₁⟩, h₂, ho⟩

/-- A continued call ends where its first part throws, or after what follows it. -/
theorem may_bind {p : Prog σ ε Q A α} {f : α → Prog σ ε Q A β} {s : σ} {o : Outcome σ ε Q A β}
    (h : May (p >>= f) s o) :
    (∃ o₁ e, May p s o₁ ∧ o₁.result = .error e ∧ o.result = .error e ∧ o.fields = o₁.fields ∧ o.log = o₁.log) ∨
      ∃ o₁ x o₂, May p s o₁ ∧ o₁.result = .ok x ∧ May (f x) o₁.fields o₂ ∧ o = o₂.after o₁.log := by
  obtain ⟨o₁, o₂, h₁, h₂, rfl⟩ := may_andThen h
  cases hr : o₁.result with
  | ok x => rw [hr] at h₂; exact Or.inr ⟨o₁, x, o₂, h₁, hr, h₂, rfl⟩
  | error e =>
    rw [hr] at h₂
    obtain rfl := h₂
    exact Or.inl ⟨o₁, e, h₁, hr, rfl, rfl, List.append_nil _⟩

theorem may_bind_ok {p : Prog σ ε Q A α} {f : α → Prog σ ε Q A β} {s : σ} {o : Outcome σ ε Q A β} {y : β}
    (h : May (p >>= f) s o) (hok : o.result = .ok y) :
    ∃ o₁ x o₂, May p s o₁ ∧ o₁.result = .ok x ∧ May (f x) o₁.fields o₂ ∧ o₂.result = .ok y ∧ o = o₂.after o₁.log := by
  rcases may_bind h with ⟨o₁, e, -, -, hr, -⟩ | ⟨o₁, x, o₂, h₁, hr, h₂, rfl⟩
  · rw [hr] at hok; cases hok
  · exact ⟨o₁, x, o₂, h₁, hr, h₂, hok, rfl⟩

theorem may_get {f : σ → Prog σ ε Q A α} {s : σ} {o : Outcome σ ε Q A α} :
    May (get >>= f) s o ↔ May (f s) s o := Iff.rfl

theorem may_modify {g : σ → σ} {f : Unit → Prog σ ε Q A α} {s : σ} {o : Outcome σ ε Q A α} :
    May (modify g >>= f) s o ↔ May (f ()) (g s) o := Iff.rfl

theorem may_finallyRelease {p : Prog σ ε Q A α} {s : σ} {o : Outcome σ ε Q A α} (h : May p.finallyRelease s o) :
    May p s o := by
  obtain ⟨o₁, o₂, h₁, h₂, rfl⟩ := may_andThen h
  obtain rfl := h₂
  have ho : Outcome.after o₁.log ⟨[], o₁.result, o₁.fields⟩ = o₁ := by simp [Outcome.after]
  rwa [ho]

theorem may_throwIfCancelled {e : ε} {s : σ} {o : Outcome σ ε Q A Unit} (h : May (throwIfCancelled e) s o) :
    o.log = [] ∧ o.fields = s := by
  obtain ⟨b, h⟩ := h
  cases b with
  | true => obtain rfl := h; exact ⟨rfl, rfl⟩
  | false => obtain rfl := h; exact ⟨rfl, rfl⟩

/-! ### What a call may do to the fields -/

section Within

variable {R : σ → σ → Prop}

/-- Whatever happens, the fields after the call are related to those before. -/
def Within (R : σ → σ → Prop) (p : Prog σ ε Q A α) : Prop := ∀ s o, May p s o → R s o.fields

theorem within_ret [Std.Refl R] (r : Except ε α) : Within R (.ret r : Prog σ ε Q A α) := by
  rintro s o rfl; exact Std.Refl.refl s

theorem within_request [Std.Refl R] (q : Q) : Within R (request q : Prog σ ε Q A A) := by
  rintro s o ⟨r, o', rfl, rfl⟩; exact Std.Refl.refl s

theorem within_throwIfCancelled [Std.Refl R] (e : ε) : Within R (throwIfCancelled e : Prog σ ε Q A Unit) := by
  intro s o h
  rw [(may_throwIfCancelled h).2]
  exact Std.Refl.refl s

theorem within_modify {g : σ → σ} (h : ∀ s, R s (g s)) : Within R (modify g : Prog σ ε Q A Unit) := by
  rintro s o rfl; exact h s

theorem within_get {f : σ → Prog σ ε Q A α} (h : ∀ s, Within R (f s)) : Within R (get >>= f) :=
  fun s o ho => h s s o ho

theorem within_andThen [Trans R R R] {p : Prog σ ε Q A α} {f : Except ε α → Prog σ ε Q A β} (hp : Within R p)
    (hf : ∀ r, Within R (f r)) : Within R (p.andThen f) := by
  intro s o h
  obtain ⟨o₁, o₂, h₁, h₂, rfl⟩ := may_andThen h
  have h := hf _ _ _ h₂
  exact Trans.trans (hp _ _ h₁) h

theorem within_bind [Std.Refl R] [Trans R R R] {p : Prog σ ε Q A α} {f : α → Prog σ ε Q A β} (hp : Within R p)
    (hf : ∀ x, Within R (f x)) : Within R (p >>= f) := by
  refine within_andThen hp fun r => ?_
  cases r with
  | ok x => exact hf x
  | error e => exact within_ret _

theorem within_finallyRelease {p : Prog σ ε Q A α} (hp : Within R p) : Within R p.finallyRelease :=
  fun s o h => hp s o (may_finallyRelease h)

theorem within_wait [Std.Refl R] {f : Unit → Prog σ ε Q A α} (hf : Within R (f ())) :
    Within R (waitSemaphore >>= f) := by
  rintro s o ⟨r, h⟩
  cases r with
  | ok u => exact hf s o h
  | error e => obtain rfl := h; exact Std.Refl.refl s

end Within

end Prog

end Lib.Program
