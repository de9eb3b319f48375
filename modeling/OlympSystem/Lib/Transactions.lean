/-
  Lib.Transactions — units of work on a database.

  A `Work` goes from access to access: a query, a write, the begin and the end of a
  transaction, a look at its cancellation or at the clock. `Outside` says for each what
  comes of it: an access can throw what the code does not decide (the database throws, a
  store refuses, the call is cancelled). A work that throws leaves what it has written;
  `transaction` takes that back.

  `Returns o w db a db'`: alone on `db`, `w` returns `a` and leaves `db'`. `Throws o w db e`:
  it throws `e`.

  Proved:
  - the inversion of `Returns` for each piece of work, and for what comes after it
    (`Returns.query_bind` and its like); `Returns.foldlM` for loops.
  - the inversion of `Throws` in the same way, up to `Throws.foldlM` and, for loops with an
    invariant, `Throws.foldlM_of_inv`.
  - the same for `ReturnsFrom`, which tells which of the accesses an access was.
  - `Atomic.transaction`: a transaction that throws leaves the database as it was, and so
    does (`Atomic.after`) what only reads before it.
-/

namespace Lib.Transactions

/-- What a run meets at its `n`-th access. -/
structure Outside (ε : Type) where
  fault : Nat → Option ε
  cancelled : Nat → Bool
  clock : Nat → Int

structure Session (D : Type) where
  db : D
  /-- The number of accesses made. -/
  count : Nat

def Work (D ε α : Type) := Outside ε → Session D → Except ε α × Session D

namespace Work

variable {D ε α β γ : Type}

def pure (a : α) : Work D ε α := fun _ s => (.ok a, s)

def bind (w : Work D ε α) (f : α → Work D ε β) : Work D ε β := fun o s =>
  match w o s with
  | (.ok a, s') => f a o s'
  | (.error e, s') => (.error e, s')

instance : Monad (Work D ε) where
  pure := pure
  bind := bind

def throw (e : ε) : Work D ε α := fun _ s => (.error e, s)

def throwIf (condition : Bool) (e : ε) : Work D ε Unit := if condition then throw e else pure ()

def orThrow (a : Option α) (e : ε) : Work D ε α :=
  match a with
  | some a => pure a
  | none => throw e

def lift (r : Except ε α) : Work D ε α := fun _ s => (r, s)

/-- One access, which reads and writes, or is refused. -/
def access (f : D → Except ε (α × D)) : Work D ε α := fun o s =>
  match o.fault s.count with
  | some e => (.error e, { s with count := s.count + 1 })
  | none =>
    match f s.db with
    | .ok (a, db) => (.ok a, ⟨db, s.count + 1⟩)
    | .error e => (.error e, { s with count := s.count + 1 })

def query (f : D → α) : Work D ε α := access fun db => .ok (f db, db)

def now : Work D ε Int := fun o s => (.ok (o.clock s.count), { s with count := s.count + 1 })

def throwIfCancelled (e : ε) : Work D ε Unit := fun o s =>
  (if o.cancelled s.count then .error e else .ok (), { s with count := s.count + 1 })

/-- `Begin`, the work, `Commit`; what throws is rolled back. -/
def transaction (w : Work D ε α) : Work D ε α := fun o s =>
  match (do query fun _ => (); let a ← w; query fun _ => (); return a : Work D ε α) o s with
  | (.ok a, s') => (.ok a, s')
  | (.error e, s') => (.error e, { s' with db := s.db })

end Work

open Work

variable {D ε α β γ : Type}

def Returns (o : Outside ε) (w : Work D ε α) (db : D) (a : α) (db' : D) : Prop :=
  ∃ n n', w o ⟨db, n⟩ = (.ok a, ⟨db', n'⟩)

namespace Returns

variable {o : Outside ε} {db db' : D}

theorem pure {a b : α} (h : Returns o (Pure.pure a : Work D ε α) db b db') : b = a ∧ db' = db := by
  obtain ⟨n, n', h⟩ := h
  cases h; exact ⟨rfl, rfl⟩

theorem bind {w : Work D ε α} {f : α → Work D ε β} {b : β} (h : Returns o (w >>= f) db b db') :
    ∃ a db₁, Returns o w db a db₁ ∧ Returns o (f a) db₁ b db' := by
  obtain ⟨n, n', h⟩ := h
  have h : Work.bind w f o ⟨db, n⟩ = _ := h
  unfold Work.bind at h
  split at h
  · rename_i a s hw
    exact ⟨a, s.db, ⟨n, s.count, hw⟩, s.count, n', h⟩
  · cases h

theorem of_run {w : Work D ε α} {a : α} {n : Nat} (h : (w o ⟨db, n⟩).1 = .ok a) :
    Returns o w db a (w o ⟨db, n⟩).2.db := ⟨n, (w o ⟨db, n⟩).2.count, Prod.ext h rfl⟩

theorem throw {e : ε} {a : α} : ¬Returns o (Work.throw e : Work D ε α) db a db' := by
  intro h
  obtain ⟨n, n', h⟩ := h
  cases h

theorem throwIf {condition : Bool} {e : ε} {u : Unit} (h : Returns o (Work.throwIf condition e) db u db') :
    condition = false ∧ db' = db := by
  unfold Work.throwIf at h
  split at h
  · exact absurd h throw
  · next hc => exact ⟨Bool.eq_false_iff.mpr hc, (pure h).2⟩

theorem orThrow {x : Option α} {e : ε} {a : α} (h : Returns o (Work.orThrow x e) db a db') : x = some a ∧ db' = db := by
  cases x with
  | none => exact absurd h throw
  | some b =>
    obtain ⟨rfl, hdb⟩ := pure h
    exact ⟨rfl, hdb⟩

theorem lift {r : Except ε α} {a : α} (h : Returns o (Work.lift r) db a db') : r = .ok a ∧ db' = db := by
  obtain ⟨n, n', h⟩ := h
  cases h; exact ⟨rfl, rfl⟩

theorem access {f : D → Except ε (α × D)} {a : α} (h : Returns o (Work.access f) db a db') :
    f db = .ok (a, db') := by
  obtain ⟨n, n', h⟩ := h
  unfold Work.access at h
  split at h
  · cases h
  · simp only at h
    split at h
    · next hf => cases h; exact hf
    · cases h

theorem read {f : D → Except ε α} {a : α} (h : Returns o (Work.access fun db => (f db).map (·, db)) db a db') :
    f db = .ok a ∧ db' = db := by
  have hf := access h
  cases hok : f db with
  | error _ => rw [hok] at hf; cases hf
  | ok _ => rw [hok] at hf; cases hf; exact ⟨rfl, rfl⟩

theorem query {f : D → α} {a : α} (h : Returns o (Work.query f) db a db') : a = f db ∧ db' = db := by
  have hf := access h
  cases hf; exact ⟨rfl, rfl⟩

theorem now {a : Int} (h : Returns o Work.now db a db') : (∃ n, a = o.clock n) ∧ db' = db := by
  obtain ⟨n, n', h⟩ := h
  cases h; exact ⟨⟨n, rfl⟩, rfl⟩

theorem throwIfCancelled {e : ε} {u : Unit} (h : Returns o (Work.throwIfCancelled e) db u db') : db' = db := by
  obtain ⟨n, n', h⟩ := h
  exact (congrArg (Session.db ∘ Prod.snd) h).symm

theorem transaction {w : Work D ε α} {a : α} (h : Returns o (Work.transaction w) db a db') :
    Returns o w db a db' := by
  obtain ⟨n, n', h⟩ := h
  unfold Work.transaction at h
  split at h
  · next b s hrun =>
    cases h
    obtain ⟨_, db₁, hbegin, h⟩ := bind ⟨n, n', hrun⟩
    obtain ⟨b, db₂, hw, h⟩ := bind h
    obtain ⟨_, db₃, hcommit, h⟩ := bind h
    obtain ⟨rfl, rfl⟩ := pure h
    rw [(query hbegin).2] at hw
    rw [(query hcommit).2]
    exact hw
  · cases h

/-! What comes after a piece of work that leaves the database alone. -/

theorem query_bind {f : D → α} {k : α → Work D ε β} {b : β} (h : Returns o (Work.query f >>= k) db b db') :
    Returns o (k (f db)) db b db' := by
  obtain ⟨a, db₁, hquery, hk⟩ := bind h
  obtain ⟨rfl, rfl⟩ := query hquery
  exact hk

theorem now_bind {k : Int → Work D ε β} {b : β} (h : Returns o (Work.now >>= k) db b db') :
    ∃ n, Returns o (k (o.clock n)) db b db' := by
  obtain ⟨a, db₁, hnow, hk⟩ := bind h
  obtain ⟨⟨n, rfl⟩, rfl⟩ := now hnow
  exact ⟨n, hk⟩

theorem throwIf_bind {condition : Bool} {e : ε} {k : Unit → Work D ε β} {b : β}
    (h : Returns o (Work.throwIf condition e >>= k) db b db') : condition = false ∧ Returns o (k ()) db b db' := by
  obtain ⟨a, db₁, hthrow, hk⟩ := bind h
  obtain ⟨hcondition, rfl⟩ := throwIf hthrow
  exact ⟨hcondition, hk⟩

theorem orThrow_bind {x : Option α} {e : ε} {k : α → Work D ε β} {b : β}
    (h : Returns o (Work.orThrow x e >>= k) db b db') : ∃ a, x = some a ∧ Returns o (k a) db b db' := by
  obtain ⟨a, db₁, hthrow, hk⟩ := bind h
  obtain ⟨hsome, rfl⟩ := orThrow hthrow
  exact ⟨a, hsome, hk⟩

theorem cancelled_bind {e : ε} {k : Unit → Work D ε β} {b : β}
    (h : Returns o (Work.throwIfCancelled e >>= k) db b db') : Returns o (k ()) db b db' := by
  obtain ⟨a, db₁, hcancel, hk⟩ := bind h
  obtain rfl := throwIfCancelled hcancel
  exact hk

/-- The last piece of work, and what is returned after it. -/
theorem bind_pure {w : Work D ε α} {f : α → β} {b : β} (h : Returns o (w >>= fun a => Pure.pure (f a)) db b db') :
    ∃ a, Returns o w db a db' ∧ b = f a := by
  obtain ⟨a, db₁, hw, hpure⟩ := bind h
  obtain ⟨rfl, rfl⟩ := pure hpure
  exact ⟨a, hw, rfl⟩

/-- The rule for loops: what holds of the rest of the list, the accumulator and the
    database before each round. -/
theorem foldlM {f : β → γ → Work D ε β} (I : List γ → β → D → Prop)
    (hstep : ∀ x rest acc db acc' db', I (x :: rest) acc db → Returns o (f acc x) db acc' db' → I rest acc' db') :
    ∀ {l : List γ} {acc acc' : β} {db db' : D}, I l acc db → Returns o (l.foldlM f acc) db acc' db' →
      I [] acc' db' := by
  intro l
  induction l with
  | nil =>
    intro acc acc' db db' hI h
    obtain ⟨rfl, rfl⟩ := pure h
    exact hI
  | cons x rest ih =>
    intro acc acc' db db' hI h
    obtain ⟨acc₁, db₁, hx, hrest⟩ := bind h
    exact ih (hstep x rest acc db acc₁ db₁ hI hx) hrest

end Returns

/-! ## Accesses by their numbers -/

/-- `Returns`, with the accesses counted. -/
def ReturnsFrom (o : Outside ε) (w : Work D ε α) (s : Session D) (a : α) (s' : Session D) : Prop := w o s = (.ok a, s')

namespace ReturnsFrom

variable {o : Outside ε} {s s' : Session D}

theorem returns {w : Work D ε α} {a : α} (h : ReturnsFrom o w s a s') : Returns o w s.db a s'.db :=
  ⟨s.count, s'.count, h⟩

theorem pure {a b : α} (h : ReturnsFrom o (Pure.pure a : Work D ε α) s b s') : b = a ∧ s' = s := by
  cases h
  exact ⟨rfl, rfl⟩

theorem bind {w : Work D ε α} {f : α → Work D ε β} {b : β} (h : ReturnsFrom o (w >>= f) s b s') :
    ∃ a t, ReturnsFrom o w s a t ∧ ReturnsFrom o (f a) t b s' := by
  have h : Work.bind w f o s = _ := h
  unfold Work.bind at h
  split at h
  · next a t hw => exact ⟨a, t, hw, h⟩
  · cases h

theorem access {f : D → Except ε (α × D)} {a : α} (h : ReturnsFrom o (Work.access f) s a s') :
    f s.db = .ok (a, s'.db) ∧ s'.count = s.count + 1 := by
  refine ⟨Returns.access h.returns, ?_⟩
  unfold ReturnsFrom Work.access at h
  split at h
  · cases h
  · split at h
    · cases h
      rfl
    · cases h

theorem query_bind {f : D → α} {k : α → Work D ε β} {b : β} (h : ReturnsFrom o (Work.query f >>= k) s b s') :
    ReturnsFrom o (k (f s.db)) ⟨s.db, s.count + 1⟩ b s' := by
  obtain ⟨a, ⟨db, n⟩, hquery, hk⟩ := bind h
  obtain ⟨hread, hcount⟩ := access hquery
  cases hread
  cases hcount
  exact hk

theorem read_bind {f : D → Except ε α} {k : α → Work D ε β} {b : β}
    (h : ReturnsFrom o ((Work.access fun db => (f db).map (·, db)) >>= k) s b s') :
    ∃ a, f s.db = .ok a ∧ ReturnsFrom o (k a) ⟨s.db, s.count + 1⟩ b s' := by
  obtain ⟨a, ⟨db, n⟩, hread, hk⟩ := bind h
  obtain ⟨hok, hdb⟩ := Returns.read hread.returns
  cases hdb
  cases (access hread).2
  exact ⟨a, hok, hk⟩

theorem now_bind {k : Int → Work D ε β} {b : β} (h : ReturnsFrom o (Work.now >>= k) s b s') :
    ReturnsFrom o (k (o.clock s.count)) ⟨s.db, s.count + 1⟩ b s' := h

theorem throwIf_bind {condition : Bool} {e : ε} {k : Unit → Work D ε β} {b : β}
    (h : ReturnsFrom o (Work.throwIf condition e >>= k) s b s') : condition = false ∧ ReturnsFrom o (k ()) s b s' := by
  obtain ⟨a, t, hthrow, hk⟩ := bind h
  unfold Work.throwIf at hthrow
  split at hthrow
  · cases hthrow
  · next hcondition =>
    cases hthrow
    exact ⟨Bool.eq_false_iff.mpr hcondition, hk⟩

theorem orThrow {x : Option α} {e : ε} {a : α} (h : ReturnsFrom o (Work.orThrow x e) s a s') : x = some a ∧ s' = s := by
  cases x with
  | none => cases h
  | some c =>
    cases h
    exact ⟨rfl, rfl⟩

/-- An access that has to find something. -/
theorem find_bind {f : D → Option α} {e : ε} {k : α → Work D ε β} {b : β}
    (h : ReturnsFrom o ((do let x ← Work.query f; Work.orThrow x e) >>= k) s b s') :
    ∃ a, f s.db = some a ∧ ReturnsFrom o (k a) ⟨s.db, s.count + 1⟩ b s' := by
  obtain ⟨a, t, hfind, hk⟩ := bind h
  have hthrow := query_bind hfind
  obtain ⟨hfound, rfl⟩ := orThrow hthrow
  exact ⟨a, hfound, hk⟩

/-- The begin of a transaction is an access. -/
theorem transaction {w : Work D ε α} {a : α} (h : ReturnsFrom o (Work.transaction w) s a s') :
    ∃ t, ReturnsFrom o w ⟨s.db, s.count + 1⟩ a t ∧ t.db = s'.db := by
  unfold ReturnsFrom Work.transaction at h
  split at h
  · next b t hrun =>
    cases h
    have hbegin := query_bind (show ReturnsFrom o _ _ _ _ from hrun)
    obtain ⟨b, t, hw, h₁⟩ := bind hbegin
    have hcommit := query_bind h₁
    obtain ⟨rfl, rfl⟩ := pure hcommit
    exact ⟨t, hw, rfl⟩
  · cases h

end ReturnsFrom

/-! ## Throwing -/

/-- Alone on `db`, the work throws `e`. -/
def Throws (o : Outside ε) (w : Work D ε α) (db : D) (e : ε) : Prop := ∃ n, (w o ⟨db, n⟩).1 = .error e

namespace Throws

variable {o : Outside ε} {db : D} {e e' : ε}

theorem pure {a : α} : ¬Throws o (Pure.pure a : Work D ε α) db e := by
  intro h
  obtain ⟨n, h⟩ := h
  cases h

theorem bind {w : Work D ε α} {f : α → Work D ε β} (h : Throws o (w >>= f) db e) :
    Throws o w db e ∨ ∃ a db₁, Returns o w db a db₁ ∧ Throws o (f a) db₁ e := by
  obtain ⟨n, h⟩ := h
  have h : (Work.bind w f o ⟨db, n⟩).1 = .error e := h
  unfold Work.bind at h
  split at h
  · next a s hw => exact Or.inr ⟨a, s.db, ⟨n, s.count, hw⟩, s.count, h⟩
  · next hw => cases h; exact Or.inl ⟨n, congrArg Prod.fst hw⟩

theorem throwIf {condition : Bool} (h : Throws o (Work.throwIf condition e' : Work D ε Unit) db e) :
    condition = true ∧ e = e' := by
  unfold Work.throwIf at h
  split at h
  · next hc =>
    obtain ⟨n, h⟩ := h
    cases h; exact ⟨hc, rfl⟩
  · exact absurd h pure

theorem orThrow {x : Option α} (h : Throws o (Work.orThrow x e' : Work D ε α) db e) : x = none ∧ e = e' := by
  cases x with
  | none =>
    obtain ⟨n, h⟩ := h
    cases h; exact ⟨rfl, rfl⟩
  | some a => exact absurd h pure

/-- An access is refused from outside, or by itself. -/
theorem access {f : D → Except ε (α × D)} (h : Throws o (Work.access f) db e) :
    (∃ n, o.fault n = some e) ∨ f db = .error e := by
  obtain ⟨n, h⟩ := h
  unfold Work.access at h
  split at h
  · next hfault => cases h; exact Or.inl ⟨n, hfault⟩
  · simp only at h
    split at h
    · cases h
    · next hf => cases h; exact Or.inr hf

theorem query {f : D → α} (h : Throws o (Work.query f) db e) : ∃ n, o.fault n = some e := by
  rcases access h with hfault | hf
  · exact hfault
  · cases hf

theorem lift {r : Except ε α} (h : Throws o (Work.lift r : Work D ε α) db e) : r = .error e := by
  obtain ⟨n, h⟩ := h
  exact h

theorem throwIfCancelled (h : Throws o (Work.throwIfCancelled e' : Work D ε Unit) db e) :
    (∃ n, o.cancelled n = true) ∧ e = e' := by
  obtain ⟨n, h⟩ := h
  unfold Work.throwIfCancelled at h
  split at h
  · next hcancelled => cases h; exact ⟨⟨n, hcancelled⟩, rfl⟩
  · cases h

theorem now_bind {k : Int → Work D ε β} (h : Throws o (Work.now >>= k) db e) : ∃ n, Throws o (k (o.clock n)) db e := by
  rcases bind h with ⟨n, hnow⟩ | ⟨a, db₁, hnow, hk⟩
  · cases hnow
  · obtain ⟨⟨n, rfl⟩, rfl⟩ := Returns.now hnow
    exact ⟨n, hk⟩

theorem throwIf_bind {condition : Bool} {k : Unit → Work D ε β} (h : Throws o (Work.throwIf condition e' >>= k) db e) :
    condition = true ∧ e = e' ∨ condition = false ∧ Throws o (k ()) db e := by
  rcases bind h with hthrow | ⟨_, db₁, hpass, hk⟩
  · exact Or.inl (throwIf hthrow)
  · obtain ⟨hcondition, rfl⟩ := Returns.throwIf hpass
    exact Or.inr ⟨hcondition, hk⟩

theorem query_bind {f : D → α} {k : α → Work D ε β} (h : Throws o (Work.query f >>= k) db e) :
    (∃ n, o.fault n = some e) ∨ Throws o (k (f db)) db e := by
  rcases bind h with hquery | ⟨a, db₁, hread, hk⟩
  · exact Or.inl (query hquery)
  · obtain ⟨rfl, rfl⟩ := Returns.query hread
    exact Or.inr hk

theorem orThrow_bind {x : Option α} {k : α → Work D ε β} (h : Throws o (Work.orThrow x e' >>= k) db e) :
    x = none ∧ e = e' ∨ ∃ a, x = some a ∧ Throws o (k a) db e := by
  rcases bind h with hthrow | ⟨a, db₁, hpass, hk⟩
  · exact Or.inl (orThrow hthrow)
  · obtain ⟨hsome, rfl⟩ := Returns.orThrow hpass
    exact Or.inr ⟨a, hsome, hk⟩

theorem lift_bind {r : Except ε α} {k : α → Work D ε β} (h : Throws o (Work.lift r >>= k) db e) :
    r = .error e ∨ ∃ a, r = .ok a ∧ Throws o (k a) db e := by
  rcases bind h with hlift | ⟨a, db₁, hpass, hk⟩
  · exact Or.inl (lift hlift)
  · obtain ⟨hok, rfl⟩ := Returns.lift hpass
    exact Or.inr ⟨a, hok, hk⟩

theorem cancelled_bind {k : Unit → Work D ε β} (h : Throws o (Work.throwIfCancelled e' >>= k) db e) :
    ((∃ n, o.cancelled n = true) ∧ e = e') ∨ Throws o (k ()) db e := by
  rcases bind h with hcancel | ⟨_, db₁, hpass, hk⟩
  · exact Or.inl (throwIfCancelled hcancel)
  · obtain rfl := Returns.throwIfCancelled hpass
    exact Or.inr hk

/-- What comes after the last piece of work does not throw. -/
theorem bind_pure {w : Work D ε α} {f : α → β} (h : Throws o (w >>= fun a => Pure.pure (f a)) db e) :
    Throws o w db e := by
  rcases bind h with hw | ⟨_, _, -, hpure⟩
  · exact hw
  · exact absurd hpure pure

/-- What a transaction throws, its begin or commit does, or the work. -/
theorem transaction {w : Work D ε α} (h : Throws o (Work.transaction w) db e) :
    (∃ n, o.fault n = some e) ∨ Throws o w db e := by
  obtain ⟨n, h⟩ := h
  unfold Work.transaction at h
  split at h
  · cases h
  · next herror =>
    cases h
    rcases bind ⟨n, congrArg Prod.fst herror⟩ with hbegin | ⟨_, db₁, hbegin, hrest⟩
    · exact Or.inl (query hbegin)
    · obtain ⟨-, rfl⟩ := Returns.query hbegin
      rcases bind hrest with hw | ⟨_, db₂, -, hrest⟩
      · exact Or.inr hw
      · rcases bind hrest with hcommit | ⟨_, db₃, -, hpure⟩
        · exact Or.inl (query hcommit)
        · exact absurd hpure pure

/-- What a loop throws, a round does. -/
theorem foldlM {f : β → γ → Work D ε β} : ∀ {l : List γ} {acc : β} {db : D}, Throws o (l.foldlM f acc) db e →
    ∃ acc x db, x ∈ l ∧ Throws o (f acc x) db e := by
  intro l
  induction l with
  | nil => intro acc db h; exact absurd h pure
  | cons x rest ih =>
    intro acc db h
    rcases bind h with hx | ⟨acc₁, db₁, -, hrest⟩
    · exact ⟨acc, x, db, List.mem_cons_self, hx⟩
    · obtain ⟨acc₂, y, db₂, hy, hround⟩ := ih hrest
      exact ⟨acc₂, y, db₂, List.mem_cons_of_mem _ hy, hround⟩

/-- What a loop throws, a round does; `I` holds before that round, as in `Returns.foldlM`. -/
theorem foldlM_of_inv {f : β → γ → Work D ε β} (I : List γ → β → D → Prop)
    (hstep : ∀ x rest acc db acc' db', I (x :: rest) acc db → Returns o (f acc x) db acc' db' → I rest acc' db') :
    ∀ {l : List γ} {acc : β} {db : D}, I l acc db → Throws o (l.foldlM f acc) db e →
      ∃ x rest acc db, I (x :: rest) acc db ∧ Throws o (f acc x) db e := by
  intro l
  induction l with
  | nil => intro acc db _ h; exact absurd h pure
  | cons x rest ih =>
    intro acc db hI h
    rcases bind h with hx | ⟨acc₁, db₁, hround, hrest⟩
    · exact ⟨x, rest, acc, db, hI, hx⟩
    · exact ih (hstep x rest acc db acc₁ db₁ hI hround) hrest

end Throws

/-! ## Runs that nothing disturbs -/

section Calm

variable {o : Outside ε} {s t : Session D}

theorem bind_ok {w : Work D ε α} {a : α} (h : w o s = (.ok a, t)) (f : α → Work D ε β) : (w >>= f) o s = f a o t := by
  show Work.bind w f o s = _
  unfold Work.bind
  rw [h]

theorem query_ok (hcalm : ∀ n, o.fault n = none) (f : D → α) (s : Session D) :
    query f o s = (.ok (f s.db), { s with count := s.count + 1 }) := by
  unfold query access
  rw [hcalm]

theorem bind_error {w : Work D ε α} {e : ε} (h : w o s = (.error e, t)) (f : α → Work D ε β) :
    (w >>= f) o s = (.error e, t) := by
  show Work.bind w f o s = _
  unfold Work.bind
  rw [h]

theorem read_ok (hcalm : ∀ n, o.fault n = none) (f : D → Except ε α) (s : Session D) :
    access (fun db => (f db).map (·, db)) o s = (f s.db, { s with count := s.count + 1 }) := by
  unfold access
  rw [hcalm]
  cases h : f s.db <;> simp only [h, Except.map]

theorem throwIf_ok (e : ε) (s : Session D) : throwIf false e o s = (.ok (), s) := rfl

theorem transaction_ok (hcalm : ∀ n, o.fault n = none) {w : Work D ε α} {a : α}
    (h : w o { s with count := s.count + 1 } = (.ok a, t)) :
    transaction w o s = (.ok a, { t with count := t.count + 1 }) := by
  unfold transaction
  rw [bind_ok (query_ok hcalm _ s), bind_ok h, bind_ok (query_ok hcalm _ t)]
  rfl

end Calm

/-! ## Throwing without a trace -/

/-- The database is left alone. -/
def Quiet (w : Work D ε α) : Prop := ∀ o s, (w o s).2.db = s.db

/-- What throws leaves the database alone. -/
def Atomic (w : Work D ε α) : Prop := ∀ o s e, (w o s).1 = .error e → (w o s).2.db = s.db

theorem Quiet.atomic {w : Work D ε α} (h : Quiet w) : Atomic w := fun o s _ _ => h o s

namespace Quiet

theorem pure (a : α) : Quiet (Pure.pure a : Work D ε α) := fun _ _ => rfl

theorem throw (e : ε) : Quiet (Work.throw e : Work D ε α) := fun _ _ => rfl

theorem throwIf (condition : Bool) (e : ε) : Quiet (Work.throwIf condition e : Work D ε Unit) := by
  unfold Work.throwIf
  split
  · exact throw e
  · exact pure ()

theorem orThrow (a : Option α) (e : ε) : Quiet (Work.orThrow a e : Work D ε α) := by
  cases a with
  | none => exact throw e
  | some a => exact pure a

theorem query (f : D → α) : Quiet (Work.query f : Work D ε α) := by
  intro o s
  unfold Work.query Work.access
  cases o.fault s.count <;> rfl

theorem lift (r : Except ε α) : Quiet (Work.lift r : Work D ε α) := fun _ _ => rfl

theorem throwIfCancelled (e : ε) : Quiet (Work.throwIfCancelled e : Work D ε Unit) := fun _ _ => rfl

theorem now : Quiet (Work.now : Work D ε Int) := fun _ _ => rfl

/-- An access that reads, or refuses. -/
theorem read (f : D → Except ε α) : Quiet (Work.access fun db => (f db).map (·, db)) := by
  intro o s
  unfold Work.access
  cases o.fault s.count with
  | some _ => rfl
  | none =>
    simp only
    cases f s.db <;> rfl

theorem bind {w : Work D ε α} {f : α → Work D ε β} (h : Quiet w) (hf : ∀ a, Quiet (f a)) : Quiet (w >>= f) := by
  intro o s
  show (Work.bind w f o s).2.db = s.db
  have hdb := h o s
  unfold Work.bind
  split
  · next a s' hw => rw [hf a o s', ← hdb, hw]
  · next e s' hw => rw [← hdb, hw]

theorem foldlM {f : β → γ → Work D ε β} (h : ∀ acc x, Quiet (f acc x)) :
    ∀ (l : List γ) (acc : β), Quiet (l.foldlM f acc) := by
  intro l
  induction l with
  | nil => intro acc; exact pure acc
  | cons x l ih => intro acc; exact (h acc x).bind fun acc => ih acc

end Quiet

theorem Returns.quiet {w : Work D ε α} {o : Outside ε} {db db' : D} {a : α} (h : Returns o w db a db') (hw : Quiet w) :
    db' = db := by
  obtain ⟨n, n', hrun⟩ := h
  have hdb := hw o ⟨db, n⟩
  rwa [hrun] at hdb

namespace Atomic

theorem access (f : D → Except ε (α × D)) : Atomic (Work.access f) := by
  intro o s e h
  unfold Work.access at h ⊢
  cases hfault : o.fault s.count with
  | some _ => rfl
  | none =>
    rw [hfault] at h
    simp only at h ⊢
    split at h
    · cases h
    · rfl

theorem after {w : Work D ε α} {f : α → Work D ε β} (h : Quiet w) (hf : ∀ a, Atomic (f a)) : Atomic (w >>= f) := by
  intro o s e herror
  have herror : (Work.bind w f o s).1 = .error e := herror
  show (Work.bind w f o s).2.db = s.db
  have hdb := h o s
  unfold Work.bind at herror ⊢
  split at herror
  · next a s' hw => rw [hf a o s' e herror, ← hdb, hw]
  · next e' s' hw => rw [← hdb, hw]

/-- What comes after does not throw. -/
theorem then_pure {w : Work D ε α} (h : Atomic w) (b : β) : Atomic (w >>= fun _ => Pure.pure b) := by
  intro o s e herror
  have herror : (Work.bind w (fun _ => Pure.pure b) o s).1 = .error e := herror
  show (Work.bind w (fun _ => Pure.pure b) o s).2.db = s.db
  have hdb := h o s e
  unfold Work.bind at herror ⊢
  split at herror
  · cases herror
  · next e' s' hw =>
    rw [hw] at hdb
    cases herror
    exact hdb rfl

/-- What a transaction that throws has written is gone. -/
theorem transaction (w : Work D ε α) : Atomic (Work.transaction w) := by
  intro o s e h
  unfold Work.transaction at h ⊢
  split at h
  · cases h
  · rfl

end Atomic

end Lib.Transactions
