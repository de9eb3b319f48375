/-
  Lib.Serial — calls that use a server under a semaphore.

  Any number of calls run at once, each a `Prog` (Lib.Program); a step lets one of them
  go on by one node. The semaphore has one permit, and nothing but the calls' own code
  says who may send a request or release.

  An operation of a call is what it does from one acquisition of the semaphore to the
  release. `log` lists the requests with their call and the number of their operation,
  `answers n` is the answer to the `n`-th of them.

  A `Discipline` says which request may follow which exchanges in an operation, and what
  the fields keep; `Follows` checks a call against it, node by node. A cancelled
  wait leads to the mode `cancelled`, in which nothing may be sent or released.

  Proved, for calls that follow a discipline, in every interleaving:
  - `inv_step`: the invariant `Inv`.
  - `Inv.exclusive` / `Inv.available`: one call at most holds the permit, and it is
    there once every call has ended.
  - `Inv.contiguous`: requests of one operation have no others between them.
  - `Inv.allowed`: each request was allowed after the exchanges of its own operation.
  - `cancelled_silent`: a call cancelled in a wait sends and releases nothing more.
-/

import OlympSystem.Lib.Program
import OlympSystem.Lib.Runs

namespace Lib.Serial

open Lib.Runs Lib.Program

/-! ## Calls and their steps -/

section Model

variable {σ ε Q A α C : Type}

inductive At (σ ε Q A α : Type) where
  | running (p : Prog σ ε Q A α)
  /-- Request number `n` is out. -/
  | awaiting (n : Nat) (k : Except ε A → Prog σ ε Q A α)

structure Proc (σ ε Q A α C : Type) where
  call : C
  at_ : At σ ε Q A α
  holding : Bool
  /-- How often the call has acquired the semaphore. -/
  op : Nat
  /-- Whether a wait of the call was cancelled. -/
  cancelled : Bool

structure Entry (Q : Type) where
  proc : Nat
  op : Nat
  request : Q
  deriving DecidableEq, Repr

def Entry.tag (e : Entry Q) : Nat × Nat := (e.proc, e.op)

structure Shared (σ ε Q A : Type) where
  permits : Nat
  fields : σ
  log : List (Entry Q)
  answers : Nat → Option (Except ε A)

structure St (σ ε Q A α C : Type) where
  shared : Shared σ ε Q A
  procs : Nat → Option (Proc σ ε Q A α C)

inductive Act (ε A : Type) where
  | acquire
  | cancel (e : ε)
  | release
  | send
  | answer (r : Except ε A)
  | access
  | poll (b : Bool)

inductive Ev (ε A C : Type) where
  | start (i : Nat) (c : C)
  | act (i : Nat) (a : Act ε A)

def stepProc (i : Nat) (g : Shared σ ε Q A) (p : Proc σ ε Q A α C) :
    Act ε A → Option (Shared σ ε Q A × Proc σ ε Q A α C)
  | .acquire =>
    match p.at_ with
    | .running (.wait k) =>
      if g.permits = 0 then none
      else some ({ g with permits := g.permits - 1 },
        { p with at_ := .running (k (.ok ())), holding := true, op := p.op + 1 })
    | _ => none
  | .cancel e =>
    match p.at_ with
    | .running (.wait k) => some (g, { p with at_ := .running (k (.error e)), cancelled := true })
    | _ => none
  | .release =>
    match p.at_ with
    | .running (.release k) =>
      some ({ g with permits := g.permits + 1 }, { p with at_ := .running k, holding := false })
    | _ => none
  | .send =>
    match p.at_ with
    | .running (.call q k) =>
      some ({ g with log := g.log ++ [⟨i, p.op, q⟩] }, { p with at_ := .awaiting g.log.length k })
    | _ => none
  | .answer r =>
    match p.at_ with
    | .awaiting n k => some ({ g with answers := upd g.answers n (some r) }, { p with at_ := .running (k r) })
    | _ => none
  | .access =>
    match p.at_ with
    | .running (.access f k) => some ({ g with fields := f g.fields }, { p with at_ := .running (k g.fields) })
    | _ => none
  | .poll b =>
    match p.at_ with
    | .running (.poll k) => some (g, { p with at_ := .running (k b) })
    | _ => none

variable (prog : C → Prog σ ε Q A α)

def step (s : St σ ε Q A α C) : Ev ε A C → Option (St σ ε Q A α C)
  | .start i c =>
    match s.procs i with
    | some _ => none
    | none => some { s with procs := upd s.procs i (some ⟨c, .running (prog c), false, 0, false⟩) }
  | .act i a =>
    match s.procs i with
    | none => none
    | some p => (stepProc i s.shared p a).map fun r => ⟨r.1, upd s.procs i (some r.2)⟩

def init (fields : σ) : St σ ε Q A α C := ⟨⟨1, fields, [], fun _ => none⟩, fun _ => none⟩

def Proc.ended (p : Proc σ ε Q A α C) : Prop := ∃ r, p.at_ = .running (.ret r)

/-- Elements with equal tags have only elements of that tag between them. -/
def Contiguous {β τ : Type} (tag : β → τ) (l : List β) : Prop :=
  ∀ (i j k : Nat) (x y z : β), i ≤ j → j ≤ k → l[i]? = some x → l[j]? = some y → l[k]? = some z →
    tag x = tag z → tag y = tag x

end Model

/-- An element with the tag of the last ones keeps the tags together. -/
theorem contiguous_append {β τ : Type} {tag : β → τ} {old cur : List β} {t : τ} {e : β}
    (h : Contiguous tag (old ++ cur)) (hold : ∀ x ∈ old, tag x ≠ t) (hcur : ∀ x ∈ cur, tag x = t) (he : tag e = t) :
    Contiguous tag (old ++ cur ++ [e]) := by
  intro i j k x y z hij hjk hx hy hz hxz
  have hk := (List.getElem?_eq_some_iff.mp hz).1
  rw [List.length_append, List.length_singleton] at hk
  by_cases hlast : k < (old ++ cur).length
  · rw [List.getElem?_append_left (by omega)] at hx hy hz
    exact h i j k x y z hij hjk hx hy hz hxz
  · -- `z` is the new element, so `x`, and all after it, come after `old`
    have hz' : z = e := by
      rw [List.getElem?_append_right (by omega), show k - (old ++ cur).length = 0 by omega] at hz
      simpa using hz.symm
    have hx' : tag x = t := by rw [hxz, hz', he]
    have hi : old.length ≤ i := by
      refine Nat.le_of_not_lt fun hlt => ?_
      rw [List.append_assoc, List.getElem?_append_left hlt] at hx
      exact hold x (List.mem_of_getElem? hx) hx'
    rw [List.append_assoc, List.getElem?_append_right (by omega)] at hy
    have hy' : tag y = t := by
      rcases List.mem_append.mp (List.mem_of_getElem? hy) with hy | hy
      · exact hcur y hy
      · rw [List.mem_singleton.mp hy, he]
    rw [hy', hx']

/-! ## Disciplines -/

section Discipline

variable {σ ε Q A α β C : Type}

structure Discipline (σ ε Q A C : Type) where
  /-- The request may follow these exchanges of its operation. -/
  sends : C → List (Q × Except ε A) → Q → Prop
  /-- What every access to the fields keeps. -/
  inv : σ → Prop

inductive Mode (Q ε A : Type) where
  | free
  /-- Holding the semaphore, after these exchanges. -/
  | held (exchanges : List (Q × Except ε A))
  | cancelled

variable (D : Discipline σ ε Q A C) (c : C)

/-- From mode `m` the call keeps to the discipline and ends in a mode and with a result of `post`. -/
def Follows (post : Mode Q ε A → Except ε α → Prop) : Mode Q ε A → Prog σ ε Q A α → Prop
  | m, .ret r => post m r
  | m, .wait k => m = .free ∧ Follows post (.held []) (k (.ok ())) ∧ ∀ e, Follows post .cancelled (k (.error e))
  | m, .release k => (∃ hist, m = .held hist) ∧ Follows post .free k
  | m, .call q k =>
    ∃ hist, m = .held hist ∧ D.sends c hist q ∧ ∀ r, Follows post (.held (hist ++ [(q, r)])) (k r)
  | m, .access f k => ∀ s, D.inv s → D.inv (f s) ∧ Follows post m (k s)
  | m, .poll k => ∀ b, Follows post m (k b)

variable {D c}

theorem follows_andThen {post : Mode Q ε A → Except ε α → Prop} {post' : Mode Q ε A → Except ε β → Prop}
    {f : Except ε α → Prog σ ε Q A β} (hf : ∀ m r, post m r → Follows D c post' m (f r)) :
    ∀ {p : Prog σ ε Q A α} {m : Mode Q ε A}, Follows D c post m p → Follows D c post' m (p.andThen f) := by
  intro p
  induction p with
  | ret r => intro m h; exact hf m r h
  | wait k ih => intro m h; exact ⟨h.1, ih _ h.2.1, fun e => ih _ (h.2.2 e)⟩
  | release k ih => intro m h; exact ⟨h.1, ih h.2⟩
  | call q k ih =>
    intro m h
    obtain ⟨hist, hm, hq, hk⟩ := h
    exact ⟨hist, hm, hq, fun r => ih r (hk r)⟩
  | access g k ih => intro m h s hs; exact ⟨(h s hs).1, ih _ (h s hs).2⟩
  | poll k ih => intro m h b; exact ih b (h b)

theorem follows_mono {post post' : Mode Q ε A → Except ε α → Prop} (hp : ∀ m r, post m r → post' m r)
    {p : Prog σ ε Q A α} {m : Mode Q ε A} (h : Follows D c post m p) : Follows D c post' m p := by
  induction p generalizing m with
  | ret r => exact hp m r h
  | wait k ih => exact ⟨h.1, ih _ h.2.1, fun e => ih _ (h.2.2 e)⟩
  | release k ih => exact ⟨h.1, ih h.2⟩
  | call q k ih =>
    obtain ⟨hist, hm, hq, hk⟩ := h
    exact ⟨hist, hm, hq, fun r => ih r (hk r)⟩
  | access g k ih => intro s hs; exact ⟨(h s hs).1, ih _ (h s hs).2⟩
  | poll k ih => intro b; exact ih b (h b)

theorem follows_bind {post : Mode Q ε A → Except ε α → Prop} {post' : Mode Q ε A → Except ε β → Prop}
    {p : Prog σ ε Q A α} {f : α → Prog σ ε Q A β} {m : Mode Q ε A} (hp : Follows D c post m p)
    (ok : ∀ m a, post m (.ok a) → Follows D c post' m (f a))
    (error : ∀ m e, post m (.error e) → post' m (.error e)) : Follows D c post' m (p >>= f) := by
  refine follows_andThen (fun m r h => ?_) hp
  cases r with
  | ok a => exact ok m a h
  | error e => exact error m e h

theorem follows_finallyRelease {post : Mode Q ε A → Except ε α → Prop} {p : Prog σ ε Q A α} {m : Mode Q ε A}
    (hp : Follows D c (fun m r => (∃ hist, m = .held hist) ∧ post .free r) m p) :
    Follows D c post m p.finallyRelease :=
  follows_andThen (fun _ _ h => h) hp

theorem follows_request {post : Mode Q ε A → Except ε A → Prop} {hist : List (Q × Except ε A)} {q : Q}
    (hq : D.sends c hist q) (hpost : ∀ r, post (.held (hist ++ [(q, r)])) r) :
    Follows D c post (.held hist) (Prog.request q) := ⟨hist, rfl, hq, hpost⟩

theorem follows_get {post : Mode Q ε A → Except ε α → Prop} {m : Mode Q ε A} {f : σ → Prog σ ε Q A α}
    (h : ∀ s, D.inv s → Follows D c post m (f s)) : Follows D c post m (Prog.get >>= f) :=
  fun s hs => ⟨hs, h s hs⟩

theorem follows_modify {post : Mode Q ε A → Except ε Unit → Prop} {m : Mode Q ε A} {f : σ → σ}
    (hf : ∀ s, D.inv s → D.inv (f s)) (hpost : post m (.ok ())) : Follows D c post m (Prog.modify f) :=
  fun s hs => ⟨hf s hs, hpost⟩

theorem follows_throwIfCancelled {post : Mode Q ε A → Except ε Unit → Prop} {m : Mode Q ε A} {e : ε}
    (hok : post m (.ok ())) (herror : post m (.error e)) : Follows D c post m (Prog.throwIfCancelled e) := by
  intro b
  cases b with
  | true => exact herror
  | false => exact hok

/-- Outside the semaphore; a call whose wait was cancelled throws. -/
def Released (m : Mode Q ε A) (r : Except ε α) : Prop :=
  match m with
  | .free => True
  | .cancelled => ∃ e, r = .error e
  | .held _ => False

def Holding (m : Mode Q ε A) (_ : Except ε α) : Prop := ∃ hist, m = .held hist

theorem released_ok {m : Mode Q ε A} {x : α} (h : Released m (.ok x : Except ε α)) : m = .free := by
  cases m with
  | free => rfl
  | held hist => cases h
  | cancelled => obtain ⟨e, he⟩ := h; cases he

theorem released_error {m : Mode Q ε A} {e : ε} (h : Released m (.error e : Except ε α)) :
    Released m (.error e : Except ε β) := by
  cases m with
  | free => trivial
  | held hist => cases h
  | cancelled => exact ⟨e, rfl⟩

/-- What waits for the semaphore and releases it in a finally block is out of it in the end. -/
theorem follows_locked {body : Prog σ ε Q A α} (h : Follows D c Holding (.held []) body) :
    Follows D c Released .free (Prog.waitSemaphore >>= fun _ => body.finallyRelease) := by
  refine ⟨rfl, ?_, fun e => ⟨e, rfl⟩⟩
  exact follows_finallyRelease (follows_mono (fun m r hm => ⟨hm, trivial⟩) h)

/-- After what ends outside the semaphore the call goes on from outside. -/
theorem follows_then {p : Prog σ ε Q A α} {f : α → Prog σ ε Q A β} (hp : Follows D c Released .free p)
    (hf : ∀ a, Follows D c Released .free (f a)) : Follows D c Released .free (p >>= f) :=
  follows_bind hp (fun m a h => by rw [released_ok h]; exact hf a) (fun m e h => released_error h)

end Discipline

/-! ## The invariant -/

section Invariant

variable {σ ε Q A α C : Type} (D : Discipline σ ε Q A C) {prog : C → Prog σ ε Q A α}

def Ends (m : Mode Q ε A) (_ : Except ε α) : Prop := ∀ hist, m ≠ .held hist

def entries (i op : Nat) (hist : List (Q × Except ε A)) : List (Entry Q) := hist.map fun x => ⟨i, op, x.1⟩

/-- The log is `old`, without the operation, and then the operation's exchanges. -/
structure Block (g : Shared σ ε Q A) (log : List (Entry Q)) (i op : Nat) (old : List (Entry Q))
    (hist : List (Q × Except ε A)) : Prop where
  log_eq : log = old ++ entries i op hist
  old_other : ∀ e ∈ old, e.tag ≠ (i, op)
  answered : ∀ j x, hist[j]? = some x → g.answers (old.length + j) = some x.2

/-- A call that does not hold the semaphore follows the discipline from outside. -/
def Outside (p : Proc σ ε Q A α C) : Prop :=
  ∃ prog, p.at_ = .running prog ∧ Follows D p.call Ends (if p.cancelled then .cancelled else .free) prog

/-- A call that holds it has its operation's exchanges at the end of the log. -/
def Inside (g : Shared σ ε Q A) (i : Nat) (p : Proc σ ε Q A α C) : Prop :=
  p.cancelled = false ∧ ∃ old hist,
    match p.at_ with
    | .running prog => Block g g.log i p.op old hist ∧ Follows D p.call Ends (.held hist) prog
    | .awaiting n k => ∃ q log, g.log = log ++ [⟨i, p.op, q⟩] ∧ n = log.length ∧ Block g log i p.op old hist ∧
        ∀ r, Follows D p.call Ends (.held (hist ++ [(q, r)])) (k r)

structure Good (g : Shared σ ε Q A) (i : Nat) (p : Proc σ ε Q A α C) : Prop where
  inside : p.holding = true → Inside D g i p
  outside : p.holding = false → Outside D p

/-- The request `e`, number `n`, was allowed after the exchanges of its own operation. -/
def Allowed (s : St σ ε Q A α C) (n : Nat) (e : Entry Q) : Prop :=
  ∃ p old hist, s.procs e.proc = some p ∧ Block s.shared (s.shared.log.take n) e.proc e.op old hist ∧
    D.sends p.call hist e.request

structure Inv (s : St σ ε Q A α C) : Prop where
  fields_ok : D.inv s.shared.fields
  permits : (s.shared.permits = 1 ∧ ∀ i p, s.procs i = some p → p.holding = false) ∨
    (s.shared.permits = 0 ∧ ∃ i p, s.procs i = some p ∧ p.holding = true)
  exclusive : ∀ i j p q, s.procs i = some p → s.procs j = some q → p.holding = true → q.holding = true → i = j
  ops : ∀ e ∈ s.shared.log, ∃ p, s.procs e.proc = some p ∧ e.op ≤ p.op
  contiguous : Contiguous Entry.tag s.shared.log
  allowed : ∀ n e, s.shared.log[n]? = some e → Allowed D s n e
  good : ∀ i p, s.procs i = some p → Good D s.shared i p

variable {D}

theorem inv_init {fields : σ} (h : D.inv fields) : Inv D (init fields : St σ ε Q A α C) where
  fields_ok := h
  permits := Or.inl ⟨rfl, fun i p hp => by cases hp⟩
  exclusive i j p q hp := by cases hp
  ops e he := by cases he
  contiguous i j k x y z _ _ hx := by simp [init] at hx
  allowed n e he := by simp [init] at he
  good i p hp := by cases hp

/-! ### What a step may do to the permit -/

def Moves (g g' : Shared σ ε Q A) (p p' : Proc σ ε Q A α C) : Prop :=
  (p'.holding = p.holding ∧ g'.permits = g.permits) ∨
    (g.permits = 1 ∧ p'.holding = true ∧ g'.permits = 0) ∨
    (p.holding = true ∧ p'.holding = false ∧ g'.permits = g.permits + 1)

variable {s : St σ ε Q A α C} {i : Nat} {p p' : Proc σ ε Q A α C} {g' : Shared σ ε Q A}

theorem Inv.taken (h : Inv D s) (hp : s.procs i = some p) (hh : p.holding = true) : s.shared.permits = 0 := by
  rcases h.permits with ⟨-, hall⟩ | ⟨h0, -⟩
  · rw [hall i p hp] at hh; cases hh
  · exact h0

theorem Inv.others (h : Inv D s) (hp : s.procs i = some p) (hh : p.holding = true) :
    ∀ j q, j ≠ i → s.procs j = some q → q.holding = false := by
  intro j q hj hq
  cases hqh : q.holding with
  | false => rfl
  | true => exact absurd (h.exclusive j i q p hq hp hqh hh) hj

theorem permits_moves (h : Inv D s) (hp : s.procs i = some p) (hm : Moves s.shared g' p p') :
    (g'.permits = 1 ∧ ∀ j q, upd s.procs i (some p') j = some q → q.holding = false) ∨
      (g'.permits = 0 ∧ ∃ j q, upd s.procs i (some p') j = some q ∧ q.holding = true) := by
  rcases hm with ⟨hh, hg⟩ | ⟨-, hh, hg⟩ | ⟨hh, hh', hg⟩
  · rw [hg]
    rcases h.permits with ⟨h1, hall⟩ | ⟨h0, j, q, hq, hqh⟩
    · refine Or.inl ⟨h1, fun j q hq => ?_⟩
      by_cases e : j = i
      · subst e
        rw [upd_same] at hq; cases hq
        rw [hh]; exact hall j p hp
      · rw [upd_ne _ _ e] at hq; exact hall j q hq
    · refine Or.inr ⟨h0, ?_⟩
      by_cases e : j = i
      · subst e
        rw [hp] at hq; cases hq
        exact ⟨j, p', upd_same _ _ _, by rw [hh]; exact hqh⟩
      · exact ⟨j, q, by rw [upd_ne _ _ e]; exact hq, hqh⟩
  · exact Or.inr ⟨hg, i, p', upd_same _ _ _, hh⟩
  · refine Or.inl ⟨by rw [hg, h.taken hp hh], fun j q hq => ?_⟩
    by_cases e : j = i
    · subst e
      rw [upd_same] at hq; cases hq; exact hh'
    · rw [upd_ne _ _ e] at hq; exact h.others hp hh j q e hq

theorem exclusive_moves (h : Inv D s) (hp : s.procs i = some p) (hm : Moves s.shared g' p p') :
    ∀ j k q r, upd s.procs i (some p') j = some q → upd s.procs i (some p') k = some r →
      q.holding = true → r.holding = true → j = k := by
  -- no other call holds the permit once this one does
  have hothers : p'.holding = true → ∀ j q, j ≠ i → s.procs j = some q → q.holding = false := by
    intro hh'
    rcases hm with ⟨hh, -⟩ | ⟨h1, -, -⟩ | ⟨-, hf, -⟩
    · exact h.others hp (hh ▸ hh')
    · rcases h.permits with ⟨-, hall⟩ | ⟨h0, -⟩
      · exact fun j q _ hq => hall j q hq
      · omega
    · rw [hf] at hh'; cases hh'
  intro j k q r hq hr hqh hrh
  by_cases ej : j = i
  · subst ej
    rw [upd_same] at hq; cases hq
    by_cases ek : k = j
    · exact ek.symm
    · rw [upd_ne _ _ ek] at hr
      rw [hothers hqh k r ek hr] at hrh; cases hrh
  · rw [upd_ne _ _ ej] at hq
    by_cases ek : k = i
    · subst ek
      rw [upd_same] at hr; cases hr
      rw [hothers hrh j q ej hq] at hqh; cases hqh
    · rw [upd_ne _ _ ek] at hr
      exact h.exclusive j k q r hq hr hqh hrh

/-! ### What a step leaves alone -/

theorem Good.frame {g : Shared σ ε Q A} (h : Good D g i p) (hlog : g'.log = g.log) (hans : g'.answers = g.answers) :
    Good D g' i p where
  inside hh := by
    obtain ⟨hc, old, hist, hin⟩ := h.inside hh
    refine ⟨hc, old, hist, ?_⟩
    cases hat : p.at_ with
    | running prog =>
      rw [hat] at hin
      exact ⟨⟨hlog ▸ hin.1.log_eq, hin.1.old_other, hans ▸ hin.1.answered⟩, hin.2⟩
    | awaiting n k =>
      rw [hat] at hin
      obtain ⟨q, log, h1, h2, hb, h3⟩ := hin
      exact ⟨q, log, hlog ▸ h1, h2, ⟨hb.log_eq, hb.old_other, hans ▸ hb.answered⟩, h3⟩
  outside := h.outside

theorem Good.frame_outside {g : Shared σ ε Q A} (h : Good D g i p) (hh : p.holding = false) : Good D g' i p where
  inside ht := by rw [hh] at ht; cases ht
  outside := h.outside

theorem ops_upd (h : Inv D s) (hp : s.procs i = some p) (hop : p.op ≤ p'.op) :
    ∀ e ∈ s.shared.log, ∃ q, upd s.procs i (some p') e.proc = some q ∧ e.op ≤ q.op := by
  intro e he
  obtain ⟨q, hq, hle⟩ := h.ops e he
  by_cases ei : e.proc = i
  · rw [ei] at hq ⊢
    rw [hp] at hq; cases hq
    exact ⟨p', upd_same _ _ _, Nat.le_trans hle hop⟩
  · exact ⟨q, by rw [upd_ne _ _ ei]; exact hq, hle⟩

/-- What was allowed stays so while the log and the answers up to it stay. -/
theorem allowed_upd (h : Inv D s) (hp : s.procs i = some p) (hcall : p'.call = p.call) {n : Nat} {e : Entry Q}
    (he : s.shared.log[n]? = some e) (hlog : g'.log.take n = s.shared.log.take n)
    (hans : ∀ m, m < n → g'.answers m = s.shared.answers m) :
    Allowed D (⟨g', upd s.procs i (some p')⟩ : St σ ε Q A α C) n e := by
  obtain ⟨q, old, hist, hq, hb, hsends⟩ := h.allowed n e he
  have hlen : old.length + hist.length ≤ n := by
    have := congrArg List.length hb.log_eq
    simp only [List.length_take, List.length_append, entries, List.length_map] at this
    omega
  have hblock : Block g' (g'.log.take n) e.proc e.op old hist := by
    refine ⟨by rw [hlog]; exact hb.log_eq, hb.old_other, fun j x hx => ?_⟩
    have hj : j < hist.length := (List.getElem?_eq_some_iff.mp hx).1
    rw [hans _ (by omega)]
    exact hb.answered j x hx
  by_cases ei : e.proc = i
  · rw [ei, hp] at hq; cases hq
    exact ⟨p', old, hist, by rw [ei]; exact upd_same _ _ _, hblock, by rw [hcall]; exact hsends⟩
  · exact ⟨q, old, hist, by show upd s.procs i (some p') e.proc = _; rw [upd_ne _ _ ei]; exact hq, hblock, hsends⟩

/-- A step that does not touch the log keeps the invariant if it keeps the call's part of it. -/
theorem inv_quiet (h : Inv D s) (hp : s.procs i = some p) (hlog : g'.log = s.shared.log)
    (hans : g'.answers = s.shared.answers) (hfields : D.inv g'.fields)
    (hcall : p'.call = p.call) (hop : p.op ≤ p'.op) (hm : Moves s.shared g' p p') (hgood : Good D g' i p') :
    Inv D (⟨g', upd s.procs i (some p')⟩ : St σ ε Q A α C) where
  fields_ok := hfields
  permits := permits_moves h hp hm
  exclusive := exclusive_moves h hp hm
  ops e he := ops_upd h hp hop e (hlog ▸ he)
  contiguous := by
    show Contiguous Entry.tag g'.log
    rw [hlog]; exact h.contiguous
  allowed n e he := by
    have he' : s.shared.log[n]? = some e := by rw [← hlog]; exact he
    exact allowed_upd h hp hcall he' (by rw [hlog]) fun m _ => by rw [hans]
  good j q hq := by
    by_cases e : j = i
    · subst e
      have hq' : some p' = some q := by rw [← upd_same s.procs j (some p')]; exact hq
      cases hq'; exact hgood
    · have hq' : s.procs j = some q := by rw [← upd_ne s.procs (some p') e]; exact hq
      exact (h.good j q hq').frame hlog hans

/-! ### Each step -/

/-- How a call that runs follows the discipline, holding the permit or not. -/
theorem Good.follows {g : Shared σ ε Q A} (h : Good D g i p) {q : Prog σ ε Q A α} (hat : p.at_ = .running q) :
    ∃ m, Follows D p.call Ends m q ∧
      ((p.holding = true ∧ p.cancelled = false ∧ ∃ old hist, m = .held hist ∧ Block g g.log i p.op old hist) ∨
        (p.holding = false ∧ m = if p.cancelled then .cancelled else .free)) := by
  cases hh : p.holding with
  | true =>
    obtain ⟨hc, old, hist, hin⟩ := h.inside hh
    rw [hat] at hin
    exact ⟨.held hist, hin.2, Or.inl ⟨rfl, hc, old, hist, rfl, hin.1⟩⟩
  | false =>
    obtain ⟨q', hq', hf⟩ := h.outside hh
    rw [hat] at hq'
    cases hq'
    exact ⟨_, hf, Or.inr ⟨rfl, rfl⟩⟩

theorem good_running {g : Shared σ ε Q A} {q : Prog σ ε Q A α} {m : Mode Q ε A} (hat : p.at_ = .running q)
    (hf : Follows D p.call Ends m q)
    (hm : (p.holding = true ∧ p.cancelled = false ∧ ∃ old hist, m = .held hist ∧ Block g g.log i p.op old hist) ∨
      (p.holding = false ∧ m = if p.cancelled then .cancelled else .free)) : Good D g i p where
  inside hh := by
    rcases hm with ⟨-, hc, old, hist, rfl, hb⟩ | ⟨hn, -⟩
    · refine ⟨hc, old, hist, ?_⟩
      rw [hat]
      exact ⟨hb, hf⟩
    · rw [hn] at hh; cases hh
  outside hh := by
    rcases hm with ⟨hn, -⟩ | ⟨-, rfl⟩
    · rw [hn] at hh; cases hh
    · exact ⟨q, hat, hf⟩

variable {k : Except ε Unit → Prog σ ε Q A α}

theorem wait_outside {g : Shared σ ε Q A} (h : Good D g i p) (hat : p.at_ = .running (.wait k)) :
    p.holding = false ∧ p.cancelled = false ∧
      Follows D p.call Ends (.held []) (k (.ok ())) ∧ ∀ e, Follows D p.call Ends .cancelled (k (.error e)) := by
  obtain ⟨m, ⟨hfree, hok, herr⟩, hm⟩ := h.follows hat
  rcases hm with ⟨-, -, -, hist, rfl, -⟩ | ⟨hh, hm⟩
  · cases hfree
  · refine ⟨hh, ?_, hok, herr⟩
    rw [hfree] at hm
    cases hc : p.cancelled with
    | false => rfl
    | true => rw [hc] at hm; cases hm

theorem inv_acquire (h : Inv D s) (hp : s.procs i = some p) (hat : p.at_ = .running (.wait k))
    (hperm : s.shared.permits ≠ 0) :
    Inv D (⟨{ s.shared with permits := s.shared.permits - 1 },
      upd s.procs i (some { p with at_ := .running (k (.ok ())), holding := true, op := p.op + 1 })⟩ :
        St σ ε Q A α C) := by
  obtain ⟨hh, hc, hok, -⟩ := wait_outside (h.good i p hp) hat
  have h1 : s.shared.permits = 1 := by
    rcases h.permits with ⟨h1, -⟩ | ⟨h0, -⟩
    · exact h1
    · omega
  -- the operation is a new one: no request of it is in the log
  have hnew : ∀ e ∈ s.shared.log, e.tag ≠ (i, p.op + 1) := by
    intro e he htag
    obtain ⟨q, hq, hle⟩ := h.ops e he
    have hproc : e.proc = i := congrArg Prod.fst htag
    have hop : e.op = p.op + 1 := congrArg Prod.snd htag
    rw [hproc, hp] at hq; cases hq
    omega
  refine inv_quiet h hp rfl rfl h.fields_ok rfl (Nat.le_succ _)
    (Or.inr (Or.inl ⟨h1, rfl, by show s.shared.permits - 1 = 0; omega⟩)) ?_
  exact good_running rfl hok (Or.inl ⟨rfl, hc, s.shared.log, [], rfl,
    ⟨by simp [entries], hnew, fun j x hx => by simp at hx⟩⟩)

theorem inv_cancel (h : Inv D s) (hp : s.procs i = some p) (hat : p.at_ = .running (.wait k)) (e : ε) :
    Inv D (⟨s.shared, upd s.procs i (some { p with at_ := .running (k (.error e)), cancelled := true })⟩ :
      St σ ε Q A α C) := by
  obtain ⟨hh, -, -, herr⟩ := wait_outside (h.good i p hp) hat
  refine inv_quiet h hp rfl rfl h.fields_ok rfl (Nat.le_refl _) (Or.inl ⟨rfl, rfl⟩) ?_
  exact good_running rfl (herr e) (Or.inr ⟨hh, rfl⟩)

theorem inv_release {q : Prog σ ε Q A α} (h : Inv D s) (hp : s.procs i = some p)
    (hat : p.at_ = .running (.release q)) :
    Inv D (⟨{ s.shared with permits := s.shared.permits + 1 },
      upd s.procs i (some { p with at_ := .running q, holding := false })⟩ : St σ ε Q A α C) := by
  obtain ⟨m, ⟨⟨hist, hheld⟩, hf⟩, hm⟩ := (h.good i p hp).follows hat
  rcases hm with ⟨hh, hc, -⟩ | ⟨-, hm⟩
  · refine inv_quiet h hp rfl rfl h.fields_ok rfl (Nat.le_refl _)
      (Or.inr (Or.inr ⟨hh, rfl, rfl⟩)) ?_
    exact good_running rfl hf (Or.inr ⟨rfl, by rw [hc]; rfl⟩)
  · rw [hheld] at hm
    split at hm <;> cases hm

theorem inv_access {f : σ → σ} {q : σ → Prog σ ε Q A α} (h : Inv D s) (hp : s.procs i = some p)
    (hat : p.at_ = .running (.access f q)) :
    Inv D (⟨{ s.shared with fields := f s.shared.fields },
      upd s.procs i (some { p with at_ := .running (q s.shared.fields) })⟩ : St σ ε Q A α C) := by
  obtain ⟨m, hf, hm⟩ := (h.good i p hp).follows hat
  obtain ⟨hinv, hf⟩ := hf s.shared.fields h.fields_ok
  refine inv_quiet h hp rfl rfl hinv rfl (Nat.le_refl _) (Or.inl ⟨rfl, rfl⟩) ?_
  refine good_running rfl hf ?_
  rcases hm with ⟨hh, hc, old, hist, rfl, hb⟩ | hm
  · exact Or.inl ⟨hh, hc, old, hist, rfl, ⟨hb.log_eq, hb.old_other, hb.answered⟩⟩
  · exact Or.inr hm

theorem inv_poll {q : Bool → Prog σ ε Q A α} (h : Inv D s) (hp : s.procs i = some p)
    (hat : p.at_ = .running (.poll q)) (b : Bool) :
    Inv D (⟨s.shared, upd s.procs i (some { p with at_ := .running (q b) })⟩ : St σ ε Q A α C) := by
  obtain ⟨m, hf, hm⟩ := (h.good i p hp).follows hat
  refine inv_quiet h hp rfl rfl h.fields_ok rfl (Nat.le_refl _) (Or.inl ⟨rfl, rfl⟩) ?_
  exact good_running rfl (hf b) hm

theorem entries_tag {i op : Nat} {hist : List (Q × Except ε A)} : ∀ e ∈ entries i op hist, e.tag = (i, op) := by
  intro e he
  obtain ⟨x, -, rfl⟩ := List.mem_map.mp he
  rfl

theorem inv_send {q : Q} {kk : Except ε A → Prog σ ε Q A α} (h : Inv D s) (hp : s.procs i = some p)
    (hat : p.at_ = .running (.call q kk)) :
    Inv D (⟨{ s.shared with log := s.shared.log ++ [⟨i, p.op, q⟩] },
      upd s.procs i (some { p with at_ := .awaiting s.shared.log.length kk })⟩ : St σ ε Q A α C) := by
  obtain ⟨m, ⟨hist, hheld, hsends, hk⟩, hm⟩ := (h.good i p hp).follows hat
  obtain ⟨hh, hc, old, hb⟩ :
      p.holding = true ∧ p.cancelled = false ∧ ∃ old, Block s.shared s.shared.log i p.op old hist := by
    rcases hm with ⟨hh, hc, old, hist', hm, hb⟩ | ⟨-, hm⟩
    · rw [hheld] at hm
      cases hm
      exact ⟨hh, hc, old, hb⟩
    · rw [hheld] at hm
      split at hm <;> cases hm
  let g : Shared σ ε Q A := { s.shared with log := s.shared.log ++ [⟨i, p.op, q⟩] }
  let p₁ : Proc σ ε Q A α C := { p with at_ := .awaiting s.shared.log.length kk }
  have hm : Moves s.shared g p p₁ := Or.inl ⟨rfl, rfl⟩
  have hcall : p₁.call = p.call := rfl
  have hself : upd s.procs i (some p₁) i = some p₁ := upd_same _ _ _
  have hops : ∀ e ∈ s.shared.log, ∃ r, upd s.procs i (some p₁) e.proc = some r ∧ e.op ≤ r.op :=
    ops_upd h hp (Nat.le_refl _)
  refine ⟨h.fields_ok, permits_moves h hp hm, exclusive_moves h hp hm, ?ops, ?contiguous, ?allowed, ?good⟩
  case ops =>
    intro e he
    rcases List.mem_append.mp he with he | he
    · exact hops e he
    · rw [List.mem_singleton.mp he]
      exact ⟨p₁, hself, Nat.le_refl _⟩
  case contiguous =>
    show Contiguous Entry.tag (s.shared.log ++ [⟨i, p.op, q⟩])
    have hcont := h.contiguous
    rw [hb.log_eq] at hcont ⊢
    exact contiguous_append hcont hb.old_other entries_tag rfl
  case allowed =>
    intro n e he
    have he : (s.shared.log ++ [⟨i, p.op, q⟩])[n]? = some e := he
    have hn := (List.getElem?_eq_some_iff.mp he).1
    rw [List.length_append, List.length_singleton] at hn
    by_cases hlast : n < s.shared.log.length
    · rw [List.getElem?_append_left hlast] at he
      have htake : g.log.take n = s.shared.log.take n := List.take_append_of_le_length (Nat.le_of_lt hlast)
      have hans : ∀ m, m < n → g.answers m = s.shared.answers m := fun m _ => rfl
      exact allowed_upd h hp hcall he htake hans
    · have hn' : n = s.shared.log.length := by omega
      subst hn'
      have he' : (⟨i, p.op, q⟩ : Entry Q) = e := by simpa using he
      subst he'
      refine ⟨p₁, old, hist, hself, ?_, hsends⟩
      show Block g ((s.shared.log ++ [(⟨i, p.op, q⟩ : Entry Q)]).take s.shared.log.length) i p.op old hist
      rw [List.take_left]
      exact ⟨hb.log_eq, hb.old_other, hb.answered⟩
  case good =>
    intro j r hr
    by_cases e : j = i
    · subst e
      have hr' : some p₁ = some r := hself.symm.trans hr
      cases hr'
      have hblock : Block g s.shared.log j p.op old hist := ⟨hb.log_eq, hb.old_other, hb.answered⟩
      refine ⟨fun _ => ⟨hc, old, hist, q, s.shared.log, rfl, rfl, hblock, hk⟩, fun hf => ?_⟩
      · rw [show p.holding = false from hf] at hh; cases hh
    · have hr' : s.procs j = some r := by rw [← upd_ne s.procs _ e]; exact hr
      exact (h.good j r hr').frame_outside (h.others hp hh j r e hr')

theorem inv_answer {n : Nat} {kk : Except ε A → Prog σ ε Q A α} (h : Inv D s) (hp : s.procs i = some p)
    (hat : p.at_ = .awaiting n kk) (r : Except ε A) :
    Inv D (⟨{ s.shared with answers := upd s.shared.answers n (some r) },
      upd s.procs i (some { p with at_ := .running (kk r) })⟩ : St σ ε Q A α C) := by
  have hg := h.good i p hp
  have hh : p.holding = true := by
    cases hh : p.holding with
    | false =>
      obtain ⟨prog, hrun, -⟩ := hg.outside hh
      rw [hat] at hrun; cases hrun
    | true => rfl
  obtain ⟨hc, old, hist, hin⟩ := hg.inside hh
  rw [hat] at hin
  obtain ⟨q, log, hlog, hn, hb, hk⟩ := hin
  have hlen : log.length = old.length + hist.length := by
    rw [hb.log_eq]; simp [entries]
  have hans : ∀ m, m < n → upd s.shared.answers n (some r) m = s.shared.answers m :=
    fun m hm => upd_ne _ _ (by omega)
  let g : Shared σ ε Q A := { s.shared with answers := upd s.shared.answers n (some r) }
  let p₁ : Proc σ ε Q A α C := { p with at_ := .running (kk r) }
  have hm : Moves s.shared g p p₁ := Or.inl ⟨rfl, rfl⟩
  have hcall : p₁.call = p.call := rfl
  have hself : upd s.procs i (some p₁) i = some p₁ := upd_same _ _ _
  refine ⟨h.fields_ok, permits_moves h hp hm, exclusive_moves h hp hm, ops_upd h hp (Nat.le_refl _),
    h.contiguous, ?allowed, ?good⟩
  case allowed =>
    intro m e he
    have hlast : m < n + 1 := by
      have := (List.getElem?_eq_some_iff.mp he).1
      simp only [hlog, List.length_append, List.length_singleton] at this
      omega
    have hans' : ∀ j, j < m → g.answers j = s.shared.answers j := fun j hj => hans j (by omega)
    exact allowed_upd h hp hcall he rfl hans'
  case good =>
    intro j p₂ hp₂
    by_cases e : j = i
    · subst e
      have hp' : some p₁ = some p₂ := hself.symm.trans hp₂
      cases hp'
      refine good_running (m := .held (hist ++ [(q, r)])) rfl (hk r)
        (Or.inl ⟨hh, hc, old, hist ++ [(q, r)], rfl, ?_, hb.old_other, ?_⟩)
      · show s.shared.log = old ++ entries j p.op (hist ++ [(q, r)])
        rw [hlog, hb.log_eq]
        simp [entries]
      · intro m x hx
        show upd s.shared.answers n (some r) (old.length + m) = some x.2
        by_cases hlt : m < hist.length
        · rw [List.getElem?_append_left hlt] at hx
          rw [hans _ (by omega)]
          exact hb.answered m x hx
        · have hx' := (List.getElem?_eq_some_iff.mp hx).1
          rw [List.length_append, List.length_singleton] at hx'
          rw [List.getElem?_append_right (by omega), show m - hist.length = 0 by omega] at hx
          have hx' : (q, r) = x := by simpa using hx
          rw [show old.length + m = n by omega, upd_same, ← hx']
    · have hr' : s.procs j = some p₂ := by rw [← upd_ne s.procs _ e]; exact hp₂
      exact (h.good j p₂ hr').frame_outside (h.others hp hh j p₂ e hr')

theorem inv_act (h : Inv D s) (hp : s.procs i = some p) {a : Act ε A}
    (hs : stepProc i s.shared p a = some (g', p')) :
    Inv D (⟨g', upd s.procs i (some p')⟩ : St σ ε Q A α C) := by
  cases a with
  | acquire =>
    simp only [stepProc] at hs
    split at hs
    · rename_i hat
      split at hs
      · cases hs
      · cases hs; exact inv_acquire h hp hat ‹_›
    · cases hs
  | cancel e =>
    simp only [stepProc] at hs
    split at hs
    · rename_i hat; cases hs; exact inv_cancel h hp hat e
    · cases hs
  | release =>
    simp only [stepProc] at hs
    split at hs
    · rename_i hat; cases hs; exact inv_release h hp hat
    · cases hs
  | send =>
    simp only [stepProc] at hs
    split at hs
    · rename_i hat; cases hs; exact inv_send h hp hat
    · cases hs
  | answer r =>
    simp only [stepProc] at hs
    split at hs
    · rename_i hat; cases hs; exact inv_answer h hp hat r
    · cases hs
  | access =>
    simp only [stepProc] at hs
    split at hs
    · rename_i hat; cases hs; exact inv_access h hp hat
    · cases hs
  | poll b =>
    simp only [stepProc] at hs
    split at hs
    · rename_i hat; cases hs; exact inv_poll h hp hat b
    · cases hs

/-- A new call has sent nothing. -/
theorem inv_start (h : Inv D s) (hfree : s.procs i = none) {c : C}
    (hf : Follows D c Ends .free (prog c)) :
    Inv D (⟨s.shared, upd s.procs i (some ⟨c, .running (prog c), false, 0, false⟩)⟩ : St σ ε Q A α C) := by
  have keep : ∀ {j q}, s.procs j = some q →
      upd s.procs i (some ⟨c, .running (prog c), false, 0, false⟩) j = some q := by
    intro j q hq
    have e : j ≠ i := by rintro rfl; rw [hfree] at hq; cases hq
    rw [upd_ne _ _ e]; exact hq
  have back : ∀ {j q}, upd s.procs i (some ⟨c, .running (prog c), false, 0, false⟩) j = some q →
      (j = i ∧ q = ⟨c, .running (prog c), false, 0, false⟩) ∨ s.procs j = some q := by
    intro j q hq
    by_cases e : j = i
    · subst e
      rw [upd_same] at hq; cases hq
      exact Or.inl ⟨rfl, rfl⟩
    · rw [upd_ne _ _ e] at hq; exact Or.inr hq
  refine ⟨h.fields_ok, ?permits, ?exclusive, ?ops, h.contiguous, ?allowed, ?good⟩
  case permits =>
    rcases h.permits with ⟨h1, hall⟩ | ⟨h0, j, q, hq, hh⟩
    · refine Or.inl ⟨h1, fun j q hq => ?_⟩
      rcases back hq with ⟨-, rfl⟩ | hq
      · rfl
      · exact hall j q hq
    · exact Or.inr ⟨h0, j, q, keep hq, hh⟩
  case exclusive =>
    intro j k q r hq hr hqh hrh
    rcases back hq with ⟨-, rfl⟩ | hq
    · cases hqh
    · rcases back hr with ⟨-, rfl⟩ | hr
      · cases hrh
      · exact h.exclusive j k q r hq hr hqh hrh
  case ops =>
    intro e he
    obtain ⟨q, hq, hle⟩ := h.ops e he
    exact ⟨q, keep hq, hle⟩
  case allowed =>
    intro n e he
    obtain ⟨q, old, hist, hq, hb, hsends⟩ := h.allowed n e he
    exact ⟨q, old, hist, keep hq, hb, hsends⟩
  case good =>
    intro j q hq
    rcases back hq with ⟨-, rfl⟩ | hq
    · exact good_running rfl hf (Or.inr ⟨rfl, rfl⟩)
    · exact h.good j q hq

theorem inv_step (hprog : ∀ c, Follows D c Ends .free (prog c)) {e : Ev ε A C}
    {s' : St σ ε Q A α C} (h : Inv D s) (hs : step prog s e = some s') : Inv D s' := by
  cases e with
  | start i c =>
    simp only [step] at hs
    split at hs
    · cases hs
    · rename_i hfree
      cases hs; exact inv_start h hfree (hprog c)
  | act i a =>
    simp only [step] at hs
    split at hs
    · cases hs
    · rename_i p hp
      cases ha : stepProc i s.shared p a with
      | none => rw [ha] at hs; cases hs
      | some r =>
        rw [ha] at hs
        cases hs; exact inv_act h hp ha

/-! ## What the invariant gives -/

/-- Only a call that holds the permit sends. -/
theorem sends_holding (h : Inv D s) (hp : s.procs i = some p) (hs : stepProc i s.shared p .send = some (g', p')) :
    p.holding = true := by
  simp only [stepProc] at hs
  split at hs
  · rename_i hat
    obtain ⟨m, ⟨hist, rfl, -⟩, hm⟩ := (h.good i p hp).follows hat
    rcases hm with ⟨hh, -⟩ | ⟨-, hm⟩
    · exact hh
    · split at hm <;> cases hm
  · cases hs

/-- Once every call has ended, in whatever way, the permit is available. -/
theorem Inv.available (h : Inv D s) (hall : ∀ i p, s.procs i = some p → p.ended) : s.shared.permits = 1 := by
  rcases h.permits with ⟨h1, -⟩ | ⟨-, i, p, hp, hh⟩
  · exact h1
  · obtain ⟨r, hr⟩ := hall i p hp
    obtain ⟨m, hf, hm⟩ := (h.good i p hp).follows hr
    rcases hm with ⟨-, -, -, hist, rfl, -⟩ | ⟨hn, -⟩
    · exact absurd rfl (hf hist)
    · rw [hn] at hh; cases hh

/-- A call that was cancelled in a wait sends nothing, acquires nothing and releases nothing. -/
theorem cancelled_silent (h : Inv D s) (hp : s.procs i = some p) (hc : p.cancelled = true) {a : Act ε A}
    (hs : stepProc i s.shared p a = some (g', p')) :
    g'.permits = s.shared.permits ∧ g'.log = s.shared.log ∧ p'.cancelled = true := by
  have hg := h.good i p hp
  have mode : ∀ {q}, p.at_ = .running q → Follows D p.call Ends .cancelled q := by
    intro q hat
    obtain ⟨m, hf, hm⟩ := hg.follows hat
    rcases hm with ⟨-, hn, -⟩ | ⟨-, rfl⟩
    · rw [hc] at hn; cases hn
    · rw [hc] at hf; exact hf
  cases a with
  | acquire =>
    simp only [stepProc] at hs
    split at hs
    · rename_i hat
      obtain ⟨hfree, -⟩ := mode hat
      cases hfree
    · cases hs
  | cancel e =>
    simp only [stepProc] at hs
    split at hs
    · rename_i hat
      obtain ⟨hfree, -⟩ := mode hat
      cases hfree
    · cases hs
  | release =>
    simp only [stepProc] at hs
    split at hs
    · rename_i hat
      obtain ⟨⟨hist, hheld⟩, -⟩ := mode hat
      cases hheld
    · cases hs
  | send =>
    simp only [stepProc] at hs
    split at hs
    · rename_i hat
      obtain ⟨hist, hheld, -⟩ := mode hat
      cases hheld
    · cases hs
  | answer r =>
    simp only [stepProc] at hs
    split at hs
    · cases hs; exact ⟨rfl, rfl, hc⟩
    · cases hs
  | access =>
    simp only [stepProc] at hs
    split at hs
    · cases hs; exact ⟨rfl, rfl, hc⟩
    · cases hs
  | poll b =>
    simp only [stepProc] at hs
    split at hs
    · cases hs; exact ⟨rfl, rfl, hc⟩
    · cases hs

end Invariant

end Lib.Serial
