/-
  Lib.Servers — calls under a semaphore (Lib.Serial) whose requests go to a server that has
  a state.

  `served serve p s m` runs a call alone against such a server: `serve m q` is the answer to
  `q` in state `m`, with the state after it. `Carries serve m l m'` says that the server
  gives the answers of `l`, one after another, from `m` to `m'`.

  A call is `Straight` where it only sends requests and ends at the first failure. `Path`
  follows a call through a run with others: what its requests were answered, each with the
  number of its operation; the fields, the waits and the cancellations are as they come.

  What the server has done in a run is a list of `Execution`s, in the order of the requests;
  it may have left out requests that failed.

  Proved:
  - `asks_step`: what all calls keep to in what they ask holds of every request.
  - `told_step`: in every interleaving the requests of a call and their answers are a path
    of the call (no discipline is needed).
  - `locked_block`: a straight call under the semaphore that returned has its requests one
    after another in the log.
  - `executions_carry`: the server carried them out one after another.
  - `straight_served` / `returned_alone`: so the call returns the same alone with that server.
-/

import OlympSystem.Lib.Query
import OlympSystem.Lib.Serial

namespace Lib.Servers

open Lib.Runs Lib.Program Lib.Program.Prog Lib.Serial Lib.Query

/-! ## A server with a state -/

section Server

variable {σ ε Q A α β μ : Type} (serve : μ → Q → Except ε A × μ)

def served : Prog σ ε Q A α → σ → μ → Except ε α × μ
  | .ret r, _, m => (r, m)
  | .wait k, s, m => served (k (.ok ())) s m
  | .release k, s, m => served k s m
  | .call q k, s, m => served (k (serve m q).1) s (serve m q).2
  | .access f k, s, m => served (k s) (f s) m
  | .poll k, s, m => served (k false) s m

def Carries : μ → List (Q × Except ε A) → μ → Prop
  | m, [], m' => m' = m
  | m, (q, r) :: l, m' => (serve m q).1 = r ∧ Carries (serve m q).2 l m'

/-- What the server does in one state it does in another that it cannot tell from it. -/
theorem carries_of_first {m m₀ m' : μ} {q : Q} {r : Except ε A} {l : List (Q × Except ε A)}
    (h : Carries serve m ((q, r) :: l) m') (hsame : serve m₀ q = serve m q) : Carries serve m₀ ((q, r) :: l) m' := by
  obtain ⟨hr, hl⟩ := h
  exact ⟨by rw [hsame]; exact hr, by rw [hsame]; exact hl⟩

end Server

/-! ## Straight calls -/

section Straight

variable {σ ε Q A α β μ : Type}

def Straight : Prog σ ε Q A α → Prop
  | .ret _ => True
  | .call _ k => (∀ e, ∃ e', k (.error e) = .ret (.error e')) ∧ ∀ a, Straight (k (.ok a))
  | _ => False

theorem straight_throw (e : ε) : Straight (throw e : Prog σ ε Q A α) := trivial

theorem straight_lift (r : Except ε α) : Straight (lift r : Prog σ ε Q A α) := trivial

theorem straight_request (q : Q) : Straight (request q : Prog σ ε Q A A) := ⟨fun e => ⟨e, rfl⟩, fun _ => trivial⟩

theorem straight_bind {f : α → Prog σ ε Q A β} (hf : ∀ x, Straight (f x)) :
    ∀ {p : Prog σ ε Q A α}, Straight p → Straight (p >>= f) := by
  intro p
  induction p with
  | ret r =>
    intro _
    cases r with
    | ok x => exact hf x
    | error e => trivial
  | call q k ih =>
    intro h
    refine ⟨fun e => ?_, fun a => ih _ (h.2 a)⟩
    obtain ⟨e', he⟩ := h.1 e
    refine ⟨e', ?_⟩
    show (k (.error e)).andThen _ = _
    rw [he]
    rfl
  | wait k _ | release k _ | access g k _ | poll k _ => intro h; cases h

theorem andThen_assoc {γ : Type} (f : Except ε α → Prog σ ε Q A β) (g : Except ε β → Prog σ ε Q A γ) :
    ∀ p : Prog σ ε Q A α, (p.andThen f).andThen g = p.andThen fun r => (f r).andThen g := by
  intro p
  induction p with
  | ret r => rfl
  | wait k ih => exact congrArg Prog.wait (funext fun r => ih r)
  | release k ih => exact congrArg Prog.release ih
  | call q k ih => exact congrArg (Prog.call q) (funext fun r => ih r)
  | access h k ih => exact congrArg (Prog.access h) (funext fun s => ih s)
  | poll k ih => exact congrArg Prog.poll (funext fun b => ih b)

/-- A call under the semaphore that hands its result on. -/
def locked (body : Prog σ ε Q A α) (wrap : α → β) : Prog σ ε Q A β := do
  let x ← (do
    waitSemaphore
    body.finallyRelease)
  return wrap x

/-! ## Paths -/

def Path : (op : Nat) → Prog σ ε Q A α → List (Nat × Q × Except ε A) → Except ε α → Prop
  | _, .ret r, l, r' => l = [] ∧ r' = r
  | op, .wait k, l, r => Path (op + 1) (k (.ok ())) l r ∨ ∃ e, Path op (k (.error e)) l r
  | op, .release k, l, r => Path op k l r
  | op, .call q k, l, r => ∃ a rest, l = (op, q, a) :: rest ∧ Path op (k a) rest r
  | op, .access _ k, l, r => ∃ s, Path op (k s) l r
  | op, .poll k, l, r => ∃ b, Path op (k b) l r

theorem path_andThen {f : Except ε α → Prog σ ε Q A β} {op : Nat} {r : Except ε β} :
    ∀ {p : Prog σ ε Q A α}, Straight p → ∀ {l : List (Nat × Q × Except ε A)}, Path op (p.andThen f) l r →
      ∃ l₁ r₁ l₂, Path op p l₁ r₁ ∧ Path op (f r₁) l₂ r ∧ l = l₁ ++ l₂ := by
  intro p
  induction p with
  | ret r₁ => intro _ l h; exact ⟨[], r₁, l, ⟨rfl, rfl⟩, h, rfl⟩
  | call q k ih =>
    intro hp l h
    obtain ⟨a, rest, rfl, h⟩ := h
    have hk : Straight (k a) := by
      cases a with
      | ok a => exact hp.2 a
      | error e => obtain ⟨e', he⟩ := hp.1 e; rw [he]; trivial
    obtain ⟨l₁, r₁, l₂, h₁, h₂, rfl⟩ := ih a hk h
    exact ⟨(op, q, a) :: l₁, r₁, l₂, ⟨a, l₁, rfl, h₁⟩, h₂, rfl⟩
  | wait k _ | release k _ | access g k _ | poll k _ => intro hp; cases hp

/-- A locked call that returned has the path of its body, in its first operation. -/
theorem path_locked {body : Prog σ ε Q A α} {wrap : α → β} (hbody : Straight body)
    {l : List (Nat × Q × Except ε A)} {y : β} (h : Path 0 (locked body wrap) l (.ok y)) :
    ∃ x, y = wrap x ∧ Path 1 body l (.ok x) := by
  rcases h with h | ⟨e, h⟩
  · change Path 1 ((body.andThen fun r => .release (.ret r)).andThen _) l (.ok y) at h
    rw [andThen_assoc] at h
    obtain ⟨l₁, r₁, l₂, h₁, h₂, rfl⟩ := path_andThen hbody h
    cases r₁ with
    | error e => obtain ⟨-, h₂⟩ := h₂; cases h₂
    | ok x =>
      obtain ⟨rfl, hy⟩ := h₂
      exact ⟨x, Except.ok.inj hy, by rw [List.append_nil]; exact h₁⟩
  · obtain ⟨-, h⟩ := h
    cases h

/-- A path of a straight call that returned: all in one operation, and no request failed. -/
theorem straight_path {op : Nat} {x : α} : ∀ {p : Prog σ ε Q A α}, Straight p →
    ∀ {l : List (Nat × Q × Except ε A)}, Path op p l (.ok x) → ∀ z ∈ l, z.1 = op ∧ ∃ a, z.2.2 = .ok a := by
  intro p
  induction p with
  | ret r => intro _ l h z hz; rw [h.1] at hz; cases hz
  | call q k ih =>
    intro hp l h z hz
    obtain ⟨a, rest, rfl, h⟩ := h
    cases a with
    | ok a =>
      rcases List.mem_cons.mp hz with rfl | hz
      · exact ⟨rfl, a, rfl⟩
      · exact ih (.ok a) (hp.2 a) h z hz
    | error e =>
      obtain ⟨e', he⟩ := hp.1 e
      rw [he] at h
      cases h.2
  | wait k _ | release k _ | access g k _ | poll k _ => intro hp; cases hp

/-- Where the server gives the answers of a path, the call alone with it goes that way. -/
theorem straight_served (serve : μ → Q → Except ε A × μ) {op : Nat} {x : α} : ∀ {p : Prog σ ε Q A α}, Straight p →
    ∀ {l : List (Nat × Q × Except ε A)} {m m' : μ} (s : σ), Path op p l (.ok x) → Carries serve m (l.map Prod.snd) m' →
      served serve p s m = (.ok x, m') := by
  intro p
  induction p with
  | ret r =>
    intro _ l m m' s h hl
    obtain ⟨rfl, rfl⟩ := h
    have hl : m' = m := hl
    rw [hl]; rfl
  | call q k ih =>
    intro hp l m m' s h hl
    obtain ⟨a, rest, rfl, h⟩ := h
    obtain ⟨ha, hl⟩ := hl
    show served serve (k (serve m q).1) s (serve m q).2 = _
    rw [ha]
    cases a with
    | ok a => exact ih (.ok a) (hp.2 a) s h hl
    | error e =>
      obtain ⟨e', he⟩ := hp.1 e
      rw [he] at h
      cases h.2
  | wait k _ | release k _ | access g k _ | poll k _ => intro hp; cases hp

theorem served_andThen (serve : μ → Q → Except ε A × μ) {f : Except ε α → Prog σ ε Q A β} (s : σ) :
    ∀ {p : Prog σ ε Q A α}, Straight p → ∀ m : μ,
      served serve (p.andThen f) s m = served serve (f (served serve p s m).1) s (served serve p s m).2 := by
  intro p
  induction p with
  | ret r => intro _ m; rfl
  | call q k ih =>
    intro hp m
    show served serve ((k (serve m q).1).andThen f) s (serve m q).2 = _
    cases ha : (serve m q).1 with
    | ok a =>
      rw [ih (.ok a) (hp.2 a)]
      show _ = served serve (f (served serve (k (serve m q).1) s (serve m q).2).1) s
        (served serve (k (serve m q).1) s (serve m q).2).2
      rw [ha]
    | error e =>
      obtain ⟨e', he⟩ := hp.1 e
      show _ = served serve (f (served serve (k (serve m q).1) s (serve m q).2).1) s
        (served serve (k (serve m q).1) s (serve m q).2).2
      rw [ha, he]
      rfl
  | wait k _ | release k _ | access g k _ | poll k _ => intro hp; cases hp

theorem served_locked (serve : μ → Q → Except ε A × μ) {body : Prog σ ε Q A α} {wrap : α → β} (hbody : Straight body)
    {s : σ} {m m' : μ} {x : α} (h : served serve body s m = (.ok x, m')) :
    served serve (locked body wrap) s m = (.ok (wrap x), m') := by
  show served serve ((body.andThen fun r => .release (.ret r)).andThen _) s m = _
  rw [andThen_assoc, served_andThen serve s hbody, h]
  rfl

/-- The first thing the call does, if it does not end at once with a failure. -/
def Starts (P : Q → Prop) : Prog σ ε Q A α → Prop
  | .ret r => ∃ e, r = .error e
  | .call q _ => P q
  | _ => False

theorem starts_path {P : Q → Prop} {p : Prog σ ε Q A α} (h : Starts P p) {op : Nat}
    {l : List (Nat × Q × Except ε A)} {x : α}
    (hl : Path op p l (.ok x)) : ∃ q a rest, l = (op, q, a) :: rest ∧ P q := by
  cases p with
  | ret r =>
    obtain ⟨e, rfl⟩ := h
    cases hl.2
  | call q k =>
    obtain ⟨a, rest, rfl, -⟩ := hl
    exact ⟨q, a, rest, rfl, h⟩
  | wait k | release k | access g k | poll k => cases h

theorem starts_bind {P : Q → Prop} {f : α → Prog σ ε Q A β} {p : Prog σ ε Q A α} (h : Starts P p) :
    Starts P (p >>= f) := by
  cases p with
  | ret r => obtain ⟨e, rfl⟩ := h; exact ⟨e, rfl⟩
  | call q k => exact h
  | wait k | release k | access g k | poll k => cases h

end Straight

/-! ## Steps that send, are answered, or do neither -/

section Steps

variable {σ ε Q A α C : Type}

def awaited (s : St σ ε Q A α C) (i : Nat) : Option Nat :=
  match s.procs i with
  | none => none
  | some p =>
    match p.at_ with
    | .awaiting n _ => some n
    | .running _ => none

def isOwn : Ev ε A C → Bool
  | .act _ .send | .act _ (.answer _) => false
  | _ => true

variable {prog : C → Prog σ ε Q A α} {s s' : St σ ε Q A α C}

theorem awaited_of {i n : Nat} {p : Proc σ ε Q A α C} {k : Except ε A → Prog σ ε Q A α} (hp : s.procs i = some p)
    (hat : p.at_ = .awaiting n k) : awaited s i = some n := by
  unfold awaited
  rw [hp]
  simp only [hat]

theorem awaited_some {i n : Nat} (h : awaited s i = some n) :
    ∃ (p : Proc σ ε Q A α C) (k : Except ε A → Prog σ ε Q A α), s.procs i = some p ∧ p.at_ = .awaiting n k := by
  unfold awaited at h
  split at h
  · cases h
  · next p hp =>
    split at h
    · next k hat => cases h; exact ⟨p, k, hp, hat⟩
    · cases h

/-- Who awaits an answer holds the semaphore. -/
theorem awaiting_holding {D : Discipline σ ε Q A C} (h : Inv D s) {i n : Nat} {p : Proc σ ε Q A α C}
    {k : Except ε A → Prog σ ε Q A α} (hp : s.procs i = some p) (hat : p.at_ = .awaiting n k) : p.holding = true := by
  cases hholding : p.holding with
  | true => rfl
  | false =>
    obtain ⟨q, hrun, -⟩ := (h.good i p hp).outside hholding
    rw [hat] at hrun
    cases hrun

theorem awaited_running {i : Nat} {p : Proc σ ε Q A α C} {q : Prog σ ε Q A α} (hp : s.procs i = some p)
    (hat : p.at_ = .running q) : awaited s i = none := by
  unfold awaited
  rw [hp]
  simp only [hat]

theorem awaited_upd {g : Shared σ ε Q A} {i j : Nat} {p : Option (Proc σ ε Q A α C)} (h : j ≠ i) :
    awaited ⟨g, upd s.procs i p⟩ j = awaited s j := by
  unfold awaited
  simp only [upd_ne _ _ h]

theorem act_step {i : Nat} {a : Act ε A} (hs : step prog s (.act i a) = some s') : ∃ p g' p', s.procs i = some p ∧
    stepProc i s.shared p a = some (g', p') ∧ s' = ⟨g', upd s.procs i (some p')⟩ := by
  simp only [step] at hs
  split at hs
  · cases hs
  · next p hp =>
    obtain ⟨⟨g', p'⟩, hact, rfl⟩ := Option.map_eq_some_iff.mp hs
    exact ⟨p, g', p', hp, hact, rfl⟩

theorem send_step {i : Nat} (hs : step prog s (.act i .send) = some s') :
    ∃ e : Entry Q, s'.shared.log = s.shared.log ++ [e] ∧ s'.shared.answers = s.shared.answers ∧
      awaited s' i = some s.shared.log.length ∧ ∀ j, j ≠ i → awaited s' j = awaited s j := by
  obtain ⟨p, g', p', hp, hact, rfl⟩ := act_step hs
  simp only [stepProc] at hact
  split at hact
  · cases hact
    exact ⟨_, rfl, rfl, awaited_of (upd_same _ _ _) rfl, fun j hj => awaited_upd hj⟩
  · cases hact

theorem answer_step {i : Nat} {r : Except ε A} (hs : step prog s (.act i (.answer r)) = some s') :
    ∃ n, awaited s i = some n ∧ s'.shared.log = s.shared.log ∧ s'.shared.answers = upd s.shared.answers n (some r) ∧
      awaited s' i = none ∧ ∀ j, j ≠ i → awaited s' j = awaited s j := by
  obtain ⟨p, g', p', hp, hact, rfl⟩ := act_step hs
  simp only [stepProc] at hact
  split at hact
  · next n k hat =>
    cases hact
    exact ⟨n, awaited_of hp hat, rfl, rfl, awaited_running (upd_same _ _ _) rfl, fun j hj => awaited_upd hj⟩
  · cases hact

theorem own_step {e : Ev ε A C} (he : isOwn e = true) (hs : step prog s e = some s') :
    s'.shared.log = s.shared.log ∧ s'.shared.answers = s.shared.answers ∧ ∀ j, awaited s' j = awaited s j := by
  cases e with
  | start i c =>
    simp only [step] at hs
    split at hs
    · cases hs
    · next hfree =>
      cases hs
      refine ⟨rfl, rfl, fun j => ?_⟩
      by_cases hj : j = i
      · subst hj
        rw [awaited_running (upd_same _ _ _) rfl]
        unfold awaited
        rw [hfree]
      · exact awaited_upd hj
  | act i a =>
    obtain ⟨p, g', p', hp, hact, rfl⟩ := act_step hs
    have hstays : ∀ {q q' : Prog σ ε Q A α}, p.at_ = .running q → p'.at_ = .running q' →
        ∀ j, awaited ⟨g', upd s.procs i (some p')⟩ j = awaited s j := by
      intro q q' hq hq' j
      by_cases hj : j = i
      · subst hj
        rw [awaited_running hp hq]
        exact awaited_running (upd_same _ _ _) hq'
      · exact awaited_upd hj
    cases a with
    | send | answer => cases he
    | acquire =>
      simp only [stepProc] at hact
      split at hact
      · next hat =>
        split at hact
        · cases hact
        · cases hact; exact ⟨rfl, rfl, hstays hat rfl⟩
      · cases hact
    | cancel | release | access | poll =>
      simp only [stepProc] at hact
      split at hact
      · next hat => cases hact; exact ⟨rfl, rfl, hstays hat rfl⟩
      · cases hact

end Steps

/-! ## What calls ask -/

section Asks

variable {σ ε Q A α β C : Type} {P : Q → Prop}

/-- Whatever it is answered, the call asks only for what meets `P`. -/
def Asks (P : Q → Prop) : Prog σ ε Q A α → Prop
  | .ret _ => True
  | .wait k => ∀ r, Asks P (k r)
  | .release k => Asks P k
  | .call q k => P q ∧ ∀ r, Asks P (k r)
  | .access _ k => ∀ s, Asks P (k s)
  | .poll k => ∀ b, Asks P (k b)

theorem asks_andThen {f : Except ε α → Prog σ ε Q A β} (hf : ∀ r, Asks P (f r)) :
    ∀ {p : Prog σ ε Q A α}, Asks P p → Asks P (p.andThen f) := by
  intro p
  induction p with
  | ret r => intro _; exact hf r
  | wait k ih => intro h r; exact ih r (h r)
  | release k ih => intro h; exact ih h
  | call q k ih => intro h; exact ⟨h.1, fun r => ih r (h.2 r)⟩
  | access g k ih => intro h s; exact ih s (h s)
  | poll k ih => intro h b; exact ih b (h b)

theorem asks_bind {f : α → Prog σ ε Q A β} {p : Prog σ ε Q A α} (hp : Asks P p) (hf : ∀ x, Asks P (f x)) :
    Asks P (p >>= f) := by
  refine asks_andThen (fun r => ?_) hp
  cases r with
  | ok x => exact hf x
  | error e => trivial

theorem asks_finallyRelease {p : Prog σ ε Q A α} (hp : Asks P p) : Asks P p.finallyRelease := by
  have hrelease : ∀ r : Except ε α, Asks P (Prog.release (.ret r) : Prog σ ε Q A α) := fun r => trivial
  exact asks_andThen hrelease hp

theorem asks_locked {body : Prog σ ε Q A α} (h : Asks P body) :
    Asks P (waitSemaphore >>= fun _ => body.finallyRelease : Prog σ ε Q A α) :=
  asks_bind (fun _ => trivial) fun _ => asks_finallyRelease h

def AtAsks (P : Q → Prop) : At σ ε Q A α → Prop
  | .running q => Asks P q
  | .awaiting _ k => ∀ r, Asks P (k r)

/-- Nothing else was asked so far, nor will be. -/
structure AllAsk (P : Q → Prop) (s : St σ ε Q A α C) : Prop where
  asked : ∀ e ∈ s.shared.log, P e.request
  asks : ∀ i p, s.procs i = some p → AtAsks P p.at_

theorem allAsk_init {fields : σ} : AllAsk P (init fields : St σ ε Q A α C) where
  asked e he := by simp [init] at he
  asks i p hp := by cases hp

theorem stepProc_asks {g g' : Shared σ ε Q A} {i : Nat} {p p' : Proc σ ε Q A α C} {a : Act ε A}
    (hlog : ∀ e ∈ g.log, P e.request) (hp : AtAsks P p.at_) (hs : stepProc i g p a = some (g', p')) :
    (∀ e ∈ g'.log, P e.request) ∧ AtAsks P p'.at_ := by
  cases a with
  | acquire =>
    simp only [stepProc] at hs
    split at hs
    · next hat =>
      rw [hat] at hp
      split at hs
      · cases hs
      · cases hs; exact ⟨hlog, hp _⟩
    · cases hs
  | send =>
    simp only [stepProc] at hs
    split at hs
    · next hat =>
      rw [hat] at hp
      cases hs
      refine ⟨fun e he => ?_, hp.2⟩
      rcases List.mem_append.mp he with he | he
      · exact hlog e he
      · rw [List.mem_singleton.mp he]; exact hp.1
    · cases hs
  | release =>
    simp only [stepProc] at hs
    split at hs
    · next hat => rw [hat] at hp; cases hs; exact ⟨hlog, hp⟩
    · cases hs
  | cancel | answer | access | poll =>
    simp only [stepProc] at hs
    split at hs
    · next hat => rw [hat] at hp; cases hs; exact ⟨hlog, hp _⟩
    · cases hs

theorem asks_step {prog : C → Prog σ ε Q A α} (hprog : ∀ c, Asks P (prog c)) {s s' : St σ ε Q A α C} {e : Ev ε A C}
    (h : AllAsk P s) (hs : step prog s e = some s') : AllAsk P s' := by
  -- the other calls stand where they stood
  have hothers : ∀ {i : Nat} {p : Proc σ ε Q A α C}, AtAsks P p.at_ → ∀ j q, upd s.procs i (some p) j = some q →
      AtAsks P q.at_ := by
    intro i p hp j q hq
    by_cases hj : j = i
    · subst hj
      rw [upd_same] at hq
      cases hq
      exact hp
    · rw [upd_ne _ _ hj] at hq
      exact h.asks j q hq
  cases e with
  | start i c =>
    simp only [step] at hs
    split at hs
    · cases hs
    · cases hs; exact ⟨h.asked, hothers (hprog c)⟩
  | act i a =>
    obtain ⟨p, g', p', hp, hact, rfl⟩ := act_step hs
    obtain ⟨hlog, hasks⟩ := stepProc_asks h.asked (h.asks i p hp) hact
    exact ⟨hlog, hothers hasks⟩

end Asks

/-! ## Calls in a run -/

section Told

variable {σ ε Q A α C : Type} (prog : C → Prog σ ε Q A α)

/-- The request was sent by the call and answered. -/
def IsExchange (g : Shared σ ε Q A) (i n : Nat) (x : Nat × Q × Except ε A) : Prop :=
  g.log[n]? = some ⟨i, x.1, x.2.1⟩ ∧ g.answers n = some x.2.2

def GoesOn (g : Shared σ ε Q A) (i : Nat) (p : Proc σ ε Q A α C) (ns : List Nat)
    (hist : List (Nat × Q × Except ε A)) : Prop :=
  match p.at_ with
  | .running q => ∀ l r, Path p.op q l r → Path 0 (prog p.call) (hist ++ l) r
  | .awaiting n k => (∀ m ∈ ns, m < n) ∧ ∃ q, g.log[n]? = some ⟨i, p.op, q⟩ ∧
      ∀ a l r, Path p.op (k a) l r → Path 0 (prog p.call) (hist ++ (p.op, q, a) :: l) r

/-- The exchanges of a call so far: the numbers of its requests, and what was said. -/
structure Told (g : Shared σ ε Q A) (i : Nat) (p : Proc σ ε Q A α C) (ns : List Nat)
    (hist : List (Nat × Q × Except ε A)) : Prop where
  sorted : ns.Pairwise (· < ·)
  exchanges : List.Forall₂ (IsExchange g i) ns hist
  complete : ∀ (n : Nat) (e : Entry Q), g.log[n]? = some e → e.proc = i → n ∈ ns ∨ ∃ k, p.at_ = .awaiting n k
  path : GoesOn prog g i p ns hist

structure AllTold (s : St σ ε Q A α C) : Prop where
  known : ∀ (n : Nat) (e : Entry Q), s.shared.log[n]? = some e → ∃ p, s.procs e.proc = some p
  told : ∀ i p, s.procs i = some p → ∃ ns hist, Told prog s.shared i p ns hist

variable {prog} {g g' : Shared σ ε Q A} {i : Nat} {p p' : Proc σ ε Q A α C} {ns : List Nat}
  {hist : List (Nat × Q × Except ε A)}

theorem told_init {fields : σ} : AllTold prog (init fields : St σ ε Q A α C) where
  known n e he := by simp [init] at he
  told i p hp := by cases hp

/-- A call keeps what it was told while others send and are answered. -/
theorem Told.frame (h : Told prog g i p ns hist)
    (hold : ∀ (n : Nat) (e : Entry Q), g.log[n]? = some e → g'.log[n]? = some e)
    (hnew : ∀ (n : Nat) (e : Entry Q), g'.log[n]? = some e → e.proc = i → g.log[n]? = some e)
    (hans : ∀ (n : Nat) (e : Entry Q), g.log[n]? = some e → e.proc = i → g'.answers n = g.answers n) :
    Told prog g' i p ns hist where
  sorted := h.sorted
  exchanges := h.exchanges.imp fun n x hx => ⟨hold _ _ hx.1, (hans _ _ hx.1 rfl).trans hx.2⟩
  complete n e he hi := h.complete n e (hnew n e he hi) hi
  path := by
    have hpath := h.path
    unfold GoesOn at hpath ⊢
    cases hat : p.at_ with
    | running q => rw [hat] at hpath; exact hpath
    | awaiting n k =>
      rw [hat] at hpath
      obtain ⟨hlast, q, hq, hpath⟩ := hpath
      exact ⟨hlast, q, hold _ _ hq, hpath⟩

/-- A call goes on by a node that is no request. -/
theorem Told.move (h : Told prog g i p ns hist) {q q' : Prog σ ε Q A α} (hat : p.at_ = .running q)
    (hat' : p'.at_ = .running q') (hcall : p'.call = p.call) (hlog : g'.log = g.log) (hans : g'.answers = g.answers)
    (hq : ∀ l r, Path p'.op q' l r → Path p.op q l r) : Told prog g' i p' ns hist where
  sorted := h.sorted
  exchanges := h.exchanges.imp fun n x hx => ⟨by rw [hlog]; exact hx.1, by rw [hans]; exact hx.2⟩
  complete n e he hi := by
    rw [hlog] at he
    rcases h.complete n e he hi with hn | ⟨k, hk⟩
    · exact Or.inl hn
    · rw [hat] at hk; cases hk
  path := by
    have hpath := h.path
    unfold GoesOn at hpath ⊢
    rw [hat] at hpath
    rw [hat', hcall]
    exact fun l r hl => hpath l r (hq l r hl)

/-- A call sends a request. -/
theorem Told.send (h : Told prog g i p ns hist) {q : Q} {k : Except ε A → Prog σ ε Q A α}
    (hat : p.at_ = .running (.call q k)) :
    Told prog { g with log := g.log ++ [⟨i, p.op, q⟩] } i { p with at_ := .awaiting g.log.length k } ns hist where
  sorted := h.sorted
  exchanges := h.exchanges.imp fun n x hx => ⟨by
    show (g.log ++ _)[n]? = _
    rw [List.getElem?_append_left (List.getElem?_eq_some_iff.mp hx.1).1]
    exact hx.1, hx.2⟩
  complete n e he hi := by
    by_cases hn : n < g.log.length
    · have he : (g.log ++ [⟨i, p.op, q⟩])[n]? = some e := he
      rw [List.getElem?_append_left hn] at he
      rcases h.complete n e he hi with hn | ⟨k, hk⟩
      · exact Or.inl hn
      · rw [hat] at hk; cases hk
    · have hlt : n < (g.log ++ [(⟨i, p.op, q⟩ : Entry Q)]).length := (List.getElem?_eq_some_iff.mp he).1
      rw [List.length_append, List.length_singleton] at hlt
      have heq : n = g.log.length := by omega
      exact Or.inr ⟨k, by rw [heq]⟩
  path := by
    have hpath := h.path
    unfold GoesOn at hpath ⊢
    rw [hat] at hpath
    refine ⟨fun m hm => ?_, q, ?_, fun a l r hl => hpath ((p.op, q, a) :: l) r ⟨a, l, rfl, hl⟩⟩
    · obtain ⟨x, -, hx⟩ := (forall₂_exists h.exchanges).1 m hm
      exact (List.getElem?_eq_some_iff.mp hx.1).1
    · show (g.log ++ [_])[g.log.length]? = _
      simp

/-- A call gets its answer. -/
theorem Told.answer (h : Told prog g i p ns hist) {n : Nat} {k : Except ε A → Prog σ ε Q A α}
    (hat : p.at_ = .awaiting n k)
    (r : Except ε A) : ∃ ns hist, Told prog { g with answers := upd g.answers n (some r) } i
    { p with at_ := .running (k r) }
      ns hist := by
  have hpath := h.path
  unfold GoesOn at hpath
  rw [hat] at hpath
  obtain ⟨hlast, q, hq, hpath⟩ := hpath
  refine ⟨ns ++ [n], hist ++ [(p.op, q, r)], ?_, ?_, fun m e he hi => ?_, ?_⟩
  · refine List.pairwise_append.mpr ⟨h.sorted, List.pairwise_singleton _ _, fun a ha b hb => ?_⟩
    rw [List.mem_singleton.mp hb]
    exact hlast a ha
  · refine List.rel_append ?_ (.cons ⟨hq, upd_same _ _ _⟩ .nil)
    have hbefore : ∀ m ∈ ns, m ≠ n := fun m hm => Nat.ne_of_lt (hlast m hm)
    clear hpath hlast
    have hall := h.exchanges
    clear h
    induction hall with
    | nil => exact .nil
    | @cons m x ms hs hx _ ih =>
      refine .cons ⟨hx.1, ?_⟩ (ih fun m' hm' => hbefore m' (List.mem_cons_of_mem _ hm'))
      show upd g.answers n (some r) m = _
      rw [upd_ne _ _ (hbefore m List.mem_cons_self)]
      exact hx.2
  · rcases h.complete m e he hi with hm | ⟨k', hk⟩
    · exact Or.inl (List.mem_append_left _ hm)
    · rw [hat] at hk
      cases hk
      exact Or.inl (List.mem_append_right _ (List.mem_singleton.mpr rfl))
  · unfold GoesOn
    intro l r' hl
    rw [List.append_assoc]
    exact hpath r l r' hl

/-- What a step of one call leaves of the log and the answers of the others. -/
theorem stepProc_frame {a : Act ε A} (h : Told prog g i p ns hist) (hs : stepProc i g p a = some (g', p')) :
    (∀ (n : Nat) (e : Entry Q), g.log[n]? = some e → g'.log[n]? = some e) ∧
    (∀ (n : Nat) (e : Entry Q), g'.log[n]? = some e → e.proc ≠ i → g.log[n]? = some e) ∧
      ∀ (n : Nat) (e : Entry Q), g.log[n]? = some e → e.proc ≠ i → g'.answers n = g.answers n := by
  cases a with
  | send =>
    simp only [stepProc] at hs
    split at hs
    · cases hs
      refine ⟨fun n e he => ?_, fun n e he hi => ?_, fun n e _ _ => rfl⟩
      · show (g.log ++ _)[n]? = some e
        rw [List.getElem?_append_left (List.getElem?_eq_some_iff.mp he).1]
        exact he
      · have he : (g.log ++ [_])[n]? = some e := he
        by_cases hn : n < g.log.length
        · rwa [List.getElem?_append_left hn] at he
        · rw [List.getElem?_append_right (by omega)] at he
          rw [List.mem_singleton.mp (List.mem_of_getElem? he)] at hi
          exact absurd rfl hi
    · cases hs
  | answer r =>
    simp only [stepProc] at hs
    split at hs
    · next m k hat =>
      cases hs
      refine ⟨fun n e he => he, fun n e he _ => he, fun n e he hi => ?_⟩
      have hpath := h.path
      unfold GoesOn at hpath
      rw [hat] at hpath
      obtain ⟨-, q, hq, -⟩ := hpath
      refine upd_ne _ _ fun heq => ?_
      rw [heq, hq] at he
      rw [← Option.some.inj he] at hi
      exact hi rfl
    · cases hs
  | acquire =>
    simp only [stepProc] at hs
    split at hs
    · split at hs
      · cases hs
      · cases hs; exact ⟨fun n e he => he, fun n e he _ => he, fun n e _ _ => rfl⟩
    · cases hs
  | cancel | release | access | poll =>
    simp only [stepProc] at hs
    split at hs
    · cases hs; exact ⟨fun n e he => he, fun n e he _ => he, fun n e _ _ => rfl⟩
    · cases hs

/-- A step of the call itself. -/
theorem stepProc_told {a : Act ε A} (h : Told prog g i p ns hist) (hs : stepProc i g p a = some (g', p')) :
    ∃ ns hist, Told prog g' i p' ns hist := by
  cases a with
  | send =>
    simp only [stepProc] at hs
    split at hs
    · next hat => cases hs; exact ⟨ns, hist, h.send hat⟩
    · cases hs
  | answer r =>
    simp only [stepProc] at hs
    split at hs
    · next hat => cases hs; exact h.answer hat r
    · cases hs
  | acquire =>
    simp only [stepProc] at hs
    split at hs
    · next hat =>
      split at hs
      · cases hs
      · cases hs; exact ⟨ns, hist, h.move hat rfl rfl rfl rfl fun l r hl => Or.inl hl⟩
    · cases hs
  | cancel e =>
    simp only [stepProc] at hs
    split at hs
    · next hat => cases hs; exact ⟨ns, hist, h.move hat rfl rfl rfl rfl fun l r hl => Or.inr ⟨e, hl⟩⟩
    · cases hs
  | release =>
    simp only [stepProc] at hs
    split at hs
    · next hat => cases hs; exact ⟨ns, hist, h.move hat rfl rfl rfl rfl fun l r hl => hl⟩
    · cases hs
  | access =>
    simp only [stepProc] at hs
    split at hs
    · next hat => cases hs; exact ⟨ns, hist, h.move hat rfl rfl rfl rfl fun l r hl => ⟨_, hl⟩⟩
    · cases hs
  | poll b =>
    simp only [stepProc] at hs
    split at hs
    · next hat => cases hs; exact ⟨ns, hist, h.move hat rfl rfl rfl rfl fun l r hl => ⟨b, hl⟩⟩
    · cases hs

theorem told_step {s s' : St σ ε Q A α C} {e : Ev ε A C} (h : AllTold prog s) (hs : step prog s e = some s') :
    AllTold prog s' := by
  cases e with
  | start i c =>
    simp only [step] at hs
    split at hs
    · cases hs
    · next hfree =>
      cases hs
      refine ⟨fun n e he => ?_, fun j p hp => ?_⟩
      · obtain ⟨p, hp⟩ := h.known n e he
        by_cases hi : e.proc = i
        · exact ⟨_, by rw [hi]; exact upd_same _ _ _⟩
        · exact ⟨p, by show upd s.procs i _ e.proc = _; rw [upd_ne _ _ hi]; exact hp⟩
      · have hp : upd s.procs i _ j = some p := hp
        by_cases hj : j = i
        · subst hj
          rw [upd_same] at hp
          cases hp
          refine ⟨[], [], .nil, .nil, fun n e he hi => ?_, fun l r hl => hl⟩
          obtain ⟨p, hp⟩ := h.known n e he
          rw [hi, hfree] at hp
          cases hp
        · rw [upd_ne _ _ hj] at hp
          exact h.told j p hp
  | act i a =>
    simp only [step] at hs
    split at hs
    · cases hs
    · next p hp =>
      obtain ⟨⟨g', p'⟩, hact, rfl⟩ := Option.map_eq_some_iff.mp hs
      obtain ⟨ns, hist, htold⟩ := h.told i p hp
      obtain ⟨hold, hnew, hans⟩ := stepProc_frame htold hact
      refine ⟨fun n e he => ?_, fun j q hq => ?_⟩
      · by_cases hi : e.proc = i
        · exact ⟨p', by rw [hi]; exact upd_same _ _ _⟩
        · obtain ⟨q, hq⟩ := h.known n e (hnew n e he hi)
          exact ⟨q, by show upd s.procs i _ e.proc = _; rw [upd_ne _ _ hi]; exact hq⟩
      · have hq : upd s.procs i _ j = some q := hq
        by_cases hj : j = i
        · subst hj
          rw [upd_same] at hq
          cases hq
          exact stepProc_told htold hact
        · rw [upd_ne _ _ hj] at hq
          obtain ⟨ns, hist, htold⟩ := h.told j q hq
          exact ⟨ns, hist, htold.frame hold (fun n e he hi => hnew n e he (hi ▸ hj))
            fun n e he hi => hans n e he (hi ▸ hj)⟩

/-! ## Blocks -/

/-- Increasing numbers that leave out nothing between them. -/
theorem consecutive {ns : List Nat} (hsorted : ns.Pairwise (· < ·))
    (hfull : ∀ a ∈ ns, ∀ c ∈ ns, ∀ b, a < b → b < c → b ∈ ns) :
    ∀ start rest, ns = start :: rest → ns = List.range' start ns.length := by
  induction ns with
  | nil => intro start rest h; cases h
  | cons a ns ih =>
    rintro start rest ⟨⟩
    rw [List.length_cons, List.range'_succ]
    congr 1
    cases ns with
    | nil => rfl
    | cons b ns =>
      have hab : a < b := (List.pairwise_cons.mp hsorted).1 b List.mem_cons_self
      have htail := (List.pairwise_cons.mp hsorted).2
      have hnext : b = a + 1 := by
        by_contra hne
        have hin := hfull a List.mem_cons_self b (List.mem_cons_of_mem _ List.mem_cons_self) (a + 1)
          (by omega) (by omega)
        rcases List.mem_cons.mp hin with heq | hin
        · omega
        · rcases List.mem_cons.mp hin with heq | hin
          · omega
          · have := (List.pairwise_cons.mp htail).1 _ hin
            omega
      have hrest := ih htail (fun x hx y hy z hxz hzy => ?_) b ns rfl
      · rw [← hnext]; exact hrest
      · rcases List.mem_cons.mp (hfull x (List.mem_cons_of_mem _ hx) y (List.mem_cons_of_mem _ hy) z hxz
          hzy) with rfl | hz
        · have hle : ∀ w ∈ b :: ns, z < w := (List.pairwise_cons.mp hsorted).1
          have := hle x hx
          omega
        · exact hz

/-- The exchanges stand at `start` and after, in one operation. -/
def Stand (g : Shared σ ε Q A) (i : Nat) : (start : Nat) → List (Nat × Q × Except ε A) → Prop
  | _, [] => True
  | start, x :: l => IsExchange g i start x ∧ Stand g i (start + 1) l

theorem stand_of_range : ∀ {hist : List (Nat × Q × Except ε A)} {start : Nat},
    List.Forall₂ (IsExchange g i) (List.range' start hist.length) hist → Stand g i start hist := by
  intro hist
  induction hist with
  | nil => intro start _; trivial
  | cons x hist ih =>
    intro start h
    rw [List.length_cons, List.range'_succ] at h
    cases h with
    | cons hx h => exact ⟨hx, ih h⟩

variable {β : Type}

/-- Request `n` is the first that the call has sent. -/
structure IsFirst (g : Shared σ ε Q A) (i n : Nat) : Prop where
  own : ∃ e : Entry Q, g.log[n]? = some e ∧ e.proc = i
  first : ∀ (k : Nat) (e : Entry Q), g.log[k]? = some e → e.proc = i → n ≤ k

/-- A locked straight call that returned: its exchanges stand one after another, and it has no
    others. -/
theorem locked_block {s : St σ ε Q A α C} (h : AllTold prog s) (hcontiguous : Contiguous Entry.tag s.shared.log)
    (hp : s.procs i = some p) {body : Prog σ ε Q A β} {wrap : β → α} (hbody : Straight body)
    (hprog : prog p.call = locked body wrap) {y : α} (hended : p.at_ = .running (.ret (.ok y))) :
    ∃ x start hist, y = wrap x ∧ Path 1 body hist (.ok x) ∧ Stand s.shared i start hist ∧
      ∀ (k : Nat) (e : Entry Q), s.shared.log[k]? = some e → e.proc = i → start ≤ k := by
  obtain ⟨ns, hist, htold⟩ := h.told i p hp
  have hpath := htold.path
  unfold GoesOn at hpath
  rw [hended] at hpath
  have hpath := hpath [] (.ok y) ⟨rfl, rfl⟩
  rw [List.append_nil, hprog] at hpath
  obtain ⟨x, hy, hpath⟩ := path_locked hbody hpath
  have hops := straight_path hbody hpath
  have hlength := htold.exchanges.length_eq
  -- it awaits nothing any more
  have hmine : ∀ (k : Nat) (e : Entry Q), s.shared.log[k]? = some e → e.proc = i → k ∈ ns := by
    intro k e he hi
    rcases htold.complete k e he hi with hin | ⟨k', hk⟩
    · exact hin
    · rw [hended] at hk; cases hk
  cases hns : ns with
  | nil =>
    rw [hns] at hlength
    refine ⟨x, 0, hist, hy, hpath, ?_, fun k _ _ _ => Nat.zero_le k⟩
    rw [List.length_eq_zero_iff.mp hlength.symm]
    trivial
  | cons start rest =>
    have hsorted := htold.sorted
    rw [hns, List.pairwise_cons] at hsorted
    refine ⟨x, start, hist, hy, hpath, stand_of_range ?_, fun k e he hi => ?_⟩
    swap
    · rcases List.mem_cons.mp (hns ▸ hmine k e he hi) with rfl | hrest
      · exact Nat.le_refl _
      · exact Nat.le_of_lt (hsorted.1 k hrest)
    have hall : ns = List.range' start ns.length := by
      refine consecutive htold.sorted (fun a ha c hc b hab hbc => ?_) start rest hns
      obtain ⟨xa, hxa, hea⟩ := (forall₂_exists htold.exchanges).1 a ha
      obtain ⟨xc, hxc, hec⟩ := (forall₂_exists htold.exchanges).1 c hc
      have hlt : b < s.shared.log.length := lt_trans hbc (List.getElem?_eq_some_iff.mp hec.1).1
      have hb : s.shared.log[b]? = some s.shared.log[b] := List.getElem?_eq_getElem hlt
      have htag : Entry.tag s.shared.log[b] = (i, 1) := by
        have := hcontiguous a b c _ _ _ (by omega) (by omega) hea.1 hb hec.1 (by
          show (i, xa.1) = (i, xc.1)
          rw [(hops xa hxa).1, (hops xc hxc).1])
        rw [this]
        show (i, xa.1) = _
        rw [(hops xa hxa).1]
      exact hmine b _ hb (congrArg Prod.fst htag)
    rw [← hlength, ← hall]
    exact htold.exchanges

/-! ## What the server has done -/

variable {μ : Type}

structure Execution (μ : Type) where
  /-- The number of the request. -/
  run : Nat
  before : μ
  after : μ

/-- What the server has carried out, in the order of the requests, with what it was asked
    and what it answered to the requests that did not fail. -/
structure Executed (serve : μ → Q → Except ε A × μ) (g : Shared σ ε Q A) (executed : List (Execution μ)) : Prop where
  sorted : executed.Pairwise fun a b => a.run < b.run
  chained : executed.IsChain fun a b => b.before = a.after
  answered : ∀ (n : Nat) (e : Entry Q) (a : A), g.log[n]? = some e → g.answers n = some (.ok a) →
    ∃ x ∈ executed, x.run = n ∧ serve x.before e.request = (.ok a, x.after)

/-- Nothing was carried out between two requests of which one follows the other. -/
theorem chained_next {executed : List (Execution μ)} (hsorted : executed.Pairwise fun a b => a.run < b.run)
    (hchained : executed.IsChain fun a b => b.before = a.after) {a b : Execution μ} (ha : a ∈ executed)
    (hb : b ∈ executed) (hnext : b.run = a.run + 1) : b.before = a.after := by
  induction executed with
  | nil => cases ha
  | cons c rest ih =>
    have hlater := (List.pairwise_cons.mp hsorted).1
    rcases List.mem_cons.mp ha with rfl | ha
    · rcases List.mem_cons.mp hb with rfl | hb
      · omega
      · cases rest with
        | nil => cases hb
        | cons d rest =>
          rw [List.isChain_cons_cons] at hchained
          rcases List.mem_cons.mp hb with rfl | hb
          · exact hchained.1
          · have h₁ := hlater d List.mem_cons_self
            have h₂ := (List.pairwise_cons.mp (List.pairwise_cons.mp hsorted).2).1 b hb
            omega
    · rcases List.mem_cons.mp hb with hfirst | hb
      · have := hlater a ha
        rw [hfirst] at hnext
        omega
      · exact ih (List.pairwise_cons.mp hsorted).2 hchained.of_cons ha hb

/-- The server carried out a block of exchanges that did not fail, one after another. -/
theorem executions_carry {serve : μ → Q → Except ε A × μ} {executed : List (Execution μ)}
    (h : Executed serve g executed) :
    ∀ {hist : List (Nat × Q × Except ε A)} {start : Nat}, Stand g i start hist → (∀ z ∈ hist, ∃ a, z.2.2 = .ok a) →
      hist ≠ [] → ∃ x ∈ executed, x.run = start ∧ ∃ m', Carries serve x.before (hist.map Prod.snd) m' := by
  intro hist
  induction hist with
  | nil => intro start _ _ hne; exact absurd rfl hne
  | cons z hist ih =>
    intro start hstand hok _
    obtain ⟨⟨hlog, hanswer⟩, hrest⟩ := hstand
    obtain ⟨a, ha⟩ := hok z List.mem_cons_self
    rw [ha] at hanswer
    obtain ⟨x, hx, hrun, hserve⟩ := h.answered start _ a hlog hanswer
    have hfirst : (serve x.before z.2.1).1 = z.2.2 := by rw [hserve, ha]
    by_cases hnil : hist = []
    · subst hnil
      exact ⟨x, hx, hrun, (serve x.before z.2.1).2, hfirst, rfl⟩
    · obtain ⟨y, hy, hrun', m', hcarries⟩ := ih hrest (fun z' hz' => hok z' (List.mem_cons_of_mem _ hz')) hnil
      have hnext : y.before = x.after := chained_next h.sorted h.chained hx hy (by omega)
      refine ⟨x, hx, hrun, m', hfirst, ?_⟩
      rw [hserve, ← hnext]
      exact hcarries

/-- A locked straight call returns what it returns alone with the server, in any state that
    the server cannot tell, at the first request, from the one it was in. -/
theorem returned_alone {s : St σ ε Q A α C} (h : AllTold prog s) (hcontiguous : Contiguous Entry.tag s.shared.log)
    {serve : μ → Q → Except ε A × μ} {executed : List (Execution μ)} (hexecuted : Executed serve s.shared executed)
    (hp : s.procs i = some p) {body : Prog σ ε Q A β} {wrap : β → α} (hbody : Straight body) {P : Q → Prop}
    (hstarts : Starts P body) (hprog : prog p.call = locked body wrap) {y : α}
    (hended : p.at_ = .running (.ret (.ok y))) (fields : σ) :
    ∃ x ∈ executed, IsFirst s.shared i x.run ∧
      ∀ m₀, (∀ q a, P q → (serve x.before q).1 = .ok a → serve m₀ q = serve x.before q) →
        ∃ m', served serve (prog p.call) fields m₀ = (.ok y, m') := by
  obtain ⟨result, start, hist, rfl, hpath, hstand, hfirst⟩ := locked_block h hcontiguous hp hbody hprog hended
  have hok := straight_path hbody hpath
  obtain ⟨q, a, rest, rfl, hq⟩ := starts_path hstarts hpath
  obtain ⟨x, hx, hrun, m', hcarries⟩ := executions_carry hexecuted hstand (fun z hz => (hok z hz).2)
    (List.cons_ne_nil _ _)
  have hlog : s.shared.log[start]? = some ⟨i, 1, q⟩ := hstand.1.1
  refine ⟨x, hx, ⟨⟨_, hrun ▸ hlog, rfl⟩, hrun ▸ hfirst⟩, fun m₀ hsame => ?_⟩
  obtain ⟨b, hb⟩ := (hok _ List.mem_cons_self).2
  have hserved : (serve x.before q).1 = .ok b := hcarries.1.trans hb
  have hcarries₀ : Carries serve m₀ (((1, q, a) :: rest).map Prod.snd) m' :=
    carries_of_first serve hcarries (hsame q b hq hserved)
  exact ⟨m', hprog ▸ served_locked serve hbody (straight_served serve hbody fields hpath hcarries₀)⟩

end Told

end Lib.Servers
