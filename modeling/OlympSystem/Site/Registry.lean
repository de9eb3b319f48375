/-
  OlympSystem.Site.Registry — runner connections and the checkers they register
  (`RunnerService.Connect`, `CheckerManager.Register` / `Unregister`).

  Each connection is its own `RunnerService` (gRPC services are made per call). It
  reads its headers (`runner-id`, `runner-name`, `runner-envs`), registers a checker
  under its id, serves until anything ends it, and runs its finally block, which
  unregisters. A runner that reconnects keeps its id, so connections with one id
  overlap in time. `Guid` is any type of identifiers; its default is `Guid.Empty`, the
  id of a connection whose headers could not be read.

  `Agree`: the registry maps an id to a checker exactly when the checker belongs to a
  connection that registered under this id and whose finally block has not run.

  Proved:
  - `agree_iff_endsClean`: in every run the registry agrees with the connections in
    every state exactly when every finally block that runs belongs to a connection
    that registered, or finds nobody registered under its id.
  - `a_failed_reconnect_unregisters`: `Unregister` removes by id alone, so a connection
    refused because its id is taken removes the checker of the one that holds it.
-/

import OlympSystem.Exceptions
import OlympSystem.Lib.Runs

namespace OlympSystem.Site.Registry

open Lib.Runs

structure Header where
  key : String
  value : String
  deriving DecidableEq, Repr

inductive Phase where
  | absent
  /-- `Connect` was called with these headers. -/
  | connecting (headers : List Header)
  | registering
  /-- `Register` returned; the command loop. -/
  | serving
  /-- In the finally block, before `Unregister`. -/
  | ending (registered : Bool)
  | ended
  deriving DecidableEq, Repr

/-- `Register` succeeded and the finally block has not run. -/
def Phase.holds : Phase → Bool
  | .serving => true
  | .ending registered => registered
  | _ => false

variable {Guid : Type} [DecidableEq Guid] [Inhabited Guid]

structure Conn (Guid : Type) where
  id : Guid
  name : Option String
  supportedEnvs : List String
  phase : Phase
  deriving Repr

def fresh : Conn Guid := ⟨default, none, [], .absent⟩

structure St (Guid : Type) where
  conns : Nat → Conn Guid
  /-- `_checkers`: the connection whose checker is registered under an id. -/
  checkers : Guid → Option Nat

def init : St Guid := ⟨fun _ => fresh, fun _ => none⟩

def splitEnvs (value : String) : List String :=
  (value.toList.splitOn ';').map String.ofList

/-- The header part of `Connect`: what is assigned before a failure stays assigned. -/
def readHeaders (parse : String → Option Guid) (headers : List Header) (c : Conn Guid) : Conn Guid × Except Exn Unit :=
  match single (·.key == "runner-id") headers with
  | .error e => (c, .error e)
  | .ok idHeader =>
    match parse idHeader.value with
    | none => (c, .error (.format "Unrecognized Guid format."))
    | some id =>
      let c := { c with id := id }
      match single (·.key == "runner-name") headers with
      | .error e => (c, .error e)
      | .ok name =>
        let c := { c with name := some name.value }
        match single (·.key == "runner-envs") headers with
        | .error e => (c, .error e)
        | .ok envs => ({ c with supportedEnvs := (splitEnvs envs.value).eraseDups }, .ok ())

inductive Ev where
  | accept (c : Nat) (headers : List Header)
  | readHeaders (c : Nat)
  | register (c : Nat)
  /-- The try block ends: the stream closed, the call was cancelled, anything threw. -/
  | finish (c : Nat)
  /-- The finally block's `Unregister`. -/
  | unregister (c : Nat)
  deriving Repr

variable (parse : String → Option Guid)

/-- `CheckerManager.Register`: `TryAdd`, or throw. -/
def register (s : St Guid) (c : Nat) : St Guid :=
  match s.checkers (s.conns c).id with
  | some _ => { s with conns := upd s.conns c { s.conns c with phase := .ending false } }
  | none =>
    { conns := upd s.conns c { s.conns c with phase := .serving }
      checkers := upd s.checkers (s.conns c).id (some c) }

/-- `CheckerManager.Unregister`: `TryRemove` by the runner's id. -/
def unregister (s : St Guid) (c : Nat) : St Guid :=
  { conns := upd s.conns c { s.conns c with phase := .ended }, checkers := upd s.checkers (s.conns c).id none }

def step (s : St Guid) : Ev → Option (St Guid)
  | .accept c headers =>
    match (s.conns c).phase with
    | .absent => some { s with conns := upd s.conns c { (fresh : Conn Guid) with phase := .connecting headers } }
    | _ => none
  | .readHeaders c =>
    match (s.conns c).phase with
    | .connecting headers =>
      match readHeaders parse headers (s.conns c) with
      | (conn, .ok ()) => some { s with conns := upd s.conns c { conn with phase := .registering } }
      | (conn, .error _) => some { s with conns := upd s.conns c { conn with phase := .ending false } }
    | _ => none
  | .register c => if (s.conns c).phase = .registering then some (register s c) else none
  | .finish c =>
    match (s.conns c).phase with
    | .registering => some { s with conns := upd s.conns c { s.conns c with phase := .ending false } }
    | .serving => some { s with conns := upd s.conns c { s.conns c with phase := .ending true } }
    | _ => none
  | .unregister c =>
    match (s.conns c).phase with
    | .ending _ => some (unregister s c)
    | _ => none

/-! ## Agreement -/

def Agree (s : St Guid) : Prop :=
  ∀ g c, s.checkers g = some c ↔ (s.conns c).id = g ∧ (s.conns c).phase.holds = true

/-- A finally block belongs to a connection that registered, or finds its id free. -/
def EndsClean (s : St Guid) : Ev → St Guid → Prop
  | .unregister c, _ => (s.conns c).phase.holds = true ∨ s.checkers (s.conns c).id = none
  | _, _ => True

omit [DecidableEq Guid] in
theorem agree_init : Agree (init : St Guid) := by
  intro g c
  simp [init, fresh, Phase.holds]

omit [DecidableEq Guid] [Inhabited Guid] in
/-- A connection that held nothing changes and still holds nothing. -/
theorem agree_upd {s : St Guid} (h : Agree s) {c : Nat} {conn : Conn Guid} (hold : (s.conns c).phase.holds = false)
    (hnew : conn.phase.holds = false) : Agree { s with conns := upd s.conns c conn } := by
  intro g c'
  by_cases e : c' = c
  · subst e
    simp only [upd_same, hnew, Bool.false_eq_true, and_false, iff_false]
    intro hg
    simp [((h g c').mp hg).2] at hold
  · simpa only [upd_ne _ _ e] using h g c'

omit [Inhabited Guid] in
theorem agree_register {s : St Guid} (h : Agree s) {c : Nat} (hc : (s.conns c).phase = .registering) :
    Agree (register s c) := by
  unfold register
  split
  · exact agree_upd h (by simp [hc, Phase.holds]) rfl
  · rename_i hfree
    intro g c'
    by_cases e : c' = c
    · subst e
      simp only [upd_same, Phase.holds, and_true]
      by_cases eg : g = (s.conns c').id
      · simp [eg]
      · rw [upd_ne _ _ eg]
        refine ⟨fun hg => ?_, fun hg => absurd hg.symm eg⟩
        have := (h g c').mp hg
        simp [hc, Phase.holds] at this
    · simp only [upd_ne _ _ e]
      by_cases eg : g = (s.conns c).id
      · subst eg
        rw [upd_same]
        refine ⟨fun hg => absurd (Option.some.inj hg).symm e, fun hg => ?_⟩
        rw [(h _ c').mpr hg] at hfree; cases hfree
      · rw [upd_ne _ _ eg]; exact h g c'

omit [Inhabited Guid] in
/-- The finally block keeps the agreement exactly when it ends clean. -/
theorem agree_unregister {s : St Guid} (h : Agree s) {c : Nat} :
    Agree (unregister s c) ↔ (s.conns c).phase.holds = true ∨ s.checkers (s.conns c).id = none := by
  unfold unregister
  constructor
  · intro h'
    by_cases hh : (s.conns c).phase.holds = true
    · exact Or.inl hh
    · right
      cases hk : s.checkers (s.conns c).id with
      | none => rfl
      | some k =>
        -- `k` still holds the id, but its checker is gone
        obtain ⟨hid, hphase⟩ := (h _ k).mp hk
        have hne : k ≠ c := by rintro rfl; exact hh hphase
        have := (h' (s.conns c).id k).mpr (by simp only [upd_ne _ _ hne]; exact ⟨hid, hphase⟩)
        simp at this
  · intro hc g c'
    by_cases e : c' = c
    · subst e
      simp only [upd_same, Phase.holds, Bool.false_eq_true, and_false, iff_false]
      by_cases eg : g = (s.conns c').id
      · simp [eg]
      · rw [upd_ne _ _ eg]; exact fun hg => eg ((h g c').mp hg).1.symm
    · simp only [upd_ne _ _ e]
      by_cases eg : g = (s.conns c).id
      · subst eg
        rw [upd_same]
        refine ⟨fun hg => (nomatch hg), fun hg => ?_⟩
        have hk := (h _ c').mpr hg
        rcases hc with hc | hc
        · rw [(h _ c).mpr ⟨rfl, hc⟩] at hk; exact absurd (Option.some.inj hk).symm e
        · rw [hc] at hk; cases hk
      · rw [upd_ne _ _ eg]; exact h g c'

/-- A step keeps the agreement exactly when it ends clean. -/
theorem agree_step {s s' : St Guid} {e : Ev} (h : Agree s) (hs : step parse s e = some s') :
    Agree s' ↔ EndsClean s e s' := by
  cases e with
  | accept c headers =>
    simp only [step] at hs
    split at hs <;> cases hs
    rename_i hc
    exact iff_of_true (agree_upd h (by simp [hc, Phase.holds]) rfl) trivial
  | readHeaders c =>
    simp only [step] at hs
    split at hs
    · rename_i hc
      split at hs <;> cases hs <;> exact iff_of_true (agree_upd h (by simp [hc, Phase.holds]) rfl) trivial
    · cases hs
  | register c =>
    simp only [step] at hs
    split at hs <;> cases hs
    exact iff_of_true (agree_register h ‹_›) trivial
  | finish c =>
    simp only [step] at hs
    split at hs <;> cases hs
    · exact iff_of_true (agree_upd h (by simp [*, Phase.holds]) rfl) trivial
    · rename_i hc
      refine iff_of_true ?_ trivial
      intro g c'
      by_cases e : c' = c
      · subst e; simpa [hc, Phase.holds] using h g c'
      · simpa only [upd_ne _ _ e] using h g c'
  | unregister c =>
    simp only [step] at hs
    split at hs <;> cases hs
    exact agree_unregister h

/-- In every run: the registry agrees with the connections throughout exactly when
    every finally block ends clean. -/
theorem agree_iff_endsClean (es : List Ev) :
    Always (step parse) Agree (init : St Guid) es ↔ Along (step parse) EndsClean init es :=
  have hkeep : ∀ (s : St Guid) (e : Ev) (s' : St Guid), True → step parse s e = some s' → True :=
    fun _ _ _ _ _ => trivial
  have hstep : ∀ (s : St Guid) (e : Ev) (s' : St Guid), True → Agree s → step parse s e = some s' →
      (Agree s' ↔ EndsClean s e s') := fun _ _ _ _ h hs => agree_step parse h hs
  always_iff_along hkeep hstep trivial agree_init

/-- The headers of a runner called `name` with id `id`. -/
def runnerHeaders (id name : String) : List Header :=
  [⟨"runner-id", id⟩, ⟨"runner-name", name⟩, ⟨"runner-envs", "gcc;java"⟩]

/-- Connection 0 is registered and serving; connection 1 comes with the same id, is
    refused, and its finally block runs. -/
def refusedReconnect : List Ev :=
  [.accept 0 (runnerHeaders "A" "first"), .readHeaders 0, .register 0,
   .accept 1 (runnerHeaders "A" "second"), .readHeaders 1, .register 1, .unregister 1]

/-- The refused connection's finally block removes the checker of the connection that
    still serves. -/
theorem a_failed_reconnect_unregisters :
    let s := final (step (fun id : String => some id)) init refusedReconnect
    (s.conns 0).phase = .serving ∧ (s.conns 0).id = "A" ∧ s.checkers "A" = none ∧ ¬ Agree s := by
  intro s
  have hphase : (s.conns 0).phase = .serving := by decide
  have hid : (s.conns 0).id = "A" := by decide
  have hnone : s.checkers "A" = none := by decide
  refine ⟨hphase, hid, hnone, fun h => ?_⟩
  have := (h "A" 0).mpr ⟨hid, by rw [hphase]; rfl⟩
  rw [hnone] at this; cases this

end OlympSystem.Site.Registry
