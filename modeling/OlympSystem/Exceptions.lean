/-
  OlympSystem.Exceptions — the exceptions the modelled code throws, with the data
  their handlers and pages read. A localized message is its key and arguments.
-/

namespace OlympSystem

inductive Exn where
  | argument (message param : String)
  | invalidOperation (message : String)
  | notSupported (message : String)
  | invalidData (key : String) (args : List String)
  | json (message : String)
  | format (message : String)
  | overflow
  | nullReference
  | indexOutOfRange
  | operationCanceled
  | channelClosed
  /-- `new Exception(message)`. -/
  | general (message : String)
  /-- Thrown by code outside the repository: the database, the network, a runner. -/
  | external (message : String)
  deriving DecidableEq, Repr

/-- `Enumerable.Single` with a predicate. -/
def single {α : Type} (p : α → Bool) (l : List α) : Except Exn α :=
  match l.filter p with
  | [a] => .ok a
  | [] => .error (.invalidOperation "Sequence contains no matching element")
  | _ => .error (.invalidOperation "Sequence contains more than one matching element")

end OlympSystem
