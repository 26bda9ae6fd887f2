import Dynascope.Session

/-! # Computations in a session

A `Run` takes a session and leaves one behind, together with how it ended: with a value, with a
runtime error, or without an answer because the fuel it was given did not suffice. Whatever it
wrote or bound before it ended stays.
-/

set_option autoImplicit false

namespace Dynascope

/-- How a computation ends. -/
inductive Outcome (ε α : Type) where
  | value (a : α)
  | failure (e : ε)
  | outOfFuel
deriving Repr, Inhabited

/-- A computation in a session. -/
def Run (α : Type) : Type :=
  Session → Outcome RuntimeError α × Session

namespace Run

variable {α β : Type}

/-- Ends at once with a value. -/
@[inline] def value (a : α) : Run α :=
  fun s => (.value a, s)

/-- Ends at once with an error. -/
@[inline] def fail (e : RuntimeError) : Run α :=
  fun s => (.failure e, s)

/-- Ends without an answer. -/
@[inline] def outOfFuel : Run α :=
  fun s => (.outOfFuel, s)

/-- Goes on with the value of a computation, if it ends with one. -/
@[inline] def andThen (r : Run α) (next : α → Run β) : Run β :=
  fun s =>
    match r s with
    | (.value a, s) => next a s
    | (.failure e, s) => (.failure e, s)
    | (.outOfFuel, s) => (.outOfFuel, s)

instance : Monad Run where
  pure := value
  bind := andThen

/-- Ends with the value or the error of a check. -/
@[inline] def ofExcept (r : Except RuntimeError α) : Run α :=
  match r with
  | .ok a => value a
  | .error e => fail e

/-- Reads something off the session. -/
@[inline] def read (view : Session → α) : Run α :=
  fun s => (.value (view s), s)

/-- Changes the session. -/
@[inline] def update (change : Session → Session) : Run Unit :=
  fun s => (.value (), change s)

/-- Runs inside a frame of its own, which is removed however the run ends. -/
@[inline] def inFrame (r : Run α) : Run α :=
  fun s =>
    match r s.openFrame with
    | (outcome, s) => (outcome, s.closeFrame)

/-- Runs as one more active call, which is over however the run ends. -/
@[inline] def inCall (r : Run α) : Run α :=
  fun s =>
    match r { s with callDepth := s.callDepth + 1 } with
    | (outcome, s) => (outcome, { s with callDepth := s.callDepth - 1 })

/-- Writes a line to the output. -/
def writeLine (text : String) : Run Unit :=
  fun s =>
    match s.write (text ++ "\n") with
    | (s, true) => (.value (), s)
    | (s, false) => (.failure .sinkFull, s)

/-- The identity of a closure that is being made. -/
def freshClosure : Run Nat :=
  fun s => (.value s.nextClosure, { s with nextClosure := s.nextClosure + 1 })

end Run

end Dynascope
