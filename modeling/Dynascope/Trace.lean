import Dynascope.Session
import Dynascope.Text.Quoted

/-! # Trace lines

What a session did, one line to an event, for those who ask for it. Inputs and calls appear from
the first level on, frames from the second. A frame is numbered by its distance from the
outermost one.
-/

set_option autoImplicit false

namespace Dynascope

/-- How much of what happens is reported. -/
inductive Verbosity where
  | quiet
  | debug
  | trace
deriving DecidableEq, Repr

/-- The verbosity that is asked for so many times. -/
def Verbosity.ofCount : Nat → Verbosity
  | 0 => .quiet
  | 1 => .debug
  | _ => .trace

/-- A line that appears from the first level on. -/
def Verbosity.debugLine (v : Verbosity) (text : String) : List String :=
  if v = .quiet then [] else ["DEBUG " ++ text]

/-- A line that appears from the second level on. -/
def Verbosity.traceLine (v : Verbosity) (text : String) : List String :=
  if v = .trace then ["TRACE " ++ text] else []

/-- The line of an event while `depth` is the number of the innermost frame, and that number
after the event. -/
def Event.trace (v : Verbosity) (depth : Nat) : Event → List String × Nat
  | cleared => ([], 0)
  | opened =>
    (v.traceLine ("esolang::interp::scope: push frame depth=" ++ toString (depth + 1)), depth + 1)
  | closed =>
    (v.traceLine ("esolang::interp::scope: pop frame depth=" ++ toString (depth - 1)), depth - 1)
  | started statements =>
    (v.debugLine ("esolang::interp::eval: evaluate input statements=" ++ toString statements),
      depth)
  | called name args active =>
    (v.debugLine ("esolang::interp::eval: call function=" ++ Text.quote name ++ " args="
      ++ toString args ++ " depth=" ++ toString active), depth)
  | refused | wrote .. => ([], depth)

/-- The lines of some events, the first event first. -/
def traceLines (v : Verbosity) (depth : Nat) : List Event → List String
  | [] => []
  | event :: rest =>
    let (lines, depth) := event.trace v depth
    lines ++ traceLines v depth rest

/-- The lines of what a session did and has not delivered yet; `depth` is the number of the
innermost frame before that. -/
def Session.traceLines (v : Verbosity) (depth : Nat) (s : Session) : List String :=
  if v = .quiet then [] else Dynascope.traceLines v depth s.log.reverse

end Dynascope
