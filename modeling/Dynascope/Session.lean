import Dynascope.Scope

/-! # Sessions

A session is what one input leaves to the next: the scope stack, the number of calls that are
active, the limit on them, and the output that is still to be delivered. Its outermost frame
holds the built-ins and the frame inside that one the globals; an idle session has no others.

Everything a session does that can be seen from outside is an `Event`, and `Session.log` keeps
the events in order. What was written to the output is part of it (`Event.written`).
-/

set_option autoImplicit false

namespace Dynascope

/-- What a session does that can be seen from outside. -/
inductive Event where
  /-- all frames but one were dropped -/
  | cleared
  /-- a frame was put on the scope stack -/
  | opened
  /-- the innermost frame was removed -/
  | closed
  /-- the innermost frame was to be removed and was not, as it was the last one -/
  | refused
  /-- the evaluation of an input with this number of statements began -/
  | started (statements : Nat)
  /-- a closure was called under a name, while this number of calls was active -/
  | called (name : String) (args : Nat) (depth : Nat)
  /-- a text was handed to the output, which took this number of bytes of it -/
  | wrote (text : String) (bytes : Nat)
deriving DecidableEq, Repr

/-- The longest start of a text that has at most `bytes` bytes. -/
def takeBytes : Nat → List Char → List Char
  | _, [] => []
  | bytes, c :: cs => if c.utf8Size ≤ bytes then c :: takeBytes (bytes - c.utf8Size) cs else []

/-- What an event added to the output. -/
def Event.written : Event → String
  | wrote text bytes =>
    if text.utf8ByteSize ≤ bytes then text else String.ofList (takeBytes bytes text.toList)
  | _ => ""

/-- A list of events, the last one first. -/
abbrev Log : Type := List Event

/-- The output of some events. -/
def Log.output (log : Log) : String :=
  log.foldl (fun rest event => event.written ++ rest) ""

/-- The frame that holds the built-ins under their names. -/
def builtinFrame : Frame Value :=
  [Builtin.print, .stack, .prime].foldl (fun frame b => frame.insert b.name (.builtin b))
    Frame.empty

/-- The scope stack of a session that has just begun: the built-ins, and no globals. -/
def initialScope : Scope :=
  ⟨Frame.empty, [builtinFrame]⟩

/-- What one input leaves to the next. -/
structure Session where
  scope : Scope := initialScope
  /-- the closure calls that are active -/
  callDepth : Nat := 0
  /-- how many calls may be active; no limit if there is none -/
  maxCallDepth : Option Nat := some 10000
  /-- how many more bytes the output takes; no limit if there is none -/
  room : Option Nat := none
  /-- the identity of the next closure -/
  nextClosure : Nat := 0
  /-- what happened and is not delivered yet, the last event first -/
  log : Log := []

namespace Session

/-- A session that has just begun. -/
def start (maxCallDepth room : Option Nat) : Session :=
  { maxCallDepth, room, log := [.opened] }

/-- Adds an event to the log. -/
def note (s : Session) (event : Event) : Session :=
  { s with log := event :: s.log }

/-- Drops all bindings but the built-ins. The limits stay, and so does what happened before. -/
def reset (s : Session) : Session :=
  { s with
    scope := initialScope, callDepth := 0, nextClosure := 0, log := .opened :: .cleared :: s.log }

/-- The same session with another limit on active calls. -/
def setMaxCallDepth (s : Session) (limit : Nat) : Session :=
  { s with maxCallDepth := some limit }

/-- The same session with nothing left to deliver. -/
def delivered (s : Session) : Session :=
  { s with log := [] }

/-- Puts a frame on the scope stack. -/
def openFrame (s : Session) : Session :=
  { s with scope := s.scope.push, log := .opened :: s.log }

/-- Removes the innermost frame. The last frame cannot be removed. -/
def closeFrame (s : Session) : Session :=
  match s.scope.pop? with
  | some scope => { s with scope, log := .closed :: s.log }
  | none => s.note .refused

/-- Binds a name in the innermost frame. -/
def define (s : Session) (name : String) (value : Value) : Session :=
  { s with scope := s.scope.define name value }

/-- Gives a name a value in the nearest frame that binds it, or else in the innermost frame. -/
def assign (s : Session) (name : String) (value : Value) : Session :=
  { s with scope := s.scope.assign name value }

/-- The session after a text was handed to the output, and whether the output took all of it. -/
def write (s : Session) (text : String) : Session × Bool :=
  match s.room with
  | none => (s.note (.wrote text text.utf8ByteSize), true)
  | some room =>
    let taken := min room text.utf8ByteSize
    ({ s with room := some (room - taken), log := .wrote text taken :: s.log },
      decide (text.utf8ByteSize ≤ room))

end Session

end Dynascope
