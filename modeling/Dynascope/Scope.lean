import Dynascope.Frame
import Dynascope.RuntimeError

/-! # The scope stack

The frames that are alive, the innermost first; there is always at least one. Names are looked
up from the innermost frame outward. An assignment goes to the nearest frame that binds the
name, a definition always to the innermost.
-/

set_option autoImplicit false

namespace Dynascope

/-- A stack of frames: the innermost, and those around it from the inside out. -/
structure Scope where
  inner : Frame Value
  outer : List (Frame Value)
deriving Inhabited

/-- Binds a name again in the nearest frame that binds it. -/
def rebind (name : String) (value : Value) : List (Frame Value) → List (Frame Value)
  | [] => []
  | frame :: rest =>
    if frame.contains name then frame.insert name value :: rest
    else frame :: rebind name value rest

namespace Scope

/-- One frame without bindings. -/
def new : Scope :=
  ⟨Frame.empty, []⟩

/-- All frames, the innermost first. -/
def frames (s : Scope) : List (Frame Value) :=
  s.inner :: s.outer

/-- The number of frames. -/
def depth (s : Scope) : Nat :=
  s.outer.length + 1

/-- Every frame but the outermost, the outermost of them first. -/
def userFrames (s : Scope) : List (Frame Value) :=
  s.frames.dropLast.reverse

/-- Puts a frame without bindings inside all others. -/
def push (s : Scope) : Scope :=
  ⟨Frame.empty, s.inner :: s.outer⟩

/-- Removes the innermost frame; the last frame stays. -/
def pop? (s : Scope) : Option Scope :=
  match s.outer with
  | [] => none
  | frame :: rest => some ⟨frame, rest⟩

/-- Binds a name in the innermost frame. -/
def define (s : Scope) (name : String) (value : Value) : Scope :=
  { s with inner := s.inner.insert name value }

/-- The value of a name in the nearest frame that binds it. -/
def get? (s : Scope) (name : String) : Option Value :=
  match s.inner.get? name with
  | some value => some value
  | none => s.outer.findSome? (·.get? name)

/-- The value of a name; a name that no frame binds is undefined. -/
def lookup (s : Scope) (name : String) : Except RuntimeError Value :=
  match s.get? name with
  | some value => .ok value
  | none => .error (.undefinedVariable name)

/-- Whether some frame binds a name. -/
def contains (s : Scope) (name : String) : Bool :=
  s.frames.any (·.contains name)

/-- Gives a name a value in the nearest frame that binds it, or else in the innermost frame. -/
def assign (s : Scope) (name : String) (value : Value) : Scope :=
  if s.inner.contains name then s.define name value
  else if s.outer.any (·.contains name) then { s with outer := rebind name value s.outer }
  else s.define name value

/-- The text of a frame: its names in order, each with its value. -/
def frameText (frame : Frame Value) : String :=
  "\x7b" ++ Text.joinWith ", " (frame.bindings.map fun (name, value) => name ++ ": " ++ value.text)
    ++ "\x7d"

/-- The text of all frames but the outermost. -/
def text (s : Scope) : String :=
  "[" ++ Text.joinWith ", " (s.userFrames.map frameText) ++ "]"

end Scope

end Dynascope
