/-! # Places in a source text

A span counts UTF-8 bytes from the start of the text, its end excluded.
-/

set_option autoImplicit false

namespace Dynascope

/-- The bytes from `start` up to, not including, `stop`. -/
structure Span where
  start : Nat
  stop : Nat
deriving DecidableEq, Repr, Inhabited

/-- A span in an error text: its two ends with two dots between. -/
def Span.text (s : Span) : String :=
  toString s.start ++ ".." ++ toString s.stop

end Dynascope
