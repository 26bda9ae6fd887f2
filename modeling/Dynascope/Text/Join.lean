/-! # Joining texts, and cutting them into lines -/

set_option autoImplicit false

namespace Dynascope.Text

/-- Texts one after the other with a separator between each two. -/
def joinWith (separator : String) : List String → String
  | [] => ""
  | [last] => last
  | first :: rest => first ++ separator ++ joinWith separator rest

/-- Lines one after the other, each with a line feed at its end. -/
def unlines : List String → String
  | [] => ""
  | first :: rest => first ++ "\n" ++ unlines rest

/-- The lines of a text. The last one may lack its line feed; what follows the last line feed is
no line if it is empty. -/
def cutLines : List Char → List (List Char)
  | [] => []
  | c :: cs =>
    if c = '\n' then [] :: cutLines cs
    else match cutLines cs with
      | [] => [[c]]
      | line :: rest => (c :: line) :: rest

/-- The lines of a text, without their line feeds. -/
def linesOf (s : String) : List String :=
  (cutLines s.toList).map String.ofList

end Dynascope.Text
