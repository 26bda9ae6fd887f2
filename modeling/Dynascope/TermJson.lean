import Dynascope.Json
import Dynascope.Term

/-! # Programs as JSON

The JSON form of a tree: a record is an object with its fields in a fixed order, a node that has
several forms is an object with the name of the form as its only key, and every expression comes
with its span. On reading, fields may stand in any order, unknown ones are passed over, and a
record may also be the array of all its fields in their order. A range without a first bound has
`null` there; on reading the field may be missing.
-/

set_option autoImplicit false

namespace Dynascope

/-! ## Writing -/

/-- The JSON form of a span. -/
def Span.toJson (span : Span) : Json :=
  .object [("start", .integer span.start), ("end", .integer span.stop)]

/-- Something with the span that it was read from. -/
def locatedJson (node : Json) (span : Span) : Json :=
  .object [("node", node), ("span", span.toJson)]

/-- The JSON form of a list of statements as a block. -/
def blockJson (statements : List Json) : Json :=
  .object [("statements", .array statements)]

/-- The name of an operator in the JSON form. -/
def ArithOp.tag : ArithOp → String
  | .add => "Add"
  | .sub => "Sub"
  | .mul => "Mul"
  | .div => "Div"

/-- The name of a relation in the JSON form. -/
def CmpOp.tag : CmpOp → String
  | .gt => "Gt"
  | .lt => "Lt"
  | .ge => "Ge"
  | .le => "Le"
  | .eq => "Eq"
  | .ne => "Ne"

/-- One of several forms, by its name. -/
def formJson (tag : String) (content : Json) : Json :=
  .object [(tag, content)]

mutual

/-- The JSON form of an expression. -/
def Term.toJson : Term → Json
  | .number span n => locatedJson (formJson "Number" (.integer n.toInt)) span
  | .paren span inner => locatedJson (formJson "Paren" inner.toJson) span
  | .arith span op left right =>
    locatedJson (formJson "BinaryArith" (.object
      [("op", .string op.tag), ("left", left.toJson), ("right", right.toJson)])) span
  | .compare span op left right =>
    locatedJson (formJson "Comparison" (.object
      [("op", .string op.tag), ("left", left.toJson), ("right", right.toJson)])) span
  | .assign span name value =>
    locatedJson (formJson "VarAssign" (.object
      [("name", .string name), ("value", value.toJson)])) span
  | .var span name => locatedJson (formJson "VarAccess" (.string name)) span
  | .block span body => locatedJson (formJson "Block" (blockJson (allToJson body))) span
  | .branch span cond thenSpan thenBody orElse =>
    locatedJson (formJson "If" (.object
      [("cond", cond.toJson),
        ("then_block", locatedJson (blockJson (allToJson thenBody)) thenSpan),
        ("else_expr", orElse.toJson)])) span
  | .whileLoop span cond bodySpan body =>
    locatedJson (formJson "While" (.object
      [("cond", cond.toJson), ("body", locatedJson (blockJson (allToJson body)) bodySpan)])) span
  | .forLoop span name none limit bodySpan body =>
    locatedJson (formJson "For" (.object
      [("var", .string name),
        ("range", .object [("start", .null), ("end", limit.toJson)]),
        ("body", locatedJson (blockJson (allToJson body)) bodySpan)])) span
  | .forLoop span name (some first) limit bodySpan body =>
    locatedJson (formJson "For" (.object
      [("var", .string name),
        ("range", .object [("start", first.toJson), ("end", limit.toJson)]),
        ("body", locatedJson (blockJson (allToJson body)) bodySpan)])) span
  | .lambda span params body =>
    locatedJson (formJson "FunctionDef" (.object
      [("params", .array (params.map .string)), ("body", body.toJson)])) span
  | .call span name args =>
    locatedJson (formJson "FunctionCall" (.object
      [("name", .string name), ("args", .array (allToJson args))])) span

/-- The JSON forms of several expressions. -/
def allToJson : List Term → List Json
  | [] => []
  | term :: rest => term.toJson :: allToJson rest

end

/-- The JSON form of a program. -/
def Program.toJson (program : Program) : Json :=
  blockJson (allToJson program.statements)

/-! ## Reading -/

/-- The values of a key in an object. -/
def valuesOf (key : String) (fields : List (String × Json)) : List Json :=
  (fields.filter (·.1 == key)).map (·.2)

/-- The value of a field that may be missing but must not be repeated. -/
def field? (fields : List (String × Json)) (key : String) : Option (Option Json) :=
  match valuesOf key fields with
  | [] => some none
  | [value] => some (some value)
  | _ => none

/-- The fields of a record by their names: from an object, where some may be missing, or from the
array of all of them in order. -/
def record? (keys : List String) : Json → Option (List (Option Json))
  | .object fields => keys.mapM (field? fields)
  | .array items => if items.length = keys.length then some (items.map some) else none
  | _ => none

/-- A signed 64-bit integer. -/
def Json.int64? : Json → Option Int64
  | .integer n => Text.word? n
  | _ => none

/-- A byte offset: an integer from zero up, below two to the power of 64. -/
def Json.offset? : Json → Option Nat
  | .integer n => if 0 ≤ n ∧ n < 18446744073709551616 then some n.toNat else none
  | _ => none

/-- A string. -/
def Json.string? : Json → Option String
  | .string s => some s
  | _ => none

/-- An array whose items all read. -/
def Json.arrayOf? {α : Type} (item? : Json → Option α) : Json → Option (List α)
  | .array items => items.mapM item?
  | _ => none

/-- One of several forms: its name and its content. -/
def Json.form? : Json → Option (String × Json)
  | .object [field] => some field
  | _ => none

/-- The name of a form without content, alone or with `null` for its content. -/
def Json.tag? : Json → Option String
  | .string tag => some tag
  | .object [(tag, .null)] => some tag
  | _ => none

/-- The operator with a name. -/
def ArithOp.ofTag? : String → Option ArithOp
  | "Add" => some .add
  | "Sub" => some .sub
  | "Mul" => some .mul
  | "Div" => some .div
  | _ => none

/-- The relation with a name. -/
def CmpOp.ofTag? : String → Option CmpOp
  | "Gt" => some .gt
  | "Lt" => some .lt
  | "Ge" => some .ge
  | "Le" => some .le
  | "Eq" => some .eq
  | "Ne" => some .ne
  | _ => none

/-- The span that a JSON form stands for. -/
def Span.ofJson? (json : Json) : Option Span :=
  match record? ["start", "end"] json with
  | some [some start, some stop] => do return ⟨← start.offset?, ← stop.offset?⟩
  | _ => none

/-- The JSON form of something with a span, taken apart. -/
def located? (json : Json) : Option (Json × Span) :=
  match record? ["node", "span"] json with
  | some [some node, some span] => do return (node, ← Span.ofJson? span)
  | _ => none

/-- The statements of a block, each read by `item?`. -/
def statements? {α : Type} (item? : Json → Option α) (json : Json) : Option (List α) :=
  match record? ["statements"] json with
  | some [some statements] => statements.arrayOf? item?
  | _ => none

/-- The statements and the span of a block with a span. -/
def locatedBlock? {α : Type} (item? : Json → Option α) (json : Json) :
    Option (Span × List α) := do
  let (node, span) ← located? json
  return (span, ← statements? item? node)

/-- A first bound that may be missing. -/
def firstBound? {α : Type} (item? : Json → Option α) : Option Json → Option (Option α)
  | none | some .null => some none
  | some json => (item? json).map some

/-- The bounds of a range. -/
def bounds? {α : Type} (item? : Json → Option α) (json : Json) : Option (Option α × α) :=
  match record? ["start", "end"] json with
  | some [first, some limit] => do return (← firstBound? item? first, ← item? limit)
  | _ => none

/-- A node of a given form, with the expressions in it read by `term?`. -/
def Term.ofForm? (term? : Json → Option Term) (span : Span) (tag : String) (content : Json) :
    Option Term :=
  match tag with
  | "Number" => content.int64?.map (.number span)
  | "Paren" => (term? content).map (.paren span)
  | "BinaryArith" =>
    match record? ["op", "left", "right"] content with
    | some [some op, some left, some right] => do
      return .arith span (← ArithOp.ofTag? (← op.tag?)) (← term? left) (← term? right)
    | _ => none
  | "Comparison" =>
    match record? ["op", "left", "right"] content with
    | some [some op, some left, some right] => do
      return .compare span (← CmpOp.ofTag? (← op.tag?)) (← term? left) (← term? right)
    | _ => none
  | "VarAssign" =>
    match record? ["name", "value"] content with
    | some [some name, some value] => do return .assign span (← name.string?) (← term? value)
    | _ => none
  | "VarAccess" => content.string?.map (.var span)
  | "Block" => (statements? term? content).map (.block span)
  | "If" =>
    match record? ["cond", "then_block", "else_expr"] content with
    | some [some cond, some thenBlock, some orElse] => do
      let (thenSpan, thenBody) ← locatedBlock? term? thenBlock
      return .branch span (← term? cond) thenSpan thenBody (← term? orElse)
    | _ => none
  | "While" =>
    match record? ["cond", "body"] content with
    | some [some cond, some body] => do
      let (bodySpan, body) ← locatedBlock? term? body
      return .whileLoop span (← term? cond) bodySpan body
    | _ => none
  | "For" =>
    match record? ["var", "range", "body"] content with
    | some [some name, some range, some body] => do
      let (first, limit) ← bounds? term? range
      let (bodySpan, body) ← locatedBlock? term? body
      return .forLoop span (← name.string?) first limit bodySpan body
    | _ => none
  | "FunctionDef" =>
    match record? ["params", "body"] content with
    | some [some params, some body] => do
      return .lambda span (← params.arrayOf? Json.string?) (← term? body)
    | _ => none
  | "FunctionCall" =>
    match record? ["name", "args"] content with
    | some [some name, some args] => do
      return .call span (← name.string?) (← args.arrayOf? term?)
    | _ => none
  | _ => none

/-- The expression that a JSON form of at most a given depth of nesting stands for. -/
def Term.ofJson? : Nat → Json → Option Term
  | 0, _ => none
  | depth + 1, json => do
    let (node, span) ← located? json
    let (tag, content) ← node.form?
    Term.ofForm? (Term.ofJson? depth) span tag content

mutual

/-- How deep arrays and objects are nested. -/
def Json.depth : Json → Nat
  | .array items => itemsDepth items + 1
  | .object fields => fieldsDepth fields + 1
  | _ => 0

/-- The greatest depth of several items. -/
def itemsDepth : List Json → Nat
  | [] => 0
  | item :: rest => max item.depth (itemsDepth rest)

/-- The greatest depth of several fields. -/
def fieldsDepth : List (String × Json) → Nat
  | [] => 0
  | (_, value) :: rest => max value.depth (fieldsDepth rest)

end

/-- The program that a JSON form stands for. -/
def Program.ofJson? (json : Json) : Option Program :=
  (statements? (Term.ofJson? json.depth) json).map Program.mk

/-- The program that a JSON text stands for. -/
def Program.ofJsonText? (text : String) : Option Program :=
  (Json.read? text).bind Program.ofJson?

end Dynascope
