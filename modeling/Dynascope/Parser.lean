import Dynascope.Lexer
import Dynascope.Term

/-! # From tokens to programs

The parser reads tokens from left to right and never goes back. What it has read is a `State`:
the unfinished constructs around the place it has reached (`Context`, innermost first), and what
may come next there. `State.step` takes one token, or refuses it if no program goes on with it.

Statements are separated by `;`, which a block does not need after it. An operand is an integer
(with an optional minus before it), a name, a call, or an expression in parentheses; `*` and `/`
bind tighter than `+` and `-`, both group to the left, and comparisons do not chain. An
assignment, a branch, a loop and a lambda are expressions but not operands, and reach as far to
the right as they can.

Main definitions: `State.step`, `State.finish?`, `parse`.
-/

set_option autoImplicit false

namespace Dynascope.Parser

/-! ## What waits for its rest -/

/-- The operators before an operand that still wait for their right side, each with its left
side: at most one comparison, in it at most one sum, in it at most one product. -/
structure Pending where
  comparison : Option (Term × CmpOp) := none
  sum : Option (Term × ArithOp) := none
  product : Option (Term × ArithOp) := none
deriving Repr, Inhabited

namespace Pending

/-- The span from the start of one expression to the end of another. -/
def around (left right : Term) : Span :=
  ⟨left.span.start, right.span.stop⟩

/-- The operand as a factor: the pending product, if any, with `operand` on its right. -/
def toProduct (p : Pending) (operand : Term) : Term :=
  match p.product with
  | none => operand
  | some (left, op) => .arith (around left operand) op left operand

/-- The operand as a summand: the pending sum, if any, with the product on its right. -/
def toSum (p : Pending) (operand : Term) : Term :=
  let right := p.toProduct operand
  match p.sum with
  | none => right
  | some (left, op) => .arith (around left right) op left right

/-- The whole expression that ends with `operand`. -/
def toComparison (p : Pending) (operand : Term) : Term :=
  let right := p.toSum operand
  match p.comparison with
  | none => right
  | some (left, op) => .compare (around left right) op left right

end Pending

/-- The operators by the way they bind. -/
inductive Operator where
  | product (op : ArithOp)
  | sum (op : ArithOp)
  | comparison (op : CmpOp)
deriving DecidableEq, Repr

/-- The operator that a token is, if it is one. -/
def operator? : Token → Option Operator
  | .star => some (.product .mul)
  | .slash => some (.product .div)
  | .plus => some (.sum .add)
  | .minus => some (.sum .sub)
  | .gt => some (.comparison .gt)
  | .lt => some (.comparison .lt)
  | .gtEq => some (.comparison .ge)
  | .ltEq => some (.comparison .le)
  | .eqEq => some (.comparison .eq)
  | .notEq => some (.comparison .ne)
  | _ => none

/-- What waits after `operand` and an operator. A comparison takes no second relation. -/
def Pending.extend? (p : Pending) (operand : Term) : Operator → Option Pending
  | .product op => some { p with product := some (p.toProduct operand, op) }
  | .sum op => some { p with sum := some (p.toSum operand, op), product := none }
  | .comparison op =>
    if p.comparison.isNone then some ⟨some (p.toSum operand, op), none, none⟩ else none

/-- What a block in braces belongs to. The number is where the construct starts. -/
inductive BlockRole where
  | plain
  | thenBody (start : Nat) (cond : Term)
  | whileBody (start : Nat) (cond : Term)
  | forBody (start : Nat) (name : String) (first : Option Term) (limit : Term)
deriving Repr

/-- The constructs around a place in the source that are not finished there, innermost first.
Lists hold what has been read so far, the last first; a number is where a construct starts. -/
inductive Context where
  /-- the whole program, after some statements -/
  | program (done : List Term)
  /-- a block opened at `start`, after some statements -/
  | block (role : BlockRole) (start : Nat) (done : List Term) (outer : Context)
  /-- a name and `=` before the value -/
  | value (start : Nat) (name : String) (outer : Context)
  /-- a lambda up to its colon, before the body -/
  | lambdaBody (start : Nat) (params : List String) (outer : Context)
  /-- a branch up to and with its `else` -/
  | orElse (start : Nat) (cond : Term) (thenSpan : Span) (thenBody : List Term)
      (outer : Context)
  /-- an opening parenthesis among the operators `pending` -/
  | paren (start : Nat) (pending : Pending) (outer : Context)
  /-- a call among the operators `pending`, after some arguments -/
  | args (start : Nat) (name : String) (done : List Term) (pending : Pending) (outer : Context)
  /-- the condition of a branch -/
  | ifCond (start : Nat) (outer : Context)
  /-- the condition of a loop -/
  | whileCond (start : Nat) (outer : Context)
  /-- the first, perhaps only, bound of a range -/
  | firstBound (start : Nat) (name : String) (outer : Context)
  /-- the second bound of a range -/
  | secondBound (start : Nat) (name : String) (first : Term) (outer : Context)
deriving Repr

/-- What the parser expects next. -/
inductive State where
  /-- a statement, a `;`, or the end of the block or program -/
  | statement (ctx : Context)
  /-- an expression -/
  | expression (ctx : Context)
  /-- an argument, or the end of the call -/
  | argument (ctx : Context)
  /-- an operand -/
  | operand (ctx : Context) (pending : Pending)
  /-- the integer after a minus at `start` -/
  | negated (ctx : Context) (pending : Pending) (start : Nat)
  /-- the rest after a name, which may be an assignment if `assignable` holds -/
  | named (ctx : Context) (pending : Pending) (assignable : Bool) (span : Span) (name : String)
  /-- an operator, or the end of the expression -/
  | operator (ctx : Context) (pending : Pending) (operand : Term)
  /-- the end of an expression that no operator extends -/
  | complete (ctx : Context) (term : Term)
  /-- the parenthesis before the condition of a branch -/
  | ifOpen (ctx : Context) (start : Nat)
  /-- the colon after the condition of a branch -/
  | ifColon (ctx : Context) (start : Nat) (cond : Term)
  /-- the block of a branch -/
  | thenOpen (ctx : Context) (start : Nat) (cond : Term)
  /-- the word `else` -/
  | elseWord (ctx : Context) (start : Nat) (cond : Term) (thenSpan : Span) (thenBody : List Term)
  /-- the variable of a loop -/
  | forName (ctx : Context) (start : Nat)
  /-- the word `in` -/
  | forIn (ctx : Context) (start : Nat) (name : String)
  /-- the word `range` -/
  | forRange (ctx : Context) (start : Nat) (name : String)
  /-- the parenthesis before the bounds -/
  | forOpen (ctx : Context) (start : Nat) (name : String)
  /-- the block of a loop over a range -/
  | forBlock (ctx : Context) (start : Nat) (name : String) (first : Option Term) (limit : Term)
  /-- a parameter, or the colon after the parameters -/
  | param (ctx : Context) (start : Nat) (params : List String)
  /-- a comma or the colon after a parameter -/
  | paramEnd (ctx : Context) (start : Nat) (params : List String)
deriving Repr

/-! ## One token -/

/-- The expression that a block in braces makes, or the state inside the construct that it
belongs to. A block that is a statement needs no `;` after it. -/
def closeBlock (role : BlockRole) (span : Span) (body : List Term) (outer : Context) : State :=
  match role with
  | .plain =>
    let term := Term.block span body
    match outer with
    | .program done => .statement (.program (term :: done))
    | .block role start done outer => .statement (.block role start (term :: done) outer)
    | outer => .complete outer term
  | .thenBody start cond => .elseWord outer start cond span body
  | .whileBody start cond => .complete outer (.whileLoop ⟨start, span.stop⟩ cond span body)
  | .forBody start name first limit =>
    .complete outer (.forLoop ⟨start, span.stop⟩ name first limit span body)

/-- The token after a whole expression. It ends every construct that reaches as far to the right
as it can, and must then go on with the construct around. -/
def Context.fill? (term : Term) (lexeme : Lexeme) : Context → Option State
  | program done =>
    match lexeme.token with
    | .semi => some (.statement (.program (term :: done)))
    | _ => none
  | block role start done outer =>
    match lexeme.token with
    | .semi => some (.statement (.block role start (term :: done) outer))
    | .rbrace =>
      some (closeBlock role ⟨start, lexeme.span.stop⟩ (term :: done).reverse outer)
    | _ => none
  | value start name outer =>
    outer.fill? (.assign ⟨start, term.span.stop⟩ name term) lexeme
  | lambdaBody start params outer =>
    outer.fill? (.lambda ⟨start, term.span.stop⟩ params.reverse term) lexeme
  | orElse start cond thenSpan thenBody outer =>
    outer.fill? (.branch ⟨start, term.span.stop⟩ cond thenSpan thenBody term) lexeme
  | paren start pending outer =>
    match lexeme.token with
    | .rparen => some (.operator outer pending (.paren ⟨start, lexeme.span.stop⟩ term))
    | _ => none
  | args start name done pending outer =>
    match lexeme.token with
    | .comma => some (.argument (.args start name (term :: done) pending outer))
    | .rparen =>
      some (.operator outer pending
        (.call ⟨start, lexeme.span.stop⟩ name (term :: done).reverse))
    | _ => none
  | ifCond start outer =>
    match lexeme.token with
    | .rparen => some (.ifColon outer start term)
    | _ => none
  | whileCond start outer =>
    match lexeme.token with
    | .lbrace => some (.statement (.block (.whileBody start term) lexeme.span.start [] outer))
    | _ => none
  | firstBound start name outer =>
    match lexeme.token with
    | .comma => some (.expression (.secondBound start name term outer))
    | .rparen => some (.forBlock outer start name none term)
    | _ => none
  | secondBound start name first outer =>
    match lexeme.token with
    | .rparen => some (.forBlock outer start name (some first) term)
    | _ => none

/-- The token after an operand. -/
def afterOperand? (ctx : Context) (pending : Pending) (operand : Term) (lexeme : Lexeme) :
    Option State :=
  match operator? lexeme.token with
  | some op => (pending.extend? operand op).map (.operand ctx)
  | none => ctx.fill? (pending.toComparison operand) lexeme

/-- The first token of an operand. Only where a whole expression starts can a name be
assigned to. -/
def startOperand? (ctx : Context) (pending : Pending) (assignable : Bool) (lexeme : Lexeme) :
    Option State :=
  match lexeme.token with
  | .minus => some (.negated ctx pending lexeme.span.start)
  | .lparen => some (.expression (.paren lexeme.span.start pending ctx))
  | .ident name => some (.named ctx pending assignable lexeme.span name)
  | .int n => some (.operator ctx pending (.number lexeme.span n))
  | _ => none

/-- The first token of an expression. -/
def startExpression? (ctx : Context) (lexeme : Lexeme) : Option State :=
  let start := lexeme.span.start
  match lexeme.token with
  | .kwIf => some (.ifOpen ctx start)
  | .kwWhile => some (.operand (.whileCond start ctx) {})
  | .kwFor => some (.forName ctx start)
  | .kwLambda => some (.param ctx start [])
  | .lbrace => some (.statement (.block .plain start [] ctx))
  | _ => startOperand? ctx {} true lexeme

/-- The first token of a statement, or what may stand in its place. -/
def startStatement? (ctx : Context) (lexeme : Lexeme) : Option State :=
  match lexeme.token, ctx with
  | .semi, _ => some (.statement ctx)
  | .rbrace, .block role start done outer =>
    some (closeBlock role ⟨start, lexeme.span.stop⟩ done.reverse outer)
  | _, _ => startExpression? ctx lexeme

/-- The first token of an argument, or the end of the call. -/
def startArgument? (ctx : Context) (lexeme : Lexeme) : Option State :=
  match lexeme.token, ctx with
  | .rparen, .args start name done pending outer =>
    some (.operator outer pending (.call ⟨start, lexeme.span.stop⟩ name done.reverse))
  | _, _ => startExpression? ctx lexeme

/-- The state after one more token, if some program goes on with it. -/
def State.step (lexeme : Lexeme) : State → Option State
  | statement ctx => startStatement? ctx lexeme
  | expression ctx => startExpression? ctx lexeme
  | argument ctx => startArgument? ctx lexeme
  | operand ctx pending => startOperand? ctx pending false lexeme
  | negated ctx pending start =>
    match lexeme.token with
    | .int n => some (.operator ctx pending (.number ⟨start, lexeme.span.stop⟩ (-n)))
    | _ => none
  | named ctx pending assignable span name =>
    match lexeme.token, assignable with
    | .assign, true => some (.expression (.value span.start name ctx))
    | .lparen, _ => some (.argument (.args span.start name [] pending ctx))
    | _, _ => afterOperand? ctx pending (.var span name) lexeme
  | operator ctx pending term => afterOperand? ctx pending term lexeme
  | complete ctx term => ctx.fill? term lexeme
  | ifOpen ctx start =>
    match lexeme.token with
    | .lparen => some (.expression (.ifCond start ctx))
    | _ => none
  | ifColon ctx start cond =>
    match lexeme.token with
    | .colon => some (.thenOpen ctx start cond)
    | _ => none
  | thenOpen ctx start cond =>
    match lexeme.token with
    | .lbrace => some (.statement (.block (.thenBody start cond) lexeme.span.start [] ctx))
    | _ => none
  | elseWord ctx start cond thenSpan thenBody =>
    match lexeme.token with
    | .kwElse => some (.expression (.orElse start cond thenSpan thenBody ctx))
    | _ => none
  | forName ctx start =>
    match lexeme.token with
    | .ident name => some (.forIn ctx start name)
    | _ => none
  | forIn ctx start name =>
    match lexeme.token with
    | .kwIn => some (.forRange ctx start name)
    | _ => none
  | forRange ctx start name =>
    match lexeme.token with
    | .kwRange => some (.forOpen ctx start name)
    | _ => none
  | forOpen ctx start name =>
    match lexeme.token with
    | .lparen => some (.expression (.firstBound start name ctx))
    | _ => none
  | forBlock ctx start name first limit =>
    match lexeme.token with
    | .lbrace =>
      some (.statement (.block (.forBody start name first limit) lexeme.span.start [] ctx))
    | _ => none
  | param ctx start params =>
    match lexeme.token with
    | .ident name => some (.paramEnd ctx start (name :: params))
    | .colon => some (.expression (.lambdaBody start params ctx))
    | _ => none
  | paramEnd ctx start params =>
    match lexeme.token with
    | .comma => some (.param ctx start params)
    | .colon => some (.expression (.lambdaBody start params ctx))
    | _ => none

/-! ## The end of the text -/

/-- The program that ends with a whole expression, if nothing around it is unfinished. -/
def Context.finish? (term : Term) : Context → Option Program
  | program done => some ⟨(term :: done).reverse⟩
  | value start name outer => outer.finish? (.assign ⟨start, term.span.stop⟩ name term)
  | lambdaBody start params outer =>
    outer.finish? (.lambda ⟨start, term.span.stop⟩ params.reverse term)
  | orElse start cond thenSpan thenBody outer =>
    outer.finish? (.branch ⟨start, term.span.stop⟩ cond thenSpan thenBody term)
  | _ => none

/-- The program that has been read, if it is complete. -/
def State.finish? : State → Option Program
  | statement (.program done) => some ⟨done.reverse⟩
  | named ctx pending _ span name => ctx.finish? (pending.toComparison (.var span name))
  | operator ctx pending term => ctx.finish? (pending.toComparison term)
  | complete ctx term => ctx.finish? term
  | _ => none

/-! ## Whole texts -/

/-- Before the first token. -/
def State.initial : State :=
  .statement (.program [])

/-- The kinds of token that can come next. -/
def State.expected (s : State) : List Token :=
  Token.kinds.filter fun token => (s.step ⟨token, ⟨0, 0⟩⟩).isSome

/-- The state after all tokens, or the first token that is refused. -/
def State.run (s : State) : List Lexeme → Except CompileError State
  | [] => .ok s
  | lexeme :: rest =>
    match s.step lexeme with
    | some next => next.run rest
    | none => .error (.unexpectedToken lexeme s.expected)

/-- Where the last token ends; zero if there is none. -/
def endOf (lexemes : List Lexeme) : Nat :=
  (lexemes.getLast?.map (·.span.stop)).getD 0

end Dynascope.Parser

namespace Dynascope

/-- The program that a list of tokens spells, or the first place where it cannot go on. -/
def parse (lexemes : List Lexeme) : Except CompileError Program :=
  match Parser.State.initial.run lexemes with
  | .error e => .error e
  | .ok state =>
    match state.finish? with
    | some program => .ok program
    | none => .error (.unexpectedEnd (Parser.endOf lexemes) state.expected)

/-- The program of a source text. -/
def parseSource (source : String) : Except CompileError Program :=
  match tokenize source with
  | .error e => .error e
  | .ok lexemes => parse lexemes

end Dynascope
