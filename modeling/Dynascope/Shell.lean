import Dynascope.Eval
import Dynascope.Text.Blank
import Dynascope.Trace

/-! # The interactive shell

Every line is one input of the same session, or a command if it starts with a colon. A line that
fails leaves the scope stack as the failure found it. `Session.respond` answers a line of source;
`Shell.feed` answers any line, and `Shell.feedAll` lines up to the first that ends the shell.
-/

set_option autoImplicit false

namespace Dynascope

/-! ## Commands -/

/-- What a line with a colon asks for. -/
inductive Command where
  | quit
  | help
  | stack
  | reset
  | unknown (name : String)
deriving DecidableEq, Repr

/-- The command with a name. -/
def Command.named (name : String) : Command :=
  match name with
  | "quit" | "q" | "exit" => .quit
  | "help" | "h" | "?" => .help
  | "stack" => .stack
  | "reset" => .reset
  | name => .unknown name

/-- The command on a line that starts with a colon; any other line is source. -/
def Command.ofLine? (line : String) : Option Command :=
  match line.toList with
  | ':' :: name => some (.named (String.ofList (Text.trimChars name)))
  | _ => none

/-! ## Answers -/

/-- What a line of source is answered with. -/
inductive Response where
  | silent
  | value (text : String)
  | error (message : String)
  | unfinished
deriving DecidableEq, Repr

/-- Answers a line of source. A line of blanks is not evaluated. -/
def Session.respond (fuel : Nat) (line : String) (s : Session) : Response × Session :=
  if (Text.trim line).isEmpty then (.silent, s)
  else match s.evaluate fuel line with
    | (.value v, s) => (if v.isNone then .silent else .value v.text, s)
    | (.failure e, s) => (.error e.line, s)
    | (.outOfFuel, s) => (.unfinished, s)

/-- The lines that explain the shell. -/
def helpLines : List String :=
  ["Commands:",
    "  :help, :h       Show this help",
    "  :quit, :q       Exit the REPL",
    "  :stack          Show user-visible scope frames",
    "  :reset          Drop all session bindings",
    "",
    "Examples:",
    "  a = 3; \x7b a = 5; a + 5 \x7d",
    "  if (a == 5): \x7b 1 \x7d else 2     # 0 is true, 1 is false",
    "  for i in range(1, 4) \x7b print(i) \x7d",
    "  f = lambda x, y: x * y; f(6, 7)",
    "",
    "Built-ins: print(x), stack(), prime(n)"]

/-- The lines that the shell starts with. -/
def bannerLines : List String :=
  ["esolang 0.1.0", "Type :help for help, :quit to exit.", ""]

/-- What is written in answer to a line: to the output and to the error stream. -/
structure Reply where
  out : String := ""
  err : String := ""
deriving DecidableEq, Repr

/-- One reply after another. -/
def Reply.append (a b : Reply) : Reply :=
  ⟨a.out ++ b.out, a.err ++ b.err⟩

/-- What a session did and has not delivered, as a reply, and the session with that delivered.
`depth` is the number of the innermost frame before that. -/
def Session.deliver (v : Verbosity) (depth : Nat) (s : Session) : Reply × Session :=
  (⟨s.log.output, Text.unlines (s.traceLines v depth)⟩, s.delivered)

/-- The reply to a response. -/
def Response.reply : Response → Reply
  | silent => {}
  | value text => { out := text ++ "\n" }
  | error message => { err := "Error: " ++ message ++ "\n" }
  | unfinished => { err := "Error: the evaluation did not end\n" }

/-- The reply to a command, the session after it, and whether the shell goes on. -/
def Command.obey (command : Command) (s : Session) : Reply × Session × Bool :=
  match command with
  | .quit => ({}, s, false)
  | .help => ({ out := Text.unlines helpLines }, s, true)
  | .stack => ({ out := s.scope.text ++ "\n" }, s, true)
  | .reset => ({ out := "Session cleared.\n" }, s.reset, true)
  | .unknown name =>
    ({ out := "Unknown command: :" ++ name ++ "\nType :help for help.\n" }, s, true)

namespace Shell

/-- Answers one line: what is written, the session after it, and whether the shell goes on. -/
def feed (fuel : Nat) (v : Verbosity) (line : String) (s : Session) : Reply × Session × Bool :=
  let line := Text.trim line
  let depth := s.scope.depth - 1
  if line.isEmpty then ({}, s, true)
  else match Command.ofLine? line with
    | some command =>
      let (reply, s, goesOn) := command.obey s
      let (done, s) := s.deliver v depth
      (done.append reply, s, goesOn)
    | none =>
      let (response, s) := s.respond fuel line
      let (done, s) := s.deliver v depth
      (done.append response.reply, s, true)

/-- Answers lines in order, up to the first that ends the shell. -/
def feedAll (fuel : Nat) (v : Verbosity) (s : Session) : List String → Reply
  | [] => {}
  | line :: rest =>
    match feed fuel v line s with
    | (reply, s, true) => reply.append (feedAll fuel v s rest)
    | (reply, _, false) => reply

/-- A new session with what its beginning is reported with. -/
def start (v : Verbosity) (maxCallDepth : Nat) : Reply × Session :=
  (Session.start (some maxCallDepth) none).deliver v 0

end Shell

end Dynascope
