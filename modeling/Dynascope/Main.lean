import Dynascope.CommandLine.Execute

/-! # The program

Reads the arguments, the files that they name and, for the shell, the standard input line by
line, and writes what the library answers.
-/

set_option autoImplicit false

namespace Dynascope

/-- More than any evaluation that ends in a lifetime takes. -/
def plentyOfFuel : Nat :=
  4000000000000000000

/-- What can be read under a path. -/
def readPath (path : String) : IO (Except CommandLine.ReadFailure String) := do
  try
    let bytes ← IO.FS.readBinFile path
    return match String.fromUTF8? bytes with
      | some text => .ok text
      | none => .error .notText
  catch _ =>
    return .error .missing

/-- Writes a reply to the two output streams. -/
def writeReply (reply : Reply) : IO Unit := do
  IO.print reply.out
  IO.eprint reply.err
  (← IO.getStdout).flush

/-- Answers lines until the shell or the input ends. -/
partial def converse (v : Verbosity) (input : IO.FS.Stream) (s : Session) : IO Unit := do
  let line ← input.getLine
  if line.isEmpty then return
  let (reply, s, goesOn) := Shell.feed plentyOfFuel v line s
  writeReply reply
  if goesOn then converse v input s

/-- Runs the shell on the standard input. -/
def runShell (v : Verbosity) (config : Config) : IO Unit := do
  let (begun, s) := Shell.start v config.maxCallDepth
  writeReply (begun.append { out := Text.unlines bannerLines })
  converse v (← IO.getStdin) s

end Dynascope

open Dynascope CommandLine in
/-- Carries out what the arguments ask for. -/
def main (args : List String) : IO UInt32 := do
  let request := Request.ofArgs args
  let texts ← request.files.mapM fun path => do return (path, ← readPath path)
  let files : Files := fun path =>
    match texts.find? fun entry => entry.1 == path with
    | some (_, content) => content
    | none => .error .missing
  match request with
  | .invoke options .shell _ =>
    let v := Verbosity.ofCount options.verbose
    match loadConfig v files options.config with
    | .ok (config, report) =>
      writeReply { err := Text.unlines report }
      runShell v config
      return 0
    | .error message =>
      writeReply (Result.failure message).reply
      return 1
  | request =>
    let result := execute plentyOfFuel files "" request
    writeReply result.reply
    return UInt32.ofNat result.status
