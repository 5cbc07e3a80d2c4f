import LoxLang.CommandLine
import Std.Time.DateTime.Timestamp

/-!
The program `lox`. A dialogue runs while it is typed; every other command has its answer when its
input is read.
-/

namespace LoxLang.Main

/-- Fuel that no run uses up. -/
def plenty : Nat := Nat.pow 2 62

def openFile (file : String) : IO FileContents := do
  try
    return .ok (← IO.FS.readBinFile file).toList
  catch
    | .noFileOrDirectory .. => return .error "No such file or directory (os error 2)"
    | .permissionDenied .. => return .error "Permission denied (os error 13)"
    | e => return .error (toString e)

partial def readAll (stream : IO.FS.Stream) (read : ByteArray) : IO ByteArray := do
  let bytes ← stream.read 65536
  if bytes.isEmpty then return read else readAll stream (read ++ bytes)

/-- The bytes of a line, with its line feed. -/
partial def readBytes (stream : IO.FS.Stream) (read : List UInt8) : IO (List UInt8) := do
  let bytes ← stream.read 1
  match bytes.toList with
  | [] => return read.reverse
  | byte :: _ =>
    if byte = Console.lineFeed then return (byte :: read).reverse
    else readBytes stream (byte :: read)

partial def converse (stdin : IO.FS.Stream) (s : Session) : IO UInt32 := do
  IO.print Dialogue.prompt
  (← IO.getStdout).flush
  let line ← readBytes stdin []
  let console := { s.machine.console with input := line }
  match Dialogue.step plenty { s with machine := { s.machine with console := console } } with
  | none => return 1
  | some .over =>
    IO.println ""
    return 0
  | some .unreadable =>
    IO.eprint Dialogue.unreadableText
    return 1
  | some (.ran outcome s) =>
    IO.print outcome.output
    IO.eprint (Command.lines (outcome.errors.map Diagnostic.text))
    converse stdin s

def answer (i : Invocation) (file : String) (clock : Nat → Nat) : IO UInt32 := do
  let contents ← openFile file
  let input ←
    if i.command.mayRead contents then readAll (← IO.getStdin) .empty else pure .empty
  match i.answer plenty (fun _ => contents) input.toList clock with
  | none => return 1
  | some a =>
    IO.print a.stdout
    IO.eprint a.stderr
    return a.code.toUInt32

def perform (arguments : List String) : IO UInt32 := do
  match Invocation.ofArguments arguments with
  | .error message =>
    IO.eprintln ("error: " ++ message)
    return 2
  | .ok i =>
    let now := (← Std.Time.Timestamp.now).toMillisecondsSinceUnixEpoch.toInt.toNat
    let clock := fun readings => now + readings
    match i.command with
    | .repl => converse (← IO.getStdin) (.start i.maxDepth [] .open clock)
    | .run file | .tokenize file _ | .parse file _ => answer i file clock

end LoxLang.Main

def main (arguments : List String) : IO UInt32 :=
  LoxLang.Main.perform arguments
