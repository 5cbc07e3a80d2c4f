import LoxLang.Session
import LoxLang.Text.Blank
import LoxLang.Text.Quoted
import LoxLang.Tree.Json
import LoxLang.Tree.Polish

/-!
The command line: what its arguments ask for and what each command answers.
-/

namespace LoxLang

/-- How `parse` writes a program. -/
inductive TreeForm where
  | bracketed
  | polish
  | json
  deriving DecidableEq, Repr

inductive Command where
  | run (file : String)
  | tokenize (file : String) (json : Bool)
  | parse (file : String) (form : TreeForm)
  | repl
  deriving DecidableEq, Repr

structure Invocation where
  command : Command
  maxDepth : Nat
  deriving DecidableEq, Repr

/-- What a command writes, and its exit code. -/
structure Answer where
  code : Nat
  stdout : String
  stderr : String
  deriving DecidableEq, Repr

/-- The bytes of a file, or why it cannot be opened. -/
abbrev FileContents := Except String (List UInt8)

namespace Invocation

/-- The words of a command line, its flags set apart. -/
structure Words where
  plain : List String
  json : Bool
  polish : Bool
  maxDepth : Nat

def usage : String :=
  "Usage: lox [--max-depth N] (run FILE | tokenize FILE [--json] | " ++
    "parse FILE [--json | --rpn] | repl)"

/-- One more than the deepest limit that can be asked for. -/
def depthBound : Nat := Nat.pow 2 64

/-- The number that decimal digits spell, after a plus sign or without one. -/
def depth (text : String) : Except String Nat :=
  let digits := match text.toList with
    | '+' :: digits => digits
    | digits => digits
  if !digits.isEmpty && digits.all Char.isDigit && digitsValue digits < depthBound then
    .ok (digitsValue digits)
  else .error ("invalid value '" ++ text ++ "' for '--max-depth'")

def depthFlag : String := "--max-depth"

/-- What follows the equals sign of `--max-depth=N`. -/
def joinedDepth? (word : String) : Option String :=
  let start := depthFlag.toList ++ ['=']
  if start.isPrefixOf word.toList then some (String.ofList (word.toList.drop start.length))
  else none

/-- Flags may stand anywhere before the word `--`, after which every word is plain. -/
def words : List String → Words → Except String Words
  | [], w => .ok { w with plain := w.plain.reverse }
  | word :: rest, w =>
    if word = "--" then .ok { w with plain := w.plain.reverse ++ rest }
    else if word = "--json" then words rest { w with json := true }
    else if word = "--rpn" then words rest { w with polish := true }
    else if word = depthFlag then
      match rest with
      | [] => .error ("a value is required for '" ++ depthFlag ++ "'")
      | value :: rest => do words rest { w with maxDepth := ← depth value }
    else
      match joinedDepth? word with
      | some value => do words rest { w with maxDepth := ← depth value }
      | none =>
        if word.front = '-' && word ≠ "-" then
          .error ("unexpected argument '" ++ word ++ "' found")
        else words rest { w with plain := word :: w.plain }

def treeForm (w : Words) : Except String TreeForm :=
  match w.json, w.polish with
  | false, false => .ok .bracketed
  | false, true => .ok .polish
  | true, false => .ok .json
  | true, true => .error "'--json' cannot be used with '--rpn'"

/-- What a command line asks for. A flag that its command does not take is refused. -/
def ofArguments (arguments : List String) : Except String Invocation := do
  let w ← words arguments ⟨[], false, false, defaultMaxDepth⟩
  let command ← match w.plain, w.json, w.polish with
    | ["run", file], false, false => .ok (.run file)
    | ["tokenize", file], json, false => .ok (.tokenize file json)
    | ["parse", file], _, _ => .parse file <$> treeForm w
    | ["repl"], false, false => .ok .repl
    | _, _, _ => .error usage
  return ⟨command, w.maxDepth⟩

end Invocation

namespace Command

/-- Each text on a line of its own. -/
def lines (texts : List String) : String :=
  texts.foldl (fun out text => out ++ text ++ "\n") ""

/-- The errors of a program on the error output. -/
def reported (stdout : String) (errors : List Diagnostic) : Answer :=
  ⟨Diagnostic.exitCodeOf errors, stdout, lines (errors.map Diagnostic.text)⟩

/-- A failure that is not the program's. -/
def failure (context cause : String) : Answer :=
  ⟨1, "", "Error: " ++ context ++ "\n\nCaused by:\n    " ++ cause ++ "\n"⟩

/-- Answers from the text of a file. -/
def withSource (file : String) (contents : FileContents) (answer : String → Option Answer) :
    Option Answer :=
  match contents with
  | .error cause => some (failure ("Failed to open file " ++ Quoted.text file) cause)
  | .ok bytes =>
    match Utf8.decode bytes with
    | .error fault =>
      some (failure ("File " ++ Quoted.text file ++ " is not valid UTF-8") fault.message)
    | .ok source => answer source

/-- Writes tokens, also those of a text with errors. -/
def tokenizeSource (json : Bool) (source : String) : Answer :=
  let s := scan source
  let stdout :=
    if json then (Token.listJson s.tokens s.endLine).pretty 0 ++ "\n"
    else lines (s.tokens.map Token.text ++ [Token.endText])
  reported stdout s.errors

def TreeForm.text : TreeForm → List Stmt → String
  | .bracketed, statements => lines (statements.map Stmt.bracketed)
  | .polish, statements => lines (statements.map Stmt.polish)
  | .json, statements => (programJson statements).pretty 0 ++ "\n"

def parseSource (form : TreeForm) (source : String) : Answer :=
  match Program.ofSource 0 source with
  | .ok program => ⟨0, TreeForm.text form program.statements, ""⟩
  | .error errors => reported "" errors

/-- Whether a command may read its input. A program that never names `input` reads nothing. -/
def mayRead : Command → FileContents → Bool
  | .run _, .ok bytes =>
    match Utf8.decode bytes with
    | .ok source => (scan source).tokens.any fun t => t.lexeme = Native.input.name
    | .error _ => false
  | .run _, .error _ | .tokenize .., _ | .parse .., _ => false
  | .repl, _ => true

def runSource (fuel : Nat) (s : Session) (source : String) : Option Answer := do
  let (outcome, _) ← s.run fuel source
  return reported outcome.output outcome.errors

end Command

/-! A dialogue line by line. -/
namespace Dialogue

def prompt : String := "> "

/-- What the dialogue does with the next line of input. -/
inductive Step where
  /-- The input is at its end. -/
  | over
  /-- The line is no text. -/
  | unreadable
  /-- The line ran, or was blank. -/
  | ran (outcome : Outcome) (s : Session)

/-- What is written on the error output where a line is no text. -/
def unreadableText : String :=
  "Error: " ++ Console.unreadable ++ "\n"

/-- Runs a line, unless there is nothing to see in it. -/
def runLine (fuel : Nat) (s : Session) (line : String) : Option Step :=
  if isBlankText line then some (.ran ⟨"", []⟩ s)
  else do
    let (outcome, s) ← s.runLine fuel line
    return .ran outcome s

/-- Takes the next line of the input and runs it. -/
def step (fuel : Nat) (s : Session) : Option Step :=
  match s.machine.console.takeLine with
  | (none, _) => some .over
  | (some bytes, console) =>
    match Utf8.decode bytes with
    | .error _ => some .unreadable
    | .ok line => runLine fuel { s with machine := { s.machine with console := console } } line

/-- The whole dialogue, after what is written already. A line that fails does not end it. -/
def answer : Nat → String → String → Session → Option Answer
  | 0, _, _, _ => none
  | fuel + 1, stdout, stderr, s => do
    let stdout := stdout ++ prompt
    match ← step fuel s with
    | .over => return ⟨0, stdout ++ "\n", stderr⟩
    | .unreadable => return ⟨1, stdout, stderr ++ unreadableText⟩
    | .ran outcome s =>
      answer fuel (stdout ++ outcome.output)
        (stderr ++ Command.lines (outcome.errors.map Diagnostic.text)) s

end Dialogue

/-- The answer of a command, given the contents of files and the bytes on its input. -/
def Invocation.answer (fuel : Nat) (i : Invocation) (contents : String → FileContents)
    (input : List UInt8) (clock : Nat → Nat) (memory : Memory := defaultMemory) :
    Option Answer :=
  let session := Session.start i.maxDepth input .open clock memory
  match i.command with
  | .run file => Command.withSource file (contents file) (Command.runSource fuel session)
  | .tokenize file json =>
    Command.withSource file (contents file) (some ∘ Command.tokenizeSource json)
  | .parse file form =>
    Command.withSource file (contents file) (some ∘ Command.parseSource form)
  | .repl => Dialogue.answer fuel "" "" session

end LoxLang
