import LoxLang.Text.Utf8

/-!
What a program reads and prints. Input is read by lines, and the output may refuse to be written
or flushed.
-/

namespace LoxLang

/-- What the output answers to a write and to a flush, if it refuses. -/
structure Sink where
  writeRefusal? : Option String
  flushRefusal? : Option String
  deriving DecidableEq, Repr

/-- An output that takes everything. -/
def Sink.open : Sink := ⟨none, none⟩

structure Console where
  /-- The bytes still to read. -/
  input : List UInt8
  /-- The texts printed, one a `print`. -/
  printed : Array String
  sink : Sink
  deriving Repr

namespace Console

def lineFeed : UInt8 := 10

/-- Why a line is no text. -/
def unreadable : String := "stream did not contain valid UTF-8"

/-- The bytes up to and with the next line feed, or up to the end. Nothing is left to read at the
end of input. -/
def takeLine (c : Console) : Option (List UInt8) × Console :=
  match c.input with
  | [] => (none, c)
  | input =>
    let line := input.takeWhile (· ≠ lineFeed)
    match input.dropWhile (· ≠ lineFeed) with
    | [] => (some line, { c with input := [] })
    | feed :: rest => (some (line ++ [feed]), { c with input := rest })

/-- A text without the line feeds and carriage returns at its end. -/
def withoutLineEnd (text : String) : String :=
  String.ofList (text.toList.reverse.dropWhile fun c => c = '\n' || c = '\r').reverse

/-- The next line, or nothing at the end of input. A line that is no text is used up. -/
def readLine (c : Console) : Except String (Option String) × Console :=
  match c.takeLine with
  | (none, c) => (.ok none, c)
  | (some line, c) =>
    match Utf8.decode line with
    | .ok text => (.ok (some (withoutLineEnd text)), c)
    | .error _ => (.error unreadable, c)

/-- Adds a line to the output. -/
def print (c : Console) (text : String) : Console :=
  { c with printed := c.printed.push text }

/-- The whole output. -/
def output (c : Console) : String :=
  c.printed.foldl (fun out text => out ++ text ++ "\n") ""

/-- What is printed behind something else is behind it in the output. -/
theorem output_append {c c₁ c₂ : Console}
    (h : c.printed = c₁.printed ++ c₂.printed) : c.output = c₁.output ++ c₂.output := by
  have hprint : ∀ (texts : List String) (text : String),
      texts.foldl (fun out text => out ++ text ++ "\n") text =
        text ++ texts.foldl (fun out text => out ++ text ++ "\n") "" := by
    intro texts
    induction texts with
    | nil => exact fun text => (String.append_empty).symm
    | cons next texts ih =>
      intro text
      rw [List.foldl_cons, List.foldl_cons, ih, ih ("" ++ next ++ "\n")]
      simp only [String.append_assoc, String.empty_append]
  unfold output
  rw [h, ← Array.foldl_toList, ← Array.foldl_toList, ← Array.foldl_toList, Array.toList_append,
    List.foldl_append, hprint]

/-- The console with nothing printed yet. -/
def cleared (c : Console) : Console :=
  { c with printed := #[] }

end Console

end LoxLang
