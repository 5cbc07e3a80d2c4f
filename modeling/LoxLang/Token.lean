import LoxLang.Json

/-!
The tokens of Lox and their two written forms: one line of text, and JSON.
-/

namespace LoxLang

inductive Symbol where
  | leftParen
  | rightParen
  | leftBrace
  | rightBrace
  | comma
  | dot
  | minus
  | plus
  | semicolon
  | slash
  | star
  | question
  | colon
  | bang
  | bangEqual
  | equal
  | equalEqual
  | greater
  | greaterEqual
  | less
  | lessEqual
  deriving DecidableEq, Repr

namespace Symbol

def name : Symbol → String
  | .leftParen => "LEFT_PAREN"
  | .rightParen => "RIGHT_PAREN"
  | .leftBrace => "LEFT_BRACE"
  | .rightBrace => "RIGHT_BRACE"
  | .comma => "COMMA"
  | .dot => "DOT"
  | .minus => "MINUS"
  | .plus => "PLUS"
  | .semicolon => "SEMICOLON"
  | .slash => "SLASH"
  | .star => "STAR"
  | .question => "QUESTION"
  | .colon => "COLON"
  | .bang => "BANG"
  | .bangEqual => "BANG_EQUAL"
  | .equal => "EQUAL"
  | .equalEqual => "EQUAL_EQUAL"
  | .greater => "GREATER"
  | .greaterEqual => "GREATER_EQUAL"
  | .less => "LESS"
  | .lessEqual => "LESS_EQUAL"

/-- The symbol of one character. -/
def ofChar? : Char → Option Symbol
  | '(' => some .leftParen
  | ')' => some .rightParen
  | '{' => some .leftBrace
  | '}' => some .rightBrace
  | ',' => some .comma
  | '.' => some .dot
  | '-' => some .minus
  | '+' => some .plus
  | ';' => some .semicolon
  | '/' => some .slash
  | '*' => some .star
  | '?' => some .question
  | ':' => some .colon
  | '!' => some .bang
  | '=' => some .equal
  | '>' => some .greater
  | '<' => some .less
  | _ => none

/-- The symbol with an equals sign after it. -/
def withEqual? : Symbol → Option Symbol
  | .bang => some .bangEqual
  | .equal => some .equalEqual
  | .greater => some .greaterEqual
  | .less => some .lessEqual
  | _ => none

end Symbol

inductive Keyword where
  | and
  | «break»
  | «class»
  | «continue»
  | «else»
  | false
  | «fun»
  | «for»
  | «if»
  | nil
  | or
  | print
  | «return»
  | super
  | this
  | true
  | var
  | «while»
  deriving DecidableEq, Repr

namespace Keyword

def text : Keyword → String
  | .and => "and"
  | .break => "break"
  | .class => "class"
  | .continue => "continue"
  | .else => "else"
  | .false => "false"
  | .fun => "fun"
  | .for => "for"
  | .if => "if"
  | .nil => "nil"
  | .or => "or"
  | .print => "print"
  | .return => "return"
  | .super => "super"
  | .this => "this"
  | .true => "true"
  | .var => "var"
  | .while => "while"

def all : List Keyword :=
  [.and, .break, .class, .continue, .else, .false, .fun, .for, .if, .nil, .or, .print, .return,
    .super, .this, .true, .var, .while]

/-- The keyword that a word is, if it is one. -/
def ofWord? (word : String) : Option Keyword :=
  all.find? fun k => k.text = word

end Keyword

/-- What a token is, with the value of a literal. -/
inductive Kind where
  | symbol (s : Symbol)
  | keyword (k : Keyword)
  | identifier
  | string (contents : String)
  | number (value : Float)
  deriving DecidableEq, Repr

/-- The name that ends every list of tokens. -/
def endName : String := "EOF"

namespace Kind

def name : Kind → String
  | .symbol s => s.name
  | .keyword k => k.text.toUpper
  | .identifier => "IDENTIFIER"
  | .string _ => "STRING"
  | .number _ => "NUMBER"

/-- Whole numbers below `2 ^ 63` are written in full with a point and a zero, and without the
sign of a negative zero. Other numbers have their shortest digits. -/
def numberLayout : Decimal.Layout where
  exact n := n < Nat.pow 2 63
  exactTail := ".0"
  roundedTail := ""
  positional _ := true
  tie := .up
  signedZero := false

/-- The value of a literal as text. -/
def literalText : Kind → String
  | .string contents => contents
  | .number x => numberLayout.text x
  | _ => "null"

end Kind

/-- A token, the text it was read from and the line on which that text ends. -/
structure Token where
  kind : Kind
  lexeme : String
  line : Nat
  deriving DecidableEq, Repr

namespace Token

/-- Name, lexeme and literal. -/
def text (t : Token) : String :=
  t.kind.name ++ " " ++ t.lexeme ++ " " ++ t.kind.literalText

/-- The line of text that stands for the end of a program. -/
def endText : String :=
  endName ++ "  null"

def kindJson : Kind → Json
  | .string contents => .object [⟨"STRING", .string contents⟩]
  | .number x => .object [⟨"NUMBER", .number x⟩]
  | kind => .string kind.name

def entryJson (kind : Json) (lexeme : String) (line : Nat) : Json :=
  .object [⟨"token_type", kind⟩, ⟨"lexeme", .string lexeme⟩, ⟨"line", .natural line⟩]

/-- The tokens of a program that ends on line `endLine`. -/
def listJson (tokens : List Token) (endLine : Nat) : Json :=
  .array (tokens.map (fun t => entryJson (kindJson t.kind) t.lexeme t.line) ++
    [entryJson (.string endName) "" endLine])

end Token

end LoxLang
