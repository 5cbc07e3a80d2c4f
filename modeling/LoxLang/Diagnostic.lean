/-!
Everything that can go wrong with a program, by cause. `Diagnostic.text` is the one place that
words it.
-/

namespace LoxLang

inductive LexicalError where
  | unexpectedCharacter (c : Char)
  | unterminatedString
  | unterminatedComment
  deriving DecidableEq, Repr

def LexicalError.message : LexicalError → String
  | .unexpectedCharacter c => "Unexpected character '" ++ c.toString ++ "'"
  | .unterminatedString => "Unterminated string"
  | .unterminatedComment => "Unterminated block comment"

/-- Whether a parameter list belongs to a function or to a method. -/
inductive FunctionSort where
  | function
  | method
  deriving DecidableEq, Repr

def FunctionSort.text : FunctionSort → String
  | .function => "function"
  | .method => "method"

/-- The places where the grammar leaves no choice but one token. -/
inductive Expectation where
  | className
  | superclassName
  | classBodyStart
  | classBodyEnd
  | functionName (sort : FunctionSort)
  | parametersStart (sort : FunctionSort)
  | parameterName
  | parametersEnd
  | functionBodyStart (sort : FunctionSort)
  | getterBodyStart
  | lambdaParametersStart
  | variableName
  | variableEnd
  | breakEnd
  | continueEnd
  | forStart
  | forConditionEnd
  | forClausesEnd
  | ifStart
  | ifConditionEnd
  | printEnd
  | returnEnd
  | whileStart
  | whileConditionEnd
  | expressionEnd
  | blockEnd
  | ternaryColon
  | propertyName
  | argumentsEnd
  | superDot
  | superMethodName
  | groupEnd
  deriving DecidableEq, Repr

def Expectation.message : Expectation → String
  | .className => "Expect class name"
  | .superclassName => "Expect superclass name"
  | .classBodyStart => "Expect '\x7b' before class body"
  | .classBodyEnd => "Expect '\x7d' after class body"
  | .functionName sort => "Expect " ++ sort.text ++ " name"
  | .parametersStart sort => "Expect '(' after " ++ sort.text ++ " name"
  | .parameterName => "Expect parameter name"
  | .parametersEnd => "Expect ')' after parameters"
  | .functionBodyStart sort => "Expect '\x7b' before " ++ sort.text ++ " body"
  | .getterBodyStart => "Expect '\x7b' before getter body"
  | .lambdaParametersStart => "Expect '(' after 'fun'"
  | .variableName => "Expect variable name"
  | .variableEnd => "Expect ';' after variable declaration"
  | .breakEnd => "Expect ';' after 'break'"
  | .continueEnd => "Expect ';' after 'continue'"
  | .forStart => "Expect '(' after 'for'"
  | .forConditionEnd => "Expect ';' after loop condition"
  | .forClausesEnd => "Expect ')' after for clauses"
  | .ifStart => "Expect '(' after 'if'"
  | .ifConditionEnd => "Expect ')' after if condition"
  | .printEnd => "Expect ';' after value"
  | .returnEnd => "Expect ';' after return value"
  | .whileStart => "Expect '(' after 'while'"
  | .whileConditionEnd => "Expect ')' after condition"
  | .expressionEnd => "Expect ';' after expression"
  | .blockEnd => "Expect '\x7d' after block"
  | .ternaryColon => "Expect ':' after then branch of ternary"
  | .propertyName => "Expect property name after '.'"
  | .argumentsEnd => "Expect ')' after arguments"
  | .superDot => "Expect '.' after 'super'"
  | .superMethodName => "Expect superclass method name"
  | .groupEnd => "Expect ')' after expression"

inductive GrammarError where
  | expected (what : Expectation)
  | expectedExpression
  | invalidAssignmentTarget
  | tooManyArguments
  | tooManyParameters
  deriving DecidableEq, Repr

/-- The most arguments a call and the most parameters a function may have. -/
def maxArity : Nat := 255

def GrammarError.message : GrammarError → String
  | .expected what => what.message
  | .expectedExpression => "Expect expression"
  | .invalidAssignmentTarget => "Invalid assignment target"
  | .tooManyArguments => "Can't have more than " ++ maxArity.repr ++ " arguments"
  | .tooManyParameters => "Can't have more than " ++ maxArity.repr ++ " parameters"

/-- Violations of the rules on names and jumps, found before a program runs. -/
inductive ScopeError where
  | ownInitializer
  | duplicateName
  | returnOutsideFunction
  | valueFromInitializer
  | breakOutsideLoop
  | continueOutsideLoop
  | inheritsFromItself
  | thisOutsideClass
  | superOutsideClass
  | superWithoutSuperclass
  deriving DecidableEq, Repr

def ScopeError.message : ScopeError → String
  | .ownInitializer => "Can't read local variable in its own initializer"
  | .duplicateName => "Already a variable with this name in this scope"
  | .returnOutsideFunction => "Can't return from top-level code"
  | .valueFromInitializer => "Can't return a value from an initializer"
  | .breakOutsideLoop => "Can't break outside of a loop"
  | .continueOutsideLoop => "Can't continue outside of a loop"
  | .inheritsFromItself => "A class can't inherit from itself"
  | .thisOutsideClass => "Can't use 'this' outside of a class"
  | .superOutsideClass => "Can't use 'super' outside of a class"
  | .superWithoutSuperclass => "Can't use 'super' in a class with no superclass"

inductive RuntimeError where
  | undefinedVariable (name : String)
  /-- A name is not bound in the scope where its distance leads. -/
  | misplacedVariable (name : String)
  | operandNotNumber
  | operandsNotNumbers
  | operandsNotAddable
  | divisionByZero
  | notCallable
  | wrongArity (expected given : Nat)
  | noProperties
  | noFields
  | undefinedProperty (name : String)
  | superclassNotClass
  | superUnresolved
  | thisNotInstance
  | unreadableInput (reason : String)
  | arrayLengthInvalid
  | arrayTooLarge
  | indexOutOfBounds
  | indexNotNumber
  | copyTargetNotArray
  | copyTargetTooShort
  | unsupportedByArray (name : String)
  deriving DecidableEq, Repr

def RuntimeError.message : RuntimeError → String
  | .undefinedVariable name => "Undefined variable '" ++ name ++ "'"
  | .misplacedVariable name =>
    "Internal error: '" ++ name ++ "' is not at its resolved scope depth"
  | .operandNotNumber => "Operand must be a number"
  | .operandsNotNumbers => "Operands must be numbers"
  | .operandsNotAddable => "Operands must be two numbers or two strings"
  | .divisionByZero => "Division by zero"
  | .notCallable => "Can only call functions and classes"
  | .wrongArity expected given =>
    "Expected " ++ expected.repr ++ " arguments, but got " ++ given.repr
  | .noProperties => "Only instances have properties"
  | .noFields => "Only instances have fields"
  | .undefinedProperty name => "Undefined property '" ++ name ++ "'"
  | .superclassNotClass => "Superclass must be a class"
  | .superUnresolved => "Internal error: 'super' was not resolved"
  | .thisNotInstance => "Internal error: 'this' is not an instance"
  | .unreadableInput reason => "Failed to read input: " ++ reason
  | .arrayLengthInvalid => "Array length must be a non-negative integer"
  | .arrayTooLarge => "Array length is too large"
  | .indexOutOfBounds => "Index was outside of bounds"
  | .indexNotNumber => "Index must be a number"
  | .copyTargetNotArray => "copyto must take another array as argument"
  | .copyTargetTooShort => "Destination array is not long enough"
  | .unsupportedByArray name => "Array does not support '" ++ name ++ "'"

/-- An error and where it is. Lines count from one. -/
inductive Diagnostic where
  | lexical (line : Nat) (error : LexicalError)
  /-- At the token with lexeme `found?`, or at the end of the program. -/
  | grammar (line : Nat) (found? : Option String) (error : GrammarError)
  | scope (line : Nat) (lexeme : String) (error : ScopeError)
  | runtime (line : Nat) (error : RuntimeError)
  /-- A call with the greatest allowed number of calls already under way. -/
  | stackOverflow (line : Nat)
  /-- The output refused to be written or flushed. -/
  | io (reason : String)
  deriving DecidableEq, Repr

namespace Diagnostic

def lineText (line : Nat) : String :=
  "[Line " ++ line.repr ++ "] "

def text : Diagnostic → String
  | .lexical line e => lineText line ++ "Error: " ++ e.message
  | .grammar line (some lexeme) e =>
    lineText line ++ "Error at '" ++ lexeme ++ "': " ++ e.message
  | .grammar line none e => lineText line ++ "Error at end: " ++ e.message
  | .scope line lexeme e => lineText line ++ "Error at '" ++ lexeme ++ "': " ++ e.message
  | .runtime line e => lineText line ++ e.message
  | .stackOverflow line => lineText line ++ "Stack overflow"
  | .io reason => "I/O error: " ++ reason

/-- Whether the error is found before the program runs. -/
def isStatic : Diagnostic → Bool
  | .lexical .. | .grammar .. | .scope .. => true
  | .runtime .. | .stackOverflow _ | .io _ => false

def exitCode (d : Diagnostic) : Nat :=
  if d.isStatic then 65 else 70

/-- The exit code of a run with these errors: the greatest, or zero without any. -/
def exitCodeOf (errors : List Diagnostic) : Nat :=
  errors.foldl (fun code d => max code d.exitCode) 0

end Diagnostic

end LoxLang
