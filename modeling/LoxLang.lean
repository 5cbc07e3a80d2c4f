import LoxLang.Main
import LoxLang.Proofs.Grammar.StatementCompleteness
import LoxLang.Proofs.Likeness.StaticFailures
import LoxLang.Proofs.Classes.Construction
import LoxLang.Proofs.Running.CallLimit
import LoxLang.Proofs.Running.Initializers
import LoxLang.Proofs.Running.Jumps
import LoxLang.Proofs.Grammar.Joining
import LoxLang.Proofs.Grammar.Ordering
import LoxLang.Proofs.Likeness.Pairing
import LoxLang.Proofs.Likeness.Joining
import LoxLang.Proofs.Running.Locals
import LoxLang.Proofs.Scoping.Reporting
import LoxLang.Proofs.Token.Lines
import LoxLang.Proofs.Grammar.Indexing
import LoxLang.Proofs.Loops.Equivalence
import LoxLang.Proofs.Token.Spacing
import LoxLang.Proofs.Token.Fading
import LoxLang.Proofs.Tree.Telling
import LoxLang.Proofs.Running.Nesting
import LoxLang.Proofs.Running.Occurrences
import LoxLang.Proofs.Running.Echoing
import LoxLang.Proofs.Tree.Postfix
import LoxLang.Proofs.Json.Trees
import LoxLang.Proofs.Classes.Arguments
import LoxLang.Proofs.Console.Sinks
import LoxLang.Proofs.Console.Reading
import LoxLang.Proofs.Arrays.Sharing
