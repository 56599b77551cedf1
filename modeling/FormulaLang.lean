import FormulaLang.Text.Lines
import FormulaLang.Number.Reader
import FormulaLang.Function.Registry
import FormulaLang.Node.Items
import FormulaLang.Node.Literal
import FormulaLang.Node.Display
import FormulaLang.Simplification
import FormulaLang.Leaf.Pattern
import FormulaLang.Leaf.Lexing
import FormulaLang.Grammar.Separator
import FormulaLang.Grammar.Rule
import FormulaLang.Parse.Fold
import FormulaLang.Parse.Interior
import FormulaLang.Grammar.Default
import FormulaLang.Parse.Bracket
import FormulaLang.Parse.Failure
import FormulaLang.Parse.Parser
import FormulaLang.Formula.Session
import FormulaLang.Grammar.Settings
import FormulaLang.Main
import FormulaLang.Proofs.Fold.Replacement
import FormulaLang.Proofs.Parse.Run
import FormulaLang.Proofs.Evaluation.Determined
import FormulaLang.Proofs.Fold.Leftmost
import FormulaLang.Proofs.Fold.Total
import FormulaLang.Proofs.Leaf.Found
import FormulaLang.Proofs.Nesting.Acceptance
import FormulaLang.Proofs.Nesting.Groups
import FormulaLang.Proofs.Parse.Lossless
import FormulaLang.Proofs.Precedence.Folding
import FormulaLang.Proofs.Simplification.Agreement
import FormulaLang.Proofs.Simplification.Edits
import FormulaLang.Proofs.Evaluation.Safety
import FormulaLang.Proofs.Parse.Subformula
import FormulaLang.Proofs.Nesting.Splitting
import FormulaLang.Proofs.Parse.Positions
import FormulaLang.Proofs.Simplification.Positions
import FormulaLang.Proofs.Parse.Offender
import FormulaLang.Proofs.Report.Caret
import FormulaLang.Proofs.Leaf.Numerals
import FormulaLang.Proofs.Leaf.Words
import FormulaLang.Proofs.Parse.Lexed
import FormulaLang.Proofs.Fold.Names
import FormulaLang.Proofs.Parse.CommaFields
import FormulaLang.Proofs.Parse.Grouped
import FormulaLang.Proofs.Evaluation.Alike
import FormulaLang.Proofs.Parse.Operands
import FormulaLang.Proofs.Parse.Phrases
import FormulaLang.Proofs.Literal.Printed
import FormulaLang.Proofs.Literal.Parsed
import FormulaLang.Proofs.Parse.Variables
import FormulaLang.Proofs.Evaluation.Slots
import FormulaLang.Proofs.Literal.RoundTrip
import FormulaLang.Proofs.Fold.Spaces
import FormulaLang.Proofs.Parse.WellFormed
import FormulaLang.Proofs.Parse.Starts
import FormulaLang.Proofs.Parse.Recorded
import FormulaLang.Proofs.Parse.Doubled
import FormulaLang.Proofs.Parse.Leftover
import FormulaLang.Proofs.Node.Listing
import FormulaLang.Proofs.Simplification.Variables
import FormulaLang.Proofs.Literal.Adjacent
import FormulaLang.Proofs.Literal.Products
import FormulaLang.Proofs.Fold.Mapped
import FormulaLang.Proofs.Spacing.Squeeze
import FormulaLang.Proofs.Spacing.Bare
import FormulaLang.Proofs.Spacing.Grouping
import FormulaLang.Proofs.Spacing.Whole
import FormulaLang.Proofs.Parse.Lexemes
import FormulaLang.Proofs.Spacing.Insertion
import FormulaLang.Proofs.Node.WorkOrder
import FormulaLang.Proofs.Parse.Met
import FormulaLang.Proofs.Fold.Variables
import FormulaLang.Proofs.Nesting.WorkOrder
import FormulaLang.Proofs.Parse.TableOrder
import FormulaLang.Proofs.Simplification.Settled
import FormulaLang.Proofs.Simplification.Reduced
import FormulaLang.Proofs.Simplification.Source
import FormulaLang.Proofs.Evaluation.Strict
import FormulaLang.Proofs.Session.Lines
import FormulaLang.Proofs.Simplification.Complete
import FormulaLang.Proofs.Simplification.Warnings
import FormulaLang.Proofs.Parse.Exhaustive
import FormulaLang.Proofs.Number.Bases
import FormulaLang.Proofs.Leaf.Tokens
import FormulaLang.Proofs.Number.Word32
import FormulaLang.Proofs.Parse.Separated
import FormulaLang.Proofs.Leaf.Nameless
import FormulaLang.Proofs.Parse.WholeNames
import FormulaLang.Proofs.Literal.Integers
import FormulaLang.Proofs.Parse.Breaks
import FormulaLang.Proofs.Number.Colors
import FormulaLang.Proofs.Function.Volatility
import FormulaLang.Proofs.Number.Nearest
import FormulaLang.Proofs.Number.FlooredModulo
import FormulaLang.Proofs.Fold.Choice
import FormulaLang.Proofs.Parse.Steps
import FormulaLang.Proofs.Parse.Halting
