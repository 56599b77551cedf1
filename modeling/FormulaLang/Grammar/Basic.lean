import FormulaLang.Grammar.Rule
import FormulaLang.Grammar.Separator
import FormulaLang.Leaf.Rule

/-!
# Grammars

A grammar says how leaves are found, which texts are brackets, what separates the parameters of a group, and in which
tiers neighbouring sentences are folded.
-/

namespace FormulaLang

/-- A grammar. -/
structure Grammar where
  leaves : List LeafRule
  /-- Opening and closing brackets. Groups are taken out of a text one kind after another in this order. -/
  brackets : List (Text × Text)
  separator : Separator
  /-- The fold tiers, the tightest binding first. -/
  tiers : List Tier
  deriving DecidableEq, Repr

end FormulaLang
