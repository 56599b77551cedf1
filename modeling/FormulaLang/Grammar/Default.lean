import FormulaLang.Grammar.Basic

/-!
# The default grammar

Hexadecimal, binary and decimal literals and names; round, square and curly brackets; commas between parameters; and the
operators, from the tightest: `^`, then `*`, adjacency, `/` and `%`, then `+` and `-`, the signs, shifts, relations,
equality, `!`, `&`, `^^`, `|`, `&&` and `||`.
-/

namespace FormulaLang.Grammar

/-- The leaf rules, in the order in which they are tried. -/
def defaultLeaves : List LeafRule :=
  [⟨.hex, .hexLiteral⟩, ⟨.binary, .binaryLiteral⟩, ⟨.identifier, .name⟩, ⟨.decimal, .decimalLiteral⟩]

/-- The brackets. -/
def defaultBrackets : List (Text × Text) :=
  [(['('], [')']), (['['], [']']), (['{'], ['}'])]

/-- The operator between two operands. -/
def infixRule (symbol : String) (op : Operation) : Rule :=
  ⟨[.value, .symbol symbol.toList, .value], .binary, some op⟩

/-- The operator before an operand. -/
def prefixRule (symbol : String) (op : Operation) : Rule :=
  ⟨[.symbol symbol.toList, .value], .unary, some op⟩

/-- White space goes to a node behind it, or else to the node before it. -/
def spaceTiers : List Tier :=
  [⟨"space-before".toList, [⟨[.space, .node], .spaceBefore, none⟩]⟩,
    ⟨"space-after".toList, [⟨[.node, .space], .spaceAfter, none⟩]⟩]

/-- A name before a group is a call, any other name a variable. -/
def nameTiers : List Tier :=
  [⟨"function".toList, [⟨[.identifier, .group], .functionCall, none⟩]⟩,
    ⟨"variable".toList, [⟨[.identifier], .variableUse, none⟩]⟩]

/-- The operators. -/
def operatorTiers : List Tier :=
  [⟨"power".toList, [infixRule "^" .pow]⟩,
    ⟨"multiplicative".toList,
      [infixRule "*" .mul, ⟨[.value, .value], .implicit, some .mul⟩, infixRule "/" .div, infixRule "%" .rem]⟩,
    ⟨"additive".toList, [infixRule "+" .add, infixRule "-" .sub]⟩,
    ⟨"sign".toList, [prefixRule "+" .pos, prefixRule "-" .neg]⟩,
    ⟨"shift".toList, [infixRule "<<" .shiftLeft, infixRule ">>" .shiftRight]⟩,
    ⟨"relational".toList,
      [infixRule "<" .less, infixRule ">" .greater, infixRule "<=" .atMost, infixRule ">=" .atLeast]⟩,
    ⟨"equality".toList, [infixRule "=" .equal, infixRule "==" .equal, infixRule "!=" .unequal]⟩,
    ⟨"not".toList, [prefixRule "!" .not]⟩,
    ⟨"bit-and".toList, [infixRule "&" .bitAnd]⟩,
    ⟨"bit-xor".toList, [infixRule "^^" .bitXor]⟩,
    ⟨"bit-or".toList, [infixRule "|" .bitOr]⟩,
    ⟨"logical-and".toList, [infixRule "&&" .and]⟩,
    ⟨"logical-or".toList, [infixRule "||" .or]⟩]

/-- The grammar of formulas. -/
def default : Grammar where
  leaves := defaultLeaves
  brackets := defaultBrackets
  separator := .spaced ','
  tiers := spaceTiers ++ nameTiers ++ operatorTiers

end FormulaLang.Grammar
