import FormulaLang.Node.Source

/-!
# Items

The flat list of items that a renderer shows for a tree: its leaves and tokens in the order of the source, with the white
space attached to composite nodes as raw fragments.
-/

namespace FormulaLang.Node

mutual
/-- The leaves of a tree. A node without parts is a leaf, an empty equation too. -/
def items : Node → List Node
  | group b ps =>
    raws b.pad.before ++
      delimiterToken b.opener :: paramItems ps b.separators ++ delimiterToken b.closer :: raws b.pad.after
  | call p c _ a => raws p.before ++ items c ++ items a ++ raws p.after
  | unary p s _ x => raws p.before ++ operatorToken s :: items x ++ raws p.after
  | binary p l s _ r => raws p.before ++ items l ++ operatorToken s :: items r ++ raws p.after
  | equation p ss o => if ss.isEmpty then [equation p ss o] else allItems ss
  | n => [n]

/-- The leaves of nodes one after another. -/
def allItems : List Node → List Node
  | [] => []
  | n :: rest => items n ++ allItems rest

/-- The leaves of parameters with the separators between and after them. -/
def paramItems : List Node → List Text → List Node
  | [], separators => separators.map separatorToken
  | p :: ps, [] => items p ++ paramItems ps []
  | p :: ps, s :: separators => items p ++ separatorToken s :: paramItems ps separators
end

end FormulaLang.Node
