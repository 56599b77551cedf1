import FormulaLang.Node.Basic
import FormulaLang.Text.Slice

/-!
# Source text and traversal

The source text of a node is the text it was read from, its core text the same without the white space attached to it. The
parts of a node are its structural items in the order of the source, tokens included; `Node.coreText_eq_parts` says that
their source texts make up the core text of the node. On the parts rest the walk over all nodes and the flat list of items.
-/

namespace FormulaLang.Node

mutual
/-- The source text of a node, white space included. -/
def sourceText : Node → Text
  | raw t => t
  | number p _ t => p.wrap t
  | identifier p t => p.wrap t
  | var p _ t => p.wrap t
  | token p _ t => p.wrap t
  | group b ps => b.pad.wrap (b.opener ++ paramsText ps b.separators ++ b.closer)
  | call p c _ a => p.wrap (sourceText c ++ sourceText a)
  | unary p s _ x => p.wrap (sourceText s ++ sourceText x)
  | binary p l s _ r => p.wrap (sourceText l ++ sourceText s ++ sourceText r)
  | equation p ss _ => p.wrap (sourceTexts ss)

/-- The source text of nodes that stand side by side. -/
def sourceTexts : List Node → Text
  | [] => []
  | n :: rest => sourceText n ++ sourceTexts rest

/-- The source text of parameters with separators between and after them. -/
def paramsText : List Node → List Text → Text
  | [], separators => separators.flatten
  | p :: ps, [] => sourceText p ++ paramsText ps []
  | p :: ps, s :: separators => sourceText p ++ s ++ paramsText ps separators
end

/-- The source text of a node without the white space attached to it. -/
def coreText : Node → Text
  | raw t => t
  | number _ _ t => t
  | identifier _ t => t
  | var _ _ t => t
  | token _ _ t => t
  | group b ps => b.opener ++ paramsText ps b.separators ++ b.closer
  | call _ c _ a => sourceText c ++ sourceText a
  | unary _ s _ x => sourceText s ++ sourceText x
  | binary _ l s _ r => sourceText l ++ sourceText s ++ sourceText r
  | equation _ ss _ => sourceTexts ss

/-- The core text lies between the white space. -/
theorem sourceText_eq_wrap (n : Node) : n.sourceText = n.pad.wrap n.coreText := by
  cases n <;> simp [sourceText, coreText, pad, Pad.wrap, Pad.none]

theorem sourceTexts_append (xs ys : List Node) : sourceTexts (xs ++ ys) = sourceTexts xs ++ sourceTexts ys := by
  induction xs with
  | nil => simp [sourceTexts]
  | cons x xs ih => simp [sourceTexts, ih]

theorem sourceTexts_eq_flatMap (xs : List Node) : sourceTexts xs = xs.flatMap sourceText := by
  induction xs with
  | nil => rfl
  | cons x xs ih => simp [sourceTexts, ih]

/-- The position that lies `within` characters behind the start of a sentence, in a buffer from a position on. -/
def position (offset : Int) (ss : List Node) (index within : Int) : Int :=
  offset + (sourceTexts (Slice.before index ss)).length + within

/-- A separator as a token. -/
def separatorToken (t : Text) : Node := token .none .separator t

/-- An operator as a token. -/
def operatorToken : Node → Node
  | raw t => token .none .operator t
  | n => n

@[simp] theorem sourceText_operatorToken (s : Node) : (operatorToken s).sourceText = s.sourceText := by
  cases s <;> simp [operatorToken, sourceText, Pad.wrap, Pad.none]

/-- A bracket as a token. -/
def delimiterToken (t : Text) : Node := token .none .delimiter t

/-- Parameters with separators between and after them. -/
def interleave : List Node → List Text → List Node
  | [], separators => separators.map separatorToken
  | p :: ps, [] => p :: interleave ps []
  | p :: ps, s :: separators => p :: separatorToken s :: interleave ps separators

/-- The structural items of a node in the order of the source. -/
def parts : Node → List Node
  | group b ps => delimiterToken b.opener :: interleave ps b.separators ++ [delimiterToken b.closer]
  | call _ c _ a => [c, a]
  | unary _ s _ x => [operatorToken s, x]
  | binary _ l s _ r => [l, operatorToken s, r]
  | equation _ ss _ => ss
  | _ => []

theorem sourceTexts_interleave (ps : List Node) (separators : List Text) :
    sourceTexts (interleave ps separators) = paramsText ps separators := by
  induction ps generalizing separators with
  | nil =>
    simp only [interleave, paramsText]
    induction separators with
    | nil => rfl
    | cons s rest ih => simp [sourceTexts, sourceText, separatorToken, Pad.wrap, Pad.none, ih]
  | cons p ps ih =>
    cases separators <;>
      simp [interleave, paramsText, sourceTexts, sourceText, separatorToken, Pad.wrap, Pad.none, ih]

/-- The parts make up the core text of a node that has any. -/
theorem coreText_eq_parts {n : Node} (h : n.parts ≠ []) : n.coreText = sourceTexts n.parts := by
  cases n <;>
    simp_all [parts, coreText, sourceTexts, sourceText, delimiterToken, sourceTexts_append, sourceTexts_interleave,
      Pad.wrap, Pad.none]

/-- The items that a renderer shows: the parts, with the attached white space as raw fragments. An equation shows its
sentences alone. -/
def children : Node → List Node
  | equation _ ss _ => ss
  | n =>
    let ps := n.parts
    if ps.isEmpty then [] else raws n.pad.before ++ ps ++ raws n.pad.after

mutual
/-- The node and everything below it that is not raw text, in the order of the source. -/
def walk : Node → List Node
  | raw _ => []
  | group b ps =>
    group b ps :: delimiterToken b.opener :: (walkParams ps b.separators ++ [delimiterToken b.closer])
  | call p c f a => call p c f a :: (walk c ++ walk a)
  | unary p s o x => unary p s o x :: operatorToken s :: walk x
  | binary p l s o r => binary p l s o r :: (walk l ++ operatorToken s :: walk r)
  | equation p ss o => equation p ss o :: walkAll ss
  | n => [n]

/-- The walks of nodes one after another. -/
def walkAll : List Node → List Node
  | [] => []
  | n :: rest => walk n ++ walkAll rest

/-- The walks of parameters with the separators between and after them. -/
def walkParams : List Node → List Text → List Node
  | [], separators => separators.map separatorToken
  | p :: ps, [] => walk p ++ walkParams ps []
  | p :: ps, s :: separators => walk p ++ separatorToken s :: walkParams ps separators
end

/-! ## Nodes without a text -/

mutual
/-- What keeps a node from having a source text: a group with too few separators in it, or a node in the place of an
operator. -/
def textDefect? : Node → Option Defect
  | group b ps => if b.separators.length + 1 < ps.length then some .separator else textDefects? ps
  | call _ c _ a => (textDefect? c).or (textDefect? a)
  | unary _ s _ x => if s.isRaw then textDefect? x else some .text
  | binary _ l s _ r => (textDefect? l).or (if s.isRaw then textDefect? r else some .text)
  | equation _ ss _ => textDefects? ss
  | _ => none

/-- What keeps the first of several nodes that has no source text from having one. -/
def textDefects? : List Node → Option Defect
  | [] => none
  | n :: rest => (textDefect? n).or (textDefects? rest)
end

end FormulaLang.Node
