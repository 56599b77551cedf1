import FormulaLang.Formula.Session
import FormulaLang.Proofs.Evaluation.Faults
import FormulaLang.Proofs.Nesting.Marks
import FormulaLang.Proofs.Parse.Carried

/-!
# The shape of parsed trees

The rules of the default grammar put every part of a node where an evaluation looks for it: operators are raw text, operands
are not, and a call has a group of arguments (`Node.Evaluable`). What the stages of a parse keep at this shape follows from
what each rule makes of the sentences that fit its pattern (`Rule.Builds.evaluable`), so the default grammar carries it
(`carries_evaluableSentence`) and all sentences of a parsed text have it (`evaluable_parseText`).
-/

namespace FormulaLang

/-- A tree whose parts are of the kinds that an evaluation looks for, and that calls none of the caller's own functions. -/
inductive Node.Evaluable : Node → Prop
  | number (p : Pad) (v : Scalar) (t : Text) : Evaluable (.number p v t)
  | identifier (p : Pad) (t : Text) : Evaluable (.identifier p t)
  | var (p : Pad) (r : Reference) (t : Text) : Evaluable (.var p r t)
  | group (b : Brackets) {ps : List Node} (hps : ∀ q ∈ ps, Evaluable q) : Evaluable (.group b ps)
  | call (p : Pad) (c : Node) {f : Option Function} (b : Brackets) {ps : List Node}
      (hf : ∀ g ∈ f, g.isCustom = false) (hps : ∀ q ∈ ps, Evaluable q) : Evaluable (.call p c f (.group b ps))
  | unary (p : Pad) (symbol : Text) (o : Option Operation) {x : Node} (hx : Evaluable x) :
      Evaluable (.unary p (.raw symbol) o x)
  | binary (p : Pad) (symbol : Text) (o : Option Operation) {x y : Node} (hx : Evaluable x) (hy : Evaluable y) :
      Evaluable (.binary p x (.raw symbol) o y)
  | equation (p : Pad) {ss : List Node} (o : Int) (hss : ∀ s ∈ ss, s.isRaw = false → Evaluable s) :
      Evaluable (.equation p ss o)

namespace Node

/-- A sentence that is raw text or evaluable. -/
def EvaluableSentence (n : Node) : Prop :=
  n.isRaw = false → n.Evaluable

theorem Evaluable.isRaw_eq {n : Node} (h : n.Evaluable) : n.isRaw = false := by
  cases h <;> rfl

theorem evaluable_params {b : Brackets} {ps : List Node} (h : Evaluable (.group b ps)) : ∀ q ∈ ps, q.Evaluable := by
  cases h with
  | group => assumption

theorem Evaluable.withPad {n : Node} (h : n.Evaluable) (p : Pad) : (n.withPad p).Evaluable := by
  cases h with
  | number _ v t => exact .number p v t
  | identifier _ t => exact .identifier p t
  | var _ r t => exact .var p r t
  | group b hps => exact .group _ hps
  | call _ c b hf hps => exact .call p c b hf hps
  | unary _ s o hx => exact .unary p s o hx
  | binary _ s o hx hy => exact .binary p s o hx hy
  | equation _ o hss => exact .equation p o hss

theorem evaluableSentence_raw (t : Text) : EvaluableSentence (raw t) := by
  intro h
  cases h

theorem evaluableSentence_leaf {k : LeafKind} {t : Text} {n : Node} (h : k.leaf t = .ok n) : EvaluableSentence n := by
  rcases LeafKind.leaf_cases h with ⟨v, rfl⟩ | rfl
  · exact fun _ => .number _ v t
  · exact fun _ => .identifier _ t

end Node

/-! ## Rules -/

/-- The pattern asks for raw text where the builder puts an operator, and for nodes where it puts operands. -/
def Rule.operandsFit (r : Rule) : Bool :=
  match r.builder, r.pattern with
  | .spaceBefore, _ | .spaceAfter, _ | .variableUse, _ => true
  | .functionCall, [_, .group] => true
  | .binary, [x, .symbol _, y] => x.isNode && y.isNode
  | .implicit, [x, y] => x.isNode && y.isNode
  | .unary, [.symbol _, x] => x.isNode
  | _, _ => false

theorem operandsFit_default : ∀ t ∈ Grammar.default.tiers, ∀ r ∈ t.rules, r.operandsFit = true := by
  decide

theorem Element.raw_of_fits_symbol {s : Text} {n : Node} (h : (Element.symbol s).fits n = true) : ∃ t, n = .raw t := by
  cases n with
  | raw t => exact ⟨t, rfl⟩
  | _ => cases h

theorem Element.group_of_fits {n : Node} (h : Element.group.fits n = true) : ∃ b ps, n = .group b ps := by
  cases n with
  | group b ps => exact ⟨b, ps, rfl⟩
  | _ => cases h

section Builds

variable {resolve : Text → Option Function} {r : Rule} {matched : List Node}

/-- A rule whose operands fit makes an evaluable node of evaluable sentences. -/
theorem Rule.Builds.evaluable (hresolve : ∀ name, ∀ g ∈ resolve name, g.isCustom = false) (hr : r.operandsFit = true)
    (hfits : List.Forall₂ (fun e n => e.fits n = true) r.pattern matched) {n : Node} (h : r.Builds resolve matched n)
    (hm : ∀ m ∈ matched, m.EvaluableSentence) : n.Evaluable := by
  unfold Rule.operandsFit at hr
  cases h with
  | @spaceBefore t n hb hn => exact (hm n (by simp) hn).withPad _
  | @spaceAfter t n hb hn => exact (hm n (by simp) hn).withPad _
  | variableUse hb => exact .var _ _ _
  | @functionCall c a name hb hname =>
    split at hr <;> simp_all only [reduceCtorEq, Bool.false_eq_true]
    obtain _ | ⟨-, _ | ⟨hgroup, ⟨⟩⟩⟩ := hfits
    obtain ⟨b, ps, rfl⟩ := Element.group_of_fits hgroup
    exact .call _ c b (hresolve name) (Node.evaluable_params (hm (.group b ps) (by simp) rfl))
  | @binary x s y hb =>
    split at hr <;> simp_all only [reduceCtorEq, Bool.false_eq_true, Bool.and_eq_true]
    obtain _ | ⟨hx, _ | ⟨hs, _ | ⟨hy, ⟨⟩⟩⟩⟩ := hfits
    obtain ⟨t, rfl⟩ := Element.raw_of_fits_symbol hs
    exact .binary _ t _ (hm x (by simp) (Element.isRaw_of_fits hr.1 hx)) (hm y (by simp) (Element.isRaw_of_fits hr.2 hy))
  | @implicit x y hb =>
    split at hr <;> simp_all only [reduceCtorEq, Bool.false_eq_true, Bool.and_eq_true]
    obtain _ | ⟨hx, _ | ⟨hy, ⟨⟩⟩⟩ := hfits
    exact .binary _ [] _ (hm x (by simp) (Element.isRaw_of_fits hr.1 hx)) (hm y (by simp) (Element.isRaw_of_fits hr.2 hy))
  | @unary s x hb =>
    split at hr <;> simp_all only [reduceCtorEq, Bool.false_eq_true]
    obtain _ | ⟨hs, _ | ⟨hx, ⟨⟩⟩⟩ := hfits
    obtain ⟨t, rfl⟩ := Element.raw_of_fits_symbol hs
    exact .unary _ t _ (hm x (by simp) (Element.isRaw_of_fits hr hx))

end Builds

/-! ## Parsing -/

section Parsing

variable {l : Language}

open Node (EvaluableSentence)

variable (hg : l.grammar = .default) (hresolve : ∀ name, ∀ g ∈ l.resolve name, g.isCustom = false)

include hg hresolve

theorem evaluable_foldStage {offset : Int} {ss out : List Node} (h : (foldStage l offset ss).result = .ok out)
    (hs : ∀ n ∈ ss, EvaluableSentence n) : ∀ n ∈ out, EvaluableSentence n := by
  refine forall_mem_foldStage_of_fits ?_ ?_ h hs
  · exact fun t ht r hr => Rule.pattern_ne_nil_of_suits (suits_default t (hg ▸ ht) r hr)
  · intro t ht r hr matched n hfits hn hm _
    exact hn.evaluable hresolve (operandsFit_default t (hg ▸ ht) r hr) hfits hm

theorem carries_evaluableSentence : l.Carries EvaluableSentence where
  raw := Node.evaluableSentence_raw
  leaf _ _ _ _ := Node.evaluableSentence_leaf
  empty _ := .number _ _ _
  group ss w offset params _ hp := by
    intro _
    refine .group _ fun q hq => ?_
    obtain ⟨p, -, out, rfl, hout⟩ := exists_of_forall₂ hp q hq
    exact .equation _ _ hout
  fold _ _ _ := evaluable_foldStage hg hresolve

/-- **The sentences of a parsed text** are raw text or evaluable. -/
theorem evaluable_parseText {t : Text} {out : List Node} (h : (parseText l t).result = .ok out) :
    ∀ n ∈ out, EvaluableSentence n :=
  (carries_evaluableSentence hg hresolve).parseText (hg ▸ distinctBrackets_default) h

end Parsing

end FormulaLang
