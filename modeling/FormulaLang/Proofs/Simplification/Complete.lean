import FormulaLang.Proofs.Evaluation.Strict
import FormulaLang.Proofs.Simplification.Reduced

/-!
# Constant folding is complete

The simplifier folds a node when its operands are literals, the evaluator gives a number when its operands are numbers. On a
reduced tree the two agree (`Node.Reduced.isNumber_of_comesToNumber`): a part that comes to a number is a literal, so that the
whole of a formula that comes to a number folds into one literal (`Formula.root_simplify_of_calls`, and `Formula.root_simplify`
for the functions of the language). Two kinds of parts come to a number and stay what they are: calls of volatile functions,
and equations of white space alone, which count as zero. In a parsed tree only the root of a blank text is such an equation
(`Formula.blankless_parse`).
-/

namespace FormulaLang

open Node (sourceTexts)

variable {σ : Type} {host : Host σ} {isVolatile : Function → Bool}

/-! ## Equations of white space -/

/-- No equation of the tree is white space alone. -/
def Node.Blankless (n : Node) : Prop :=
  ∀ p ss o, .equation p ss o ∈ n.walk → ss.all isBlankRaw = false

theorem Node.Blankless.mono {n m : Node} (h : n.Blankless) (hsub : m.walk ⊆ n.walk) : m.Blankless :=
  fun p ss o hmem => h p ss o (hsub hmem)

theorem Node.Blankless.of_keepsTexts {n n' : Node} (h : n.Blankless) (hkeeps : KeepsTexts n n') : n'.Blankless := by
  intro p ss' o hmem
  obtain ⟨ss, hmem, -, hraws⟩ := hkeeps.equations p ss' o hmem
  rw [all_isBlankRaw_eq hraws]
  exact h p ss o hmem

theorem Param.sentences_ne_nil (p : Param) : p.sentences ≠ [] := by
  unfold Param.sentences
  split
  · simp
  · simpa using ‹¬p.field.isEmpty = true›

section Parsing

variable {l : Language} (hl : l.grammar = .default)

include hl

/-- A buffer that a parse enters keeps a sentence. -/
theorem IsEntered.ne_nil {t : Text} (ht : t ≠ []) {p : Pad} {ss : List Node} {o : Int}
    (h : IsEntered l 0 (Node.raws t) (.equation p ss o)) : ss ≠ [] := by
  obtain ⟨o', sentences, out, hent, hout, heq⟩ := h
  cases heq
  obtain ⟨lexed, hlexed, hreaches⟩ := parseBuffer_ok_iff.1 hout
  have hne : lexed ≠ [] := by
    cases hent with
    | self =>
      rintro rfl
      rw [← Node.sourceTexts_raws t, ← sourceTexts_lexStage hlexed] at ht
      exact ht rfl
    | param hent houter hr hw hp =>
      obtain ⟨-, hself, -⟩ := hent.isCut_param hl houter hr hw hp
      cases hself.symm.trans hlexed
      exact Param.sentences_ne_nil _
  rcases hreaches.buffer_eq_or_node with heq | ⟨n, hn, -⟩
  · rwa [show ss = lexed from heq]
  · exact List.ne_nil_of_mem hn

/-- **A text that is not blank** has no equation of white space in its tree. -/
theorem blankless_parseText {t : Text} (ht : Text.allBlank t = false) {out : List Node}
    (h : (parseText l t).result = .ok out) : (Node.equation .none out 0).Blankless := by
  have hb : DistinctBrackets l.grammar.brackets := hl ▸ distinctBrackets_default
  intro p ss o hmem
  have hne : ss ≠ [] := (isEntered_parseText hb h hmem).ne_nil hl (by rintro rfl; cases ht)
  refine Bool.eq_false_iff.2 fun hall => ?_
  obtain ⟨u, hu, hblank⟩ : ∃ u, .raw u ∈ ss ∧ Text.allBlank u = true := by
    obtain ⟨n, hn⟩ := List.exists_mem_of_ne_nil ss hne
    have hn' : n.isBlankRaw = true := List.all_eq_true.1 hall n hn
    cases n with
    | raw u => exact ⟨u, hn, hn'⟩
    | _ => cases hn'
  rcases List.mem_cons.1 hmem with hself | hmem
  · cases hself
    have htext : sourceTexts out = t := by rw [sourceTexts_parseBuffer hb h, Node.sourceTexts_raws]
    rw [(tidy_parseText hl h).2 u hu hblank] at htext
    simp only [sourceTexts, Node.sourceText, List.append_nil] at htext
    rw [← htext, hblank] at ht
    cases ht
  · rw [(tidy_below_parseText hl h hmem).2 u hu] at hblank
    cases hblank

end Parsing

/-! ## Reduced trees that come to numbers -/

theorem Node.Symbolic.not_comesToNumber {n : Node} (h : n.Symbolic host) : ¬ComesToNumber host (fun _ => none) n := by
  rintro ⟨v, st, st', hv⟩
  obtain ⟨t, ht⟩ := h st
  rw [Action.result, hv] at ht
  cases ht

/-- **A reduced tree that comes to a number** without any variables is a literal, when it calls no volatile function. -/
theorem Node.Reduced.isNumber_of_comesToNumber {n : Node} (h : n.Reduced host isVolatile) (hblank : n.Blankless)
    (hcalls : n.CallsOnly fun f => isVolatile f = false) (hn : ComesToNumber host (fun _ => none) n) :
    n.isNumber = true := by
  induction h with
  | number => rfl
  | raw | identifier | token =>
    obtain ⟨v, st, st', hn⟩ := hn
    cases hn
  | var => exact absurd hn.var (by simp)
  | @group b ps _ hself ih =>
    obtain ⟨q, rfl, hq⟩ := hn.group
    have hliteral : q.isNumber = true :=
      ih q List.mem_cons_self (hblank.mono (walk_subset_group List.mem_cons_self b)) (hcalls.param List.mem_cons_self) hq
    exact absurd hn (hself (by simp [isFoldable, hliteral])).not_comesToNumber
  | @call p c f b ps _ hself ih =>
    obtain ⟨hknown, hps⟩ := hn.call
    have hliterals : ∀ q ∈ ps, q.isNumber = true := fun q hq =>
      ih q hq (hblank.mono (List.Subset.trans (walk_subset_group hq b) (walk_subset_call p c f _))) (hcalls.argument hq)
        (hps q hq)
    obtain ⟨g, rfl⟩ := Option.isSome_iff_exists.1 hknown
    have hfold : (Node.call p c (some g) (.group b ps)).isFoldable isVolatile = true := by
      simpa [isFoldable, hcalls.function g rfl, params?] using hliterals
    exact absurd hn (hself hfold).not_comesToNumber
  | @unary p s x o _ hself ih =>
    have hx : x.isNumber = true := ih (hblank.mono (walk_subset_unary p s o x)) hcalls.operand hn.unary
    exact absurd hn (hself hx).not_comesToNumber
  | @binary p l s r o _ _ hself ihl ihr =>
    have hl : l.isNumber = true := ihl (hblank.mono (walk_subset_left p l s o r)) hcalls.left hn.binary.1
    have hr : r.isNumber = true := ihr (hblank.mono (walk_subset_right p l s o r)) hcalls.right hn.binary.2
    exact absurd hn (hself (Bool.and_eq_true_iff.2 ⟨hl, hr⟩)).not_comesToNumber
  | @equation p ss o _ halone ih =>
    rcases hn.equation with hall | ⟨s, rfl, -, hs⟩
    · rw [hblank p ss o (mem_walk_self rfl)] at hall
      cases hall
    · have hliteral : s.isNumber = true := ih s List.mem_cons_self
        (hblank.mono (walk_subset_equation List.mem_cons_self p o)) (hcalls.sentence List.mem_cons_self) hs
      rw [halone s rfl] at hliteral
      cases hliteral

namespace Formula

/-- A formula has no numbers for its variables before any binding. -/
theorem lookup_parse (resolve : Text → Option Function) {t : Text} (h : (parse ⟨.default, resolve⟩ t).failure = none) :
    (parse ⟨.default, resolve⟩ t).formula.lookup = fun _ => none := by
  obtain ⟨out, hout⟩ := parse_failure_eq_none_iff.1 h
  funext r
  cases r with
  | loose name => rfl
  | table name =>
    rw [lookup, slot?_parse distinctBrackets_default hout]
    split <;> rfl

theorem blankless_parse (resolve : Text → Option Function) {t : Text} (ht : Text.allBlank t = false)
    (h : (parse ⟨.default, resolve⟩ t).failure = none) : (parse ⟨.default, resolve⟩ t).formula.root.Blankless := by
  obtain ⟨out, hout⟩ := parse_failure_eq_none_iff.1 h
  rw [root_parse_of_ok hout]
  exact blankless_parseText rfl ht hout

/-- **Folding is complete**: when a parsed text that is not blank calls deterministic functions alone, none of them volatile,
its root is simplified to a literal of a number just if the text comes to this number. -/
theorem root_simplify_of_calls (resolve : Text → Option Function) {t : Text} (ht : Text.allBlank t = false)
    (h : (parse ⟨.default, resolve⟩ t).failure = none)
    (hcalls : (parse ⟨.default, resolve⟩ t).formula.root.CallsOnly fun f => isVolatile f = false ∧ f.Deterministic host)
    {g : Formula} {st st' : σ} (hs : (parse ⟨.default, resolve⟩ t).formula.simplify host isVolatile st = (.ok g, st'))
    (v : Scalar) (again : σ) :
    ((parse ⟨.default, resolve⟩ t).formula.value host).result again = .ok (.number v) ↔
      v.isNumber = true ∧ ∃ p x, g.root = .number p v x := by
  obtain ⟨n, mid, hn, hg⟩ := Action.run_bind_ok hs
  cases hg
  have hagree : Agree host (parse ⟨.default, resolve⟩ t).formula.root n := agree_of_simplify (fun f hf => (hcalls f hf).2) hn
  have hreduced : n.Reduced host isVolatile := reduced_of_simplify (fun f hf _ => (hcalls f hf).2.repeatable) hn
  have hblank : n.Blankless :=
    (blankless_parse resolve ht h).of_keepsTexts (keepsTexts_of_simplify (hasSource_parse resolve h).bare hn)
  have hvolatile : n.CallsOnly fun f => isVolatile f = false := Node.CallsOnly.simplify (fun f hf => (hcalls f hf).1) hn
  rw [← numberOf_eq_some_iff, value, lookup_parse resolve h, ← hagree.number, numberOf_eq_some_iff]
  constructor
  · intro hv
    have hliteral : n.isNumber = true := hreduced.isNumber_of_comesToNumber hblank hvolatile ⟨v, again, _, Prod.ext hv rfl⟩
    cases n with
    | number p w x =>
      rw [evaluate_number] at hv
      cases hw : w.isNumber <;> rw [hw] at hv <;> cases hv
      exact ⟨hw, p, x, rfl⟩
    | _ => cases hliteral
  · rintro ⟨hv, p, x, hroot⟩
    rw [show n = .number p v x from hroot, evaluate_number, if_pos hv]
    rfl

end Formula

/-! ## The functions of the language -/

/-- The functions that a parsed tree calls are those that its language knows. -/
theorem Node.Parsed.callsOnly {l : Language} {n : Node} (h : n.Parsed l) :
    n.CallsOnly fun f => ∃ name, l.resolve name = some f := by
  induction h with
  | number | var => exact .of_functions_eq_nil rfl
  | group b _ ih => exact CallsOnly.group_iff.2 ih
  | call p q _ b _ ih =>
    exact CallsOnly.call_iff.2 ⟨fun f hf => ⟨_, hf⟩, .of_functions_eq_nil rfl, CallsOnly.group_iff.2 ih⟩
  | unary p _ _ _ ih => exact CallsOnly.unary_iff.2 ⟨.of_functions_eq_nil rfl, ih⟩
  | binary p _ _ _ _ ihx ihy | implicit p _ _ _ _ ihx ihy =>
    exact CallsOnly.binary_iff.2 ⟨ihx, .of_functions_eq_nil rfl, ihy⟩
  | equation p _ o ih =>
    refine CallsOnly.equation_iff.2 fun s hs => ?_
    cases s with
    | raw | identifier => exact .of_functions_eq_nil rfl
    | _ => exact ih _ hs rfl rfl

theorem Function.isPure_of_ne_random {f : Function} (hcustom : f.isCustom = false) (hrandom : f ≠ random) :
    f.isPure = true := by
  cases f with
  | builtin f => rfl
  | standard f => cases f <;> first | rfl | exact absurd rfl hrandom
  | custom handle => cases hcustom

namespace Formula

/-- A text of the language that draws no random number calls no volatile function, and none that is not deterministic. -/
theorem callsOnly_parse {t : Text} (h : (parse .default t).failure = none)
    (hrandom : Function.random ∉ (parse .default t).formula.root.functions) :
    (parse .default t).formula.root.CallsOnly fun f => Registry.initial.isVolatile f = false ∧ f.Deterministic host := by
  obtain ⟨out, hout⟩ := parse_failure_eq_none_iff.1 h
  intro f hf
  obtain ⟨name, hname⟩ : ∃ name, Language.default.resolve name = some f := by
    rw [root_parse_of_ok hout] at hf
    exact (parsed_parseText rfl hout).callsOnly f hf
  have hne : f ≠ .random := by
    rintro rfl
    exact hrandom hf
  refine ⟨?_, Function.deterministic_of_isPure (Function.isPure_of_ne_random (Registry.isCustom_of_resolve? hname) hne) host⟩
  simpa [Registry.isVolatile, Registry.initial, Registry.alwaysVolatile] using hne

/-- **The root is simplified to a literal** of a finite number just if a text comes to this number, when it is not blank and
draws no random number. -/
theorem root_simplify {t : Text} (ht : Text.allBlank t = false) (h : (parse .default t).failure = none)
    (hrandom : Function.random ∉ (parse .default t).formula.root.functions) {g : Formula} {st st' : σ}
    (hs : (parse .default t).formula.simplify host Registry.initial.isVolatile st = (.ok g, st')) (v : Scalar) (again : σ) :
    ((parse .default t).formula.value host).result again = .ok (.number v) ↔
      v.isNumber = true ∧ ∃ p x, g.root = .number p v x := by
  have hcalls : (parse .default t).formula.root.CallsOnly fun f =>
      Registry.initial.isVolatile f = false ∧ f.Deterministic host := callsOnly_parse h hrandom
  exact root_simplify_of_calls _ ht h hcalls hs v again

/-- Brackets around a parameter and around a difference. -/
theorem root_simplify_product :
    ∃ g p x, (parse .default "max(2, (3)) * [4 - 1]".toList).formula.simplify quietHost Registry.initial.isVolatile () =
        (.ok g, ()) ∧ g.root = .number p (.int 9) x := by
  generalize ht : "max(2, (3)) * [4 - 1]".toList = t
  have hblank : Text.allBlank t = false := by
    subst ht
    decide +kernel
  have h : (parse .default t).failure = none := by
    subst ht
    exact Option.isNone_iff_eq_none.1 (by decide +kernel)
  have hrandom : Function.random ∉ (parse .default t).formula.root.functions := by
    subst ht
    decide +kernel
  have hok : ((parse .default t).formula.simplify quietHost Registry.initial.isVolatile ()).1.toOption.isSome = true := by
    subst ht
    decide +kernel
  have hnine : (numberOf (((parse .default t).formula.value quietHost).result ())).any (Scalar.isInt 9) = true := by
    subst ht
    decide +kernel
  rcases hs : (parse .default t).formula.simplify quietHost Registry.initial.isVolatile () with ⟨e | g, st⟩
  · rw [hs] at hok
    cases hok
  · obtain ⟨v, hv, hint⟩ := (Option.any_eq_true _ _).1 hnine
    rw [numberOf_eq_some_iff, Scalar.eq_of_isInt hint] at hv
    obtain ⟨-, p, x, hroot⟩ := (root_simplify hblank h hrandom hs (.int 9) ()).1 hv
    exact ⟨g, p, x, rfl, hroot⟩

end Formula

end FormulaLang
