import FormulaLang.Proofs.Evaluation.Determined
import FormulaLang.Simplification
import Mathlib.Data.List.Forall2

/-!
# Simplified trees agree

A tree and its simplification come to the same number under every binding of the variables, or both come to no number
(`agree_of_simplify`). Where every group with several parameters is the argument of a call, they come to the same result
altogether, texts and faults included. Any other group with several parameters stays symbolic as it is written, so that its
text shows whether its parts have been folded.

A node is folded only when its operands are literals. Its value does not depend on the bindings then, so that nothing is
frozen that a later binding could change (`agree_foldIf`).
-/

namespace FormulaLang

variable {σ : Type} {host : Host σ} {isVolatile : Function → Bool}

mutual
/-- Every group with two or more parameters is the argument of a call. -/
def Node.groupsAreArguments : Node → Bool
  | .group _ ps => decide (ps.length ≤ 1) && groupsAreArgumentsAll ps
  | .call _ _ _ a => groupsAreArgumentsBelow a
  | .unary _ _ _ x => groupsAreArguments x
  | .binary _ l _ _ r => groupsAreArguments l && groupsAreArguments r
  | .equation _ ss _ => groupsAreArgumentsAll ss
  | _ => true

/-- The same of the parameters of an argument. -/
def Node.groupsAreArgumentsBelow : Node → Bool
  | .group _ ps => groupsAreArgumentsAll ps
  | _ => true

/-- The same of several nodes. -/
def Node.groupsAreArgumentsAll : List Node → Bool
  | [] => true
  | n :: rest => groupsAreArguments n && groupsAreArgumentsAll rest
end

theorem Node.groupsAreArgumentsAll_iff {ns : List Node} :
    Node.groupsAreArgumentsAll ns = true ↔ ∀ n ∈ ns, n.groupsAreArguments = true := by
  induction ns with
  | nil => simp [Node.groupsAreArgumentsAll]
  | cons n ns ih => simp [Node.groupsAreArgumentsAll, ih]

/-- The node `n'` may stand for the node `n`. -/
structure Agree (host : Host σ) (n n' : Node) : Prop where
  functions : ∀ f ∈ n'.functions, f ∈ n.functions
  groups : n.groupsAreArguments = true → n'.groupsAreArguments = true
  raw : n'.rawText? = n.rawText?
  number : ∀ lookup st,
    numberOf ((evaluate host lookup n').result st) = numberOf ((evaluate host lookup n).result st)
  value : n.groupsAreArguments = true → ∀ lookup, evaluate host lookup n' = evaluate host lookup n

namespace Agree

theorem refl (host : Host σ) (n : Node) : Agree host n n :=
  ⟨fun _ h => h, fun h => h, rfl, fun _ _ => rfl, fun _ _ => rfl⟩

theorem trans {n₁ n₂ n₃ : Node} (h : Agree host n₁ n₂) (h' : Agree host n₂ n₃) : Agree host n₁ n₃ where
  functions f hf := h.functions f (h'.functions f hf)
  groups hg := h'.groups (h.groups hg)
  raw := h'.raw.trans h.raw
  number lookup st := (h'.number lookup st).trans (h.number lookup st)
  value hg lookup := (h'.value (h.groups hg) lookup).trans (h.value hg lookup)

/-- A node that evaluates alike and has no groups or calls of its own. -/
theorem of_evaluate {n n' : Node} (hf : n'.functions = []) (hg : n'.groupsAreArguments = true)
    (hr : n'.rawText? = n.rawText?) (he : ∀ lookup, evaluate host lookup n' = evaluate host lookup n) :
    Agree host n n' where
  functions f h := by rw [hf] at h; cases h
  groups _ := hg
  raw := hr
  number lookup st := by rw [he]
  value _ := he

theorem callsOnly {n n' : Node} (h : Agree host n n') {P : Function → Prop} (hn : n.CallsOnly P) : n'.CallsOnly P :=
  fun f hf => hn f (h.functions f hf)

theorem isBlankRaw_eq {n n' : Node} (h : Agree host n n') : n'.isBlankRaw = n.isBlankRaw := by
  have heq : ∀ m : Node, m.isBlankRaw = m.rawText?.any Text.allBlank := by
    intro m
    cases m <;> rfl
  rw [heq, heq, h.raw]

end Agree

/-! ## Folding one node -/

theorem isNumber_of_toNumber? {v : Value} {s : Scalar} (h : v.toNumber? = some s) : s.isNumber = true := by
  unfold Value.toNumber? at h
  split at h
  · split at h
    · cases h
      assumption
    · cases h
  · cases h

theorem isNumber_of_binaryNumber {o : Option Operation} {x y s : Scalar} (h : binaryNumber o x y = some s) :
    s.isNumber = true := by
  obtain ⟨op, -, h⟩ := Option.bind_eq_some_iff.1 h
  obtain ⟨v, -, h⟩ := Option.bind_eq_some_iff.1 h
  exact isNumber_of_toNumber? h

theorem isNumber_of_unaryNumber {o : Option Operation} {x s : Scalar} (h : unaryNumber o x = some s) :
    s.isNumber = true := by
  obtain ⟨op, -, h⟩ := Option.bind_eq_some_iff.1 h
  obtain ⟨v, -, h⟩ := Option.bind_eq_some_iff.1 h
  exact isNumber_of_toNumber? h

theorem isNumber_of_callNumber {f : Option Function} {args : List Scalar} {st : σ} {s : Scalar}
    (hf : ∀ g ∈ f, g.Deterministic host) (h : callNumber host f args st = some s) : s.isNumber = true := by
  obtain ⟨g, hg, h⟩ := Option.bind_eq_some_iff.1 h
  obtain ⟨e, he⟩ := hf g hg (args.map .scalar)
  rw [he, attempt_ofExcept, Action.result_ofExcept] at h
  cases e with
  | error d => cases hd : d.isCalculation <;> simp [hd, Except.toOption] at h
  | ok v => exact isNumber_of_toNumber? (v := v) h

/-- What folding a node gives. -/
theorem foldIf_ok {literals : Bool} {n m : Node} {st st' : σ} (h : foldIf host literals n st = (.ok m, st')) :
    m = n ∨ literals = true ∧ ∃ v, (evaluate host (fun _ => none) n).result st = .ok (.number v) ∧
      m = .number n.pad v n.coreText := by
  cases literals with
  | false =>
    cases h
    exact .inl rfl
  | true =>
    obtain ⟨r, mid, hr, h⟩ := Action.run_bind_ok h
    cases r with
    | symbolic t =>
      cases h
      exact .inl rfl
    | number v =>
      refine .inr ⟨rfl, v, by rw [Action.result, hr], ?_⟩
      cases hd : n.textDefect? with
      | some d =>
        simp only [hd] at h
        cases h
      | none =>
        simp only [hd] at h
        cases h
        rfl

/-- The value of a literal does not depend on the bindings. -/
theorem evaluate_literal {n : Node} (h : n.isNumber = true) (lookup lookup' : Reference → Option Scalar) :
    evaluate host lookup n = evaluate host lookup' n := by
  cases n with
  | number p v t => rfl
  | _ => cases h

theorem evaluateAll_literals {ns : List Node} (h : ns.all Node.isNumber = true)
    (lookup lookup' : Reference → Option Scalar) : evaluateAll host lookup ns = evaluateAll host lookup' ns := by
  induction ns with
  | nil => rfl
  | cons n ns ih =>
    obtain ⟨hn, hns⟩ : n.isNumber = true ∧ ns.all Node.isNumber = true := by simpa using h
    rw [evaluateAll_cons, evaluateAll_cons, evaluate_literal hn lookup lookup', ih hns]

/-- The value of the node does not depend on the bindings, and its number can be that of a literal. -/
structure Constant (host : Host σ) (n : Node) : Prop where
  closed : ∀ lookup, evaluate host lookup n = evaluate host (fun _ => none) n
  number : ∀ lookup st v, numberOf ((evaluate host lookup n).result st) = some v → v.isNumber = true

theorem constant_literal {n : Node} (h : n.isNumber = true) : Constant host n := by
  refine ⟨fun lookup => evaluate_literal h lookup _, fun lookup st v hv => ?_⟩
  cases n with
  | number p w t =>
    rw [evaluate_number] at hv
    split at hv
    · cases hv
      assumption
    · cases hv
  | _ => cases h

theorem constant_group {b : Brackets} {n : Node} (h : n.isNumber = true) : Constant host (.group b [n]) := by
  refine ⟨fun lookup => ?_, fun lookup st v hv => ?_⟩
  · rw [evaluate_group_single, evaluate_group_single, (constant_literal h).closed]
  · rw [evaluate_group_single] at hv
    exact (constant_literal h).number lookup st v hv

theorem constant_unary {p : Pad} {s x : Node} {o : Option Operation} (h : x.isNumber = true)
    (hdet : x.CallsOnly (Function.Deterministic host)) : Constant host (.unary p s o x) := by
  refine ⟨fun lookup => ?_, fun lookup st v hv => ?_⟩
  · rw [evaluate_unary, evaluate_unary, (constant_literal h).closed]
  · rw [numberOf_evaluate_unary (settled_evaluate hdet)] at hv
    obtain ⟨x, -, hv⟩ := Option.bind_eq_some_iff.1 hv
    exact isNumber_of_unaryNumber hv

theorem constant_binary {p : Pad} {l s r : Node} {o : Option Operation} (hl : l.isNumber = true)
    (hr : r.isNumber = true) (hdetl : l.CallsOnly (Function.Deterministic host))
    (hdetr : r.CallsOnly (Function.Deterministic host)) : Constant host (.binary p l s o r) := by
  refine ⟨fun lookup => ?_, fun lookup st v hv => ?_⟩
  · rw [evaluate_binary, evaluate_binary, (constant_literal hl).closed, (constant_literal hr).closed]
  · rw [numberOf_evaluate_binary (settled_evaluate hdetl) (settled_evaluate hdetr)] at hv
    obtain ⟨x, -, hv⟩ := Option.bind_eq_some_iff.1 hv
    obtain ⟨y, -, hv⟩ := Option.bind_eq_some_iff.1 hv
    exact isNumber_of_binaryNumber hv

theorem constant_call {p : Pad} {c : Node} {f : Option Function} {b : Brackets} {ns : List Node}
    (h : ns.all Node.isNumber = true) (hf : ∀ g ∈ f, g.Deterministic host)
    (hdet : ∀ n ∈ ns, n.CallsOnly (Function.Deterministic host)) : Constant host (.call p c f (.group b ns)) := by
  refine ⟨fun lookup => ?_, fun lookup st v hv => ?_⟩
  · rw [evaluate_call, evaluate_call, evaluateArguments_group, evaluateArguments_group, evaluateAll_literals h lookup]
  · rw [numberOf_evaluate_call hf (a := .group b ns) (settled_evaluateAll_of_calls hdet)] at hv
    obtain ⟨args, -, hv⟩ := Option.bind_eq_some_iff.1 hv
    exact isNumber_of_callNumber hf hv

/-- A folded node agrees with the node, which is folded only when it is constant. -/
theorem agree_foldIf {literals : Bool} {n m : Node} {st st' : σ} (hraw : n.rawText? = none)
    (hdet : n.CallsOnly (Function.Deterministic host)) (hconstant : literals = true → Constant host n)
    (h : foldIf host literals n st = (.ok m, st')) : Agree host n m := by
  obtain rfl | ⟨hlit, v, hv, rfl⟩ := foldIf_ok h
  · exact Agree.refl host m
  · refine Agree.of_evaluate rfl rfl hraw.symm ?_
    intro lookup
    have hnum : v.isNumber = true := (hconstant hlit).number _ st v (by rw [hv]; rfl)
    obtain ⟨e, he⟩ : (evaluate host (fun _ => none) n).Settled := settled_evaluate hdet
    rw [he, Action.result_ofExcept] at hv
    rw [(hconstant hlit).closed, he, hv, evaluate_number, if_pos hnum]
    rfl

/-! ## Agreeing parts -/

section

variable {ns ns' : List Node}

theorem functionsAll_of_agree (h : List.Forall₂ (Agree host) ns ns') :
    ∀ f ∈ Node.functionsAll ns', f ∈ Node.functionsAll ns := by
  induction h with
  | nil => exact fun f hf => hf
  | cons hn _ ih =>
    intro f hf
    rw [Node.functionsAll, List.mem_append] at hf ⊢
    exact hf.imp (hn.functions f) (ih f)

theorem groupsAll_of_agree (h : List.Forall₂ (Agree host) ns ns') (hg : Node.groupsAreArgumentsAll ns = true) :
    Node.groupsAreArgumentsAll ns' = true := by
  induction h with
  | nil => rfl
  | cons hn _ ih =>
    rw [Node.groupsAreArgumentsAll, Bool.and_eq_true] at hg ⊢
    exact ⟨hn.groups hg.1, ih hg.2⟩

theorem evaluateAll_of_agree (h : List.Forall₂ (Agree host) ns ns') (hg : Node.groupsAreArgumentsAll ns = true)
    (lookup : Reference → Option Scalar) : evaluateAll host lookup ns' = evaluateAll host lookup ns := by
  induction h with
  | nil => rfl
  | cons hn _ ih =>
    rw [Node.groupsAreArgumentsAll, Bool.and_eq_true] at hg
    rw [evaluateAll_cons, evaluateAll_cons, hn.value hg.1, ih hg.2]

theorem evaluateTexts_of_agree (h : List.Forall₂ (Agree host) ns ns') (hg : Node.groupsAreArgumentsAll ns = true)
    (lookup : Reference → Option Scalar) : evaluateTexts host lookup ns' = evaluateTexts host lookup ns := by
  induction h with
  | nil => rfl
  | cons hn _ ih =>
    rw [Node.groupsAreArgumentsAll, Bool.and_eq_true] at hg
    rw [evaluateTexts_cons, evaluateTexts_cons, ih hg.2, sentenceText, sentenceText, hn.raw, hn.value hg.1]

theorem callsOnly_of_agree (h : List.Forall₂ (Agree host) ns ns') {P : Function → Prop}
    (hns : ∀ n ∈ ns, n.CallsOnly P) : ∀ n ∈ ns', n.CallsOnly P := by
  induction h with
  | nil => exact hns
  | cons hn _ ih =>
    rw [List.forall_mem_cons] at hns ⊢
    exact ⟨hn.callsOnly hns.1, ih hns.2⟩

theorem numbersOf_of_agree (h : List.Forall₂ (Agree host) ns ns')
    (hdet : ∀ n ∈ ns, n.CallsOnly (Function.Deterministic host)) (lookup : Reference → Option Scalar) (st : σ) :
    numbersOf ((evaluateAll host lookup ns').result st) = numbersOf ((evaluateAll host lookup ns).result st) := by
  induction h with
  | nil => rfl
  | @cons n n' ns ns' hn hns ih =>
    obtain ⟨hdetn, hdetns⟩ := List.forall_mem_cons.1 hdet
    rw [numbersOf_evaluateAll_cons (settled_evaluate hdetn) (settled_evaluateAll_of_calls hdetns),
      numbersOf_evaluateAll_cons (settled_evaluate (hn.callsOnly hdetn))
        (settled_evaluateAll_of_calls (callsOnly_of_agree hns hdetns)), hn.number, ih hdetns]

theorem all_isBlankRaw_of_agree (h : List.Forall₂ (Agree host) ns ns') :
    ns'.all Node.isBlankRaw = ns.all Node.isBlankRaw := by
  induction h with
  | nil => rfl
  | cons hn _ ih => rw [List.all_cons, List.all_cons, hn.isBlankRaw_eq, ih]

theorem agree_binary {p : Pad} {l l' s r r' : Node} {o : Option Operation}
    (hdet : (Node.binary p l s o r).CallsOnly (Function.Deterministic host)) (hl : Agree host l l')
    (hr : Agree host r r') : Agree host (.binary p l s o r) (.binary p l' s o r') := by
  refine ⟨?_, ?_, rfl, ?_, ?_⟩
  · intro f hf
    simp only [Node.functions, List.mem_append] at hf ⊢
    exact hf.imp (Or.imp_left (hl.functions f)) (hr.functions f)
  · intro hg
    simp only [Node.groupsAreArguments, Bool.and_eq_true] at hg ⊢
    exact ⟨hl.groups hg.1, hr.groups hg.2⟩
  · intro lookup st
    rw [numberOf_evaluate_binary (settled_evaluate hdet.left) (settled_evaluate hdet.right),
      numberOf_evaluate_binary (settled_evaluate (hl.callsOnly hdet.left)) (settled_evaluate (hr.callsOnly hdet.right)),
      hl.number, hr.number]
  · intro hg lookup
    simp only [Node.groupsAreArguments, Bool.and_eq_true] at hg
    rw [evaluate_binary, evaluate_binary, hl.value hg.1, hr.value hg.2]

theorem agree_unary {p : Pad} {s x x' : Node} {o : Option Operation}
    (hdet : (Node.unary p s o x).CallsOnly (Function.Deterministic host)) (hx : Agree host x x') :
    Agree host (.unary p s o x) (.unary p s o x') := by
  refine ⟨?_, hx.groups, rfl, ?_, ?_⟩
  · intro f hf
    simp only [Node.functions, List.mem_append] at hf ⊢
    exact hf.imp_right (hx.functions f)
  · intro lookup st
    rw [numberOf_evaluate_unary (settled_evaluate hdet.operand),
      numberOf_evaluate_unary (settled_evaluate (hx.callsOnly hdet.operand)), hx.number]
  · intro hg lookup
    rw [evaluate_unary, evaluate_unary, hx.value hg]

theorem agree_call {p : Pad} {c : Node} {g : Option Function} {b : Brackets}
    (hdet : (Node.call p c g (.group b ns)).CallsOnly (Function.Deterministic host))
    (h : List.Forall₂ (Agree host) ns ns') :
    Agree host (.call p c g (.group b ns)) (.call p c g (.group b ns')) := by
  have hdetns : ∀ n ∈ ns, n.CallsOnly (Function.Deterministic host) := fun n hn => hdet.argument hn
  have hdetns' : ∀ n ∈ ns', n.CallsOnly (Function.Deterministic host) := callsOnly_of_agree h hdetns
  refine ⟨?_, groupsAll_of_agree h, rfl, ?_, ?_⟩
  · intro f hf
    simp only [Node.functions, List.mem_append] at hf ⊢
    exact hf.imp_right (functionsAll_of_agree h f)
  · intro lookup st
    rw [numberOf_evaluate_call hdet.function (a := .group b ns') (settled_evaluateAll_of_calls hdetns'),
      numberOf_evaluate_call hdet.function (a := .group b ns) (settled_evaluateAll_of_calls hdetns), evaluateArguments_group,
      evaluateArguments_group, numbersOf_of_agree h hdetns]
  · intro hg lookup
    rw [evaluate_call, evaluate_call, evaluateArguments_group, evaluateArguments_group, evaluateAll_of_agree h hg]

theorem agree_group {b : Brackets} (h : List.Forall₂ (Agree host) ns ns') :
    Agree host (.group b ns) (.group b ns') := by
  have hlen : ns'.length = ns.length := h.length_eq.symm
  refine ⟨functionsAll_of_agree h, ?_, rfl, ?_, ?_⟩
  · intro hg
    simp only [Node.groupsAreArguments, Bool.and_eq_true, decide_eq_true_eq, hlen] at hg ⊢
    exact ⟨hg.1, groupsAll_of_agree h hg.2⟩
  · intro lookup st
    by_cases h1 : ns.length = 1
    · obtain ⟨n, rfl⟩ := List.length_eq_one_iff.1 h1
      obtain ⟨n', rfl⟩ := List.length_eq_one_iff.1 (hlen.trans h1)
      rw [evaluate_group_single, evaluate_group_single]
      exact (List.forall₂_cons.1 h).1.number lookup st
    · have hsymbolic : ∀ ms : List Node,
          numberOf ((Node.groupLiteral b ms).bind fun t => .ok (.symbolic t)) = none :=
        fun ms => numberOf_bind_eq_none fun _ => rfl
      rw [evaluate_group_literal b h1, evaluate_group_literal b (hlen ▸ h1), Action.result_ofExcept,
        Action.result_ofExcept, hsymbolic, hsymbolic]
  · intro hg lookup
    rw [Node.groupsAreArguments, Bool.and_eq_true, decide_eq_true_eq] at hg
    cases h with
    | nil => rfl
    | cons hn hns =>
      cases hns with
      | nil =>
        rw [evaluate_group_single, evaluate_group_single]
        exact hn.value (Node.groupsAreArgumentsAll_iff.1 hg.2 _ List.mem_cons_self) lookup
      | cons _ _ => simp at hg

/-- An equation of several sentences is symbolic. -/
theorem numberOf_evaluate_texts {p : Pad} {o : Int} (hdet : ∀ n ∈ ns, n.CallsOnly (Function.Deterministic host))
    (hb : ns.all Node.isBlankRaw = false) (h1 : ns.length ≠ 1) (lookup : Reference → Option Scalar) (st : σ) :
    numberOf ((evaluate host lookup (.equation p ns o)).result st) = none := by
  have hset : (evaluateTexts host lookup ns).Settled := settled_evaluateTexts fun n hn => settled_evaluate (hdet n hn)
  rw [evaluate_equation_texts p o hb h1, Action.result_bind hset]
  exact numberOf_bind_eq_none fun _ => rfl

/-- An equation of a single sentence has the value of the sentence, unless this is raw text. -/
theorem evaluate_equation_of_agree {p : Pad} {o : Int} {n n' : Node} (hn : Agree host n n') :
    n' = n ∨ ∀ lookup, evaluate host lookup (.equation p [n] o) = evaluate host lookup n ∧
      evaluate host lookup (.equation p [n'] o) = evaluate host lookup n' := by
  cases hr : n.rawText? with
  | some t =>
    have hr' := hn.raw.trans hr
    cases n <;> cases hr
    cases n' <;> cases hr'
    exact .inl rfl
  | none =>
    have hr' := hn.raw.trans hr
    have hraw : n.isRaw = false := by cases n <;> first | rfl | cases hr
    have hraw' : n'.isRaw = false := by cases n' <;> first | rfl | cases hr'
    exact .inr fun lookup => ⟨evaluate_equation_single p o hraw, evaluate_equation_single p o hraw'⟩

theorem agree_equation {p : Pad} {o : Int} (hdet : ∀ n ∈ ns, n.CallsOnly (Function.Deterministic host))
    (h : List.Forall₂ (Agree host) ns ns') : Agree host (.equation p ns o) (.equation p ns' o) := by
  have hlen : ns'.length = ns.length := h.length_eq.symm
  have hall : ns'.all Node.isBlankRaw = ns.all Node.isBlankRaw := all_isBlankRaw_of_agree h
  have hdet' : ∀ n ∈ ns', n.CallsOnly (Function.Deterministic host) := callsOnly_of_agree h hdet
  suffices hvalue : (∀ lookup st, numberOf ((evaluate host lookup (.equation p ns' o)).result st) =
        numberOf ((evaluate host lookup (.equation p ns o)).result st)) ∧
      (Node.groupsAreArgumentsAll ns = true → ∀ lookup,
        evaluate host lookup (.equation p ns' o) = evaluate host lookup (.equation p ns o)) from
    ⟨functionsAll_of_agree h, groupsAll_of_agree h, rfl, hvalue.1, hvalue.2⟩
  by_cases hb : ns.all Node.isBlankRaw = true
  · have he : ∀ lookup, evaluate host lookup (.equation p ns' o) = evaluate host lookup (.equation p ns o) := by
      intro lookup
      rw [evaluate_equation_blank p o hb, evaluate_equation_blank p o (hall.trans hb)]
    exact ⟨fun lookup st => by rw [he], fun _ => he⟩
  rw [Bool.not_eq_true] at hb
  by_cases h1 : ns.length = 1
  · obtain ⟨n, rfl⟩ := List.length_eq_one_iff.1 h1
    obtain ⟨n', rfl⟩ := List.length_eq_one_iff.1 (hlen.trans h1)
    have hn : Agree host n n' := (List.forall₂_cons.1 h).1
    rcases evaluate_equation_of_agree (p := p) (o := o) hn with rfl | he
    · exact ⟨fun _ _ => rfl, fun _ _ => rfl⟩
    · refine ⟨fun lookup st => ?_, fun hg lookup => ?_⟩
      · rw [(he lookup).1, (he lookup).2, hn.number]
      · rw [(he lookup).1, (he lookup).2, hn.value (Node.groupsAreArgumentsAll_iff.1 hg n List.mem_cons_self)]
  · refine ⟨fun lookup st => ?_, fun hg lookup => ?_⟩
    · rw [numberOf_evaluate_texts hdet hb h1, numberOf_evaluate_texts hdet' (hall.trans hb) (hlen ▸ h1)]
    · rw [evaluate_equation_texts p o hb h1, evaluate_equation_texts p o (hall.trans hb) (hlen ▸ h1),
        evaluateTexts_of_agree h hg]

end

/-! ## Simplified trees -/

section Simplified

variable {n' : Node} {st st' : σ}

/-- What the simplification of a group gives. -/
theorem simplify_group_ok {b : Brackets} {ps : List Node}
    (h : simplify host isVolatile (.group b ps) st = (.ok n', st')) :
    ∃ ps' mid, simplifyAll host isVolatile ps st = (.ok ps', mid) ∧
      foldIf host (ps'.length == 1 && ps'.all Node.isNumber) (.group b ps') mid = (.ok n', st') :=
  Action.run_bind_ok h

theorem simplify_unary_ok {p : Pad} {s x : Node} {o : Option Operation}
    (h : simplify host isVolatile (.unary p s o x) st = (.ok n', st')) :
    ∃ x' mid, simplify host isVolatile x st = (.ok x', mid) ∧
      foldIf host x'.isNumber (.unary p s o x') mid = (.ok n', st') :=
  Action.run_bind_ok h

theorem simplify_binary_ok {p : Pad} {l s r : Node} {o : Option Operation}
    (h : simplify host isVolatile (.binary p l s o r) st = (.ok n', st')) :
    ∃ l' mid r' mid', simplify host isVolatile l st = (.ok l', mid) ∧ simplify host isVolatile r mid = (.ok r', mid') ∧
      foldIf host (l'.isNumber && r'.isNumber) (.binary p l' s o r') mid' = (.ok n', st') := by
  obtain ⟨l', mid, hl, h⟩ := Action.run_bind_ok h
  obtain ⟨r', mid', hr, h⟩ := Action.run_bind_ok h
  exact ⟨l', mid, r', mid', hl, hr, h⟩

/-- A call is simplified only when its argument is a group. -/
theorem simplify_call_ok {p : Pad} {c a : Node} {f : Option Function}
    (h : simplify host isVolatile (.call p c f a) st = (.ok n', st')) :
    ∃ b ps ps' mid, a = .group b ps ∧ simplifyAll host isVolatile ps st = (.ok ps', mid) ∧
      foldIf host ((f.any fun f => !isVolatile f) && ps'.all Node.isNumber) (.call p c f (.group b ps')) mid =
        (.ok n', st') := by
  obtain ⟨a', mid, ha, h⟩ := Action.run_bind_ok h
  cases a with
  | group b ps =>
    obtain ⟨ps', mid', hall, ha⟩ := Action.run_bind_ok ha
    cases ha
    exact ⟨b, ps, ps', _, rfl, hall, h⟩
  | _ => cases ha

/-- An equation with one sentence gives way to a literal. -/
theorem simplify_equation_ok {p : Pad} {ss : List Node} {o : Int}
    (h : simplify host isVolatile (.equation p ss o) st = (.ok n', st')) :
    ∃ ss' mid, simplifyAll host isVolatile ss st = (.ok ss', mid) ∧
      (n' = .equation p ss' o ∧ (∀ s, ss' = [s] → s.isNumber = false) ∨ ss' = [n'] ∧ n'.isNumber = true) := by
  obtain ⟨ss', mid, hall, h⟩ := Action.run_bind_ok h
  refine ⟨ss', mid, hall, ?_⟩
  rcases ss' with - | ⟨s, - | ⟨s', rest⟩⟩
  · cases h
    exact .inl ⟨rfl, fun s hs => nomatch hs⟩
  · cases hs : s.isNumber with
    | false =>
      simp only [hs, Bool.false_eq_true, ↓reduceIte] at h
      cases h
      refine .inl ⟨rfl, fun s' hs' => ?_⟩
      rwa [← (List.cons.inj hs').1]
    | true =>
      simp only [hs, ↓reduceIte] at h
      cases h
      exact .inr ⟨rfl, hs⟩
  · cases h
    exact .inl ⟨rfl, fun s hs => nomatch hs⟩

/-- What relates every node to its simplification relates the simplifications of several nodes to these. -/
theorem forall₂_simplifyAll {R : Node → Node → Prop} {ns ns' : List Node} {st st' : σ}
    (h : simplifyAll host isVolatile ns st = (.ok ns', st'))
    (ih : ∀ n ∈ ns, ∀ {n' : Node} {st st' : σ}, simplify host isVolatile n st = (.ok n', st') → R n n') :
    List.Forall₂ R ns ns' := by
  induction ns generalizing ns' st with
  | nil =>
    cases h
    exact .nil
  | cons n ns ihns =>
    obtain ⟨n', mid, hn, h⟩ := Action.run_bind_ok h
    obtain ⟨ms, mid', hns, h⟩ := Action.run_bind_ok h
    cases h
    exact .cons (ih n List.mem_cons_self hn) (ihns hns fun m hm => ih m (List.mem_cons_of_mem _ hm))

/-- A literal may stand for an equation that holds it alone. -/
theorem agree_equation_literal {p : Pad} {o : Int} {n : Node} (h : n.isNumber = true) :
    Agree host (.equation p [n] o) n := by
  cases n with
  | number q v t => exact Agree.of_evaluate rfl rfl rfl fun lookup => (evaluate_equation_single p o rfl).symm
  | _ => cases h

/-! The simplification of a node agrees with the node if those of its parts do, one lemma for each kind of node. -/

theorem agree_simplify_group {b : Brackets} {ps : List Node}
    (hdet : (Node.group b ps).CallsOnly (Function.Deterministic host))
    (ih : ∀ n ∈ ps, ∀ {n' : Node} {st st' : σ}, simplify host isVolatile n st = (.ok n', st') → Agree host n n')
    (h : simplify host isVolatile (.group b ps) st = (.ok n', st')) : Agree host (.group b ps) n' := by
  obtain ⟨ps', mid, hall, h⟩ := simplify_group_ok h
  have hgroup : Agree host (.group b ps) (.group b ps') := agree_group (forall₂_simplifyAll hall ih)
  refine hgroup.trans (agree_foldIf rfl (hgroup.callsOnly hdet) ?_ h)
  intro hlit
  obtain ⟨h1, hlit⟩ : ps'.length = 1 ∧ ps'.all Node.isNumber = true := by simpa using hlit
  obtain ⟨n', rfl⟩ := List.length_eq_one_iff.1 h1
  exact constant_group (by simpa using hlit)

theorem agree_simplify_call {p : Pad} {c : Node} {f : Option Function} {b : Brackets} {ps : List Node}
    (hdet : (Node.call p c f (.group b ps)).CallsOnly (Function.Deterministic host))
    (ih : ∀ n ∈ ps, ∀ {n' : Node} {st st' : σ}, simplify host isVolatile n st = (.ok n', st') → Agree host n n')
    {ps' : List Node} {mid : σ} (hall : simplifyAll host isVolatile ps st = (.ok ps', mid))
    (h : foldIf host ((f.any fun f => !isVolatile f) && ps'.all Node.isNumber) (.call p c f (.group b ps')) mid =
      (.ok n', st')) : Agree host (.call p c f (.group b ps)) n' := by
  have hcall : Agree host (.call p c f (.group b ps)) (.call p c f (.group b ps')) :=
    agree_call hdet (forall₂_simplifyAll hall ih)
  have hdet' : (Node.call p c f (.group b ps')).CallsOnly (Function.Deterministic host) := hcall.callsOnly hdet
  refine hcall.trans (agree_foldIf rfl hdet' ?_ h)
  intro hlit
  rw [Bool.and_eq_true] at hlit
  exact constant_call hlit.2 hdet'.function fun n hn => hdet'.argument hn

theorem agree_simplify_unary {p : Pad} {s x : Node} {o : Option Operation}
    (hdet : (Node.unary p s o x).CallsOnly (Function.Deterministic host))
    (ih : ∀ {n' : Node} {st st' : σ}, simplify host isVolatile x st = (.ok n', st') → Agree host x n')
    (h : simplify host isVolatile (.unary p s o x) st = (.ok n', st')) : Agree host (.unary p s o x) n' := by
  obtain ⟨x', mid, hx, h⟩ := simplify_unary_ok h
  have hagree : Agree host x x' := ih hx
  have hunary : Agree host (.unary p s o x) (.unary p s o x') := agree_unary hdet hagree
  refine hunary.trans (agree_foldIf rfl (hunary.callsOnly hdet) ?_ h)
  exact fun hlit => constant_unary hlit (hagree.callsOnly hdet.operand)

theorem agree_simplify_binary {p : Pad} {l s r : Node} {o : Option Operation}
    (hdet : (Node.binary p l s o r).CallsOnly (Function.Deterministic host))
    (ihl : ∀ {n' : Node} {st st' : σ}, simplify host isVolatile l st = (.ok n', st') → Agree host l n')
    (ihr : ∀ {n' : Node} {st st' : σ}, simplify host isVolatile r st = (.ok n', st') → Agree host r n')
    (h : simplify host isVolatile (.binary p l s o r) st = (.ok n', st')) : Agree host (.binary p l s o r) n' := by
  obtain ⟨l', mid, r', mid', hl, hr, h⟩ := simplify_binary_ok h
  have hagreel : Agree host l l' := ihl hl
  have hagreer : Agree host r r' := ihr hr
  have hbinary : Agree host (.binary p l s o r) (.binary p l' s o r') := agree_binary hdet hagreel hagreer
  refine hbinary.trans (agree_foldIf rfl (hbinary.callsOnly hdet) ?_ h)
  intro hlit
  rw [Bool.and_eq_true] at hlit
  exact constant_binary hlit.1 hlit.2 (hagreel.callsOnly hdet.left) (hagreer.callsOnly hdet.right)

theorem agree_simplify_equation {p : Pad} {ss : List Node} {o : Int}
    (hdet : (Node.equation p ss o).CallsOnly (Function.Deterministic host))
    (ih : ∀ n ∈ ss, ∀ {n' : Node} {st st' : σ}, simplify host isVolatile n st = (.ok n', st') → Agree host n n')
    (h : simplify host isVolatile (.equation p ss o) st = (.ok n', st')) : Agree host (.equation p ss o) n' := by
  obtain ⟨ss', mid, hall, h⟩ := simplify_equation_ok h
  have hequation : Agree host (.equation p ss o) (.equation p ss' o) := agree_equation (fun n hn => hdet.sentence hn) (forall₂_simplifyAll hall ih)
  rcases h with ⟨rfl, -⟩ | ⟨rfl, hs⟩
  · exact hequation
  · exact hequation.trans (agree_equation_literal hs)

/-- **A tree and its simplification agree** when the functions that are called are deterministic. -/
theorem agree_of_simplify {n : Node} (hdet : n.CallsOnly (Function.Deterministic host))
    (h : simplify host isVolatile n st = (.ok n', st')) : Agree host n n' := by
  induction n using Node.induction generalizing n' st st' with
  | raw t | number p v t | identifier p t | var p r t | token p k t =>
    cases h
    exact Agree.refl host _
  | group b ps ih =>
    exact agree_simplify_group hdet (fun n hn _ _ _ hs => ih n hn (hdet.param hn) hs) h
  | call p c f a ihc iha ih =>
    obtain ⟨b, ps, ps', mid, rfl, hall, h⟩ := simplify_call_ok h
    exact agree_simplify_call hdet (fun n hn _ _ _ hs => ih n hn (hdet.argument hn) hs) hall h
  | unary p s o x ihs ihx =>
    exact agree_simplify_unary hdet (ihx hdet.operand) h
  | binary p l s o r ihl ihs ihr =>
    exact agree_simplify_binary hdet (ihl hdet.left) (ihr hdet.right) h
  | equation p ss o ih =>
    exact agree_simplify_equation hdet (fun n hn _ _ _ hs => ih n hn (hdet.sentence hn) hs) h

end Simplified

end FormulaLang
