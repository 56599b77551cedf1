import FormulaLang.Evaluation
import FormulaLang.Proofs.Node.Induction

/-!
# Evaluation with deterministic functions

When all the functions that a tree calls are deterministic, its value does not depend on the host, and the host stays as it
is (`settled_evaluate`). Whether the value is a number, and which, is then a matter of the numbers of the operands alone:
`numberOf` has one equation for each kind of node.
-/

namespace FormulaLang

variable {σ α β : Type}

/-! ## Settled computations -/

/-- A computation whose result is settled, without effect on the host. -/
def Action.Settled (x : Action σ α) : Prop :=
  ∃ e, x = Action.ofExcept e

theorem Action.settled_ofExcept (e : Except Fault α) : (Action.ofExcept e : Action σ α).Settled :=
  ⟨e, rfl⟩

theorem Action.settled_pure (a : α) : (pure a : Action σ α).Settled :=
  ⟨.ok a, rfl⟩

theorem Action.settled_throw (e : Fault) : (throw e : Action σ α).Settled :=
  ⟨.error e, rfl⟩

theorem Action.Settled.bind {x : Action σ α} {f : α → Action σ β} (hx : x.Settled) (hf : ∀ a, (f a).Settled) :
    (x >>= f).Settled := by
  obtain ⟨e, rfl⟩ := hx
  cases e with
  | error d => exact ⟨.error d, rfl⟩
  | ok a => exact hf a

/-- The result of a computation from a state of the host. -/
def Action.result (st : σ) (x : Action σ α) : Except Fault α :=
  (x st).1

theorem Action.result_ofExcept (st : σ) (e : Except Fault α) : (Action.ofExcept e).result st = e :=
  rfl

theorem Action.result_bind {x : Action σ α} (hx : x.Settled) (f : α → Action σ β) (st : σ) :
    (x >>= f).result st = x.result st >>= fun a => (f a).result st := by
  obtain ⟨e, rfl⟩ := hx
  cases e <;> rfl

/-- A computation in two steps, from one state of the host. -/
theorem Action.run_bind (x : Action σ α) (f : α → Action σ β) (st : σ) :
    (x >>= f) st = match x st with
      | (.ok a, mid) => f a mid
      | (.error e, mid) => (.error e, mid) := by
  show (ExceptT.bind x f) st = _
  simp only [ExceptT.bind, ExceptT.mk, bind, StateT.bind, ExceptT.bindCont]
  rcases x st with ⟨e | a, mid⟩ <;> rfl

theorem Action.run_bind_ok {x : Action σ α} {f : α → Action σ β} {st st' : σ} {b : β}
    (h : (x >>= f) st = (.ok b, st')) : ∃ a mid, x st = (.ok a, mid) ∧ f a mid = (.ok b, st') := by
  rw [Action.run_bind] at h
  rcases hx : x st with ⟨e | a, mid⟩
  · rw [hx] at h
    cases h
  · rw [hx] at h
    exact ⟨a, mid, rfl, h⟩

/-! ## Deterministic functions -/

/-- The result of a function follows from its arguments. -/
def Function.Deterministic (host : Host σ) (f : Function) : Prop :=
  ∀ args, (f.call host args).Settled

/-- All functions of the language are deterministic but the one that draws random numbers. -/
theorem Function.deterministic_of_isPure {f : Function} (h : f.isPure = true) (host : Host σ) : f.Deterministic host := by
  intro args
  obtain ⟨e, he⟩ := Function.call_pure (σ := σ) h args
  exact ⟨e, he host⟩

mutual
/-- The known functions that a tree calls. -/
def Node.functions : Node → List Function
  | .group _ ps => functionsAll ps
  | .call _ c f a => f.toList ++ functions c ++ functions a
  | .unary _ s _ x => functions s ++ functions x
  | .binary _ l s _ r => functions l ++ functions s ++ functions r
  | .equation _ ss _ => functionsAll ss
  | _ => []

/-- The known functions that trees call. -/
def Node.functionsAll : List Node → List Function
  | [] => []
  | n :: rest => functions n ++ functionsAll rest
end

theorem Node.mem_functionsAll {f : Function} {ns : List Node} :
    f ∈ Node.functionsAll ns ↔ ∃ n ∈ ns, f ∈ n.functions := by
  induction ns with
  | nil => simp [Node.functionsAll]
  | cons n ns ih => simp [Node.functionsAll, ih]

theorem Node.mem_functions_params {f : Function} {a n : Node} (hn : n ∈ a.params?.getD []) (hf : f ∈ n.functions) :
    f ∈ a.functions := by
  cases a with
  | group b ps => exact Node.mem_functionsAll.2 ⟨n, hn, hf⟩
  | _ => cases hn

/-- All the known functions that the tree calls have a property. -/
def Node.CallsOnly (P : Function → Prop) (n : Node) : Prop :=
  ∀ f ∈ n.functions, P f

namespace Node.CallsOnly

variable {P : Function → Prop} {p : Pad} {c l s r x a : Node} {o : Option Operation} {g : Option Function} {b : Brackets}
  {ns : List Node}

/-! What a node calls are its own function and those that its parts call. -/

theorem of_functions_eq_nil {n : Node} (h : n.functions = []) : n.CallsOnly P :=
  fun f hf => absurd hf (by simp [h])

@[simp] theorem group_iff : (Node.group b ns).CallsOnly P ↔ ∀ n ∈ ns, n.CallsOnly P := by
  simp only [CallsOnly, functions, mem_functionsAll]
  exact ⟨fun h n hn f hf => h f ⟨n, hn, hf⟩, fun h f ⟨n, hn, hf⟩ => h n hn f hf⟩

@[simp] theorem equation_iff {i : Int} : (Node.equation p ns i).CallsOnly P ↔ ∀ n ∈ ns, n.CallsOnly P :=
  group_iff (b := ⟨p, [], [], []⟩)

@[simp] theorem call_iff : (Node.call p c g a).CallsOnly P ↔ (∀ f ∈ g, P f) ∧ c.CallsOnly P ∧ a.CallsOnly P := by
  simp [CallsOnly, functions, or_imp, forall_and]

@[simp] theorem unary_iff : (Node.unary p s o x).CallsOnly P ↔ s.CallsOnly P ∧ x.CallsOnly P := by
  simp [CallsOnly, functions, or_imp, forall_and]

@[simp] theorem binary_iff :
    (Node.binary p l s o r).CallsOnly P ↔ l.CallsOnly P ∧ s.CallsOnly P ∧ r.CallsOnly P := by
  simp [CallsOnly, functions, or_imp, forall_and]

theorem param (h : (Node.group b ns).CallsOnly P) {n : Node} (hn : n ∈ ns) : n.CallsOnly P :=
  group_iff.1 h n hn

theorem sentence {i : Int} (h : (Node.equation p ns i).CallsOnly P) {n : Node} (hn : n ∈ ns) : n.CallsOnly P :=
  equation_iff.1 h n hn

theorem function (h : (Node.call p c g a).CallsOnly P) : ∀ f ∈ g, P f :=
  (call_iff.1 h).1

theorem argument (h : (Node.call p c g a).CallsOnly P) {n : Node} (hn : n ∈ a.params?.getD []) : n.CallsOnly P :=
  fun f hf => (call_iff.1 h).2.2 f (mem_functions_params hn hf)

theorem operand (h : (Node.unary p s o x).CallsOnly P) : x.CallsOnly P :=
  (unary_iff.1 h).2

theorem left (h : (Node.binary p l s o r).CallsOnly P) : l.CallsOnly P :=
  (binary_iff.1 h).1

theorem right (h : (Node.binary p l s o r).CallsOnly P) : r.CallsOnly P :=
  (binary_iff.1 h).2.2

end Node.CallsOnly

variable {host : Host σ} {lookup : Reference → Option Scalar}

/-! ## The cases of an evaluation -/

theorem evaluate_number (p : Pad) (v : Scalar) (t : Text) :
    evaluate host lookup (.number p v t) = pure (if v.isNumber then .number v else .symbolic t) :=
  rfl

theorem evaluate_call (p : Pad) (c a : Node) (f : Option Function) :
    evaluate host lookup (.call p c f a) =
      evaluateArguments host lookup a >>= fun vs => Evaluation.applyFunction host c.name f vs :=
  rfl

theorem evaluate_unary (p : Pad) (s x : Node) (o : Option Operation) :
    evaluate host lookup (.unary p s o x) =
      evaluate host lookup x >>= fun v => Action.ofExcept (Evaluation.applyUnary s.symbol o v) :=
  rfl

theorem evaluate_binary (p : Pad) (l s r : Node) (o : Option Operation) :
    evaluate host lookup (.binary p l s o r) =
      evaluate host lookup l >>= fun a => evaluate host lookup r >>= fun b =>
        Action.ofExcept (Evaluation.applyBinary s.symbol o a b) :=
  rfl

theorem evaluateArguments_group (b : Brackets) (ps : List Node) :
    evaluateArguments host lookup (.group b ps) = evaluateAll host lookup ps :=
  rfl

theorem evaluateAll_cons (n : Node) (ns : List Node) :
    evaluateAll host lookup (n :: ns) =
      evaluate host lookup n >>= fun v => evaluateAll host lookup ns >>= fun vs => pure (v :: vs) :=
  rfl

theorem evaluate_group_single (b : Brackets) (n : Node) :
    evaluate host lookup (.group b [n]) = evaluate host lookup n :=
  rfl

/-- A group without parameters or with several stays as it is written. -/
theorem evaluate_group_literal (b : Brackets) {ps : List Node} (h : ps.length ≠ 1) :
    evaluate host lookup (.group b ps) =
      Action.ofExcept ((Node.groupLiteral b ps).bind fun t => .ok (.symbolic t)) := by
  cases ps with
  | nil => rfl
  | cons n ps =>
    cases ps with
    | nil => exact absurd rfl h
    | cons m ps => rfl

theorem evaluate_equation_cons (p : Pad) (s : Node) (ss : List Node) (o : Int) :
    evaluate host lookup (.equation p (s :: ss) o) =
      if (s :: ss).all Node.isBlankRaw then pure (.number (.int 0))
      else if ss.isEmpty then
        match s.rawText? with
        | some t => pure (.symbolic t)
        | none => evaluate host lookup s
      else evaluateTexts host lookup (s :: ss) >>= fun t => pure (.symbolic t) := by
  cases ss with
  | nil => rfl
  | cons s' ss => rfl

theorem evaluate_equation_blank (p : Pad) {ss : List Node} (o : Int) (h : ss.all Node.isBlankRaw = true) :
    evaluate host lookup (.equation p ss o) = pure (.number (.int 0)) := by
  cases ss with
  | nil => rfl
  | cons s ss => rw [evaluate_equation_cons, if_pos h]

theorem evaluate_equation_raw (p : Pad) {t : Text} (o : Int) (h : Text.allBlank t = false) :
    evaluate host lookup (.equation p [.raw t] o) = pure (.symbolic t) := by
  rw [evaluate_equation_cons, if_neg (by simp [Node.isBlankRaw, h])]
  rfl

theorem evaluate_equation_single (p : Pad) {s : Node} (o : Int) (h : s.isRaw = false) :
    evaluate host lookup (.equation p [s] o) = evaluate host lookup s := by
  cases s with
  | raw t => cases h
  | _ => rfl

theorem evaluate_equation_texts (p : Pad) {ss : List Node} (o : Int) (h : ss.all Node.isBlankRaw = false)
    (hlen : ss.length ≠ 1) :
    evaluate host lookup (.equation p ss o) =
      evaluateTexts host lookup ss >>= fun t => pure (.symbolic t) := by
  cases ss with
  | nil => cases h
  | cons s ss =>
    cases ss with
    | nil => exact absurd rfl hlen
    | cons s' ss =>
      rw [evaluate_equation_cons, if_neg (by simp [h])]
      rfl

/-- The text of a sentence among others. -/
def sentenceText (host : Host σ) (lookup : Reference → Option Scalar) (n : Node) : Action σ Text :=
  match n.rawText? with
  | some t => pure t
  | none => evaluate host lookup n >>= fun v => Action.ofExcept v.text

theorem evaluateTexts_cons (n : Node) (ns : List Node) :
    evaluateTexts host lookup (n :: ns) =
      sentenceText host lookup n >>= fun t => evaluateTexts host lookup ns >>= fun ts => pure (t ++ ts) := by
  cases n with
  | raw t => rfl
  | _ => exact (bind_assoc _ _ _).symm

/-! ## Settled evaluation -/

/-- A calculation fault counts as the lack of a result. -/
theorem attempt_ofExcept (e : Except Fault Value) :
    Evaluation.attempt (Action.ofExcept e : Action σ Value) =
      Action.ofExcept (match e with
        | .ok v => .ok v.toNumber?
        | .error e => if e.isCalculation then .ok none else .error e) := by
  cases e <;> rfl

theorem settled_attempt {x : Action σ Value} (h : x.Settled) : (Evaluation.attempt x).Settled := by
  obtain ⟨e, rfl⟩ := h
  exact ⟨_, attempt_ofExcept e⟩

theorem settled_applyFunction {name : Text} {f : Option Function} (h : ∀ g ∈ f, g.Deterministic host)
    (vs : List Result) : (Evaluation.applyFunction host name f vs).Settled := by
  unfold Evaluation.applyFunction
  split
  · rename_i g args hargs
    refine (settled_attempt (h _ rfl _)).bind ?_
    intro r
    cases r with
    | none => exact Action.settled_ofExcept _
    | some v => exact Action.settled_pure _
  · exact Action.settled_ofExcept _

theorem settled_evaluateAll {ns : List Node} (h : ∀ n ∈ ns, (evaluate host lookup n).Settled) :
    (evaluateAll host lookup ns).Settled := by
  induction ns with
  | nil => exact Action.settled_pure _
  | cons n ns ih =>
    rw [evaluateAll_cons]
    refine (h n List.mem_cons_self).bind fun v => ?_
    exact (ih fun m hm => h m (List.mem_cons_of_mem _ hm)).bind fun vs => Action.settled_pure _

theorem settled_evaluateTexts {ns : List Node} (h : ∀ n ∈ ns, (evaluate host lookup n).Settled) :
    (evaluateTexts host lookup ns).Settled := by
  induction ns with
  | nil => exact Action.settled_pure _
  | cons n ns ih =>
    have hrest := ih fun m hm => h m (List.mem_cons_of_mem _ hm)
    have hn : (sentenceText host lookup n).Settled := by
      unfold sentenceText
      split
      · exact Action.settled_pure _
      · exact (h n List.mem_cons_self).bind fun v => Action.settled_ofExcept _
    rw [evaluateTexts_cons]
    exact hn.bind fun t => hrest.bind fun ts => Action.settled_pure _

theorem settled_evaluateArguments {a : Node} (h : ∀ n ∈ a.params?.getD [], (evaluate host lookup n).Settled) :
    (evaluateArguments host lookup a).Settled := by
  cases a with
  | group b ps => exact settled_evaluateAll h
  | _ => exact Action.settled_throw _

/-- **Evaluation is settled** when the functions that are called are deterministic. -/
theorem settled_evaluate {n : Node} (h : n.CallsOnly (Function.Deterministic host)) :
    (evaluate host lookup n).Settled := by
  induction n using Node.induction with
  | raw t => exact Action.settled_throw _
  | number p v t => exact Action.settled_pure _
  | identifier p t => exact Action.settled_pure _
  | var p r t => exact Action.settled_pure _
  | token p k t => exact Action.settled_pure _
  | group b ps ih =>
    by_cases hlen : ps.length = 1
    · obtain ⟨n, rfl⟩ := List.length_eq_one_iff.1 hlen
      rw [evaluate_group_single]
      exact ih n List.mem_cons_self (h.param List.mem_cons_self)
    · rw [evaluate_group_literal b hlen]
      exact Action.settled_ofExcept _
  | call p c f a ihc iha ih =>
    rw [evaluate_call]
    refine (settled_evaluateArguments fun n hn => ih n hn (h.argument hn)).bind fun vs => ?_
    exact settled_applyFunction h.function vs
  | unary p s o x ihs ihx =>
    rw [evaluate_unary]
    exact (ihx h.operand).bind fun v => Action.settled_ofExcept _
  | binary p l s o r ihl ihs ihr =>
    rw [evaluate_binary]
    refine (ihl h.left).bind fun a => ?_
    exact (ihr h.right).bind fun b => Action.settled_ofExcept _
  | equation p ss o ih =>
    have hss : ∀ n ∈ ss, (evaluate host lookup n).Settled := fun n hn => ih n hn (h.sentence hn)
    by_cases hb : ss.all Node.isBlankRaw = true
    · rw [evaluate_equation_blank p o hb]
      exact Action.settled_pure _
    by_cases hlen : ss.length = 1
    · obtain ⟨n, rfl⟩ := List.length_eq_one_iff.1 hlen
      cases hn : n.isRaw with
      | false =>
        rw [evaluate_equation_single p o hn]
        exact hss n (by simp)
      | true =>
        obtain ⟨t, rfl⟩ : ∃ t, n = .raw t := by
          cases n <;> first | exact ⟨_, rfl⟩ | cases hn
        rw [evaluate_equation_raw p o (by simpa [Node.isBlankRaw] using hb)]
        exact Action.settled_pure _
    · rw [evaluate_equation_texts p o (by simpa using hb) hlen]
      exact (settled_evaluateTexts hss).bind fun t => Action.settled_pure _

theorem settled_evaluateAll_of_calls {ns : List Node} (h : ∀ n ∈ ns, n.CallsOnly (Function.Deterministic host)) :
    (evaluateAll host lookup ns).Settled :=
  settled_evaluateAll fun n hn => settled_evaluate (h n hn)

/-! ## Numbers -/

/-- The number that an evaluation comes to, if it is one. -/
def numberOf : Except Fault Result → Option Scalar
  | .ok v => v.toNumber?
  | .error _ => none

/-- The numbers that several evaluations come to, if all of them are numbers. -/
def numbersOf : Except Fault (List Result) → Option (List Scalar)
  | .ok vs => Evaluation.numbers? vs
  | .error _ => none

/-- The number that an operation makes of two numbers. -/
def binaryNumber (o : Option Operation) (x y : Scalar) : Option Scalar :=
  o.bind fun op => (op.binary (.scalar x) (.scalar y)).toOption.bind Value.toNumber?

/-- The number that an operation makes of one number. -/
def unaryNumber (o : Option Operation) (x : Scalar) : Option Scalar :=
  o.bind fun op => (op.unary (.scalar x)).toOption.bind Value.toNumber?

/-- The number that a function makes of numbers. -/
def callNumber (host : Host σ) (f : Option Function) (args : List Scalar) (st : σ) : Option Scalar :=
  f.bind fun f => ((Evaluation.attempt (f.call host (args.map .scalar))).result st).toOption.join

theorem numberOf_bind_eq_none {x : Except Fault α} {f : α → Except Fault Result} (h : ∀ a, numberOf (f a) = none) :
    numberOf (x >>= f) = none := by
  cases x with
  | error e => rfl
  | ok a => exact h a

theorem numberOf_applyBinary (s : Except Fault Text) (o : Option Operation) (a b : Result) :
    numberOf (Evaluation.applyBinary s o a b) = a.toNumber?.bind fun x => b.toNumber?.bind (binaryNumber o x) := by
  have hsymbolic : numberOf (do
      let left ← a.text
      let symbol ← s
      return .symbolic ('(' :: left ++ symbol ++ (← b.text) ++ [')'])) = none := by
    exact numberOf_bind_eq_none fun _ => numberOf_bind_eq_none fun _ => numberOf_bind_eq_none fun _ => rfl
  unfold Evaluation.applyBinary
  cases a with
  | symbolic t => exact hsymbolic
  | number x =>
    cases b with
    | symbolic t => exact hsymbolic
    | number y =>
      simp only [Result.toNumber?, Option.bind_some]
      unfold binaryNumber
      split
      · rename_i r hr
        rw [hr]
        rfl
      · rename_i hr
        rw [hr]
        exact hsymbolic

theorem numberOf_applyUnary (s : Except Fault Text) (o : Option Operation) (v : Result) :
    numberOf (Evaluation.applyUnary s o v) = v.toNumber?.bind (unaryNumber o) := by
  have hsymbolic : numberOf (do return .symbolic ('(' :: (← s) ++ (← v.text) ++ [')'])) = none := by
    exact numberOf_bind_eq_none fun _ => numberOf_bind_eq_none fun _ => rfl
  unfold Evaluation.applyUnary
  cases v with
  | symbolic t => exact hsymbolic
  | number x =>
    simp only [Result.toNumber?, Option.bind_some]
    unfold unaryNumber
    split
    · rename_i r hr
      rw [hr]
      rfl
    · rename_i hr
      rw [hr]
      exact hsymbolic

theorem numberOf_applyFunction {name : Text} {f : Option Function} (h : ∀ g ∈ f, g.Deterministic host)
    (vs : List Result) (st : σ) :
    numberOf ((Evaluation.applyFunction host name f vs).result st) =
      (Evaluation.numbers? vs).bind fun args => callNumber host f args st := by
  have hsymbolic : numberOf ((Action.ofExcept (do
      return .symbolic (name ++ '(' :: (← Evaluation.commaTexts vs) ++ [')'])) : Action σ Result).result st) = none := by
    rw [Action.result_ofExcept]
    exact numberOf_bind_eq_none fun _ => rfl
  unfold Evaluation.applyFunction
  cases f with
  | none =>
    cases Evaluation.numbers? vs <;> exact hsymbolic
  | some f =>
    cases Evaluation.numbers? vs with
    | none => exact hsymbolic
    | some args =>
      simp only [Option.bind_some, callNumber]
      rw [Action.result_bind (settled_attempt (h f rfl _))]
      cases (Evaluation.attempt (f.call host (args.map .scalar))).result st with
      | error e => rfl
      | ok r =>
        cases r with
        | none => exact hsymbolic
        | some v => rfl

theorem numberOf_evaluate_binary {p : Pad} {l s r : Node} {o : Option Operation}
    (hl : (evaluate host lookup l).Settled) (hr : (evaluate host lookup r).Settled) (st : σ) :
    numberOf ((evaluate host lookup (.binary p l s o r)).result st) =
      (numberOf ((evaluate host lookup l).result st)).bind fun x =>
        (numberOf ((evaluate host lookup r).result st)).bind (binaryNumber o x) := by
  rw [evaluate_binary, Action.result_bind hl]
  cases (evaluate host lookup l).result st with
  | error e => rfl
  | ok a =>
    show numberOf (Action.result st _) = _
    rw [Action.result_bind hr]
    cases (evaluate host lookup r).result st with
    | error e => cases a <;> rfl
    | ok b => exact numberOf_applyBinary s.symbol o a b

theorem numberOf_evaluate_unary {p : Pad} {s x : Node} {o : Option Operation}
    (hx : (evaluate host lookup x).Settled) (st : σ) :
    numberOf ((evaluate host lookup (.unary p s o x)).result st) =
      (numberOf ((evaluate host lookup x).result st)).bind (unaryNumber o) := by
  rw [evaluate_unary, Action.result_bind hx]
  cases (evaluate host lookup x).result st with
  | error e => rfl
  | ok v => exact numberOf_applyUnary s.symbol o v

theorem numbersOf_evaluateAll_cons {n : Node} {ns : List Node} (hn : (evaluate host lookup n).Settled)
    (hns : (evaluateAll host lookup ns).Settled) (st : σ) :
    numbersOf ((evaluateAll host lookup (n :: ns)).result st) =
      (numberOf ((evaluate host lookup n).result st)).bind fun v =>
        (numbersOf ((evaluateAll host lookup ns).result st)).map (v :: ·) := by
  rw [evaluateAll_cons, Action.result_bind hn]
  cases (evaluate host lookup n).result st with
  | error e => rfl
  | ok v =>
    show numbersOf (Action.result st _) = _
    rw [Action.result_bind hns]
    cases (evaluateAll host lookup ns).result st with
    | error e => cases v <;> rfl
    | ok vs =>
      show Evaluation.numbers? (v :: vs) = v.toNumber?.bind fun x => (Evaluation.numbers? vs).map (x :: ·)
      rw [Evaluation.numbers?, List.mapM_cons, Evaluation.numbers?]
      cases v.toNumber? with
      | none => rfl
      | some x => cases vs.mapM Result.toNumber? <;> rfl

theorem numberOf_evaluate_call {p : Pad} {c a : Node} {f : Option Function} (hf : ∀ g ∈ f, g.Deterministic host)
    (ha : (evaluateArguments host lookup a).Settled) (st : σ) :
    numberOf ((evaluate host lookup (.call p c f a)).result st) =
      (numbersOf ((evaluateArguments host lookup a).result st)).bind fun args => callNumber host f args st := by
  rw [evaluate_call, Action.result_bind ha]
  cases (evaluateArguments host lookup a).result st with
  | error e => rfl
  | ok vs => exact numberOf_applyFunction hf vs st

end FormulaLang
