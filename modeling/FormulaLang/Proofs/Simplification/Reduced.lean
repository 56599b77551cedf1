import FormulaLang.Proofs.Simplification.Settled
import FormulaLang.Proofs.Simplification.Edits

/-!
# Reduced trees

The trees that a simplification gives are reduced (`Node.Reduced`): wherever the operands of an operation, the parameter of a
group or the arguments of a call are literals, there is no number to put in its place, and no equation holds a literal alone.
A reduced tree is left as it is (`Node.Reduced.result_simplify`), so that one pass from the leaves to the root reaches what
further passes would reach (`simplify_idempotent`).

The functions that are folded have to be repeatable for that: the same arguments give the same result every time. They may
change the state of the host.
-/

namespace FormulaLang

variable {σ α β : Type} {host : Host σ} {isVolatile : Function → Bool}

/-! ## Repeatable computations -/

/-- A computation that has the same result from every state of the host. -/
def Action.Repeatable (x : Action σ α) : Prop :=
  ∃ e, ∀ st, x.result st = e

theorem Action.Settled.repeatable {x : Action σ α} (h : x.Settled) : x.Repeatable := by
  obtain ⟨e, rfl⟩ := h
  exact ⟨e, fun _ => rfl⟩

theorem Action.Repeatable.result_eq {x : Action σ α} (h : x.Repeatable) (st st' : σ) : x.result st = x.result st' := by
  obtain ⟨e, he⟩ := h
  rw [he, he]

theorem Action.result_bind_error {x : Action σ α} {f : α → Action σ β} {st : σ} {e : Fault} (hx : x.result st = .error e) :
    (x >>= f).result st = .error e := by
  rw [Action.result] at hx
  rw [Action.result, Action.run_bind]
  rcases h : x st with ⟨e' | a, mid⟩ <;> rw [h] at hx <;> cases hx
  rfl

theorem Action.result_bind_ok {x : Action σ α} {f : α → Action σ β} {st : σ} {a : α} {e : Except Fault β}
    (hx : x.result st = .ok a) (hf : ∀ mid, (f a).result mid = e) : (x >>= f).result st = e := by
  rw [Action.result] at hx
  rw [Action.result, Action.run_bind]
  rcases h : x st with ⟨e' | a', mid⟩ <;> rw [h] at hx <;> cases hx
  exact hf mid

theorem Action.Repeatable.bind {x : Action σ α} {f : α → Action σ β} (hx : x.Repeatable) (hf : ∀ a, (f a).Repeatable) :
    (x >>= f).Repeatable := by
  obtain ⟨e, he⟩ := hx
  cases e with
  | error d => exact ⟨.error d, fun st => Action.result_bind_error (he st)⟩
  | ok a =>
    obtain ⟨e, hfa⟩ := hf a
    exact ⟨e, fun st => Action.result_bind_ok (he st) hfa⟩

/-- The same arguments give the same result every time. -/
def Function.Repeatable (host : Host σ) (f : Function) : Prop :=
  ∀ args, (f.call host args).Repeatable

theorem Function.Deterministic.repeatable {f : Function} (h : f.Deterministic host) : f.Repeatable host :=
  fun args => (h args).repeatable

/-- What an attempt comes to follows from the result of the calculation. -/
theorem result_attempt (x : Action σ Value) (st : σ) :
    (Evaluation.attempt x).result st = (Evaluation.attempt (Action.ofExcept (x.result st))).result st := by
  rw [attempt_ofExcept, Action.result_ofExcept]
  simp only [Evaluation.attempt, Action.result, ExceptT.mk, ExceptT.run, bind, StateT.bind]
  rcases x st with ⟨e | v, mid⟩
  · cases e.isCalculation <;> rfl
  · rfl

theorem repeatable_attempt {x : Action σ Value} (h : x.Repeatable) : (Evaluation.attempt x).Repeatable := by
  obtain ⟨e, he⟩ := h
  exact ⟨_, fun st => by rw [result_attempt, he, attempt_ofExcept, Action.result_ofExcept]⟩

theorem repeatable_applyFunction {name : Text} {f : Option Function} (h : ∀ g ∈ f, g.Repeatable host)
    (vs : List Result) : (Evaluation.applyFunction host name f vs).Repeatable := by
  unfold Evaluation.applyFunction
  split
  · rename_i g args hargs
    refine (repeatable_attempt (h _ rfl _)).bind ?_
    intro r
    cases r with
    | none => exact (Action.settled_ofExcept _).repeatable
    | some v => exact (Action.settled_pure _).repeatable
  · exact (Action.settled_ofExcept _).repeatable

/-! ## Nothing to fold -/

/-- The node comes to a text without any variables, whatever the state of the host. -/
def Node.Symbolic (host : Host σ) (n : Node) : Prop :=
  ∀ st, ∃ t, (evaluate host (fun _ => none) n).result st = .ok (.symbolic t)

/-- **Nothing is left to fold** in the tree. -/
inductive Node.Reduced (host : Host σ) (isVolatile : Function → Bool) : Node → Prop
  | raw (t : Text) : Reduced host isVolatile (.raw t)
  | number (p : Pad) (v : Scalar) (t : Text) : Reduced host isVolatile (.number p v t)
  | identifier (p : Pad) (t : Text) : Reduced host isVolatile (.identifier p t)
  | var (p : Pad) (r : Reference) (t : Text) : Reduced host isVolatile (.var p r t)
  | token (p : Pad) (k : TokenKind) (t : Text) : Reduced host isVolatile (.token p k t)
  | group {b : Brackets} {ps : List Node} (hps : ∀ q ∈ ps, Reduced host isVolatile q)
      (hself : (group b ps).isFoldable isVolatile = true → (group b ps).Symbolic host) :
      Reduced host isVolatile (.group b ps)
  | call {p : Pad} {c : Node} {f : Option Function} {b : Brackets} {ps : List Node}
      (hps : ∀ q ∈ ps, Reduced host isVolatile q)
      (hself : (call p c f (.group b ps)).isFoldable isVolatile = true → (call p c f (.group b ps)).Symbolic host) :
      Reduced host isVolatile (.call p c f (.group b ps))
  | unary {p : Pad} {s x : Node} {o : Option Operation} (hx : Reduced host isVolatile x)
      (hself : (unary p s o x).isFoldable isVolatile = true → (unary p s o x).Symbolic host) :
      Reduced host isVolatile (.unary p s o x)
  | binary {p : Pad} {l s r : Node} {o : Option Operation} (hl : Reduced host isVolatile l)
      (hr : Reduced host isVolatile r)
      (hself : (binary p l s o r).isFoldable isVolatile = true → (binary p l s o r).Symbolic host) :
      Reduced host isVolatile (.binary p l s o r)
  | equation {p : Pad} {ss : List Node} {o : Int} (hss : ∀ s ∈ ss, Reduced host isVolatile s)
      (halone : ∀ s, ss = [s] → s.isNumber = false) : Reduced host isVolatile (.equation p ss o)

/-- A literal has nothing to fold. -/
theorem Node.reduced_of_isNumber {n : Node} (h : n.isNumber = true) : n.Reduced host isVolatile := by
  cases n with
  | number p v t => exact .number p v t
  | _ => cases h

/-! ## A simplification reduces -/

section Reduces

variable {lookup : Reference → Option Scalar}

/-- The value of a node that may be folded follows from its literals. -/
theorem repeatable_evaluate_foldable {n : Node} (hn : ∀ f ∈ n.function?, isVolatile f = false → f.Repeatable host)
    (h : n.isFoldable isVolatile = true) : (evaluate host lookup n).Repeatable := by
  obtain hsettled | ⟨f, hf, hvolatile, name, vs, heq⟩ := evaluate_foldable h
  · exact hsettled.repeatable
  · rw [heq]
    refine repeatable_applyFunction (fun g hg => ?_) vs
    rw [← Option.some.inj hg]
    exact hn f hf hvolatile

variable {n m : Node} {st st' : σ}

/-- A fold gives a literal, or the node itself when it comes to a text. -/
theorem reduced_foldIf (hn : ∀ f ∈ n.function?, isVolatile f = false → f.Repeatable host)
    (hreduced : (n.isFoldable isVolatile = true → n.Symbolic host) → n.Reduced host isVolatile)
    (h : foldIf host (n.isFoldable isVolatile) n st = (.ok m, st')) : m.Reduced host isVolatile := by
  cases hfold : n.isFoldable isVolatile with
  | false =>
    rw [hfold] at h
    cases h
    exact hreduced fun htrue => absurd htrue (by simp [hfold])
  | true =>
    rw [hfold] at h
    obtain ⟨r, mid, hr, h⟩ := Action.run_bind_ok h
    cases r with
    | symbolic t =>
      cases h
      refine hreduced fun _ again => ⟨t, ?_⟩
      rw [(repeatable_evaluate_foldable hn hfold).result_eq again st, Action.result, hr]
    | number v =>
      cases hd : n.textDefect? with
      | some d =>
        simp only [hd] at h
        cases h
      | none =>
        simp only [hd] at h
        cases h
        exact .number _ _ _

/-- What holds of the simplification of every node holds of those of several nodes. -/
theorem forall_mem_simplifyAll {Q : Node → Prop} {ns ns' : List Node}
    (h : simplifyAll host isVolatile ns st = (.ok ns', st'))
    (ih : ∀ n ∈ ns, ∀ {n' : Node} {st st' : σ}, simplify host isVolatile n st = (.ok n', st') → Q n') :
    ∀ m ∈ ns', Q m := by
  intro m hm
  have hall : List.Forall₂ (fun _ m => Q m) ns ns' := forall₂_simplifyAll h ih
  obtain ⟨n, -, hn⟩ := exists_of_forall₂ hall m hm
  exact hn

/-- **A simplification reduces** every tree that it does not fail on. -/
theorem reduced_of_simplify (hn : n.CallsOnly fun f => isVolatile f = false → f.Repeatable host)
    (h : simplify host isVolatile n st = (.ok m, st')) : m.Reduced host isVolatile := by
  induction n using Node.induction generalizing m st st' with
  | raw t =>
    cases h
    exact .raw t
  | number p v t =>
    cases h
    exact .number p v t
  | identifier p t =>
    cases h
    exact .identifier p t
  | var p r t =>
    cases h
    exact .var p r t
  | token p k t =>
    cases h
    exact .token p k t
  | group b ps ih =>
    obtain ⟨ps', mid, hall, hfold⟩ := simplify_group_ok h
    have hps' : ∀ q ∈ ps', q.Reduced host isVolatile := forall_mem_simplifyAll hall fun q hq => ih q hq (hn.param hq)
    exact reduced_foldIf (n := .group b ps') (fun f hf => nomatch hf) (.group hps') hfold
  | call p c f a ihc iha ih =>
    obtain ⟨b, ps, ps', mid, rfl, hall, hfold⟩ := simplify_call_ok h
    have hps' : ∀ q ∈ ps', q.Reduced host isVolatile := forall_mem_simplifyAll hall fun q hq => ih q hq (hn.argument hq)
    exact reduced_foldIf (n := .call p c f (.group b ps')) hn.function (.call hps') hfold
  | unary p s o x ihs ihx =>
    obtain ⟨x', mid, hx, hfold⟩ := simplify_unary_ok h
    exact reduced_foldIf (n := .unary p s o x') (fun f hf => nomatch hf) (.unary (ihx hn.operand hx)) hfold
  | binary p l s o r ihl ihs ihr =>
    obtain ⟨l', mid, r', mid', hl, hr, hfold⟩ := simplify_binary_ok h
    have hself := Node.Reduced.binary (p := p) (s := s) (o := o) (ihl hn.left hl) (ihr hn.right hr)
    exact reduced_foldIf (n := .binary p l' s o r') (fun f hf => nomatch hf) hself hfold
  | equation p ss o ih =>
    obtain ⟨ss', mid, hall, hm⟩ := simplify_equation_ok h
    have hss' : ∀ s ∈ ss', s.Reduced host isVolatile := forall_mem_simplifyAll hall fun s hs => ih s hs (hn.sentence hs)
    rcases hm with ⟨rfl, halone⟩ | ⟨rfl, hnumber⟩
    · exact .equation hss' halone
    · exact Node.reduced_of_isNumber hnumber

end Reduces

/-! ## Reduced trees stay -/

section Stays

variable {n : Node} {ns : List Node}

theorem result_foldIf {literals : Bool} (h : literals = true → n.Symbolic host) (st : σ) :
    (foldIf host literals n).result st = .ok n := by
  cases literals with
  | false => rfl
  | true =>
    obtain ⟨t, ht⟩ := h rfl st
    exact Action.result_bind_ok ht fun _ => rfl

theorem result_simplifyAll (h : ∀ n ∈ ns, ∀ st, (simplify host isVolatile n).result st = .ok n) (st : σ) :
    (simplifyAll host isVolatile ns).result st = .ok ns := by
  induction ns generalizing st with
  | nil => rfl
  | cons n ns ih =>
    refine Action.result_bind_ok (h n List.mem_cons_self st) fun mid => ?_
    exact Action.result_bind_ok (ih (fun m hm => h m (List.mem_cons_of_mem _ hm)) mid) fun _ => rfl

/-- **A reduced tree** is left as it is. -/
theorem Node.Reduced.result_simplify (h : n.Reduced host isVolatile) (st : σ) :
    (FormulaLang.simplify host isVolatile n).result st = .ok n := by
  induction h generalizing st with
  | raw | number | identifier | var | token => rfl
  | group _ hself ih => exact Action.result_bind_ok (result_simplifyAll ih st) (result_foldIf hself)
  | call _ hself ih =>
    refine Action.result_bind_ok (Action.result_bind_ok (result_simplifyAll ih st) fun _ => rfl) ?_
    exact result_foldIf hself
  | unary _ hself ih => exact Action.result_bind_ok (ih st) (result_foldIf hself)
  | binary _ _ hself ihl ihr =>
    exact Action.result_bind_ok (ihl st) fun mid => Action.result_bind_ok (ihr mid) (result_foldIf hself)
  | @equation p ss o _ halone ih =>
    refine Action.result_bind_ok (result_simplifyAll ih st) fun mid => ?_
    rcases ss with - | ⟨s, - | ⟨s', rest⟩⟩
    · rfl
    · simp only [halone s rfl, Bool.false_eq_true, ↓reduceIte]
      rfl
    · rfl

end Stays

/-- A tree that no text has: `(2) * (1 / 0)` with the factors in equations of their own, between calls of an unknown function
and of one that is volatile. -/
def unreduced : Node :=
  let brackets : Brackets := ⟨.none, ['('], [], [')']⟩
  let two : Node := .group brackets [.equation .none [.number .none (.int 2) ['2']] 1]
  let quotient : Node := .binary .none (.number .none (.int 1) ['1']) (.raw ['/']) (some .div) (.number .none (.int 0) ['0'])
  .equation .none [
    .call .none (.identifier .none "f".toList) none (.group brackets []),
    .binary .none two (.raw ['*']) (some .mul) (.group brackets [.equation .none [quotient] 5]),
    .call .none (.identifier .none "random".toList) (some .random) (.group brackets [])] 0

/-- **Simplification is idempotent**: a simplification leaves nothing to fold, and any further one leaves its result as it is,
when the functions that are not volatile are repeatable. -/
theorem simplify_idempotent {n m : Node} {st st' : σ}
    (hrepeatable : ∀ f ∈ n.functions, isVolatile f = false → f.Repeatable host)
    (h : simplify host isVolatile n st = (.ok m, st')) :
    m.Reduced host isVolatile ∧ ∀ again, (simplify host isVolatile m).result again = .ok m := by
  have hreduced : m.Reduced host isVolatile := reduced_of_simplify hrepeatable h
  exact ⟨hreduced, hreduced.result_simplify⟩

/-- A group in an equation that becomes a literal, a division without a result, and calls that stay. -/
theorem simplify_idempotent_division :
    ∃ m, simplify Formula.quietHost Registry.initial.isVolatile unreduced () = (.ok m, ()) ∧
      m.Reduced Formula.quietHost Registry.initial.isVolatile ∧
      (simplify Formula.quietHost Registry.initial.isVolatile m).result () = .ok m := by
  have hok : (simplify Formula.quietHost Registry.initial.isVolatile unreduced ()).1.toOption.isSome = true := by
    decide +kernel
  have hrepeatable : ∀ f ∈ unreduced.functions, Registry.initial.isVolatile f = false →
      f.Repeatable Formula.quietHost := by
    have hfunctions : unreduced.functions = [.random] := by decide +kernel
    rw [hfunctions]
    refine List.forall_mem_singleton.2 fun hvolatile => absurd hvolatile (by decide)
  rcases hs : simplify Formula.quietHost Registry.initial.isVolatile unreduced () with ⟨e | m, st⟩
  · rw [hs] at hok
    cases hok
  · obtain ⟨hreduced, hagain⟩ := simplify_idempotent hrepeatable hs
    exact ⟨m, rfl, hreduced, hagain ()⟩

/-! ## Functions of a simplified tree -/

section Functions

variable {P : Function → Prop} {n m : Node} {st st' : σ}

theorem Node.CallsOnly.foldIf {literals : Bool} (hn : n.CallsOnly P)
    (h : FormulaLang.foldIf host literals n st = (.ok m, st')) : m.CallsOnly P := by
  rcases foldIf_ok h with rfl | ⟨-, v, -, rfl⟩
  · exact hn
  · exact of_functions_eq_nil rfl

/-- The functions that a simplified tree calls are functions of the tree. -/
theorem Node.CallsOnly.simplify (hn : n.CallsOnly P) (h : FormulaLang.simplify host isVolatile n st = (.ok m, st')) :
    m.CallsOnly P := by
  induction n using Node.induction generalizing m st st' with
  | raw t | number p v t | identifier p t | var p r t | token p k t =>
    cases h
    exact hn
  | group b ps ih =>
    obtain ⟨ps', mid, hall, hfold⟩ := simplify_group_ok h
    have hps' : ∀ q ∈ ps', q.CallsOnly P := forall_mem_simplifyAll hall fun q hq => ih q hq (hn.param hq)
    exact (group_iff.2 hps').foldIf hfold
  | call p c f a ihc iha ih =>
    obtain ⟨b, ps, ps', mid, rfl, hall, hfold⟩ := simplify_call_ok h
    have hps' : ∀ q ∈ ps', q.CallsOnly P := forall_mem_simplifyAll hall fun q hq => ih q hq (hn.argument hq)
    exact (call_iff.2 ⟨hn.function, (call_iff.1 hn).2.1, group_iff.2 hps'⟩).foldIf hfold
  | unary p s o x ihs ihx =>
    obtain ⟨x', mid, hx, hfold⟩ := simplify_unary_ok h
    exact (unary_iff.2 ⟨(unary_iff.1 hn).1, ihx hn.operand hx⟩).foldIf hfold
  | binary p l s o r ihl ihs ihr =>
    obtain ⟨l', mid, r', mid', hl, hr, hfold⟩ := simplify_binary_ok h
    exact (binary_iff.2 ⟨ihl hn.left hl, (binary_iff.1 hn).2.1, ihr hn.right hr⟩).foldIf hfold
  | equation p ss o ih =>
    obtain ⟨ss', mid, hall, hm⟩ := simplify_equation_ok h
    have hss' : ∀ s ∈ ss', s.CallsOnly P := forall_mem_simplifyAll hall fun s hs => ih s hs (hn.sentence hs)
    rcases hm with ⟨rfl, -⟩ | ⟨rfl, -⟩
    · exact equation_iff.2 hss'
    · exact hss' m List.mem_cons_self

end Functions

/-- A second simplification does nothing at all when the functions that are not volatile are deterministic. -/
theorem simplify_simplified {n m : Node} (hsteady : n.Steady host isVolatile) {st st' : σ}
    (h : simplify host isVolatile n st = (.ok m, st')) : simplify host isVolatile m = pure m := by
  have hresult : (simplify host isVolatile m).result st = .ok m :=
    (reduced_of_simplify (fun f hf hvolatile => (hsteady f hf hvolatile).repeatable) h).result_simplify st
  obtain ⟨e, he⟩ : (simplify host isVolatile m).Settled := settled_simplify (hsteady.calls.simplify h)
  rw [he, Action.result_ofExcept] at hresult
  rw [he, hresult]
  rfl

end FormulaLang
