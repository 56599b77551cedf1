import FormulaLang.Proofs.Simplification.Agreement
import FormulaLang.Proofs.Simplification.Variables

/-!
# Simplification settles

A simplification evaluates nothing but operations on literals and calls of functions that are not volatile. When these
functions are deterministic (`Node.Steady`), whether it fails and what it gives does not depend on the host
(`settled_simplify`). Nor can the simplification of a part fail when that of the whole tree does not (`simplify_part`).
-/

namespace FormulaLang

variable {σ α : Type} {host : Host σ} {isVolatile : Function → Bool}

theorem Action.Settled.eq_pure {x : Action σ α} (hx : x.Settled) {a : α} {st st' : σ} (h : x st = (.ok a, st')) :
    x = pure a := by
  obtain ⟨e, rfl⟩ := hx
  cases e with
  | error d => cases h
  | ok b =>
    cases h
    rfl

/-- The functions of the tree that a simplification may call are deterministic. -/
def Node.Steady (host : Host σ) (isVolatile : Function → Bool) (n : Node) : Prop :=
  ∀ f ∈ n.functions, isVolatile f = false → f.Deterministic host

theorem Node.Steady.calls {n : Node} (h : n.Steady host isVolatile) :
    n.CallsOnly fun f => isVolatile f = false → f.Deterministic host :=
  h

/-! ## Results do not depend on the host -/

section Settled

variable {lookup : Reference → Option Scalar} {ns : List Node}

theorem settled_evaluate_literal {n : Node} (h : n.isNumber = true) : (evaluate host lookup n).Settled := by
  cases n with
  | number => exact Action.settled_pure _
  | _ => cases h

theorem settled_foldIf {literals : Bool} {n : Node}
    (h : literals = true → (evaluate host (fun _ => none) n).Settled) : (foldIf host literals n).Settled := by
  cases literals with
  | false => exact Action.settled_pure n
  | true =>
    refine (h rfl).bind fun v => ?_
    cases v with
    | symbolic t => exact Action.settled_pure n
    | number v => cases n.textDefect? <;> first | exact Action.settled_throw _ | exact Action.settled_pure _

/-- The parts that decide whether a node is folded are literals. -/
def Node.isFoldable (isVolatile : Function → Bool) : Node → Bool
  | .group _ ps => ps.length == 1 && ps.all isNumber
  | .call _ _ f a => (f.any fun f => !isVolatile f) && (a.params?.getD []).all isNumber
  | .unary _ _ _ x => x.isNumber
  | .binary _ l _ _ r => l.isNumber && r.isNumber
  | _ => false

/-- The function that the node itself calls. -/
def Node.function? : Node → Option Function
  | .call _ _ f _ => f
  | _ => none

/-- A node that may be folded comes to its value by itself, or by a call of its function. -/
theorem evaluate_foldable {n : Node} (h : n.isFoldable isVolatile = true) :
    (evaluate host lookup n).Settled ∨ ∃ f ∈ n.function?, isVolatile f = false ∧
      ∃ name vs, evaluate host lookup n = Evaluation.applyFunction host name (some f) vs := by
  cases n with
  | group b ps =>
    obtain ⟨h1, hall⟩ : ps.length = 1 ∧ ps.all Node.isNumber = true := by simpa [Node.isFoldable] using h
    obtain ⟨q, rfl⟩ := List.length_eq_one_iff.1 h1
    rw [evaluate_group_single]
    exact .inl (settled_evaluate_literal (List.all_eq_true.1 hall q List.mem_cons_self))
  | call p c g a =>
    obtain ⟨hknown, hall⟩ := Bool.and_eq_true_iff.1 h
    obtain ⟨f, rfl, hvolatile⟩ := (Option.any_eq_true _ _).1 hknown
    obtain ⟨e, he⟩ : (evaluateArguments host lookup a).Settled :=
      settled_evaluateArguments fun q hq => settled_evaluate_literal (List.all_eq_true.1 hall q hq)
    rw [evaluate_call, he]
    cases e with
    | error d => exact .inl ⟨.error d, rfl⟩
    | ok vs => exact .inr ⟨f, rfl, by simpa using hvolatile, c.name, vs, rfl⟩
  | unary p s o x =>
    rw [evaluate_unary]
    exact .inl ((settled_evaluate_literal h).bind fun v => Action.settled_ofExcept _)
  | binary p l s o r =>
    obtain ⟨hl, hr⟩ := Bool.and_eq_true_iff.1 h
    rw [evaluate_binary]
    refine .inl ((settled_evaluate_literal hl).bind fun v => ?_)
    exact (settled_evaluate_literal hr).bind fun w => Action.settled_ofExcept _
  | _ => cases h

theorem settled_foldIf_foldable (isVolatile : Function → Bool) {n : Node}
    (hn : ∀ f ∈ n.function?, isVolatile f = false → f.Deterministic host) :
    (foldIf host (n.isFoldable isVolatile) n).Settled := by
  refine settled_foldIf fun hfold => ?_
  obtain hsettled | ⟨f, hf, hvolatile, name, vs, heq⟩ := evaluate_foldable hfold
  · exact hsettled
  · rw [heq]
    refine settled_applyFunction (fun g hg => ?_) vs
    rw [← Option.some.inj hg]
    exact hn f hf hvolatile

theorem settled_simplifyAll (h : ∀ n ∈ ns, (simplify host isVolatile n).Settled) :
    (simplifyAll host isVolatile ns).Settled := by
  induction ns with
  | nil => exact Action.settled_pure _
  | cons n ns ih =>
    refine (h n List.mem_cons_self).bind fun m => ?_
    exact (ih fun x hx => h x (List.mem_cons_of_mem _ hx)).bind fun ms => Action.settled_pure _

theorem settled_simplifyArguments {a : Node} (h : ∀ n ∈ a.params?.getD [], (simplify host isVolatile n).Settled) :
    (simplifyArguments host isVolatile a).Settled := by
  cases a with
  | group b ps => exact (settled_simplifyAll h).bind fun ps' => Action.settled_pure _
  | _ => exact Action.settled_throw _

end Settled

/-- **Simplification is settled** when the functions that are not volatile are deterministic. -/
theorem settled_simplify {n : Node} (h : n.Steady host isVolatile) : (simplify host isVolatile n).Settled := by
  induction n using Node.induction with
  | raw t | number p v t | identifier p t | var p r t | token p k t => exact Action.settled_pure _
  | group b ps ih =>
    refine (settled_simplifyAll fun n hn => ih n hn (h.calls.param hn)).bind fun ps' => ?_
    exact settled_foldIf_foldable isVolatile (n := .group b ps') fun f hf => nomatch hf
  | call p c f a ihc iha ih =>
    refine (settled_simplifyArguments fun n hn => ih n hn (h.calls.argument hn)).bind fun a' => ?_
    exact settled_foldIf_foldable isVolatile (n := .call p c f a') h.calls.function
  | unary p s o x ihs ihx =>
    refine (ihx h.calls.operand).bind fun x' => ?_
    exact settled_foldIf_foldable isVolatile (n := .unary p s o x') fun f hf => nomatch hf
  | binary p l s o r ihl ihs ihr =>
    refine (ihl h.calls.left).bind fun l' => (ihr h.calls.right).bind fun r' => ?_
    exact settled_foldIf_foldable isVolatile (n := .binary p l' s o r') fun f hf => nomatch hf
  | equation p ss o ih =>
    refine (settled_simplifyAll fun n hn => ih n hn (h.calls.sentence hn)).bind fun ss' => ?_
    rcases ss' with - | ⟨s, - | ⟨s', rest⟩⟩ <;> exact Action.settled_pure _

/-! ## Parts of a tree -/

/-- A group that holds a literal alone gives way to it, so that no group fails by itself. -/
theorem foldIf_group_eq_pure (host : Host σ) (b : Brackets) (ps : List Node) :
    ∃ m, foldIf host (ps.length == 1 && ps.all Node.isNumber) (.group b ps) = pure m := by
  cases hlit : ps.length == 1 && ps.all Node.isNumber with
  | false => exact ⟨_, rfl⟩
  | true =>
    obtain ⟨h1, hall⟩ : ps.length = 1 ∧ ps.all Node.isNumber = true := by simpa using hlit
    obtain ⟨n, rfl⟩ := List.length_eq_one_iff.1 h1
    have hn : n.isNumber = true := List.all_eq_true.1 hall n List.mem_cons_self
    cases n with
    | number p v t =>
      have hdefect : (Node.group b [.number p v t]).textDefect? = none := by
        simp [Node.textDefect?, Node.textDefects?]
      rw [foldIf, if_pos rfl, foldToLiteral, evaluate_group_single, evaluate_number]
      cases v.isNumber with
      | false => exact ⟨_, rfl⟩
      | true => exact ⟨_, by simp [hdefect]; rfl⟩
    | _ => cases hn

theorem simplify_mem_of_simplifyAll {ns ns' : List Node} {st st' : σ}
    (h : simplifyAll host isVolatile ns st = (.ok ns', st')) {n : Node} (hn : n ∈ ns) :
    ∃ n' st st', simplify host isVolatile n st = (.ok n', st') := by
  have hall : List.Forall₂ (fun n n' => ∃ st st', simplify host isVolatile n st = (.ok n', st')) ns ns' :=
    forall₂_simplifyAll h fun _ _ _ _ _ hs => ⟨_, _, hs⟩
  obtain ⟨n', -, st, st', hs⟩ := exists_of_forall₂ hall.flip n hn
  exact ⟨n', st, st', hs⟩

theorem simplify_of_isToken {n : Node} (h : n.isToken = true) : simplify host isVolatile n = pure n := by
  cases n with
  | token => rfl
  | _ => cases h

/-- The parts of a group, the group itself among them, when the parts of its parameters can be simplified. -/
theorem simplify_part_group (b : Brackets) {ps ps' : List Node} {st st' : σ}
    (hsettled : ∀ q ∈ ps, (simplify host isVolatile q).Settled)
    (hall : simplifyAll host isVolatile ps st = (.ok ps', st'))
    (ih : ∀ q ∈ ps, ∀ {q' : Node} {st st' : σ}, simplify host isVolatile q st = (.ok q', st') →
      ∀ m ∈ q.walk, ∃ m', simplify host isVolatile m = pure m') :
    ∀ m ∈ (Node.group b ps).walk, ∃ m', simplify host isVolatile m = pure m' := by
  intro m hm
  cases htoken : m.isToken with
  | true => exact ⟨m, simplify_of_isToken htoken⟩
  | false =>
    obtain rfl | ⟨q, hq, hm⟩ := (Node.mem_walk_group htoken).1 hm
    · obtain ⟨n, hn⟩ := foldIf_group_eq_pure host b ps'
      refine ⟨n, ?_⟩
      rw [simplify, (settled_simplifyAll hsettled).eq_pure hall]
      exact hn
    · obtain ⟨q', sq, sq', hs⟩ := simplify_mem_of_simplifyAll hall hq
      exact ih q hq hs m hm

/-- **A part** of a tree can be simplified by itself when the whole tree can. -/
theorem simplify_part {n n' : Node} (hn : n.Interned) (hsteady : n.Steady host isVolatile) {st st' : σ}
    (h : simplify host isVolatile n st = (.ok n', st')) :
    ∀ m ∈ n.walk, ∃ m', simplify host isVolatile m = pure m' := by
  induction hn generalizing n' st st' with
  | raw t => exact fun m hm => nomatch hm
  | number | identifier | var =>
    intro m hm
    obtain rfl := List.mem_singleton.1 hm
    exact ⟨_, rfl⟩
  | @group b ps _ ih =>
    obtain ⟨ps', mid, hall, -⟩ := simplify_group_ok h
    exact simplify_part_group b (fun q hq => settled_simplify (hsteady.calls.param hq)) hall fun q hq =>
      ih q hq (hsteady.calls.param hq)
  | @call p q t f b ps _ ih =>
    have hself := (settled_simplify hsteady).eq_pure h
    obtain ⟨b', ps₁, ps', mid, heq, hall, -⟩ := simplify_call_ok h
    cases heq
    intro m hm
    rw [Node.walk_call, List.mem_cons, List.mem_append, Node.walk_identifier, List.mem_singleton] at hm
    obtain rfl | rfl | hm := hm
    · exact ⟨n', hself⟩
    · exact ⟨_, rfl⟩
    · exact simplify_part_group b (fun q hq => settled_simplify (hsteady.calls.argument hq)) hall
        (fun q hq => ih q hq (hsteady.calls.argument hq)) m hm
  | @unary p s o x _ ih =>
    have hself := (settled_simplify hsteady).eq_pure h
    obtain ⟨x', mid, hx, -⟩ := simplify_unary_ok h
    intro m hm
    rw [Node.walk_unary, List.mem_cons, List.mem_cons] at hm
    obtain rfl | rfl | hm := hm
    · exact ⟨n', hself⟩
    · exact ⟨_, rfl⟩
    · exact ih hsteady.calls.operand hx m hm
  | @binary p x s o y _ _ ihx ihy =>
    have hself := (settled_simplify hsteady).eq_pure h
    obtain ⟨x', mid, y', mid', hx, hy, -⟩ := simplify_binary_ok h
    intro m hm
    rw [Node.walk_binary, List.mem_cons, List.mem_append, List.mem_cons] at hm
    obtain rfl | hm | rfl | hm := hm
    · exact ⟨n', hself⟩
    · exact ihx hsteady.calls.left hx m hm
    · exact ⟨_, rfl⟩
    · exact ihy hsteady.calls.right hy m hm
  | @equation p ss _ o ih =>
    have hself := (settled_simplify hsteady).eq_pure h
    obtain ⟨ss', mid, hall, -⟩ := simplify_equation_ok h
    intro m hm
    rw [Node.walk_equation, List.mem_cons, Node.mem_walkAll] at hm
    obtain rfl | ⟨s, hs, hm⟩ := hm
    · exact ⟨n', hself⟩
    · obtain ⟨s', mid, mid', hs'⟩ := simplify_mem_of_simplifyAll hall hs
      exact ih s hs (hsteady.calls.sentence hs) hs' m hm

end FormulaLang
