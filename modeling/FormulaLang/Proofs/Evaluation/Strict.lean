import FormulaLang.Proofs.Parse.WellFormed
import FormulaLang.Proofs.Simplification.Source
import Mathlib.Data.List.Nodup

/-!
# A number means that everything is bound

Evaluation is strict: a node comes to a number only if all the nodes do that it is evaluated from. A variable without a number,
a call of an unknown function and an equation of several sentences stay symbolic, and whatever stands around them does too
(`bound_of_number`). An equation is taken for zero when all its sentences are white space, but then it has one sentence at
most, because no two fragments of raw text stand side by side in a parsed tree, and simplification leaves them where they are
(`Node.OneBlank`).

Of a formula that comes to a number, the table says the same, although simplification takes parts of the tree away and leaves
the table as it is: what is folded away has no variables in it (`Formula.bound_edited`).
-/

namespace FormulaLang

variable {σ : Type} {host : Host σ} {lookup : Reference → Option Scalar}

/-! ## Strictness -/

/-- Nothing at this node keeps it from a number: a variable is bound, a function is known, and an equation has one sentence at
most. -/
def Node.Bound (lookup : Reference → Option Scalar) : Node → Prop
  | .var _ r _ => (lookup r).isSome
  | .call _ _ f _ => f.isSome
  | .equation _ ss _ => ss.length ≤ 1
  | _ => True

/-- An equation of white space alone has one sentence at most. -/
def Node.OneBlank (n : Node) : Prop :=
  ∀ p ss o, .equation p ss o ∈ n.walk → ss.all isBlankRaw = true → ss.length ≤ 1

theorem Node.OneBlank.mono {n m : Node} (h : n.OneBlank) (hsub : m.walk ⊆ n.walk) : m.OneBlank :=
  fun p ss o hmem => h p ss o (hsub hmem)

theorem Node.bound_of_isToken {n : Node} (h : n.isToken = true) : n.Bound lookup := by
  cases n with
  | token => trivial
  | _ => cases h

section Results

variable {symbol : Except Fault Text} {o : Option Operation} {a b r : Result} {v : Scalar}

theorem eq_number_of_toNumber? (h : r.toNumber? = some v) : r = .number v := by
  cases r with
  | number => rw [Option.some.inj h]
  | symbolic => cases h

theorem number_of_applyUnary (h : Evaluation.applyUnary symbol o a = .ok (.number v)) : ∃ x, a = .number x := by
  have hnumber : (a.toNumber?.bind (unaryNumber o)) = some v := by rw [← numberOf_applyUnary symbol, h]; rfl
  obtain ⟨x, hx, -⟩ := Option.bind_eq_some_iff.1 hnumber
  exact ⟨x, eq_number_of_toNumber? hx⟩

theorem number_of_applyBinary (h : Evaluation.applyBinary symbol o a b = .ok (.number v)) :
    (∃ x, a = .number x) ∧ ∃ y, b = .number y := by
  have hnumber : (a.toNumber?.bind fun x => b.toNumber?.bind (binaryNumber o x)) = some v := by
    rw [← numberOf_applyBinary symbol, h]
    rfl
  obtain ⟨x, hx, hnumber⟩ := Option.bind_eq_some_iff.1 hnumber
  obtain ⟨y, hy, -⟩ := Option.bind_eq_some_iff.1 hnumber
  exact ⟨⟨x, eq_number_of_toNumber? hx⟩, y, eq_number_of_toNumber? hy⟩

theorem number_of_numbers? {vs : List Result} {args : List Scalar} (h : Evaluation.numbers? vs = some args) :
    ∀ r ∈ vs, ∃ x, r = .number x := by
  induction vs generalizing args with
  | nil => exact fun r hr => nomatch hr
  | cons w vs ih =>
    rw [Evaluation.numbers?, List.mapM_cons] at h
    obtain ⟨x, hx, h⟩ := Option.bind_eq_some_iff.1 h
    obtain ⟨xs, hxs, -⟩ := Option.bind_eq_some_iff.1 h
    intro r hr
    rcases List.mem_cons.1 hr with rfl | hr
    · exact ⟨x, eq_number_of_toNumber? hx⟩
    · exact ih hxs r hr

/-- A call comes to a number only if its function is known and its arguments are numbers. -/
theorem number_of_applyFunction {name : Text} {f : Option Function} {vs : List Result} {st st' : σ}
    (h : Evaluation.applyFunction host name f vs st = (.ok (.number v), st')) :
    f.isSome ∧ ∀ r ∈ vs, ∃ x, r = .number x := by
  have hsymbolic : ∀ st : σ, (Action.ofExcept (do
      return .symbolic (name ++ '(' :: (← Evaluation.commaTexts vs) ++ [')'])) : Action σ Result) st ≠
        (.ok (.number v), st') := by
    intro st hst
    cases ht : Evaluation.commaTexts vs <;> rw [ht] at hst <;> cases hst
  unfold Evaluation.applyFunction at h
  cases f with
  | none => cases Evaluation.numbers? vs <;> exact absurd h (hsymbolic st)
  | some f =>
    cases hargs : Evaluation.numbers? vs with
    | none =>
      rw [hargs] at h
      exact absurd h (hsymbolic st)
    | some args => exact ⟨rfl, number_of_numbers? hargs⟩

end Results

/-- The node comes to a number, from some state of the host. -/
def ComesToNumber (host : Host σ) (lookup : Reference → Option Scalar) (n : Node) : Prop :=
  ∃ v st st', evaluate host lookup n st = (.ok (.number v), st')

theorem comesToNumber_of_evaluateAll {ns : List Node} {vs : List Result} {st st' : σ}
    (h : evaluateAll host lookup ns st = (.ok vs, st')) (hvs : ∀ r ∈ vs, ∃ x, r = .number x) :
    ∀ n ∈ ns, ComesToNumber host lookup n := by
  induction ns generalizing vs st with
  | nil => exact fun n hn => nomatch hn
  | cons m ns ih =>
    obtain ⟨r, mid, hm, h⟩ := Action.run_bind_ok h
    obtain ⟨rs, mid', hns, h⟩ := Action.run_bind_ok h
    cases h
    obtain ⟨x, rfl⟩ := hvs r List.mem_cons_self
    intro n hn
    rcases List.mem_cons.1 hn with rfl | hn
    · exact ⟨x, st, mid, hm⟩
    · exact ih hns (fun s hs => hvs s (List.mem_cons_of_mem _ hs)) n hn

namespace ComesToNumber

variable {p : Pad} {c s x y : Node} {o : Option Operation} {f : Option Function} {b : Brackets} {ns : List Node}

theorem var {r : Reference} {t : Text} (h : ComesToNumber host lookup (.var p r t)) : (lookup r).isSome := by
  obtain ⟨v, st, st', h⟩ := h
  cases hr : lookup r with
  | some w => rfl
  | none =>
    simp only [evaluate, hr] at h
    cases h

theorem group (h : ComesToNumber host lookup (.group b ns)) : ∃ n, ns = [n] ∧ ComesToNumber host lookup n := by
  obtain ⟨v, st, st', h⟩ := h
  by_cases hlen : ns.length = 1
  · obtain ⟨n, rfl⟩ := List.length_eq_one_iff.1 hlen
    exact ⟨n, rfl, v, st, st', h⟩
  · rw [evaluate_group_literal b hlen] at h
    cases ht : Node.groupLiteral b ns <;> rw [ht] at h <;> cases h

theorem call (h : ComesToNumber host lookup (.call p c f (.group b ns))) :
    f.isSome ∧ ∀ n ∈ ns, ComesToNumber host lookup n := by
  obtain ⟨v, st, st', h⟩ := h
  obtain ⟨vs, mid, hvs, h⟩ := Action.run_bind_ok h
  obtain ⟨hf, hnumbers⟩ := number_of_applyFunction h
  exact ⟨hf, comesToNumber_of_evaluateAll hvs hnumbers⟩

theorem unary (h : ComesToNumber host lookup (.unary p s o x)) : ComesToNumber host lookup x := by
  obtain ⟨v, st, st', h⟩ := h
  obtain ⟨r, mid, hx, h⟩ := Action.run_bind_ok h
  obtain ⟨w, rfl⟩ := number_of_applyUnary (congrArg Prod.fst h)
  exact ⟨w, st, mid, hx⟩

theorem binary (h : ComesToNumber host lookup (.binary p x s o y)) :
    ComesToNumber host lookup x ∧ ComesToNumber host lookup y := by
  obtain ⟨v, st, st', h⟩ := h
  obtain ⟨r, mid, hx, h⟩ := Action.run_bind_ok h
  obtain ⟨r', mid', hy, h⟩ := Action.run_bind_ok h
  obtain ⟨⟨w, rfl⟩, w', rfl⟩ := number_of_applyBinary (congrArg Prod.fst h)
  exact ⟨⟨w, st, mid, hx⟩, w', mid, mid', hy⟩

/-- An equation is white space alone, or has one sentence, which comes to a number. -/
theorem equation {i : Int} (h : ComesToNumber host lookup (.equation p ns i)) :
    ns.all Node.isBlankRaw = true ∨ ∃ n, ns = [n] ∧ n.isRaw = false ∧ ComesToNumber host lookup n := by
  obtain ⟨v, st, st', h⟩ := h
  cases hblank : ns.all Node.isBlankRaw with
  | true => exact .inl rfl
  | false =>
    refine .inr ?_
    by_cases hlen : ns.length = 1
    · obtain ⟨n, rfl⟩ := List.length_eq_one_iff.1 hlen
      refine ⟨n, rfl, ?_⟩
      rcases n.raw_or_not with ⟨t, rfl⟩ | hraw
      · rw [evaluate_equation_raw p i (by simpa [Node.isBlankRaw] using hblank)] at h
        cases h
      · rw [evaluate_equation_single p i hraw] at h
        exact ⟨hraw, v, st, st', h⟩
    · rw [evaluate_equation_texts p i hblank hlen] at h
      obtain ⟨t, mid, -, h⟩ := Action.run_bind_ok h
      cases h

end ComesToNumber

theorem Node.bound_walk_group {b : Brackets} {ps : List Node} (h : ∀ q ∈ ps, ∀ m ∈ q.walk, m.Bound lookup) :
    ∀ m ∈ (Node.group b ps).walk, m.Bound lookup := by
  intro m hm
  cases htoken : m.isToken with
  | true => exact bound_of_isToken htoken
  | false =>
    obtain rfl | ⟨q, hq, hm⟩ := (mem_walk_group htoken).1 hm
    · trivial
    · exact h q hq m hm

/-- **Evaluation is strict**: in a tree that comes to a number all variables are bound, all functions are known, and no equation
has several sentences. -/
theorem bound_of_number {n : Node} (hn : n.Interned) (hblank : n.OneBlank) (h : ComesToNumber host lookup n) :
    ∀ m ∈ n.walk, m.Bound lookup := by
  induction hn with
  | raw t => exact fun m hm => nomatch hm
  | number | identifier =>
    intro m hm
    obtain rfl := List.mem_singleton.1 hm
    trivial
  | var p name =>
    intro m hm
    obtain rfl := List.mem_singleton.1 hm
    exact h.var
  | @group b ps _ ih =>
    obtain ⟨q, rfl, hq⟩ := h.group
    refine Node.bound_walk_group fun q' hq' => ?_
    obtain rfl := List.mem_singleton.1 hq'
    exact ih q' hq' (hblank.mono (Node.walk_subset_group hq' b)) hq
  | @call p q t f b ps _ ih =>
    obtain ⟨hf, hps⟩ := h.call
    intro m hm
    rw [Node.walk_call, List.mem_cons, List.mem_append, Node.walk_identifier, List.mem_singleton] at hm
    obtain rfl | rfl | hm := hm
    · exact hf
    · trivial
    · refine Node.bound_walk_group (fun x hx => ih x hx (hblank.mono ?_) (hps x hx)) m hm
      exact List.Subset.trans (Node.walk_subset_group hx b) (Node.walk_subset_call p _ f _)
  | @unary p s o x _ ih =>
    intro m hm
    rw [Node.walk_unary, List.mem_cons, List.mem_cons] at hm
    obtain rfl | rfl | hm := hm
    · trivial
    · trivial
    · exact ih (hblank.mono (Node.walk_subset_unary p _ o x)) h.unary m hm
  | @binary p x s o y _ _ ihx ihy =>
    intro m hm
    rw [Node.walk_binary, List.mem_cons, List.mem_append, List.mem_cons] at hm
    obtain rfl | hm | rfl | hm := hm
    · trivial
    · exact ihx (hblank.mono (Node.walk_subset_left p x _ o y)) h.binary.1 m hm
    · trivial
    · exact ihy (hblank.mono (Node.walk_subset_right p x _ o y)) h.binary.2 m hm
  | @equation p ss _ o ih =>
    intro m hm
    rw [Node.walk_equation, List.mem_cons, Node.mem_walkAll] at hm
    rcases h.equation with hall | ⟨s, rfl, -, hs⟩
    · obtain rfl | ⟨s, hs, hm⟩ := hm
      · exact hblank p ss o (Node.mem_walk_self rfl) hall
      · have hs : s.isBlankRaw = true := List.all_eq_true.1 hall s hs
        cases s with
        | raw t => cases hm
        | _ => cases hs
    · obtain rfl | ⟨s', hs', hm⟩ := hm
      · exact Nat.le_refl 1
      · obtain rfl := List.mem_singleton.1 hs'
        exact ih s' hs' (hblank.mono (Node.walk_subset_equation hs' p o)) hs m hm

/-! ## Equations of white space -/

theorem Node.all_isBlankRaw_eq {ss ss' : List Node} (h : ss'.map rawText? = ss.map rawText?) :
    ss'.all isBlankRaw = ss.all isBlankRaw := by
  have hblanks : ∀ ns : List Node, ns.all isBlankRaw = (ns.map rawText?).all fun t => t.any Text.allBlank := by
    intro ns
    rw [List.all_map]
    refine List.all_congr rfl fun n => ?_
    cases n <;> rfl
  rw [hblanks, hblanks, h]

theorem Node.OneBlank.of_keepsTexts {n n' : Node} (h : n.OneBlank) (hkeeps : KeepsTexts n n') : n'.OneBlank := by
  intro p ss' o hmem hall
  obtain ⟨ss, hmem, -, hraws⟩ := hkeeps.equations p ss' o hmem
  have hlen : ss'.length = ss.length := by simpa using congrArg List.length hraws
  rw [hlen]
  exact h p ss o hmem (by rw [← all_isBlankRaw_eq hraws, hall])

/-- No two fragments of raw text stand side by side. -/
theorem Node.Tidy.length_le_one {ss : List Node} (h : Tidy ss) (hall : ss.all isBlankRaw = true) : ss.length ≤ 1 := by
  have hraw : ∀ n ∈ ss, n.isRaw = true := by
    intro n hn
    have hblank : n.isBlankRaw = true := List.all_eq_true.1 hall n hn
    cases n with
    | raw t => rfl
    | _ => cases hblank
  rcases ss with - | ⟨m, - | ⟨n, rest⟩⟩
  · simp
  · simp
  · have hapart := (List.isChain_cons_cons.1 h.fused.apart).1
    simp [hraw m, hraw n] at hapart

namespace Formula

theorem oneBlank_parse (resolve : Text → Option Function) {t : Text} (h : (parse ⟨.default, resolve⟩ t).failure = none) :
    (parse ⟨.default, resolve⟩ t).formula.root.OneBlank := by
  obtain ⟨out, hout⟩ := parse_failure_eq_none_iff.1 h
  intro p ss o hmem
  rw [root_parse_of_ok hout] at hmem
  exact (tidy_equations_parseText rfl hout hmem).length_le_one

/-- Simplifications leave raw text where it is. -/
theorem oneBlank_edited {f g : Formula} {t : Text} (hsource : HasSource f t) (hblank : f.root.OneBlank) (hg : Edited f g) :
    g.root.OneBlank := by
  induction hg with
  | self => exact hblank
  | bind _ name v ih => exact ih
  | simplify hg host isVolatile hs ih =>
    obtain ⟨n, mid, hn, hs⟩ := Action.run_bind_ok hs
    cases hs
    exact ih.of_keepsTexts (keepsTexts_of_simplify (hsource.edited hg).bare hn)

/-! ## Formulas -/

variable {f : Formula}

/-- A slot whose variable is bound has a number. -/
theorem unset_eq_nil (h : Tabled f) (hbound : ∀ m ∈ f.root.walk, m.Bound f.lookup) : f.unset = [] := by
  rw [unset, List.map_eq_nil_iff, List.filter_eq_nil_iff]
  intro s hs
  obtain ⟨p, r, hvar⟩ := (h.name_mem_iff s.name).1 (List.mem_map_of_mem hs)
  obtain ⟨rfl, s', hs', hslot, hname⟩ := h.slot_of_var hvar
  obtain rfl : s' = s := List.inj_on_of_nodup_map h.nodup hs' hs hname
  have hlookup : (f.lookup (.table s'.name)).isSome := hbound _ hvar
  rw [lookup, hslot, Option.bind_some] at hlookup
  cases hnumber : s'.value.isNumber with
  | true => simp
  | false => simp [hnumber] at hlookup

theorem code_ne_unknownFunction (hbound : ∀ m ∈ f.root.walk, m.Bound lookup) (allowed : Option (List Text)) :
    ∀ w ∈ f.warnings allowed, w.code ≠ .unknownFunction := by
  intro w hw
  obtain ⟨m, hm, hwarning⟩ := List.mem_filterMap.1 hw
  cases m with
  | call p c g a =>
    have hg : g.isSome := hbound _ hm
    cases g with
    | some g => cases hwarning
    | none => cases hg
  | var p r t =>
    cases allowed with
    | none => cases hwarning
    | some names =>
      simp only [warningOf?] at hwarning
      split at hwarning
      · cases hwarning
      · cases hwarning
        exact WarningCode.noConfusion
  | _ => cases hwarning

/-- **A number means that everything is bound**: when a parsed formula comes to a number, after any bindings and
simplifications, then all its variables have numbers, there is no warning of an unknown function, and every equation in its
tree has one sentence at most. -/
theorem bound_edited (resolve : Text → Option Function) {t : Text} (h : (parse ⟨.default, resolve⟩ t).failure = none)
    (hf : Edited (parse ⟨.default, resolve⟩ t).formula f) {v : Scalar} {st st' : σ}
    (hv : f.value host st = (.ok (.number v), st')) :
    f.unset = [] ∧ (∀ allowed, ∀ w ∈ f.warnings allowed, w.code ≠ .unknownFunction) ∧
      ∀ p ss o, .equation p ss o ∈ f.root.walk → ss.length ≤ 1 := by
  have htabled : Tabled f := (tabled_parse resolve h).edited hf
  have hblank : f.root.OneBlank := oneBlank_edited (hasSource_parse resolve h) (oneBlank_parse resolve h) hf
  have hbound : ∀ m ∈ f.root.walk, m.Bound f.lookup := bound_of_number htabled.interned hblank ⟨v, st, st', hv⟩
  exact ⟨unset_eq_nil htabled hbound, code_ne_unknownFunction hbound, fun p ss o hmem => hbound _ hmem⟩

/-- A product that is folded, a variable that is bound afterwards, and a parameter of white space. -/
theorem bound_edited_max :
    ∃ f v, Edited (parse .default "max(2*3, x , )".toList).formula f ∧
      (parse .default "max(2*3, x , )".toList).failure = none ∧ (f.value quietHost ()).1 = .ok (.number v) ∧ f.unset = [] := by
  generalize ht : "max(2*3, x , )".toList = t
  have h : (parse .default t).failure = none := by
    subst ht
    exact Option.isNone_iff_eq_none.1 (by decide +kernel)
  have hok : (((parse .default t).formula.simplify quietHost Registry.initial.isVolatile ()).1.toOption.any fun g =>
      (numberOf ((g.bind ['x'] (.int 7)).value quietHost ()).1).isSome) = true := by
    subst ht
    decide +kernel
  rcases hs : (parse .default t).formula.simplify quietHost Registry.initial.isVolatile () with ⟨e | g, st⟩
  · rw [hs] at hok
    cases hok
  · rw [hs] at hok
    obtain ⟨v, hv⟩ := Option.isSome_iff_exists.1 hok
    have hf : Edited (parse .default t).formula (g.bind ['x'] (.int 7)) := (Edited.self.simplify quietHost _ hs).bind _ _
    have hvalue := numberOf_eq_some_iff.1 hv
    exact ⟨_, v, hf, h, hvalue, (bound_edited _ h hf (Prod.ext hvalue rfl)).1⟩

end Formula

end FormulaLang
