import FormulaLang.Proofs.Literal.RoundTrip
import FormulaLang.Proofs.Simplification.Edits

/-!
# Literals of products without operators

The literal of a plain tree, in which operators may be left out, has round brackets alone, in pairs (`Node.Parsed.literal_paired`).
So it is always a formula, and where no factors run together it has the variables and the results of the tree
(`Formula.parse_literal_product`). Factors that do run together make another formula of it (`Formula.literal_digits`).
-/

namespace FormulaLang

open Pattern (IsName)
open Precedence (Operator)
open Shortest (naturalDigits)

variable {l : Language}

/-! ## Texts in round brackets -/

namespace Nesting

/-- Among round brackets, the text leaves as many of them open as there were. -/
def Paired (t : Text) : Prop :=
  ∀ depth, scan (List.replicate depth .round) t = some (List.replicate depth .round)

namespace Paired

variable {s t : Text}

theorem nil : Paired [] :=
  fun _ => rfl

theorem append (hs : Paired s) (ht : Paired t) : Paired (s ++ t) := by
  intro depth
  rw [scan_append, hs depth, Option.bind_some, ht depth]

theorem of_not_isMark (h : ∀ c ∈ t, isMark c = false) : Paired t := by
  intro depth
  rw [← scan_filter, List.filter_eq_nil_iff.2 (by simpa using h), scan_nil]

theorem bracketed (h : Paired t) : Paired ('(' :: t ++ [')']) := by
  intro depth
  have hopen : check (List.replicate depth .round) '(' = some (List.replicate (depth + 1) .round) := check_opener _ .round
  have hclose : check (List.replicate (depth + 1) .round) ')' = some (List.replicate depth .round) := check_closer _ .round
  simp only [List.cons_append, scan_cons, scan_append, hopen, hclose, h (depth + 1), Option.bind_some, scan_nil]

theorem comma : Paired [','] := by
  intro depth
  have hfits : fits (List.replicate depth .round) = true := by
    cases depth with
    | zero => rfl
    | succ depth => simp [List.replicate_succ, fits]
  simp [check, hfits]

theorem joinWith {us : List Text} (h : ∀ u ∈ us, Paired u) : Paired (Text.joinWith [','] us) := by
  induction us with
  | nil => exact nil
  | cons u us ih =>
    rw [List.forall_mem_cons] at h
    cases us with
    | nil => exact h.1
    | cons v us => exact (h.1.append comma).append (ih h.2)

end Paired

end Nesting

open Nesting (Paired)

/-- **A text in paired round brackets** is a formula. -/
theorem parseText_of_paired (hl : l.grammar = .default) {t : Text} (h : Paired t) :
    ∃ out, (parseText l t).result = .ok out :=
  (parseText_ok_iff hl).2 (Nesting.scan_nil_iff.1 (h 0))

theorem Pattern.IsName.paired {t : Text} (h : IsName t) : Paired t := by
  refine .of_not_isMark fun c hc => Nesting.isMark_of_leafChar (.inl ?_)
  obtain ⟨d, rest, rfl, hd, hrest⟩ := h.shape
  rcases List.mem_cons.1 hc with rfl | hc
  · rcases Bool.or_eq_true_iff.1 hd with hletter | hline
    · exact Pattern.isWord_of_isLetter hletter
    · rw [beq_iff_eq.1 hline]
      decide
  · exact hrest c hc

theorem paired_naturalDigits (k : Nat) : Paired (naturalDigits k) := by
  refine .of_not_isMark fun c hc => Nesting.isMark_of_leafChar (.inl ?_)
  exact Text.isWord_of_isDecimal (Text.isDecimal_of_isDigit (isDigit_of_mem_naturalDigits hc))

/-! ## Plain trees -/

namespace Node

/-- The literals of trees, each of them in paired brackets. -/
theorem literals_paired {ps : List Node} (h : ∀ q ∈ ps, ∃ u, q.literal = .ok u ∧ Paired u) :
    ∃ us, literals ps = .ok us ∧ ∀ u ∈ us, Paired u := by
  induction ps with
  | nil => exact ⟨[], by rw [literals], by simp⟩
  | cons q ps ih =>
    rw [List.forall_mem_cons] at h
    obtain ⟨u, hu, hpaired⟩ := h.1
    obtain ⟨us, hus, hall⟩ := ih h.2
    refine ⟨u :: us, ?_, List.forall_mem_cons.2 ⟨hpaired, hall⟩⟩
    rw [literals, hu, hus]
    rfl

/-- **The literal of a plain tree** is a text in paired round brackets. -/
theorem Parsed.literal_paired {n : Node} (h : n.Parsed l) (hwalk : ∀ m ∈ n.walk, m.isPlain = true ∧ m.Resolved) :
    ∃ u, n.literal = .ok u ∧ Paired u := by
  induction h with
  | number p v t hv =>
    obtain ⟨n, rfl, hn⟩ := int_of_isExplicit (hwalk _ (mem_walk_self rfl)).1
    obtain ⟨k, rfl⟩ := Int.eq_ofNat_of_zero_le (hv n rfl)
    refine ⟨naturalDigits k, ?_, paired_naturalDigits k⟩
    rw [literal, Scalar.text_natural (Int.ofNat_lt.1 hn)]
  | @var p name hname => exact ⟨name, by rw [literal, Reference.name], hname.paired⟩
  | @group b ps _ ih =>
    have hself : (Node.group b ps).isExplicit = true := (hwalk _ (mem_walk_self rfl)).1
    obtain ⟨us, hus, hall⟩ := literals_paired fun q hq => ih q hq fun m hm => hwalk m (walk_subset_group hq b hm)
    refine ⟨_, ?_, (Paired.joinWith hall).bracketed⟩
    rw [literal, Printable.groupLiteral_eq (isRound_of_isExplicit hself) hus]
  | @call p q name hname b ps _ ih =>
    have hsub : (Node.group b ps).walk ⊆ (Node.call p (.identifier q name) (l.resolve name) (.group b ps)).walk :=
      walk_subset_call _ _ _ _
    have hself : (Node.group b ps).isExplicit = true := (hwalk _ (hsub (mem_walk_self rfl))).1
    obtain ⟨us, hus, hall⟩ := literals_paired fun x hx => ih x hx fun m hm => hwalk m (hsub (walk_subset_group hx b hm))
    refine ⟨name ++ ('(' :: Text.joinWith [','] us ++ [')']), ?_, hname.paired.append (Paired.joinWith hall).bracketed⟩
    rw [literal, argumentLiteral, Printable.groupLiteral_eq (isRound_of_isExplicit hself) hus]
    rfl
  | @unary p op hop s hs x _ ih =>
    obtain ⟨u, hu, hpaired⟩ := ih fun m hm => hwalk m (walk_subset_unary _ _ _ _ hm)
    have hsymbol : IsSymbol op.symbol := ⟨op, List.mem_append_right _ hop, rfl⟩
    refine ⟨'(' :: (op.symbol ++ u) ++ [')'], ?_, ((Paired.of_not_isMark fun c hc => (hsymbol.plain c hc).2).append hpaired).bracketed⟩
    rw [literal, hu, symbol, hs]
    rfl
  | @binary p op hop s hs x y _ _ ihx ihy =>
    obtain ⟨u, hu, hpaired⟩ := ihx fun m hm => hwalk m (walk_subset_left _ _ _ _ _ hm)
    obtain ⟨v, hv, hpaired'⟩ := ihy fun m hm => hwalk m (walk_subset_right _ _ _ _ _ hm)
    have hsymbol : IsSymbol op.symbol := ⟨op, List.mem_append_left _ hop, rfl⟩
    have hplain : Paired op.symbol := .of_not_isMark fun c hc => (hsymbol.plain c hc).2
    refine ⟨'(' :: (u ++ (op.symbol ++ v)) ++ [')'], ?_, (hpaired.append (hplain.append hpaired')).bracketed⟩
    rw [literal, hu, hv, symbol, hs]
    simp [bind, Except.bind, pure, Except.pure]
  | @implicit p x y _ _ _ _ ihx ihy =>
    obtain ⟨u, hu, hpaired⟩ := ihx fun m hm => hwalk m (walk_subset_left _ _ _ _ _ hm)
    obtain ⟨v, hv, hpaired'⟩ := ihy fun m hm => hwalk m (walk_subset_right _ _ _ _ _ hm)
    have hempty : (raw []).symbol = .ok [] := rfl
    refine ⟨'(' :: (u ++ v) ++ [')'], ?_, (hpaired.append hpaired').bracketed⟩
    rw [literal, hu, hv, hempty]
    simp [bind, Except.bind, pure, Except.pure]
  | @equation p ss _ o ih =>
    obtain ⟨hself, hname⟩ := hwalk _ (mem_walk_self rfl)
    obtain ⟨n, rfl, hraw⟩ := sentence_of_isExplicit hself
    have hmem : n ∈ [n] := List.mem_cons_self
    obtain ⟨u, hu, hpaired⟩ := ih n hmem hraw (hname n hmem) fun m hm => hwalk m (walk_subset_equation hmem p o hm)
    refine ⟨u, ?_, hpaired⟩
    rw [literal, literals, hu]
    simp [literals, bind, Except.bind, pure, Except.pure]

/-- An equation of two numbers side by side. -/
def isProduct (j k : Nat) : Node → Bool
  | equation _ [binary _ (number _ (.int m) _) (raw []) _ (number _ (.int n) _)] _ => m == j && n == k
  | _ => false

/-- Two numbers side by side are printed as one. -/
theorem literal_of_isProduct {j k : Nat} (hj : j < Scalar.digitBound) (hk : k < Scalar.digitBound) {n : Node}
    (h : n.isProduct j k = true) : n.literal = .ok ('(' :: (naturalDigits j ++ naturalDigits k) ++ [')']) := by
  unfold isProduct at h
  split at h
  · simp only [Bool.and_eq_true, beq_iff_eq] at h
    obtain ⟨rfl, rfl⟩ := h
    have hempty : (raw []).symbol = .ok [] := rfl
    simp only [literal, literals, Scalar.text_natural hj, Scalar.text_natural hk, hempty]
    simp [bind, Except.bind, pure, Except.pure]
  · cases h

end Node

/-! ## Formulas -/

namespace Formula

/-- **The literal of a plain formula** is a formula. Where no factors run together, it has the same variables and the same
results. -/
theorem parse_literal_product (resolve : Text → Option Function) {t : Text}
    (hparse : (parse ⟨.default, resolve⟩ t).failure = none)
    (hplain : ∀ n ∈ (parse ⟨.default, resolve⟩ t).formula.root.walk, n.isPlain = true)
    (harguments : (parse ⟨.default, resolve⟩ t).formula.root.groupsAreArguments = true) :
    ∃ u, (parse ⟨.default, resolve⟩ t).formula.literal = .ok u ∧ (parse ⟨.default, resolve⟩ u).failure = none ∧
      ((∀ n ∈ (parse ⟨.default, resolve⟩ t).formula.root.walk, n.isApart = true) →
        (∀ name, name ∈ (parse ⟨.default, resolve⟩ u).formula.slots.map (·.name) ↔
          name ∈ (parse ⟨.default, resolve⟩ t).formula.slots.map (·.name)) ∧
        ∀ {σ : Type} (host : Host σ) (bindings : List (Text × Value)),
          ((parse ⟨.default, resolve⟩ u).formula.bindEach bindings).value host =
            ((parse ⟨.default, resolve⟩ t).formula.bindEach bindings).value host) := by
  obtain ⟨out, hout⟩ := parse_failure_eq_none_iff.1 hparse
  rw [root_parse_of_ok hout] at hplain harguments ⊢
  obtain ⟨u, hu, hpaired⟩ :=
    (parsed_parseText rfl hout).literal_paired fun m hm => ⟨hplain m hm, resolved_parseText rfl hout m hm⟩
  refine ⟨u, by rw [literal, root_parse_of_ok hout, hu],
    parse_failure_eq_none_iff.2 (parseText_of_paired rfl hpaired), fun hapart => ?_⟩
  obtain ⟨u', hu', ws, hspells, hreads⟩ := (printable_parseText_of_isApart rfl hout hplain hapart harguments).prints rfl
  cases hu.symm.trans hu'
  obtain ⟨n', hout', hvalue, halike⟩ := parseText_of_reads rfl hspells.lexes hreads
  have hroots : (Node.equation .none out 0).Alike (.equation .none [n'] 0) :=
    halike.equation_single (isRaw_of_isValue hvalue) .none 0
  exact parse_alike distinctBrackets_default hout hout' hroots

theorem parse_literal_product_powers :
    ∃ u, (parse .default "2x (y+1) 3 sin(10 e)^2".toList).formula.literal = .ok u ∧ (parse .default u).failure = none ∧
      (∀ name, name ∈ (parse .default u).formula.slots.map (·.name) ↔
        name ∈ (parse .default "2x (y+1) 3 sin(10 e)^2".toList).formula.slots.map (·.name)) ∧
      ∀ {σ : Type} (host : Host σ) (bindings : List (Text × Value)),
        ((parse .default u).formula.bindEach bindings).value host =
          ((parse .default "2x (y+1) 3 sin(10 e)^2".toList).formula.bindEach bindings).value host := by
  generalize ht : "2x (y+1) 3 sin(10 e)^2".toList = t
  have hparse : (parse .default t).failure = none := by
    subst ht
    exact Option.isNone_iff_eq_none.1 (by decide +kernel)
  have hplain : (parse .default t).formula.root.walk.all (·.isPlain) = true := by
    subst ht
    decide +kernel
  have harguments : (parse .default t).formula.root.groupsAreArguments = true := by
    subst ht
    decide +kernel
  have hapart : (parse .default t).formula.root.walk.all (·.isApart) = true := by
    subst ht
    decide +kernel
  obtain ⟨u, hu, hfailure, halike⟩ :=
    parse_literal_product Registry.initial.resolve? hparse (List.all_eq_true.1 hplain) harguments
  exact ⟨u, hu, hfailure, halike (List.all_eq_true.1 hapart)⟩

/-- The digits of two factors run together: the literal of a plain product is another number. -/
theorem literal_digits :
    (parse .default "2 3".toList).failure = none ∧
      (∀ n ∈ (parse .default "2 3".toList).formula.root.walk, n.isPlain = true) ∧
      (parse .default "2 3".toList).formula.root.groupsAreArguments = true ∧
      (∃ n ∈ (parse .default "2 3".toList).formula.root.walk, n.isExplicit = false) ∧
      (parse .default "2 3".toList).formula.literal = .ok "(23)".toList ∧
      ((parse .default "2 3".toList).formula.value quietHost).result () = .ok (.number (.int 6)) ∧
      ((parse .default "(23)".toList).formula.value quietHost).result () = .ok (.number (.int 23)) := by
  generalize ht : "2 3".toList = t
  have hparse : (parse .default t).failure.isNone = true := by
    subst ht
    decide +kernel
  have hplain : (parse .default t).formula.root.walk.all (·.isPlain) = true := by
    subst ht
    decide +kernel
  have harguments : (parse .default t).formula.root.groupsAreArguments = true := by
    subst ht
    decide +kernel
  have hproduct : (parse .default t).formula.root.walk.any (fun n => !n.isExplicit) = true := by
    subst ht
    decide +kernel
  have hroot : (parse .default t).formula.root.isProduct 2 3 = true := by
    subst ht
    decide +kernel
  have hvalue : (numberOf (((parse .default t).formula.value quietHost).result ())).any (Scalar.isInt 6) = true := by
    subst ht
    decide +kernel
  generalize hu : "(23)".toList = u
  have hread : (numberOf (((parse .default u).formula.value quietHost).result ())).any (Scalar.isInt 23) = true := by
    subst hu
    decide +kernel
  -- Equality of results is not decided, their integers are.
  have hresult {e : Except Fault Result} {n : Int} (h : (numberOf e).any (Scalar.isInt n) = true) : e = .ok (.number (.int n)) := by
    obtain ⟨v, hv, hint⟩ := (Option.any_eq_true _ _).1 h
    rw [numberOf_eq_some_iff.1 hv, Scalar.eq_of_isInt hint]
  refine ⟨Option.isNone_iff_eq_none.1 hparse, List.all_eq_true.1 hplain, harguments, ?_, ?_, hresult hvalue, hresult hread⟩
  · simpa using hproduct
  · have hbound : 2 < Scalar.digitBound ∧ 3 < Scalar.digitBound := by decide +kernel
    rw [literal, Node.literal_of_isProduct hbound.1 hbound.2 hroot, ← hu]
    rfl

end Formula

end FormulaLang
