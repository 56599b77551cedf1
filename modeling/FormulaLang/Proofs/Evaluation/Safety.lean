import FormulaLang.Proofs.Evaluation.Determined
import FormulaLang.Proofs.Evaluation.Shape
import FormulaLang.Proofs.Simplification.Agreement

/-!
# What an evaluation can come to

The value of a parsed text under any bindings is a finite number or a symbolic text, or it fails because an integer has too
many digits to be written (`Formula.value_parse`). It can fail so only where a node of the tree comes to such an integer:
operations have their faults taken from them, but the operands of an operation that stays symbolic are written out.

`Meets P E` is what every step of an evaluation is shown to do: its result has the property `P`, its fault has `E`.
-/

namespace FormulaLang

variable {σ α β : Type}

/-! ## Results and faults -/

/-- A result has the property `P`, a fault has `E`. -/
structure Meets (P : α → Prop) (E : Fault → Prop) (x : Except Fault α) : Prop where
  ok : ∀ a, x = .ok a → P a
  error : ∀ e, x = .error e → E e

section Meets

variable {P P' : α → Prop} {Q : β → Prop} {E E' : Fault → Prop}

theorem meets_ok {a : α} (h : P a) : Meets P E (.ok a) where
  ok := by
    intro b hb
    cases hb
    exact h
  error := by
    intro e he
    cases he

theorem meets_error {e : Fault} (h : E e) : Meets P E (.error e) where
  ok := by
    intro a ha
    cases ha
  error := by
    intro d hd
    cases hd
    exact h

theorem Meets.imp {x : Except Fault α} (h : Meets P E x) (hP : ∀ a, x = .ok a → P a → P' a) (hE : ∀ e, E e → E' e) :
    Meets P' E' x :=
  ⟨fun a ha => hP a ha (h.ok a ha), fun e he => hE e (h.error e he)⟩

theorem Meets.bind {x : Except Fault α} {f : α → Except Fault β} (hx : Meets P E x) (hf : ∀ a, P a → Meets Q E (f a)) :
    Meets Q E (x >>= f) := by
  cases x with
  | ok a => exact hf a (hx.ok a rfl)
  | error e => exact meets_error (hx.error e rfl)

/-- From every state of the host a result of the computation has the property `P`, a fault has `E`. -/
def Action.Ensures (P : α → Prop) (E : Fault → Prop) (x : Action σ α) : Prop :=
  ∀ st, Meets P E (x.result st)

/-- The computation comes to `a` from some state of the host. -/
def Action.Gives (x : Action σ α) (a : α) : Prop :=
  ∃ st, x.result st = .ok a

namespace Action

theorem ensures_pure {a : α} (h : P a) : (pure a : Action σ α).Ensures P E :=
  fun _ => meets_ok h

theorem ensures_ofExcept {e : Except Fault α} (h : Meets P E e) : (ofExcept e : Action σ α).Ensures P E :=
  fun _ => h

theorem Ensures.imp {x : Action σ α} (h : x.Ensures P E) (hP : ∀ a, x.Gives a → P a → P' a) (hE : ∀ e, E e → E' e) :
    x.Ensures P' E' :=
  fun st => (h st).imp (fun a ha => hP a ⟨st, ha⟩) hE

/-- A computation in two steps, the second of which starts from a result of the first. -/
theorem Ensures.bind {x : Action σ α} {f : α → Action σ β} (hx : x.Ensures P E) (hf : ∀ a, P a → (f a).Ensures Q E) :
    (x >>= f).Ensures Q E := by
  intro st
  have hst := hx st
  unfold Action.result at hst ⊢
  rw [Action.run_bind]
  rcases hrun : x st with ⟨e | a, mid⟩
  · rw [hrun] at hst
    exact meets_error (hst.error e rfl)
  · rw [hrun] at hst
    exact hf a (hst.ok a rfl) mid

end Action

end Meets

/-! ## Texts of scalars -/

/-- An integer with too many digits to be written. -/
inductive Scalar.Overlong : Scalar → Prop
  | int {n : Int} (h : digitBound ≤ n.natAbs) : Overlong (.int n)

theorem Scalar.wholeLimit_le_digitBound : wholeLimit ≤ digitBound := by
  unfold digitBound
  have hdigits : 21 ≤ maxDigits := by decide
  generalize maxDigits = k at hdigits ⊢
  exact Nat.pow_le_pow_right (by decide : 0 < 10) hdigits

section Written

variable {E : Fault → Prop}

/-- An integer is written unless it is too long. -/
theorem Scalar.meets_intText {n : Int} (h : digitBound ≤ n.natAbs → E .digitLimit) :
    Meets (fun _ => True) E (intText n) := by
  unfold intText
  -- The bound is a number of thousands of digits, which no step below may compute.
  generalize digitBound = bound at h ⊢
  split
  · rename_i hlong
    exact meets_error (h hlong)
  · exact meets_ok True.intro

/-- A scalar is written unless it is an integer that is too long; a double is not written as such an integer. -/
theorem Scalar.meets_text {s : Scalar} (h : s.Overlong → E .digitLimit) : Meets (fun _ => True) E s.text := by
  cases s with
  | bool b => exact meets_ok True.intro
  | int n => exact meets_intText fun hlong => h (.int hlong)
  | float x =>
    rw [Scalar.text]
    split
    · rename_i negative mantissa exponent _
      generalize Binary64.ratio mantissa exponent = ratio
      dsimp only
      split
      · rename_i hwhole
        refine meets_intText fun hlong => ?_
        have hsigned (k : Nat) : (Binary64.signed negative k).natAbs = k := by
          cases negative <;> simp [Binary64.signed]
        rw [hsigned] at hlong
        exact absurd hwhole.2 (Nat.not_lt.2 (wholeLimit_le_digitBound.trans hlong))
      · exact meets_ok True.intro
    · exact meets_ok True.intro

theorem Result.meets_text {v : Result} (h : ∀ s, v = .number s → s.Overlong → E .digitLimit) :
    Meets (fun _ => True) E v.text := by
  cases v with
  | number s => exact Scalar.meets_text (h s rfl)
  | symbolic t => exact meets_ok True.intro

end Written

/-! ## Overlong integers in a tree -/

/-- The results that an evaluation promises: finite numbers and symbolic texts. -/
def Result.Finite (v : Result) : Prop :=
  ∀ s, v = .number s → s.isNumber = true

theorem Result.finite_symbolic (t : Text) : (Result.symbolic t).Finite := by
  intro s h
  cases h

theorem Result.finite_number {s : Scalar} (h : s.isNumber = true) : (Result.number s).Finite := by
  intro s' h'
  cases h'
  exact h

variable {host : Host σ} {lookup : Reference → Option Scalar}

/-- The fault of an integer that is too long to be written, to which a node of the tree comes. -/
def OverlongFault (host : Host σ) (lookup : Reference → Option Scalar) (n : Node) (e : Fault) : Prop :=
  e = .digitLimit ∧ ∃ m ∈ n.walk, ∃ s : Scalar, s.Overlong ∧ (evaluate host lookup m).Gives (.number s)

theorem OverlongFault.mono {m n : Node} {e : Fault} (h : OverlongFault host lookup m e) (hw : m.walk ⊆ n.walk) :
    OverlongFault host lookup n e := by
  obtain ⟨he, x, hx, hlong⟩ := h
  exact ⟨he, x, hw hx, hlong⟩

/-- The fault of a part is the fault of the whole. -/
theorem Meets.ofPart {P : α → Prop} {x : Except Fault α} {m n : Node} (h : Meets P (OverlongFault host lookup m) x)
    (hw : m.walk ⊆ n.walk) : Meets P (OverlongFault host lookup n) x :=
  h.imp (fun _ _ ha => ha) fun _ he => he.mono hw

theorem Action.Ensures.ofPart {P : α → Prop} {x : Action σ α} {m n : Node}
    (h : x.Ensures P (OverlongFault host lookup m)) (hw : m.walk ⊆ n.walk) : x.Ensures P (OverlongFault host lookup n) :=
  fun st => (h st).ofPart hw

/-- The result of a node can be written, unless it is an integer that is too long. -/
theorem meets_text_of_gives {m n : Node} {v : Result} (hm : m ∈ n.walk) (hv : (evaluate host lookup m).Gives v) :
    Meets (fun _ => True) (OverlongFault host lookup n) v.text :=
  Result.meets_text fun s hs hlong => ⟨rfl, m, hm, s, hlong, hs ▸ hv⟩

/-! ## Literals -/

section Literals

variable {E : Fault → Prop}

theorem meets_literals {ns : List Node} (h : ∀ n ∈ ns, Meets (fun _ => True) E n.literal) :
    Meets (fun _ => True) E (Node.literals ns) := by
  induction ns with
  | nil =>
    rw [Node.literals]
    exact meets_ok True.intro
  | cons n ns ih =>
    rw [Node.literals]
    refine (h n List.mem_cons_self).bind fun t _ => ?_
    exact (ih fun m hm => h m (List.mem_cons_of_mem _ hm)).bind fun ts _ => meets_ok True.intro

theorem meets_groupLiteral {b : Brackets} {ps : List Node} (h : ∀ q ∈ ps, Meets (fun _ => True) E q.literal) :
    Meets (fun _ => True) E (Node.groupLiteral b ps) := by
  rw [Node.groupLiteral]
  exact (meets_literals h).bind fun ts _ => meets_ok True.intro

end Literals

/-- A literal that is too long comes to itself. -/
theorem gives_overlong (p : Pad) {v : Scalar} (t : Text) [Nonempty σ] (h : v.Overlong) :
    (evaluate host lookup (.number p v t)).Gives (.number v) := by
  obtain ⟨st⟩ := ‹Nonempty σ›
  cases h with
  | int => exact ⟨st, rfl⟩

/-- The canonical text of an evaluable tree fails for a literal that is too long alone. -/
theorem meets_literal [Nonempty σ] (host : Host σ) (lookup : Reference → Option Scalar) {n : Node} (h : n.Evaluable) :
    Meets (fun _ => True) (OverlongFault host lookup n) n.literal := by
  induction h with
  | number p v t =>
    rw [Node.literal]
    exact Scalar.meets_text fun hlong => ⟨rfl, _, Node.mem_walk_self rfl, v, hlong, gives_overlong p t hlong⟩
  | identifier p t =>
    rw [Node.literal]
    exact meets_ok True.intro
  | var p r t =>
    rw [Node.literal]
    exact meets_ok True.intro
  | group b hps ih =>
    rw [Node.literal]
    exact meets_groupLiteral fun q hq => (ih q hq).ofPart (Node.walk_subset_group hq b)
  | @call p c f b ps hf hps ih =>
    rw [Node.literal, Node.argumentLiteral]
    have hargument :
        Meets (fun _ => True) (OverlongFault host lookup (.call p c f (.group b ps))) (Node.groupLiteral b ps) :=
      meets_groupLiteral fun q hq =>
        (ih q hq).ofPart (List.Subset.trans (Node.walk_subset_group hq b) (Node.walk_subset_call p c f _))
    exact hargument.bind fun t _ => meets_ok True.intro
  | @unary p s o x hx ih =>
    rw [Node.literal]
    exact (ih.ofPart (Node.walk_subset_unary p _ o x)).bind fun t _ => meets_ok True.intro
  | @binary p s o x y hx hy ihx ihy =>
    rw [Node.literal]
    refine (ihx.ofPart (Node.walk_subset_left p x _ o y)).bind fun t _ => ?_
    exact (ihy.ofPart (Node.walk_subset_right p x _ o y)).bind fun t _ => meets_ok True.intro
  | @equation p ss o hss ih =>
    rw [Node.literal]
    refine (meets_literals fun s hs => ?_).bind fun ts _ => meets_ok True.intro
    cases s with
    | raw t =>
      rw [Node.literal]
      exact meets_ok True.intro
    | _ => exact (ih _ hs rfl).ofPart (Node.walk_subset_equation hs p o)

/-! ## Operations and functions -/

section Apply

variable {E : Fault → Prop}

theorem meets_applyUnary (symbol : Text) (o : Option Operation) {v : Result} (hv : Meets (fun _ => True) E v.text) :
    Meets Result.Finite E (Evaluation.applyUnary (.ok symbol) o v) := by
  have hsymbolic : Meets Result.Finite E
      (do return .symbolic ('(' :: (← Except.ok symbol) ++ (← v.text) ++ [')'])) :=
    hv.bind fun t _ => meets_ok (Result.finite_symbolic _)
  unfold Evaluation.applyUnary
  cases v with
  | symbolic t => exact hsymbolic
  | number x =>
    dsimp only
    split
    · rename_i r hr
      exact meets_ok (Result.finite_number (isNumber_of_unaryNumber hr))
    · exact hsymbolic

theorem meets_applyBinary (symbol : Text) (o : Option Operation) {v w : Result} (hv : Meets (fun _ => True) E v.text)
    (hw : Meets (fun _ => True) E w.text) : Meets Result.Finite E (Evaluation.applyBinary (.ok symbol) o v w) := by
  have hsymbolic : Meets Result.Finite E (do
      let left ← v.text
      let symbol ← Except.ok symbol
      return .symbolic ('(' :: left ++ symbol ++ (← w.text) ++ [')'])) :=
    hv.bind fun left _ => hw.bind fun right _ => meets_ok (Result.finite_symbolic _)
  unfold Evaluation.applyBinary
  cases v with
  | symbolic t => exact hsymbolic
  | number x =>
    cases w with
    | symbolic t => exact hsymbolic
    | number y =>
      dsimp only
      split
      · rename_i r hr
        exact meets_ok (Result.finite_number (isNumber_of_binaryNumber hr))
      · exact hsymbolic

theorem meets_commaTexts {vs : List Result} (h : ∀ v ∈ vs, Meets (fun _ => True) E v.text) :
    Meets (fun _ => True) E (Evaluation.commaTexts vs) := by
  have hmapM : Meets (fun _ => True) E (vs.mapM Result.text) := by
    induction vs with
    | nil => exact meets_ok True.intro
    | cons v vs ih =>
      rw [List.mapM_cons]
      refine (h v List.mem_cons_self).bind fun t _ => ?_
      exact (ih fun w hw => h w (List.mem_cons_of_mem _ hw)).bind fun ts _ => meets_ok True.intro
  exact hmapM.bind fun ts _ => meets_ok True.intro

/-- Every draw of the host gives a number. -/
def Host.Draws (host : Host σ) : Prop :=
  ∀ st, ∃ x, host.random.result st = .ok x

/-- A function that is not the caller's own fails with calculation faults alone. -/
theorem calculates_call (hdraws : host.Draws) {f : Function} (hf : f.isCustom = false) (args : List Value) (st : σ) :
    Calculates ((f.call host args).result st) := by
  cases f with
  | builtin f => exact f.calculates_apply args
  | custom handle => cases hf
  | standard f =>
    by_cases hrandom : f = .random ∧ args = []
    · obtain ⟨rfl, rfl⟩ := hrandom
      obtain ⟨x, hx⟩ := hdraws st
      rcases hrun : host.random st with ⟨e | y, mid⟩
      · simp [Action.result, hrun] at hx
      · have hcall : (Function.call host (.standard .random) []).result st = .ok (.float y) := by
          show ((host.random >>= fun y => pure (Value.float y)) st).1 = .ok (.float y)
          rw [Action.run_bind, hrun]
          rfl
        rw [hcall]
        exact .ok _
    · have hcall : Function.call host (.standard f) args = Action.ofExcept (f.apply args) := by
        unfold Function.call
        split <;> simp_all
      rw [hcall]
      exact f.calculates_apply args

theorem result_attempt_ok {x : Action σ Value} {st : σ} {v : Value} (h : x.result st = .ok v) :
    (Evaluation.attempt x).result st = .ok v.toNumber? := by
  rcases hx : x st with ⟨r, mid⟩
  obtain rfl : r = .ok v := by rw [← h, Action.result, hx]
  show (Evaluation.attempt x st).1 = _
  simp only [Evaluation.attempt, ExceptT.mk, ExceptT.run, bind, StateT.bind, hx]
  rfl

theorem result_attempt_error {x : Action σ Value} {st : σ} {e : Fault} (h : x.result st = .error e)
    (he : e.isCalculation = true) : (Evaluation.attempt x).result st = .ok none := by
  rcases hx : x st with ⟨r, mid⟩
  obtain rfl : r = .error e := by rw [← h, Action.result, hx]
  show (Evaluation.attempt x st).1 = _
  simp only [Evaluation.attempt, ExceptT.mk, ExceptT.run, bind, StateT.bind, hx, he, if_true]
  rfl

/-- A calculation that is attempted gives a number or nothing. -/
theorem ensures_attempt {x : Action σ Value} (h : ∀ st, Calculates (x.result st)) :
    (Evaluation.attempt x).Ensures (fun r => ∀ s ∈ r, s.isNumber = true) E := by
  intro st
  have hst := h st
  cases hx : x.result st with
  | ok v =>
    rw [result_attempt_ok hx]
    exact meets_ok fun s hs => isNumber_of_toNumber? hs
  | error e =>
    rw [hx] at hst
    rw [result_attempt_error hx (hst e rfl)]
    exact meets_ok (by simp)

theorem ensures_applyFunction (hdraws : host.Draws) (name : Text) {f : Option Function}
    (hf : ∀ g ∈ f, g.isCustom = false) {vs : List Result} (hvs : ∀ v ∈ vs, Meets (fun _ => True) E v.text) :
    (Evaluation.applyFunction host name f vs).Ensures Result.Finite E := by
  have hsymbolic : Action.Ensures (σ := σ) Result.Finite E
      (Action.ofExcept do return .symbolic (name ++ '(' :: (← Evaluation.commaTexts vs) ++ [')'])) :=
    Action.ensures_ofExcept ((meets_commaTexts hvs).bind fun t _ => meets_ok (Result.finite_symbolic _))
  unfold Evaluation.applyFunction
  split
  · rename_i g args _
    refine (ensures_attempt fun st => calculates_call hdraws (hf g rfl) _ st).bind fun r hr => ?_
    cases r with
    | none => exact hsymbolic
    | some s => exact Action.ensures_pure (Result.finite_number (hr s rfl))
  · exact hsymbolic

end Apply

/-! ## Evaluation -/

section Evaluate

variable {n : Node}

/-- What the parts of a node are shown to come to: finite results that can be written. -/
theorem Action.Ensures.written {m : Node} (h : (evaluate host lookup m).Ensures Result.Finite (OverlongFault host lookup m))
    (hm : m.Evaluable) (hw : m.walk ⊆ n.walk) :
    (evaluate host lookup m).Ensures (fun v => v.Finite ∧ Meets (fun _ => True) (OverlongFault host lookup n) v.text)
      (OverlongFault host lookup n) :=
  h.imp (fun _ hv hfinite => ⟨hfinite, meets_text_of_gives (hw (Node.mem_walk_self hm.isRaw_eq)) hv⟩)
    fun _ he => he.mono hw

theorem ensures_evaluateAll {ns : List Node}
    (h : ∀ m ∈ ns, (evaluate host lookup m).Ensures Result.Finite (OverlongFault host lookup m))
    (hns : ∀ m ∈ ns, m.Evaluable) (hw : ∀ m ∈ ns, m.walk ⊆ n.walk) :
    (evaluateAll host lookup ns).Ensures (fun vs => ∀ v ∈ vs, Meets (fun _ => True) (OverlongFault host lookup n) v.text)
      (OverlongFault host lookup n) := by
  induction ns with
  | nil => exact Action.ensures_pure (by simp)
  | cons m ns ih =>
    simp only [List.forall_mem_cons] at h hns hw
    rw [evaluateAll_cons]
    refine (h.1.written hns.1 hw.1).bind fun v hv => ?_
    refine (ih h.2 hns.2 hw.2).bind fun vs hvs => ?_
    exact Action.ensures_pure (List.forall_mem_cons.2 ⟨hv.2, hvs⟩)

theorem ensures_evaluateTexts {ss : List Node}
    (h : ∀ s ∈ ss, s.isRaw = false → (evaluate host lookup s).Ensures Result.Finite (OverlongFault host lookup s))
    (hss : ∀ s ∈ ss, s.EvaluableSentence) (hw : ∀ s ∈ ss, s.walk ⊆ n.walk) :
    (evaluateTexts host lookup ss).Ensures (fun _ => True) (OverlongFault host lookup n) := by
  induction ss with
  | nil => exact Action.ensures_pure True.intro
  | cons s ss ih =>
    simp only [List.forall_mem_cons] at h hss hw
    have hs : (sentenceText host lookup s).Ensures (fun _ => True) (OverlongFault host lookup n) := by
      cases hraw : s.isRaw with
      | true =>
        cases s with
        | raw t => exact Action.ensures_pure True.intro
        | _ => cases hraw
      | false =>
        have hsentence : sentenceText host lookup s =
            evaluate host lookup s >>= fun v => Action.ofExcept v.text := by
          cases s with
          | raw t => cases hraw
          | _ => rfl
        rw [hsentence]
        exact ((h.1 hraw).written (hss.1 hraw) hw.1).bind fun v hv => Action.ensures_ofExcept hv.2
    rw [evaluateTexts_cons]
    refine hs.bind fun t _ => (ih h.2 hss.2 hw.2).bind fun ts _ => ?_
    exact Action.ensures_pure True.intro

/-- A group of one parameter comes to what the parameter comes to; any other one is written. -/
theorem ensures_group (b : Brackets) {ps : List Node} (hps : ∀ q ∈ ps, q.Evaluable)
    (h : ∀ q ∈ ps, (evaluate host lookup q).Ensures Result.Finite (OverlongFault host lookup q)) :
    (evaluate host lookup (.group b ps)).Ensures Result.Finite (OverlongFault host lookup (.group b ps)) := by
  by_cases hlen : ps.length = 1
  · obtain ⟨q, rfl⟩ := List.length_eq_one_iff.1 hlen
    rw [evaluate_group_single]
    exact (h q (by simp)).ofPart (Node.walk_subset_group (by simp) b)
  · rw [evaluate_group_literal b hlen]
    intro st
    have hstate : Nonempty σ := ⟨st⟩
    have hliteral : Meets (fun _ => True) (OverlongFault host lookup (.group b ps)) (Node.groupLiteral b ps) :=
      meets_groupLiteral fun q hq => (meets_literal host lookup (hps q hq)).ofPart (Node.walk_subset_group hq b)
    exact hliteral.bind fun t _ => meets_ok (Result.finite_symbolic t)

/-- A blank equation comes to zero, one sentence to what it comes to alone; several sentences are written. -/
theorem ensures_equation (p : Pad) {ss : List Node} (o : Int) (hss : ∀ s ∈ ss, s.EvaluableSentence)
    (h : ∀ s ∈ ss, s.isRaw = false → (evaluate host lookup s).Ensures Result.Finite (OverlongFault host lookup s)) :
    (evaluate host lookup (.equation p ss o)).Ensures Result.Finite (OverlongFault host lookup (.equation p ss o)) := by
  by_cases hblank : ss.all Node.isBlankRaw = true
  · rw [evaluate_equation_blank p o hblank]
    exact Action.ensures_pure (Result.finite_number rfl)
  by_cases hlen : ss.length = 1
  · obtain ⟨s, rfl⟩ := List.length_eq_one_iff.1 hlen
    cases hraw : s.isRaw with
    | false =>
      rw [evaluate_equation_single p o hraw]
      exact (h s (by simp) hraw).ofPart (Node.walk_subset_equation (by simp) p o)
    | true =>
      cases s with
      | raw t =>
        rw [evaluate_equation_raw p o (by simpa [Node.isBlankRaw] using hblank)]
        exact Action.ensures_pure (Result.finite_symbolic t)
      | _ => cases hraw
  · rw [evaluate_equation_texts p o (by simpa using hblank) hlen]
    refine (ensures_evaluateTexts h hss fun s hs => Node.walk_subset_equation hs p o).bind fun t _ => ?_
    exact Action.ensures_pure (Result.finite_symbolic t)

/-- **An evaluable tree** comes to a finite number or a symbolic text, or fails because a node of it comes to an integer
that is too long to be written. -/
theorem ensures_evaluate (hdraws : host.Draws) (hlookup : ∀ r s, lookup r = some s → s.isNumber = true) (h : n.Evaluable) :
    (evaluate host lookup n).Ensures Result.Finite (OverlongFault host lookup n) := by
  induction h with
  | number p v t =>
    rw [evaluate_number]
    split
    · rename_i hv
      exact Action.ensures_pure (Result.finite_number hv)
    · exact Action.ensures_pure (Result.finite_symbolic t)
  | identifier p t => exact Action.ensures_pure (Result.finite_symbolic t)
  | var p r t =>
    rw [evaluate]
    cases hr : lookup r with
    | none => exact Action.ensures_pure (Result.finite_symbolic _)
    | some v => exact Action.ensures_pure (Result.finite_number (hlookup r v hr))
  | @group b ps hps ih => exact ensures_group b hps ih
  | @call p c f b ps hf hps ih =>
    rw [evaluate_call, evaluateArguments_group]
    have hw : ∀ q ∈ ps, q.walk ⊆ (Node.call p c f (.group b ps)).walk := fun q hq =>
      List.Subset.trans (Node.walk_subset_group hq b) (Node.walk_subset_call p c f _)
    exact (ensures_evaluateAll ih hps hw).bind fun vs hvs => ensures_applyFunction hdraws _ hf hvs
  | @unary p s o x hx ih =>
    rw [evaluate_unary]
    refine (ih.written hx (Node.walk_subset_unary p _ o x)).bind fun v hv => ?_
    exact Action.ensures_ofExcept (meets_applyUnary _ o hv.2)
  | @binary p s o x y hx hy ihx ihy =>
    rw [evaluate_binary]
    refine (ihx.written hx (Node.walk_subset_left p x _ o y)).bind fun v hv => ?_
    refine (ihy.written hy (Node.walk_subset_right p x _ o y)).bind fun w hw => ?_
    exact Action.ensures_ofExcept (meets_applyBinary _ o hv.2 hw.2)
  | @equation p ss o hss ih => exact ensures_equation p o hss ih

end Evaluate

/-! ## Parsed formulas -/

namespace Formula

/-- Binds names one after another. -/
def bindEach (f : Formula) : List (Text × Value) → Formula
  | [] => f
  | (name, v) :: rest => (f.bind name v).bindEach rest

theorem root_bindEach (f : Formula) (bindings : List (Text × Value)) : (f.bindEach bindings).root = f.root := by
  induction bindings generalizing f with
  | nil => rfl
  | cons b rest ih => exact ih _

/-- A formula gives its variables numbers alone. -/
theorem isNumber_of_lookup {f : Formula} {r : Reference} {s : Scalar} (h : f.lookup r = some s) : s.isNumber = true := by
  cases r with
  | loose name => cases h
  | table name =>
    obtain ⟨slot, -, hslot⟩ := Option.bind_eq_some_iff.1 h
    split at hslot
    · rename_i hv
      obtain ⟨slotName, v⟩ := slot
      cases v with
      | scalar w =>
        cases hslot
        exact hv
      | _ => cases hslot
    · cases hslot

/-- **Evaluation** of a parsed text under any bindings gives a finite number or a symbolic text, unless a node of the tree
comes to an integer with too many digits to be written; then it may fail, but in no other way. -/
theorem value_parse {host : Host σ} (hdraws : host.Draws) {t : Text} (ht : (parse .default t).failure = none)
    (bindings : List (Text × Value)) (st : σ) :
    let f := (parse .default t).formula.bindEach bindings
    (∃ v, (f.value host).result st = .ok v ∧ v.Finite) ∨
      (f.value host).result st = .error .digitLimit ∧
        ∃ n ∈ f.root.walk, ∃ s : Scalar, s.Overlong ∧ (f.valueOf host n).Gives (.number s) := by
  intro f
  obtain ⟨out, hout⟩ := parse_failure_eq_none_iff.1 ht
  have hroot : f.root = .equation .none out 0 := (root_bindEach _ _).trans (root_parse_of_ok hout)
  have hcustom : ∀ name, ∀ g ∈ Language.default.resolve name, g.isCustom = false :=
    fun name g hg => Registry.isCustom_of_resolve? hg
  have hevaluable : f.root.Evaluable := hroot ▸ .equation _ _ (evaluable_parseText rfl hcustom hout)
  have hlookup : ∀ r s, f.lookup r = some s → s.isNumber = true := fun r s => isNumber_of_lookup
  have hvalue : Meets Result.Finite (OverlongFault host f.lookup f.root) ((f.value host).result st) :=
    ensures_evaluate hdraws hlookup hevaluable st
  cases hresult : (f.value host).result st with
  | ok v => exact .inl ⟨v, rfl, hvalue.ok v hresult⟩
  | error e =>
    obtain ⟨rfl, n, hn, s, hlong, hs⟩ := hvalue.error e hresult
    exact .inr ⟨rfl, n, hn, s, hlong, hs⟩

/-- A host that draws zero again and again and has no functions of its own. -/
def zeroHost : Host Unit :=
  ⟨pure 0, fun _ _ => throw .argument⟩

theorem value_parse_sum :
    zeroHost.Draws ∧ (parse .default "2*x+y".toList).failure = none ∧
      let f := (parse .default "2*x+y".toList).formula.bindEach [(['x'], .int 3)]
      (∃ v, (f.value zeroHost).result () = .ok v ∧ v.Finite) ∨
        (f.value zeroHost).result () = .error .digitLimit ∧
          ∃ n ∈ f.root.walk, ∃ s : Scalar, s.Overlong ∧ (f.valueOf zeroHost n).Gives (.number s) := by
  have hdraws : zeroHost.Draws := fun _ => ⟨0, rfl⟩
  have hparse : (parse .default "2*x+y".toList).failure = none := Option.isNone_iff_eq_none.1 (by decide +kernel)
  exact ⟨hdraws, hparse, value_parse hdraws hparse [(['x'], .int 3)] ()⟩

/-- An integer that is too long to be written makes an evaluation fail where it is the operand of a symbolic operation. -/
theorem value_factorial_digitLimit :
    (parse .default "factorial(1600)+y".toList).failure = none ∧
      ((parse .default "factorial(1600)+y".toList).formula.value zeroHost).result () = .error .digitLimit := by
  generalize ht : "factorial(1600)+y".toList = t
  have hparse : (parse .default t).failure.isNone = true := by
    subst ht
    decide +kernel
  -- The fault of the result, since equality of results is not decided.
  have hfault : tryCatch ((((parse .default t).formula.value zeroHost).result ()).map fun _ => none) (fun e => .ok (some e)) =
      .ok (some Fault.digitLimit) := by
    subst ht
    decide +kernel
  refine ⟨Option.isNone_iff_eq_none.1 hparse, ?_⟩
  cases hresult : ((parse .default t).formula.value zeroHost).result () with
  | ok v =>
    rw [hresult] at hfault
    cases hfault
  | error e =>
    rw [hresult] at hfault
    cases hfault
    rfl

end Formula

end FormulaLang
