import FormulaLang.Parse.Fold
import Mathlib.Data.Nat.Init

/-!
# Replacements

What a fold does, one replacement at a time.

* The result of a fold without its trace: `Tier.result_fold`, `foldTiers_cons_ok_iff`, `fold_ok_iff`.
* `Rule.Builds` lists everything that a rule can make of the sentences it matched (`Rule.builds_of_build`,
  `Rule.Builds.build_eq`); the node has the source text of these sentences (`Rule.Builds.sourceText`).
-/

namespace FormulaLang

variable {resolve : Text → Option Function}

/-! ## Results without the trace -/

theorem Tier.result_fold (t : Tier) (resolve : Text → Option Function) (ss : List Node) :
    (t.fold resolve ss).result =
      match t.match? ss with
      | none => .ok ss
      | some m =>
        match m.rule.build resolve m.window with
        | .error d => .error ⟨d, ss⟩
        | .ok n => (t.fold resolve (m.before ++ n :: m.after)).result := by
  rw [Tier.fold]
  split
  · rename_i h
    simp [h]
  · rename_i m h
    simp only [h]
    split
    · rename_i d hd
      simp [hd]
    · rename_i n hn
      simp [hn, Traced.result_bind, Except.bind]

theorem Tier.result_fold_of_none {t : Tier} {ss : List Node} (h : t.match? ss = none) :
    (t.fold resolve ss).result = .ok ss := by
  rw [Tier.result_fold, h]

theorem Tier.result_fold_of_build {t : Tier} {ss : List Node} {m : Match} {n : Node} (h : t.match? ss = some m)
    (hn : m.rule.build resolve m.window = .ok n) :
    (t.fold resolve ss).result = (t.fold resolve (m.before ++ n :: m.after)).result := by
  rw [Tier.result_fold, h]
  simp only [hn]

/-- A replacement makes the buffer lighter. -/
theorem Tier.weight_replace_lt {t : Tier} {ss : List Node} {m : Match} {n : Node} (h : t.match? ss = some m)
    (hn : m.rule.build resolve m.window = .ok n) : weight (m.before ++ n :: m.after) < weight ss := by
  rw [← Tier.match?_eq_some h, show m.before ++ n :: m.after = m.before ++ [n] ++ m.after by simp]
  have := Rule.weight_build_lt hn
  simp only [weight_append]
  omega

/-- What holds of buffers without a match, and is kept by a replacement, holds of every fold of a tier that succeeds. -/
theorem Tier.fold_induction {t : Tier} {motive : List Node → List Node → Prop}
    (done : ∀ ss, t.match? ss = none → motive ss ss)
    (replace : ∀ ss m n out, t.match? ss = some m → m.rule.build resolve m.window = .ok n →
      motive (m.before ++ n :: m.after) out → motive ss out)
    {ss out : List Node} (h : (t.fold resolve ss).result = .ok out) : motive ss out := by
  induction hk : weight ss using Nat.strong_induction_on generalizing ss with
  | _ k ih =>
    cases hm : t.match? ss with
    | none =>
      cases (Tier.result_fold_of_none hm).symm.trans h
      exact done _ hm
    | some m =>
      cases hn : m.rule.build resolve m.window with
      | error d => simp [Tier.result_fold t resolve ss, hm, hn] at h
      | ok n =>
        exact replace ss m n out hm hn
          (ih _ (hk ▸ Tier.weight_replace_lt hm hn) (Tier.result_fold_of_build hm hn ▸ h) rfl)

theorem foldTiers_nil_ok_iff {ss out : List Node} : (foldTiers [] resolve ss).result = .ok out ↔ ss = out := by
  simp [foldTiers]

theorem foldTiers_cons_ok_iff {t : Tier} {ts : List Tier} {ss out : List Node} :
    (foldTiers (t :: ts) resolve ss).result = .ok out ↔
      ∃ mid, (t.fold resolve ss).result = .ok mid ∧ (foldTiers ts resolve mid).result = .ok out := by
  rw [foldTiers, Traced.result_bind]
  cases (t.fold resolve ss).result <;> simp [Except.bind]

theorem fold_ok_iff {tiers : List Tier} {ss out : List Node} :
    (fold tiers resolve ss).result = .ok out ↔ (foldTiers tiers resolve ss).result = .ok out := by
  rw [fold, Traced.result_bind]
  cases (foldTiers tiers resolve ss).result <;> simp [Except.bind, Traced.result_bind]

/-- What every replacement keeps, folding keeps. -/
theorem foldTiers_keep {P : List Node → Prop} {ts : List Tier} {ss out : List Node}
    (step : ∀ t ∈ ts, ∀ ss m n, t.match? ss = some m → m.rule.build resolve m.window = .ok n → P ss →
      P (m.before ++ n :: m.after))
    (h : (foldTiers ts resolve ss).result = .ok out) (hs : P ss) : P out := by
  induction ts generalizing ss with
  | nil => exact foldTiers_nil_ok_iff.1 h ▸ hs
  | cons t ts ih =>
    obtain ⟨mid, ht, hf⟩ := foldTiers_cons_ok_iff.1 h
    refine ih (fun u hu => step u (by simp [hu])) hf ?_
    exact Tier.fold_induction (motive := fun ss out => P ss → P out) (fun _ _ hs => hs)
      (fun ss m n out hm hn ih hs => ih (step t (by simp) ss m n hm hn hs)) ht hs

/-! ## What a rule makes -/

/-- The node `n` is what a rule makes of the sentences it matched. -/
inductive Rule.Builds (r : Rule) (resolve : Text → Option Function) : List Node → Node → Prop
  | spaceBefore {t : Text} {n : Node} (hb : r.builder = .spaceBefore) (hn : n.isRaw = false) :
      Builds r resolve [.raw t, n] (n.withPad { n.pad with before := t ++ n.pad.before })
  | spaceAfter {t : Text} {n : Node} (hb : r.builder = .spaceAfter) (hn : n.isRaw = false) :
      Builds r resolve [n, .raw t] (n.withPad { n.pad with after := n.pad.after ++ t })
  | functionCall {callee argument : Node} {name : Text} (hb : r.builder = .functionCall)
      (hn : callee.name? = some name) :
      Builds r resolve [callee, argument] (.call .none callee (resolve name) argument)
  | variableUse {p : Pad} {t : Text} (hb : r.builder = .variableUse) :
      Builds r resolve [.identifier p t] (.var p (.table t) t)
  | binary {left symbol right : Node} (hb : r.builder = .binary) :
      Builds r resolve [left, symbol, right] (.binary .none left symbol r.operation right)
  | implicit {left right : Node} (hb : r.builder = .implicit) :
      Builds r resolve [left, right] (.binary .none left (.raw []) r.operation right)
  | unary {symbol operand : Node} (hb : r.builder = .unary) :
      Builds r resolve [symbol, operand] (.unary .none symbol r.operation operand)

theorem Rule.Builds.build_eq {r : Rule} {matched : List Node} {n : Node} (h : r.Builds resolve matched n) :
    r.build resolve matched = .ok n := by
  cases h with
  | spaceBefore hb hn => simp [Rule.build, hb, hn]
  | spaceAfter hb hn => simp [Rule.build, hb, hn]
  | functionCall hb hn => simp [Rule.build, hb, hn]
  | variableUse hb => simp [Rule.build, hb]
  | binary hb => simp [Rule.build, hb]
  | implicit hb => simp [Rule.build, hb]
  | unary hb => simp [Rule.build, hb]

theorem Rule.builds_of_build {r : Rule} {matched : List Node} {n : Node} (h : r.build resolve matched = .ok n) :
    r.Builds resolve matched n := by
  unfold Rule.build at h
  split at h
  · rename_i hb
    split at h
    · cases h
    · rename_i hn
      split at h
      · cases h
        exact .spaceBefore hb (by simpa using hn)
      · cases h
  · rename_i hb
    split at h
    · cases h
    · rename_i hn
      split at h
      · cases h
        exact .spaceAfter hb (by simpa using hn)
      · cases h
  · rename_i hb
    split at h
    · rename_i hn
      cases h
      exact .functionCall hb hn
    · cases h
  · rename_i hb
    cases h
    exact .variableUse hb
  · cases h
  · rename_i hb
    cases h
    exact .binary hb
  · rename_i hb
    cases h
    exact .implicit hb
  · rename_i hb
    cases h
    exact .unary hb
  · cases h

/-! ## The source text -/

/-- Other white space around the same core text. -/
theorem Node.sourceText_withPad {n : Node} (h : n.isRaw = false) (p : Pad) :
    (n.withPad p).sourceText = p.wrap n.coreText := by
  cases n <;> simp_all [Node.isRaw, Node.withPad, Node.sourceText, Node.coreText]

/-- A replacement keeps the source text. -/
theorem Rule.Builds.sourceText {r : Rule} {matched : List Node} {n : Node} (h : r.Builds resolve matched n) :
    n.sourceText = Node.sourceTexts matched := by
  cases h with
  | @spaceBefore t n hb hn =>
    rw [Node.sourceText_withPad hn]
    simp [Node.sourceTexts, Node.sourceText, Node.sourceText_eq_wrap n, Pad.wrap]
  | @spaceAfter t n hb hn =>
    rw [Node.sourceText_withPad hn]
    simp [Node.sourceTexts, Node.sourceText, Node.sourceText_eq_wrap n, Pad.wrap]
  | functionCall | variableUse | binary | implicit | unary =>
    simp [Node.sourceTexts, Node.sourceText, Pad.wrap, Pad.none]

/-- So the buffer around it keeps its text too. -/
theorem Tier.sourceTexts_replace {t : Tier} {ss : List Node} {m : Match} {n : Node} (h : t.match? ss = some m)
    (hn : m.rule.build resolve m.window = .ok n) :
    Node.sourceTexts (m.before ++ n :: m.after) = Node.sourceTexts ss := by
  have hm := Tier.match?_eq_some h
  have ht := (Rule.builds_of_build hn).sourceText
  calc Node.sourceTexts (m.before ++ n :: m.after)
      = Node.sourceTexts m.before ++ (n.sourceText ++ Node.sourceTexts m.after) := by
        rw [Node.sourceTexts_append, Node.sourceTexts]
    _ = Node.sourceTexts (m.before ++ m.window ++ m.after) := by
        rw [ht, Node.sourceTexts_append, Node.sourceTexts_append, List.append_assoc]
    _ = Node.sourceTexts ss := by rw [hm]

end FormulaLang
