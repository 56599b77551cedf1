import FormulaLang.Proofs.Fold.Total

/-!
# Folding names

What the tiers of names make of a buffer: a name in front of a group becomes a call, and any other name a variable
(`foldTiers_names`).
-/

namespace FormulaLang

variable {resolve : Text → Option Function}

/-- The buffer with a call in the place of every name and the group behind it. -/
def callNames (resolve : Text → Option Function) : List Node → List Node
  | .identifier p t :: .group b ps :: rest =>
    .call .none (.identifier p t) (resolve t) (.group b ps) :: callNames resolve rest
  | n :: rest => n :: callNames resolve rest
  | [] => []

/-- A name as a variable, and any other node as it is. -/
def Node.asVariable : Node → Node
  | .identifier p t => .var p (.table t) t
  | n => n

/-- The tier of calls. -/
def callTier : Tier :=
  ⟨"function".toList, [⟨[.identifier, .group], .functionCall, none⟩]⟩

/-- The tier of variables. -/
def variableTier : Tier :=
  ⟨"variable".toList, [⟨[.identifier], .variableUse, none⟩]⟩

theorem nameTiers_eq : Grammar.nameTiers = [callTier, variableTier] := rfl

theorem suits_callTier : ∀ r ∈ callTier.rules, r.suits = true := by
  decide

theorem suits_variableTier : ∀ r ∈ variableTier.rules, r.suits = true := by
  decide

/-- What a tier of one suitable rule replaces. -/
theorem Tier.builds_of_match? {t : Tier} {r : Rule} (hr : r.suits = true) (ht : t.rules = [r]) {ss : List Node} {m : Match}
    (hm : t.match? ss = some m) {n : Node} (hn : m.rule.build resolve m.window = .ok n) :
    List.Forall₂ (fun e n => e.fits n = true) r.pattern m.window ∧ r.Builds resolve m.window n := by
  have hne : ∀ r' ∈ t.rules, r'.pattern ≠ [] := by
    rw [ht, List.forall_mem_singleton]
    exact Rule.pattern_ne_nil_of_suits hr
  obtain ⟨hrule, hfits⟩ := Tier.forall₂_fits_of_match? hne hm
  rw [ht, List.mem_singleton] at hrule
  rw [hrule] at hfits hn
  exact ⟨hfits, Rule.builds_of_build hn⟩

/-! ## Calls -/

theorem callNames_append {xs : List Node} (ys : List Node) (h : ∀ n ∈ ys.head?, n.isGroup = false) :
    callNames resolve (xs ++ ys) = callNames resolve xs ++ callNames resolve ys := by
  fun_induction callNames resolve xs with
  | case1 p t b ps rest ih => simp [callNames, ih]
  | case2 n rest hn ih =>
    rw [List.cons_append, List.cons_append, ← ih]
    cases n with
    | identifier p t =>
      cases rest with
      | nil =>
        cases ys with
        | nil => rfl
        | cons m ys =>
          have hm := h m rfl
          cases m <;> first | rfl | cases hm
      | cons m rest =>
        cases m with
        | group b ps => exact (hn p t b ps rest rfl rfl).elim
        | _ => rfl
    | _ => rfl
  | case3 => rfl

/-- Where no name stands at the end, a group may follow. -/
theorem callNames_append_of_getLast? {xs : List Node} (ys : List Node) (h : ∀ n ∈ xs.getLast?, n.isIdentifier = false) :
    callNames resolve (xs ++ ys) = callNames resolve xs ++ callNames resolve ys := by
  fun_induction callNames resolve xs with
  | case1 p t b ps rest ih =>
    rw [List.cons_append, List.cons_append, callNames, ih, List.cons_append]
    intro n hn
    refine h n ?_
    rw [List.getLast?_cons_cons, List.getLast?_cons, Option.mem_some_iff, Option.mem_def.1 hn, Option.getD_some]
  | case2 n rest hn ih =>
    cases rest with
    | nil =>
      have hname : n.isIdentifier = false := h n rfl
      cases n <;> first | rfl | cases hname
    | cons m rest =>
      rw [List.getLast?_cons_cons] at h
      have hrest := congrArg (n :: ·) (ih h)
      simp only [List.cons_append] at hrest ⊢
      rw [← hrest]
      cases n with
      | identifier p t =>
        cases m with
        | group b ps => exact (hn p t b ps rest rfl rfl).elim
        | _ => rfl
      | _ => rfl
  | case3 => rfl

theorem callNames_eq_self {ss : List Node} (h : callTier.match? ss = none) : callNames resolve ss = ss := by
  fun_induction callNames resolve ss with
  | case1 p t b ps rest ih =>
    rw [Tier.match?_cons] at h
    cases h
  | case2 n rest hn ih =>
    rw [Tier.match?_cons] at h
    split at h
    · cases h
    · rw [ih (Option.map_eq_none_iff.1 h)]
  | case3 => rfl

/-- What the tier of calls replaces. -/
theorem callTier_replaces {ss : List Node} {m : Match} {n : Node} (hm : callTier.match? ss = some m)
    (hn : m.rule.build resolve m.window = .ok n) :
    ∃ p t b ps, m.window = [.identifier p t, .group b ps] ∧
      n = .call .none (.identifier p t) (resolve t) (.group b ps) := by
  obtain ⟨hfits, hbuilds⟩ := Tier.builds_of_match? (suits_callTier _ List.mem_cons_self) rfl hm hn
  generalize m.window = window at hfits hbuilds
  obtain _ | @⟨_, x, _, _, hx, _ | @⟨_, y, _, _, hy, ⟨⟩⟩⟩ := hfits
  obtain ⟨p, t, rfl⟩ := Element.identifier_of_fits hx
  cases y with
  | group b ps =>
    refine ⟨p, t, b, ps, rfl, ?_⟩
    cases hbuilds with
    | functionCall hb hname =>
      cases hname
      rfl
    | implicit hb | unary hb => cases hb
  | _ => cases hy

/-- **The tier of calls** makes a call of every name in front of a group. -/
theorem fold_callTier (ss : List Node) : (callTier.fold resolve ss).result = .ok (callNames resolve ss) := by
  obtain ⟨out, hout⟩ : ∃ out, (callTier.fold resolve ss).result = .ok out := Tier.fold_ok suits_callTier ss
  have hcalls : callNames resolve ss = out := by
    refine Tier.fold_induction (motive := fun ss out => callNames resolve ss = out) ?_ ?_ hout
    · exact fun ss hm => callNames_eq_self hm
    · intro ss m n out hm hn ih
      obtain ⟨p, t, b, ps, hwindow, rfl⟩ := callTier_replaces hm hn
      have hhead (n : Node) (hn : n.isGroup = false) (ss : List Node) : ∀ m ∈ (n :: ss).head?, m.isGroup = false := by
        intro m hm
        cases Option.mem_some_iff.1 hm
        exact hn
      rw [← Tier.match?_eq_some hm, ← ih, hwindow, List.append_assoc, List.cons_append,
        callNames_append _ (hhead _ rfl _), callNames_append _ (hhead _ rfl _)]
      rfl
  rw [hout, hcalls]

/-! ## Variables -/

theorem map_asVariable_eq_self {ss : List Node} (h : variableTier.match? ss = none) : ss.map Node.asVariable = ss := by
  induction ss with
  | nil => rfl
  | cons n ss ih =>
    rw [Tier.match?_cons] at h
    split at h
    · cases h
    · rename_i hnone
      rw [List.map_cons, ih (Option.map_eq_none_iff.1 h)]
      cases n with
      | identifier p t => cases hnone
      | _ => rfl

/-- **The tier of variables** makes a variable of every name. -/
theorem fold_variableTier (ss : List Node) : (variableTier.fold resolve ss).result = .ok (ss.map Node.asVariable) := by
  obtain ⟨out, hout⟩ : ∃ out, (variableTier.fold resolve ss).result = .ok out := Tier.fold_ok suits_variableTier ss
  have hvariables : ss.map Node.asVariable = out := by
    refine Tier.fold_induction (motive := fun ss out => ss.map Node.asVariable = out) ?_ ?_ hout
    · exact fun ss hm => map_asVariable_eq_self hm
    · intro ss m n out hm hn ih
      obtain ⟨hfits, hbuilds⟩ := Tier.builds_of_match? (suits_variableTier _ List.mem_cons_self) rfl hm hn
      rw [← Tier.match?_eq_some hm, ← ih]
      generalize m.window = window at hfits hbuilds
      obtain _ | ⟨hx, ⟨⟩⟩ := hfits
      cases hbuilds with
      | variableUse hb => simp [Node.asVariable]
  rw [hout, hvariables]

/-- **The tiers of names** make calls, and variables of the other names. -/
theorem foldTiers_names (ss : List Node) :
    (foldTiers Grammar.nameTiers resolve ss).result = .ok ((callNames resolve ss).map Node.asVariable) := by
  rw [nameTiers_eq]
  exact foldTiers_cons_ok_iff.2 ⟨_, fold_callTier ss, foldTiers_cons_ok_iff.2 ⟨_, fold_variableTier _,
    foldTiers_nil_ok_iff.2 rfl⟩⟩

end FormulaLang
