import FormulaLang.Proofs.Fold.Mapped
import FormulaLang.Proofs.Fold.Spaces
import FormulaLang.Proofs.Spacing.Squeeze

/-!
# Trees without white space

A bare tree has no white space attached to its nodes, squeezed symbols, and no positions and separators (`Node.bare`). What
folding makes of a buffer depends on its visible sentences alone, those that are not white space: with the same visible
sentences, two buffers fold to the same bare trees (`foldTiers_visible`).
-/

namespace FormulaLang

open Precedence (binaryOperators prefixOperators)

variable {resolve : Text → Option Function}

namespace Node

mutual
/-- A tree without white space, positions and separators. -/
def bare : Node → Node
  | raw t => raw (Text.squeeze t)
  | number _ v t => number .none v t
  | identifier _ t => identifier .none t
  | var _ r t => var .none r t
  | token _ k t => token .none k t
  | group b ps => group ⟨.none, b.opener, [], Text.trimLeft b.closer⟩ (bareAll ps)
  | call _ c f a => call .none (bare c) f (bare a)
  | unary _ s o x => unary .none (bare s) o (bare x)
  | binary _ l s o r => binary .none (bare l) (bare s) o (bare r)
  | equation _ ss _ => equation .none (bareAll ss) 0

/-- Trees without white space, positions and separators. -/
def bareAll : List Node → List Node
  | [] => []
  | n :: rest => bare n :: bareAll rest
end

theorem bareAll_eq_map (ss : List Node) : bareAll ss = ss.map bare := by
  induction ss with
  | nil => rfl
  | cons n ss ih => rw [bareAll, ih, List.map_cons]

theorem bare_withPad (n : Node) (p : Pad) : (n.withPad p).bare = n.bare := by
  cases n <;> rfl

theorem isRaw_bare (n : Node) : n.bare.isRaw = n.isRaw := by
  cases n <;> rfl

theorem isBlankRaw_bare (n : Node) : n.bare.isBlankRaw = n.isBlankRaw := by
  cases n with
  | raw t => exact Text.allBlank_squeeze t
  | _ => rfl

theorem name?_bare (n : Node) : n.bare.name? = n.name? := by
  cases n with
  | call p c f a => exact name?_bare c
  | _ => rfl

theorem isBlankRaw_of_not_isRaw {n : Node} (h : n.isRaw = false) : n.isBlankRaw = false := by
  cases n with
  | raw t => cases h
  | _ => rfl

/-! ## Visible sentences -/

/-- The sentences that are not white space, bare. -/
def visible (ss : List Node) : List Node :=
  (ss.filter fun n => !n.isBlankRaw).map bare

@[simp] theorem visible_nil : visible [] = [] := rfl

@[simp] theorem visible_append (xs ys : List Node) : visible (xs ++ ys) = visible xs ++ visible ys := by
  simp [visible]

theorem visible_cons_node {n : Node} (h : n.isRaw = false) (ss : List Node) : visible (n :: ss) = n.bare :: visible ss := by
  simp [visible, isBlankRaw_of_not_isRaw h]

theorem visible_cons_raw (t : Text) (ss : List Node) : visible (raw t :: ss) = raws (Text.squeeze t) ++ visible ss := by
  cases ht : Text.allBlank t with
  | true => simp [visible, isBlankRaw, ht, raws, Text.squeeze_eq_nil_iff.2 ht]
  | false =>
    have hne : Text.squeeze t ≠ [] := fun hnil => by
      rw [Text.squeeze_eq_nil_iff.1 hnil] at ht
      cases ht
    simp [visible, isBlankRaw, ht, raws, hne, bare]

@[simp] theorem visible_raws (t : Text) : visible (raws t) = raws (Text.squeeze t) := by
  unfold raws
  split
  · rename_i ht
    rw [List.isEmpty_iff.1 ht]
    rfl
  · rw [visible_cons_raw, visible_nil, List.append_nil, raws]

theorem visible_eq_nil_iff {ss : List Node} : visible ss = [] ↔ ∀ n ∈ ss, n.isBlankRaw = true := by
  simp [visible]

theorem not_isBlankRaw_of_mem_visible {ss : List Node} : ∀ n ∈ visible ss, n.isBlankRaw = false := by
  intro n hn
  obtain ⟨m, hm, rfl⟩ := List.mem_map.1 hn
  rw [isBlankRaw_bare]
  simpa using (List.mem_filter.1 hm).2

theorem visible_of_forall {ss : List Node} (h : ∀ n ∈ ss, n.isBlankRaw = false) : visible ss = ss.map bare := by
  rw [visible, List.filter_eq_self.2]
  exact fun n hn => by simp [h n hn]

end Node

open Node (visible bare)

/-! ## Rules that overlook white space -/

/-- The shape of a sentence that is not white space. -/
def Element.isVisible : Element → Bool
  | space => false
  | symbol s => (binaryOperators ++ prefixOperators).any fun o => o.symbol == s
  | _ => true

theorem Element.fits_bare {e : Element} (he : e.isVisible = true) (n : Node) : e.fits n.bare = e.fits n := by
  cases e with
  | space => cases he
  | symbol s =>
    cases n with
    | raw t =>
      obtain ⟨o, ho, hs⟩ := List.any_eq_true.1 he
      have hsymbol : IsSymbol s := ⟨o, ho, eq_of_beq hs⟩
      exact hsymbol.isSymbol_squeeze t
    | _ => rfl
  | _ => cases n <;> rfl

/-- The rule makes a new node of sentences that are not white space, one of them no raw text. -/
def Rule.overlooksBlanks (r : Rule) : Bool :=
  !r.keepsNode && r.pattern.all Element.isVisible && r.pattern.any Element.isNode

theorem Rule.commutes_bare {r : Rule} (hr : r.keepsNode = false) : r.Commutes resolve bare := by
  intro matched n h
  cases h with
  | spaceBefore hb => simp [keepsNode, hb] at hr
  | spaceAfter hb => simp [keepsNode, hb] at hr
  | functionCall hb hn => exact .functionCall hb ((Node.name?_bare _).trans hn)
  | variableUse hb => exact .variableUse hb
  | binary hb => exact .binary hb
  | implicit hb => exact .implicit hb
  | unary hb => exact .unary hb

theorem overlooksBlanks_default :
    ∀ t ∈ Grammar.nameTiers ++ Grammar.operatorTiers, ∀ r ∈ t.rules, r.overlooksBlanks = true := by
  decide

/-- **Bare sentences** fold to the bare result. -/
theorem foldTiers_bare {ts : List Tier} (hts : ∀ t ∈ ts, ∀ r ∈ t.rules, r.overlooksBlanks = true) {ss out : List Node}
    (h : (foldTiers ts resolve ss).result = .ok out) : (foldTiers ts resolve (ss.map bare)).result = .ok (out.map bare) := by
  refine foldTiers_map (fun t ht r hr => ?_) h
  have hr' := hts t ht r hr
  simp only [Rule.overlooksBlanks, Bool.and_eq_true, Bool.not_eq_true', List.all_eq_true] at hr'
  exact ⟨fun e he n => Element.fits_bare (hr'.1.2 e he) n, Rule.commutes_bare hr'.1.1⟩

/-- Raw text alone is not folded. -/
theorem foldTiers_of_raws {ts : List Tier} (hts : ∀ t ∈ ts, ∀ r ∈ t.rules, r.pattern.any Element.isNode = true)
    {ss : List Node} (hs : ∀ n ∈ ss, n.isRaw = true) : (foldTiers ts resolve ss).result = .ok ss := by
  induction ts with
  | nil => exact foldTiers_nil_ok_iff.2 rfl
  | cons t ts ih =>
    rw [List.forall_mem_cons] at hts
    have hnone : t.match? ss = none := by
      refine Tier.match?_eq_none_of_unfit fun r hr => ?_
      obtain ⟨e, he, hnode⟩ := List.any_eq_true.1 (hts.1 r hr)
      refine ⟨e, he, fun n hn => Bool.eq_false_iff.2 fun hfits => ?_⟩
      have hraw := hs n hn
      rw [Element.isRaw_of_fits hnode hfits] at hraw
      cases hraw
    exact foldTiers_cons_ok_iff.2 ⟨ss, Tier.result_fold_of_none hnone, ih hts.2⟩

/-! ## Buffers with the same visible sentences -/

/-- The tiers of spaces leave the visible sentences as they are, and nothing else if there are any. -/
theorem visible_foldTiers_spaceTiers {ss out : List Node} (hs : Fused ss)
    (h : (foldTiers Grammar.spaceTiers resolve ss).result = .ok out) (hne : visible ss ≠ []) : out.map bare = visible ss := by
  have hvisible : visible out = visible ss := map_foldTiers_spaceTiers Node.bare_withPad h
  obtain ⟨hfused, halone⟩ := foldTiers_spaceTiers hs h
  have hblank : ∀ n ∈ out, n.isBlankRaw = false := by
    intro n hn
    refine Bool.eq_false_iff.2 fun hb => hne ?_
    have hspace : Element.space.fits n = true := by
      cases n with
      | raw t =>
        have ht : t ≠ [] := by
          rintro rfl
          exact hfused.nonempty hn
        simpa [Element.fits, ht, Node.isBlankRaw] using hb
      | _ => cases hb
    rw [← hvisible, halone n hn hspace, Node.visible_eq_nil_iff, List.forall_mem_singleton]
    exact hb
  rw [← hvisible, Node.visible_of_forall hblank]

/-- **Buffers with the same visible sentences** fold to the same bare trees. -/
theorem foldTiers_visible {ss ss' out : List Node} (hs : Fused ss) (hs' : Fused ss') (heq : visible ss' = visible ss)
    (hne : visible ss ≠ []) (h : (foldTiers Grammar.default.tiers resolve ss).result = .ok out) :
    ∃ out', (foldTiers Grammar.default.tiers resolve ss').result = .ok out' ∧ out'.map bare = out.map bare := by
  have htiers : Grammar.default.tiers = Grammar.spaceTiers ++ (Grammar.nameTiers ++ Grammar.operatorTiers) := by
    rw [← List.append_assoc]
    rfl
  obtain ⟨out', hout'⟩ : ∃ out', (foldTiers Grammar.default.tiers resolve ss').result = .ok out' :=
    foldTiers_ok suits_default ss'
  refine ⟨out', hout', ?_⟩
  rw [htiers] at h hout'
  obtain ⟨mid, hmid, hout⟩ := foldTiers_append_ok_iff.1 h
  obtain ⟨mid', hmid', hout'⟩ := foldTiers_append_ok_iff.1 hout'
  have hsame : mid'.map bare = mid.map bare := by
    rw [visible_foldTiers_spaceTiers hs' hmid' (heq ▸ hne), visible_foldTiers_spaceTiers hs hmid hne, heq]
  have hbare := foldTiers_bare overlooksBlanks_default hout
  rw [← hsame, foldTiers_bare overlooksBlanks_default hout'] at hbare
  exact Except.ok.inj hbare

/-- A buffer in which a node is left has had visible sentences. -/
theorem visible_ne_nil_of_foldTiers {ss out : List Node}
    (h : (foldTiers Grammar.default.tiers resolve ss).result = .ok out) {n : Node} (hn : n ∈ out) (hraw : n.isRaw = false) :
    visible ss ≠ [] := by
  intro hnil
  have hraws : ∀ m ∈ ss, m.isRaw = true := by
    intro m hm
    have hblank := Node.visible_eq_nil_iff.1 hnil m hm
    cases m with
    | raw t => rfl
    | _ => cases hblank
  rw [foldTiers_of_raws (by decide) hraws] at h
  cases h
  rw [hraws n hn] at hraw
  cases hraw

end FormulaLang
