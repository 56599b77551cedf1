import FormulaLang.Proofs.Fold.Names
import FormulaLang.Proofs.Parse.Atoms

/-!
# White space in a buffer

The tiers of spaces give raw white space to the nodes beside it. In a fused buffer nothing but a node stands beside white
space, so none of it is left unless it is all there is (`foldTiers_spaceTiers`), and the other sentences stay but for the white
space attached to them (`map_foldTiers_spaceTiers`). No later tier brings raw text up or puts two raw fragments side by side
(`raw_mem_of_foldTiers`, `fused_foldTiers`).
-/

namespace FormulaLang

variable {resolve : Text → Option Function}

/-! ## Buffers without a match -/

/-- Where a tier has no match, none of its rules matches at any sentence. -/
theorem Tier.matchesHere_eq_false {t : Tier} {xs ys : List Node} (h : t.match? (xs ++ ys) = none) (hy : ys ≠ []) :
    ∀ r ∈ t.rules, Rule.matchesHere r.pattern ys = false := by
  induction xs with
  | nil =>
    obtain ⟨n, ss, rfl⟩ := List.exists_cons_of_ne_nil hy
    rw [List.nil_append, Tier.match?_cons] at h
    split at h
    · cases h
    · rename_i hnone
      simpa using hnone
  | cons n xs ih =>
    rw [List.cons_append, Tier.match?_cons] at h
    split at h
    · cases h
    · exact ih (Option.map_eq_none_iff.1 h)

/-! ## The tiers of spaces -/

/-- White space goes to the node behind it. -/
abbrev spaceBeforeTier : Tier := ⟨"space-before".toList, [⟨[.space, .node], .spaceBefore, none⟩]⟩

/-- White space goes to the node before it. -/
abbrev spaceAfterTier : Tier := ⟨"space-after".toList, [⟨[.node, .space], .spaceAfter, none⟩]⟩

theorem spaceTiers_eq : Grammar.spaceTiers = [spaceBeforeTier, spaceAfterTier] := rfl

/-- Everything but raw text is a node. -/
theorem Element.node_fits_iff {n : Node} : Element.node.fits n = true ↔ n.isRaw = false := by
  cases n <;> simp [fits, Node.isRaw]

theorem Element.isRaw_of_fits_space {n : Node} (h : Element.space.fits n = true) : n.isRaw = true := by
  obtain ⟨t, rfl⟩ := raw_of_fits_space h
  rfl

theorem Node.isBlankRaw_of_fits_space {n : Node} (h : Element.space.fits n = true) : n.isBlankRaw = true := by
  obtain ⟨t, rfl⟩ := Element.raw_of_fits_space h
  rw [Element.fits, Bool.and_eq_true] at h
  exact h.2

/-- What the first tier of spaces replaces: white space and the node behind it. -/
theorem spaceBeforeTier_replaces {ss : List Node} {m : Match} {n : Node} (hm : spaceBeforeTier.match? ss = some m)
    (hn : m.rule.build resolve m.window = .ok n) :
    ∃ s k p, m.window = [s, k] ∧ Element.space.fits s = true ∧ k.isRaw = false ∧ n = k.withPad p := by
  obtain ⟨hfits, hbuilds⟩ := Tier.builds_of_match? (by decide) rfl hm hn
  generalize m.window = window at hfits hbuilds
  obtain _ | ⟨hspace, _ | ⟨hnode, ⟨⟩⟩⟩ := hfits
  cases hbuilds with
  | spaceBefore hb hraw => exact ⟨_, _, _, rfl, hspace, hraw, rfl⟩
  | spaceAfter hb | functionCall hb | implicit hb | unary hb => cases hb

/-- What the second tier of spaces replaces: a node and the white space behind it. -/
theorem spaceAfterTier_replaces {ss : List Node} {m : Match} {n : Node} (hm : spaceAfterTier.match? ss = some m)
    (hn : m.rule.build resolve m.window = .ok n) :
    ∃ k s p, m.window = [k, s] ∧ Element.space.fits s = true ∧ k.isRaw = false ∧ n = k.withPad p := by
  obtain ⟨hfits, hbuilds⟩ := Tier.builds_of_match? (by decide) rfl hm hn
  generalize m.window = window at hfits hbuilds
  obtain _ | ⟨hnode, _ | ⟨hspace, ⟨⟩⟩⟩ := hfits
  cases hbuilds with
  | spaceAfter hb hraw => exact ⟨_, _, _, rfl, hspace, hraw, rfl⟩
  | spaceBefore hb | functionCall hb | implicit hb | unary hb => cases hb

/-- A window gives way to a node. -/
theorem Fused.replace {xs window ys : List Node} {n : Node} (h : Fused (xs ++ window ++ ys)) (hn : n.isRaw = false) :
    Fused (xs ++ n :: ys) := by
  refine .append_node hn (h.of_infix ?_) (h.of_infix ?_)
  · exact ⟨[], window ++ ys, by simp⟩
  · exact ⟨xs ++ window, [], by simp⟩

theorem Node.isRaw_withPad (k : Node) (p : Pad) : (k.withPad p).isRaw = k.isRaw := by
  cases k <;> rfl

/-- Raw white space stands at the end alone. -/
def BlanksLast (ss : List Node) : Prop :=
  ∀ s ∈ ss.dropLast, Element.space.fits s = false

/-- Raw white space is the whole buffer, if there is any. -/
def BlanksAlone (ss : List Node) : Prop :=
  ∀ s ∈ ss, Element.space.fits s = true → ss = [s]

theorem blanksLast_of_match? {ss : List Node} (hs : Fused ss) (h : spaceBeforeTier.match? ss = none) : BlanksLast ss := by
  intro s hmem
  refine Bool.eq_false_iff.2 fun hspace => ?_
  obtain ⟨xs, ys, hsplit⟩ := List.append_of_mem hmem
  have hne : ss ≠ [] := by
    rintro rfl
    cases hmem
  obtain ⟨k, zs, hk⟩ := List.exists_cons_of_ne_nil (l := ys ++ [ss.getLast hne]) (by simp)
  have hss : ss = xs ++ s :: k :: zs := by
    rw [← hk, ← List.cons_append, ← List.append_assoc, ← hsplit, List.dropLast_append_getLast]
  rw [hss] at hs h
  have hnode : k.isRaw = false := by
    have happart := (List.isChain_cons_cons.1 (List.isChain_append.1 hs.apart).2.1).1
    exact happart.resolve_left (by simp [Element.isRaw_of_fits_space hspace])
  have hnone := Tier.matchesHere_eq_false h (List.cons_ne_nil _ _) _ List.mem_cons_self
  simp [Rule.matchesHere, hspace, Element.node_fits_iff.2 hnode] at hnone

theorem blanksAlone_of_match? {ss : List Node} (hs : Fused ss) (hlast : BlanksLast ss)
    (h : spaceAfterTier.match? ss = none) : BlanksAlone ss := by
  intro s hmem hspace
  obtain ⟨xs, ys, rfl⟩ := List.append_of_mem hmem
  obtain rfl : ys = [] := by
    refine Decidable.not_not.1 fun hne => ?_
    have hfalse := hlast s (by rw [List.dropLast_append_of_ne_nil (by simp), List.dropLast_cons_of_ne_nil hne]; simp)
    rw [hspace] at hfalse
    cases hfalse
  rcases List.eq_nil_or_concat' xs with rfl | ⟨xs, k, rfl⟩
  · rfl
  · rw [List.append_assoc, List.singleton_append] at hs h
    have hnode : k.isRaw = false := by
      have happart := (List.isChain_cons_cons.1 (List.isChain_append.1 hs.apart).2.1).1
      exact happart.resolve_right (by simp [Element.isRaw_of_fits_space hspace])
    have hnone := Tier.matchesHere_eq_false h (List.cons_ne_nil _ _) _ List.mem_cons_self
    simp [Rule.matchesHere, hspace, Element.node_fits_iff.2 hnode] at hnone

theorem fold_spaceBeforeTier {ss out : List Node} (h : (spaceBeforeTier.fold resolve ss).result = .ok out) :
    Fused ss → Fused out ∧ BlanksLast out := by
  refine Tier.fold_induction (motive := fun ss out => Fused ss → Fused out ∧ BlanksLast out) ?_ ?_ h
  · exact fun ss hm hs => ⟨hs, blanksLast_of_match? hs hm⟩
  · intro ss m n out hm hn ih hs
    obtain ⟨s, k, p, -, -, hk, rfl⟩ := spaceBeforeTier_replaces hm hn
    rw [← Tier.match?_eq_some hm] at hs
    exact ih (hs.replace (by rwa [Node.isRaw_withPad]))

theorem fold_spaceAfterTier {ss out : List Node} (h : (spaceAfterTier.fold resolve ss).result = .ok out) :
    Fused ss → BlanksLast ss → Fused out ∧ BlanksAlone out := by
  refine Tier.fold_induction (motive := fun ss out => Fused ss → BlanksLast ss → Fused out ∧ BlanksAlone out) ?_ ?_ h
  · exact fun ss hm hs hlast => ⟨hs, blanksAlone_of_match? hs hlast hm⟩
  · intro ss m n out hm hn ih hs hlast
    obtain ⟨k, s, p, hwindow, hspace, hk, rfl⟩ := spaceAfterTier_replaces hm hn
    rw [← Tier.match?_eq_some hm, hwindow] at hs hlast
    -- the white space was the last sentence, so the node is now
    have hafter : m.after = [] := by
      refine Decidable.not_not.1 fun hne => ?_
      have hfalse := hlast s (by rw [List.dropLast_append_of_ne_nil hne]; simp)
      rw [hspace] at hfalse
      cases hfalse
    refine ih (hs.replace (by rwa [Node.isRaw_withPad])) fun s' hs' => hlast s' ?_
    rw [hafter, List.dropLast_concat] at hs'
    simp [hafter, List.dropLast_append_of_ne_nil, hs']

/-- **The tiers of spaces** leave no white space beside anything. -/
theorem foldTiers_spaceTiers {ss out : List Node} (hs : Fused ss)
    (h : (foldTiers Grammar.spaceTiers resolve ss).result = .ok out) : Fused out ∧ BlanksAlone out := by
  rw [spaceTiers_eq] at h
  obtain ⟨mid, hmid, hout⟩ := foldTiers_cons_ok_iff.1 h
  obtain ⟨last, hlast, hnil⟩ := foldTiers_cons_ok_iff.1 hout
  cases foldTiers_nil_ok_iff.1 hnil
  obtain ⟨hfused, hblanks⟩ := fold_spaceBeforeTier hmid hs
  exact fold_spaceAfterTier hlast hfused hblanks

/-- They change nothing but white space. -/
theorem map_foldTiers_spaceTiers {β : Type} {f : Node → β} (hf : ∀ k p, f (k.withPad p) = f k) {ss out : List Node}
    (h : (foldTiers Grammar.spaceTiers resolve ss).result = .ok out) :
    (out.filter fun n => !n.isBlankRaw).map f = (ss.filter fun n => !n.isBlankRaw).map f := by
  refine foldTiers_keep (P := fun out => (out.filter fun n => !n.isBlankRaw).map f =
    (ss.filter fun n => !n.isBlankRaw).map f) ?_ h rfl
  have hkeep : ∀ {xs window ys : List Node} {s k : Node} {p : Pad}, window = [s, k] ∨ window = [k, s] →
      Element.space.fits s = true → k.isRaw = false →
        ((xs ++ k.withPad p :: ys).filter fun n => !n.isBlankRaw).map f =
          ((xs ++ window ++ ys).filter fun n => !n.isBlankRaw).map f := by
    intro xs window ys s k p hwindow hspace hk
    have hblank := Node.isBlankRaw_of_fits_space hspace
    have hnode : k.isBlankRaw = false ∧ (k.withPad p).isBlankRaw = false := by cases k <;> first | exact ⟨rfl, rfl⟩ | cases hk
    rcases hwindow with rfl | rfl <;> simp [hblank, hnode, hf]
  intro t ht ss' m n hm hn hs
  rw [← hs, ← Tier.match?_eq_some hm]
  simp only [spaceTiers_eq, List.mem_cons, List.not_mem_nil, or_false] at ht
  rcases ht with rfl | rfl
  · obtain ⟨s, k, p, hwindow, hspace, hk, rfl⟩ := spaceBeforeTier_replaces hm hn
    exact hkeep (.inl hwindow) hspace hk
  · obtain ⟨k, s, p, hwindow, hspace, hk, rfl⟩ := spaceAfterTier_replaces hm hn
    exact hkeep (.inr hwindow) hspace hk

/-! ## The other tiers -/

theorem Rule.Builds.isRaw_eq {r : Rule} {matched : List Node} {n : Node} (h : r.Builds resolve matched n) :
    n.isRaw = false := by
  cases h with
  | spaceBefore hb hn => rwa [Node.isRaw_withPad]
  | spaceAfter hb hn => rwa [Node.isRaw_withPad]
  | _ => rfl

/-- No replacement brings raw text up. -/
theorem raw_mem_of_foldTiers {ts : List Tier} {ss out : List Node} (h : (foldTiers ts resolve ss).result = .ok out) :
    ∀ t, .raw t ∈ out → .raw t ∈ ss := by
  refine foldTiers_keep (P := fun out => ∀ t, .raw t ∈ out → .raw t ∈ ss) ?_ h fun _ ht => ht
  intro t _ ss' m n hm hn hs t hmem
  rw [← Tier.match?_eq_some hm] at hs
  refine hs t ?_
  simp only [List.mem_append, List.mem_cons] at hmem ⊢
  rcases hmem with hmem | rfl | hmem
  · exact .inl (.inl hmem)
  · cases (Rule.builds_of_build hn).isRaw_eq
  · exact .inr hmem

/-- No replacement puts two raw fragments side by side, and none happens in a buffer of white space alone. -/
theorem fused_foldTiers {ts : List Tier} (hts : ∀ t ∈ ts, ∀ r ∈ t.rules, r.pattern ≠ []) {ss out : List Node}
    (h : (foldTiers ts resolve ss).result = .ok out) (hs : Fused ss) (hblanks : BlanksAlone ss) :
    Fused out ∧ BlanksAlone out := by
  refine foldTiers_keep (P := fun out => Fused out ∧ BlanksAlone out) ?_ h ⟨hs, hblanks⟩
  rintro t ht ss' m n hm hn ⟨hs', hblanks'⟩
  have hraw := (Rule.builds_of_build hn).isRaw_eq
  obtain ⟨hr, hfits⟩ := Tier.forall₂_fits_of_match? (hts t ht) hm
  have hwindow : m.window ≠ [] := by
    intro hnil
    rw [hnil, List.forall₂_nil_right_iff] at hfits
    exact hts t ht m.rule hr hfits
  rw [← Tier.match?_eq_some hm] at hs' hblanks'
  refine ⟨hs'.replace hraw, fun s hmem hspace => ?_⟩
  have hraw' := Element.isRaw_of_fits_space hspace
  have hside : s ∈ m.before ∨ s ∈ m.after := by
    rcases List.mem_append.1 hmem with hmem | hmem
    · exact .inl hmem
    · rcases List.mem_cons.1 hmem with rfl | hmem
      · rw [hraw'] at hraw
        cases hraw
      · exact .inr hmem
  have hss : m.before ++ m.window ++ m.after = [s] := hblanks' s (by
    rw [List.mem_append, List.mem_append]
    exact hside.imp_left .inl) hspace
  -- one sentence is no room for the window beside it
  have hlength := congrArg List.length hss
  have hpos := List.length_pos_iff.2 hwindow
  simp only [List.length_append, List.length_cons, List.length_nil] at hlength
  rcases hside with hside | hside
  · have := List.length_pos_of_mem hside
    omega
  · have := List.length_pos_of_mem hside
    omega

end FormulaLang
