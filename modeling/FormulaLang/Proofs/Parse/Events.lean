import FormulaLang.Proofs.Fold.Total
import FormulaLang.Proofs.Parse.Parameters

/-!
# The events of a parse

A statement about a traced computation speaks of every event, also of a computation that fails, and of the result
(`Traced.Tells`). What the trace of a parse shows a node to have taken up is white space, and some of it
(`tells_parseText`); before the fold stage no node has taken up any (`Unpadded`).
-/

namespace FormulaLang

/-! ## Statements about traced computations -/

/-- Every event has the property `P`, and the result, if there is one, the property `Q`. -/
structure Traced.Tells {ε α : Type} (P : Event → Prop) (Q : α → Prop) (x : Traced ε α) : Prop where
  events : ∀ e ∈ x.events, P e
  result : ∀ a, x.result = .ok a → Q a

namespace Traced

variable {ε ε' α β : Type} {P : Event → Prop} {Q : α → Prop} {R : β → Prop} {x : Traced ε α} {f : α → Traced ε β}

theorem tells_pure {a : α} (h : Q a) : (pure a : Traced ε α).Tells P Q where
  events _ he := by cases he
  result b hb := by
    cases hb
    exact h

theorem tells_fail (e : ε) : (fail e : Traced ε α).Tells P Q where
  events _ he := by cases he
  result _ hb := by cases hb

theorem tells_emit {e : Event} (h : P e) : (emit e : Traced ε Unit).Tells P fun _ => True where
  events _ he := List.mem_singleton.1 he ▸ h
  result _ _ := True.intro

theorem Tells.mapError (h : x.Tells P Q) (g : ε → ε') : (x.mapError g).Tells P Q where
  events := h.events
  result a ha := by
    rw [result_mapError, mapError_eq_ok_iff] at ha
    exact h.result a ha

/-- One computation after another. -/
theorem Tells.bind (h : x.Tells P Q) (hf : ∀ a, Q a → (f a).Tells P R) : (x >>= f).Tells P R := by
  cases ha : x.result with
  | error e =>
    rw [bind_of_error ha]
    exact ⟨h.events, fun _ hb => by cases hb⟩
  | ok a =>
    have hfa := hf a (h.result a ha)
    rw [bind_of_ok ha]
    exact ⟨List.forall_mem_append.2 ⟨h.events, hfa.events⟩, hfa.result⟩

theorem tells_onEach {xs : List α} {f : (x : α) → x ∈ xs → Traced ε β} (h : ∀ x hx, (f x hx).Tells P R) :
    (onEach xs f).Tells P fun ys => ∀ y ∈ ys, R y := by
  induction xs with
  | nil => exact tells_pure (by simp)
  | cons x rest ih =>
    refine (h x List.mem_cons_self).bind fun y hy => ?_
    refine (ih fun z hz => h z (List.mem_cons_of_mem x hz)).bind fun ys hys => ?_
    exact tells_pure (List.forall_mem_cons.2 ⟨hy, hys⟩)

end Traced

/-! ## White space that nodes take up -/

/-- White space alone. -/
structure Pad.IsBlank (p : Pad) : Prop where
  before : Text.allBlank p.before = true
  after : Text.allBlank p.after = true

theorem Pad.isBlank_none : Pad.none.IsBlank :=
  ⟨rfl, rfl⟩

/-- A node that keeps its place in a buffer has taken up white space. -/
def Event.TakesSpace : Event → Prop
  | .replaced _ _ n true => n.pad.IsBlank ∧ n.pad ≠ .none
  | _ => True

/-- No node of a buffer has taken up anything. -/
def Unpadded (ss : List Node) : Prop :=
  ∀ n ∈ ss, n.pad = .none

/-- The nodes of a buffer have taken up white space alone. -/
def BlankPads (ss : List Node) : Prop :=
  ∀ n ∈ ss, n.pad.IsBlank

/-! ## Before the fold stage -/

theorem unpadded_raws (t : Text) : Unpadded (Node.raws t) :=
  forall_mem_raws (fun _ => rfl) t

theorem LeafKind.pad_leaf {k : LeafKind} {t : Text} {n : Node} (h : k.leaf t = .ok n) : n.pad = .none := by
  rcases LeafKind.leaf_cases h with ⟨v, rfl⟩ | rfl <;> rfl

section Unpadded

variable {ss : List Node} (h : Unpadded ss)

include h

theorem Unpadded.blankPads : BlankPads ss :=
  fun n hn => h n hn ▸ Pad.isBlank_none

theorem Unpadded.lexStage {g : Grammar} {offset : Int} {out : List Node} (hout : (lexStage g offset ss).result = .ok out) :
    Unpadded out :=
  forall_mem_lexStage (Q := fun n => n.pad = .none) (fun _ => rfl) (fun _ _ _ _ => LeafKind.pad_leaf) hout h

theorem Unpadded.window {brackets : List (Text × Text)} (hb : DistinctBrackets brackets) {w : Window}
    (hw : nextGroup brackets ss = .window w) : Unpadded w.before ∧ Unpadded w.interior ∧ Unpadded w.after :=
  forall_mem_window (Q := fun n => n.pad = .none) (fun _ => rfl) hb hw h

theorem Unpadded.sentences {separator : Separator} {offset : Int} {p : Param}
    (hp : p ∈ (Interior.ofSentences separator offset ss).params) : Unpadded p.sentences :=
  forall_mem_sentences (Q := fun n => n.pad = .none) (fun _ => rfl) rfl hp h

end Unpadded

/-- A group has not taken up anything when it is made. -/
theorem Unpadded.collapse {w : Window} (hbefore : Unpadded w.before) (hafter : Unpadded w.after) (l : Language)
    (offset : Int) (params : List Node) : Unpadded (w.collapse l offset params) :=
  List.forall_mem_append.2 ⟨hbefore, List.forall_mem_cons.2 ⟨rfl, hafter⟩⟩

/-! ## What a rule attaches -/

theorem Node.pad_withPad {n : Node} (h : n.isRaw = false) (p : Pad) : (n.withPad p).pad = p := by
  cases n with
  | raw t => cases h
  | _ => rfl

theorem Element.blank_of_fits_space {t : Text} (h : Element.space.fits (.raw t) = true) :
    t ≠ [] ∧ Text.allBlank t = true := by
  simpa [Element.fits] using h

theorem Text.allBlank_append {s t : Text} (hs : allBlank s = true) (ht : allBlank t = true) :
    allBlank (s ++ t) = true := by
  rw [allBlank, List.all_append]
  exact Bool.and_eq_true_iff.2 ⟨hs, ht⟩

section Rules

variable {r : Rule} {resolve : Text → Option Function} {matched : List Node} {n : Node}

theorem Rule.fits_space_before (hr : r.suits = true) (hb : r.builder = .spaceBefore) {m : Node}
    (hfits : List.Forall₂ (fun e n => e.fits n = true) r.pattern [m, n]) : Element.space.fits m = true := by
  unfold Rule.suits at hr
  rw [hb] at hr
  split at hr <;> simp_all

theorem Rule.fits_space_after (hr : r.suits = true) (hb : r.builder = .spaceAfter) {m : Node}
    (hfits : List.Forall₂ (fun e n => e.fits n = true) r.pattern [n, m]) : Element.space.fits m = true := by
  unfold Rule.suits at hr
  rw [hb] at hr
  split at hr <;> simp_all

/-- A suitable rule attaches white space alone to the node that it makes. -/
theorem Rule.Builds.isBlank_pad (hr : r.suits = true)
    (hfits : List.Forall₂ (fun e n => e.fits n = true) r.pattern matched) (h : r.Builds resolve matched n)
    (hm : BlankPads matched) : n.pad.IsBlank := by
  cases h with
  | @spaceBefore t n hb hn =>
    obtain ⟨-, ht⟩ := Element.blank_of_fits_space (Rule.fits_space_before hr hb hfits)
    have hpad := hm n (by simp)
    rw [Node.pad_withPad hn]
    exact ⟨Text.allBlank_append ht hpad.before, hpad.after⟩
  | @spaceAfter t n hb hn =>
    obtain ⟨-, ht⟩ := Element.blank_of_fits_space (Rule.fits_space_after hr hb hfits)
    have hpad := hm n (by simp)
    rw [Node.pad_withPad hn]
    exact ⟨hpad.before, Text.allBlank_append hpad.after ht⟩
  | @variableUse p t => exact hm (.identifier p t) (by simp)
  | functionCall | binary | implicit | unary => exact Pad.isBlank_none

/-- A node that keeps its place takes up some. -/
theorem Rule.Builds.pad_ne_none (hr : r.suits = true)
    (hfits : List.Forall₂ (fun e n => e.fits n = true) r.pattern matched) (h : r.Builds resolve matched n)
    (hkeeps : r.keepsNode = true) : n.pad ≠ .none := by
  cases h with
  | @spaceBefore t n hb hn =>
    obtain ⟨ht, -⟩ := Element.blank_of_fits_space (Rule.fits_space_before hr hb hfits)
    rw [Node.pad_withPad hn]
    simp [Pad.none, ht]
  | @spaceAfter t n hb hn =>
    obtain ⟨ht, -⟩ := Element.blank_of_fits_space (Rule.fits_space_after hr hb hfits)
    rw [Node.pad_withPad hn]
    simp [Pad.none, ht]
  | functionCall hb | variableUse hb | binary hb | implicit hb | unary hb => simp [Rule.keepsNode, hb] at hkeeps

end Rules

/-! ## Folding -/

theorem Rule.takesSpace_lookups (r : Rule) (resolve : Text → Option Function) (matched : List Node) :
    ∀ e ∈ r.lookups resolve matched, e.TakesSpace := by
  unfold Rule.lookups
  split
  · split
    · split <;> simp [Event.TakesSpace]
    · simp
  · simp [Event.TakesSpace]
  · simp

/-- One replacement after another. -/
theorem Tier.tells_fold {t : Tier} (ht : ∀ r ∈ t.rules, r.suits = true) (resolve : Text → Option Function) {ss : List Node}
    (hs : BlankPads ss) : (t.fold resolve ss).Tells Event.TakesSpace BlankPads := by
  induction hk : weight ss using Nat.strong_induction_on generalizing ss with
  | _ k ih =>
    rw [Tier.fold]
    split
    · exact Traced.tells_pure hs
    · rename_i m hm
      obtain ⟨hr, hfits⟩ := Tier.forall₂_fits_of_match? (fun r hr => Rule.pattern_ne_nil_of_suits (ht r hr)) hm
      have hlookups := m.rule.takesSpace_lookups resolve m.window
      split
      · exact ⟨hlookups, fun _ hb => by cases hb⟩
      · rename_i n hn
        rw [← Tier.match?_eq_some hm] at hs
        simp only [BlankPads, List.forall_mem_append] at hs
        have hpad : n.pad.IsBlank := (Rule.builds_of_build hn).isBlank_pad (ht _ hr) hfits hs.1.2
        have hkept : (Event.replaced m.before m.window n m.rule.keepsNode).TakesSpace := by
          cases hkeeps : m.rule.keepsNode with
          | true => exact ⟨hpad, (Rule.builds_of_build hn).pad_ne_none (ht _ hr) hfits hkeeps⟩
          | false => exact True.intro
        refine Traced.Tells.bind (Q := fun _ => True) ⟨?_, fun _ _ => True.intro⟩ fun _ _ => ?_
        · simpa only [List.forall_mem_append, List.forall_mem_singleton] using ⟨hlookups, hkept⟩
        · refine ih _ (hk ▸ Tier.weight_replace_lt hm hn) ?_ rfl
          simp only [BlankPads, List.forall_mem_append, List.forall_mem_cons]
          exact ⟨hs.1.1, hpad, hs.2⟩

theorem tells_foldTiers {ts : List Tier} (h : ∀ t ∈ ts, ∀ r ∈ t.rules, r.suits = true)
    (resolve : Text → Option Function) {ss : List Node} (hs : BlankPads ss) :
    (foldTiers ts resolve ss).Tells Event.TakesSpace BlankPads := by
  induction ts generalizing ss with
  | nil => exact Traced.tells_pure hs
  | cons t ts ih =>
    rw [List.forall_mem_cons] at h
    exact (Tier.tells_fold h.1 resolve hs).bind fun mid hmid => ih h.2 hmid

/-! ## The stages of a parse -/

section Stages

variable {l : Language} (hb : DistinctBrackets l.grammar.brackets)
  (hsuits : ∀ t ∈ l.grammar.tiers, ∀ r ∈ t.rules, r.suits = true)

theorem tells_lexStage (g : Grammar) (offset : Int) {ss : List Node} (hs : Unpadded ss) :
    (lexStage g offset ss).Tells Event.TakesSpace Unpadded where
  events := by
    unfold lexStage
    split <;> simp [Traced.fail, Event.TakesSpace]
  result _ h := hs.lexStage h

include hsuits in
theorem tells_foldStage (offset : Int) {ss : List Node} (hs : Unpadded ss) :
    (foldStage l offset ss).Tells Event.TakesSpace BlankPads := by
  refine Traced.Tells.mapError ?_ _
  refine (tells_foldTiers hsuits l.resolve hs.blankPads).bind fun out hout => ?_
  exact (Traced.tells_emit True.intro).bind fun _ _ => Traced.tells_pure hout

include hb hsuits

/-- **The group stage**, also where it fails. -/
theorem tells_groupStage (offset : Int) {ss : List Node} (hs : Unpadded ss) :
    (groupStage l offset ss).Tells Event.TakesSpace Unpadded := by
  induction hn : rawLength ss using Nat.strong_induction_on generalizing offset ss with
  | _ n ih =>
    rw [groupStage_eq]
    split
    · split
      · exact Traced.tells_fail _
      · exact ⟨by simp [Event.TakesSpace], fun out h => by cases h; exact hs⟩
    · exact Traced.tells_fail _
    · rename_i w hw
      obtain ⟨hbefore, hinside, hafter⟩ := hs.window hb hw
      refine (Traced.tells_emit True.intro).bind fun _ _ => ?_
      refine Traced.Tells.bind (Q := fun _ => True) (Traced.Tells.mapError ?_ _) fun params _ => ?_
      · refine ⟨(Traced.tells_onEach (R := fun _ => True) fun p hp => ?_).events, fun _ _ => True.intro⟩
        have hlexed := tells_lexStage l.grammar p.offset (hinside.sentences hp)
        have hentered : ∀ e ∈ Event.entered p.field :: (lexStage l.grammar p.offset p.sentences).events, e.TakesSpace :=
          List.forall_mem_cons.2 ⟨True.intro, hlexed.events⟩
        unfold paramStage
        split
        · exact ⟨hentered, fun _ _ => True.intro⟩
        · rename_i lexed hl
          refine Traced.Tells.bind (Q := fun _ => True) ⟨hentered, fun _ _ => True.intro⟩ fun _ _ => ?_
          have hlt : rawLength lexed < n := hn ▸ rawLength_param_lt hw hp hl
          refine (ih _ hlt p.offset (hlexed.result _ hl) rfl).bind fun grouped hgrouped => ?_
          refine (tells_foldStage hsuits p.offset hgrouped).bind fun folded _ => ?_
          exact (Traced.tells_emit True.intro).bind fun _ _ => Traced.tells_pure True.intro
      · refine (Traced.tells_emit True.intro).bind fun _ _ => ?_
        exact ih _ (hn ▸ rawLength_collapse_lt hw) offset (hbefore.collapse hafter l offset params) rfl

/-- **The parse of a text**, also where it fails. -/
theorem tells_parseText (t : Text) : (parseText l t).Tells Event.TakesSpace BlankPads := by
  refine (tells_lexStage l.grammar 0 (unpadded_raws t)).bind fun lexed hlexed => ?_
  exact (tells_groupStage hb hsuits 0 hlexed).bind fun grouped hgrouped => tells_foldStage hsuits 0 hgrouped

end Stages

end FormulaLang
