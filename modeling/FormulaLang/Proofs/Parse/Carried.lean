import FormulaLang.Proofs.Fold.Total
import FormulaLang.Proofs.Parse.Parameters

/-!
# What a parse carries along

A property of nodes is carried by a language when raw text and leaves have it and when groups and folds pass it on from the
nodes they are made of (`Language.Carries`). Then every sentence of a buffer that parses has it
(`Language.Carries.parseBuffer`).
-/

namespace FormulaLang

variable {l : Language} {Q : Node → Prop}

/-- What a rule makes of sentences that fit its pattern, folding keeps. -/
theorem forall_mem_foldStage_of_fits (hne : ∀ t ∈ l.grammar.tiers, ∀ r ∈ t.rules, r.pattern ≠ [])
    (build : ∀ t ∈ l.grammar.tiers, ∀ r ∈ t.rules, ∀ matched n,
      List.Forall₂ (fun e n => e.fits n = true) r.pattern matched → r.Builds l.resolve matched n →
        (∀ m ∈ matched, Q m) → Q n)
    {offset : Int} {ss out : List Node} (h : (foldStage l offset ss).result = .ok out) (hs : ∀ n ∈ ss, Q n) :
    ∀ n ∈ out, Q n := by
  refine foldTiers_keep (P := fun ss => ∀ n ∈ ss, Q n) ?_ (foldStage_ok_iff.1 h) hs
  intro t ht ss m n hm hn hs
  obtain ⟨hr, hfits⟩ := Tier.forall₂_fits_of_match? (hne t ht) hm
  rw [← Tier.match?_eq_some hm] at hs
  simp only [List.forall_mem_append, List.forall_mem_cons] at hs ⊢
  exact ⟨hs.1.1, build t ht m.rule hr _ n hfits (Rule.builds_of_build hn) hs.1.2, hs.2⟩

/-- The stages of a parse make nodes with the property out of nodes with the property. -/
structure Language.Carries (l : Language) (Q : Node → Prop) : Prop where
  raw : ∀ t, Q (.raw t)
  leaf : ∀ t c n, leafCut? l.grammar.leaves t = some c → c.kind.leaf c.matched = .ok n → Q n
  empty : Q emptyLiteral
  group : ∀ ss w offset params, nextGroup l.grammar.brackets ss = .window w →
    List.Forall₂ (fun p q => ∃ out, q = .equation .none out p.offset ∧ ∀ n ∈ out, Q n)
      (w.inside l.grammar.separator offset).params params → Q (w.group (w.inside l.grammar.separator offset) params)
  fold : ∀ offset ss out, (foldStage l offset ss).result = .ok out → (∀ n ∈ ss, Q n) → ∀ n ∈ out, Q n

namespace Language.Carries

variable (hQ : l.Carries Q) {offset : Int} {ss out : List Node}

include hQ

theorem lexStage (h : (FormulaLang.lexStage l.grammar offset ss).result = .ok out) (hs : ∀ n ∈ ss, Q n) :
    ∀ n ∈ out, Q n :=
  forall_mem_lexStage hQ.raw hQ.leaf h hs

variable (hb : DistinctBrackets l.grammar.brackets)

include hb

theorem groupStage (h : (FormulaLang.groupStage l offset ss).result = .ok out) :
    (∀ n ∈ ss, Q n) → ∀ n ∈ out, Q n := by
  refine groupStage_induction (motive := fun _ ss out => (∀ n ∈ ss, Q n) → ∀ n ∈ out, Q n) ?_ ?_ h
  · exact fun _ _ _ _ hs => hs
  · intro offset ss w params out hw hp ih hs
    obtain ⟨hbefore, hinside, hafter⟩ := forall_mem_window hQ.raw hb hw hs
    have hgroup : Q (w.group (w.inside l.grammar.separator offset) params) := by
      refine hQ.group ss w offset params hw ?_
      refine List.forall₂_iff_zip.2 ⟨hp.length_eq, fun {p q} hpq => ?_⟩
      obtain ⟨lexed, grouped, folded, hl, -, ihp, hf, rfl⟩ := (List.forall₂_iff_zip.1 hp).2 hpq
      have hsentences : ∀ n ∈ p.sentences, Q n :=
        forall_mem_sentences hQ.raw hQ.empty (List.of_mem_zip hpq).1 hinside
      exact ⟨folded, rfl, hQ.fold _ _ _ hf (ihp (hQ.lexStage hl hsentences))⟩
    refine ih ?_
    simp only [Window.collapse, List.forall_mem_append, List.forall_mem_cons]
    exact ⟨hbefore, hgroup, hafter⟩

/-- **What a language carries** holds of the sentences of a buffer that parses. -/
theorem parseBuffer (h : (FormulaLang.parseBuffer l offset ss).result = .ok out) (hs : ∀ n ∈ ss, Q n) :
    ∀ n ∈ out, Q n := by
  obtain ⟨lexed, grouped, hl, hg, hf⟩ := parseBuffer_ok_iff_stages.1 h
  exact hQ.fold _ _ _ hf (hQ.groupStage hb hg (hQ.lexStage hl hs))

/-- What a language carries holds of the sentences at any time in the course of the group stage. -/
theorem reaches {ss' : List Node} (h : Work.Reaches l offset (.grouping ss) (.grouping ss')) :
    (∀ n ∈ ss, Q n) → ∀ n ∈ ss', Q n := by
  intro hs
  generalize hb' : Work.grouping ss' = b at h
  induction h generalizing ss' with
  | refl =>
    cases hb'
    exact hs
  | tail _ hstep ih =>
    subst hb'
    cases hstep with
    | @collapse _ params w hw hp =>
      obtain ⟨hbefore, hinside, hafter⟩ := forall_mem_window hQ.raw hb hw (ih rfl)
      have hgroup : Q (w.group (w.inside l.grammar.separator offset) params) := by
        refine hQ.group _ w offset params hw ?_
        refine List.forall₂_iff_zip.2 ⟨(parseParams_ok_iff.1 hp).length_eq, fun {p q} hpq => ?_⟩
        obtain ⟨out, hout, rfl⟩ := parseParam_ok_iff.1 ((List.forall₂_iff_zip.1 (parseParams_ok_iff.1 hp)).2 hpq)
        have hsentences : ∀ n ∈ p.sentences, Q n :=
          forall_mem_sentences hQ.raw hQ.empty (List.of_mem_zip hpq).1 hinside
        exact ⟨out, rfl, hQ.parseBuffer hb hout hsentences⟩
      simp only [Window.collapse, List.forall_mem_append, List.forall_mem_cons]
      exact ⟨hbefore, hgroup, hafter⟩

theorem parseText {t : Text} (h : (FormulaLang.parseText l t).result = .ok out) : ∀ n ∈ out, Q n :=
  hQ.parseBuffer hb h (forall_mem_raws hQ.raw t)

end Language.Carries

end FormulaLang
