import FormulaLang.Formula.Basic
import FormulaLang.Proofs.Fold.Replacement
import Mathlib.Data.List.Forall2
import Mathlib.Data.Nat.Init
import Mathlib.Logic.Relation

/-!
# The run of a parse

The parse of a buffer is a run: its leaves are cut, then one group after another is collapsed, then one match after another
is replaced, tier by tier. `Work` is the state of such a run, and `Work.Step` a single replacement or the passage to the next
tier.

* `groupStage_eq`, `result_groupStage`: the group stage with its trace, the parameters each by itself, and without it.
* `groupStage_induction`: what holds of finished buffers and is kept by a collapse holds of every group stage that succeeds.
* `parseBuffer_ok_iff`: a parse gives `out` iff the run from the lexed buffer ends in `out`.
-/

namespace FormulaLang

variable {l : Language}

/-! ## Results without the trace -/

theorem Traced.result_onEach {ε α β : Type} (xs : List α) (f : (x : α) → x ∈ xs → Traced ε β) (g : α → Except ε β)
    (h : ∀ x hx, (f x hx).result = g x) : (onEach xs f).result = xs.mapM g := by
  induction xs with
  | nil => rfl
  | cons x rest ih =>
    rw [onEach, result_bind, h, List.mapM_cons]
    congr 1
    funext y
    rw [result_bind, ih _ fun z hz => h z (by simp [hz])]
    rfl

/-- The equation of a parameter. -/
def parseParam (l : Language) (p : Param) : Except Failure Node :=
  (parseBuffer l p.offset p.sentences).result.map fun ss => .equation .none ss p.offset

/-- The equations of the parameters of a group, up to the first that fails. -/
def parseParams (l : Language) (ps : List Param) : Except Failure (List Node) :=
  ps.mapM (parseParam l)

/-- The buffer with a group in the place of a window. -/
def Window.collapse (w : Window) (l : Language) (offset : Int) (params : List Node) : List Node :=
  w.before ++ w.group (w.inside l.grammar.separator offset) params :: w.after

/-- The work on a parameter of a group. -/
def paramStage (l : Language) (p : Param) : Traced Failure Node :=
  match (lexStage l.grammar p.offset p.sentences).result with
  | .error e => ⟨.error e, .entered p.field :: (lexStage l.grammar p.offset p.sentences).events⟩
  | .ok ss => do
    (⟨.ok (), .entered p.field :: (lexStage l.grammar p.offset p.sentences).events⟩ : Traced Failure Unit)
    let grouped ← groupStage l p.offset ss
    let folded ← foldStage l p.offset grouped
    .emit .left
    return .equation .none folded p.offset

theorem result_paramStage (l : Language) (p : Param) : (paramStage l p).result = parseParam l p := by
  simp only [paramStage, parseParam, parseBuffer, Traced.result_bind]
  cases hlexed : (lexStage l.grammar p.offset p.sentences).result with
  | error e => rfl
  | ok lexed =>
    simp only [Traced.result_bind, Except.bind]
    cases (groupStage l p.offset lexed).result with
    | error e => rfl
    | ok grouped => cases (foldStage l p.offset grouped).result <;> rfl

theorem result_params {l : Language} (ps : List Param) (g : Failure → Failure) :
    ((Traced.onEach ps fun p _ => paramStage l p).mapError g).result = (parseParams l ps).mapError g := by
  rw [Traced.result_mapError, Traced.result_onEach _ _ (parseParam l) fun p _ => result_paramStage l p, parseParams]

theorem result_params_ok_iff {l : Language} {ps : List Param} {params : List Node} {g : Failure → Failure} :
    ((Traced.onEach ps fun p _ => paramStage l p).mapError g).result = .ok params ↔ parseParams l ps = .ok params := by
  rw [result_params, mapError_eq_ok_iff]

/-- The group stage with its trace. -/
theorem groupStage_eq (l : Language) (offset : Int) (ss : List Node) :
    groupStage l offset ss =
      match nextGroup l.grammar.brackets ss with
      | .absent =>
        match strayOpener? l.grammar.brackets ss with
        | some (opener, p) => .fail (.ofOpener offset opener ss p)
        | none => ⟨.ok ss, [.grouped ss]⟩
      | .unmatched closer buffer index => .fail (.ofCloser offset closer buffer index)
      | .window w => (do
        .emit (.opened w.before w.interior)
        let params ← (Traced.onEach (w.inside l.grammar.separator offset).params fun p _ =>
          paramStage l p).mapError (.within w)
        .emit (.collapsed w.before w.sentences (w.group (w.inside l.grammar.separator offset) params))
        groupStage l offset (w.collapse l offset params)) := by
  rw [groupStage]
  split
  · rename_i h
    cases strayOpener? l.grammar.brackets ss <;> simp only [h]
  · rename_i h
    simp only [h]
  · rename_i w h
    simp only [h]
    congr 1
    funext _
    congr 3
    funext p hp
    unfold paramStage
    split
    · rename_i e he
      simp only [he]
    · rename_i lexed he
      simp only [he]

/-- The group stage without its trace. -/
theorem result_groupStage (l : Language) (offset : Int) (ss : List Node) :
    (groupStage l offset ss).result =
      match nextGroup l.grammar.brackets ss with
      | .absent =>
        match strayOpener? l.grammar.brackets ss with
        | some (opener, p) => .error (.ofOpener offset opener ss p)
        | none => .ok ss
      | .unmatched closer buffer index => .error (.ofCloser offset closer buffer index)
      | .window w =>
        match parseParams l (w.inside l.grammar.separator offset).params with
        | .error e => .error (.within w e)
        | .ok params => (groupStage l offset (w.collapse l offset params)).result := by
  rw [groupStage_eq]
  cases nextGroup l.grammar.brackets ss with
  | absent => cases strayOpener? l.grammar.brackets ss <;> rfl
  | unmatched closer buffer index => rfl
  | window w =>
    simp only [Traced.result_bind, Traced.result_emit, result_params, Except.bind]
    cases parseParams l (w.inside l.grammar.separator offset).params <;> rfl

theorem parseParams_ok_iff {ps : List Param} {ns : List Node} :
    parseParams l ps = .ok ns ↔ List.Forall₂ (fun p n => parseParam l p = .ok n) ps ns := by
  unfold parseParams
  induction ps generalizing ns with
  | nil => cases ns <;> simp [pure, Except.pure]
  | cons p ps ih =>
    rw [List.mapM_cons]
    constructor
    · intro h
      cases hp : parseParam l p with
      | error e => simp [hp, bind, Except.bind] at h
      | ok n =>
        cases hps : ps.mapM (parseParam l) with
        | error e => simp [hp, hps, bind, Except.bind] at h
        | ok rest =>
          simp only [hp, hps, bind, Except.bind, pure, Except.pure, Except.ok.injEq] at h
          subst h
          exact .cons hp (ih.1 hps)
    · rintro (_ | ⟨hp, hps⟩)
      rw [hp, ih.2 hps]
      rfl

theorem foldStage_ok_iff {offset : Int} {ss out : List Node} :
    (foldStage l offset ss).result = .ok out ↔ (foldTiers l.grammar.tiers l.resolve ss).result = .ok out := by
  rw [← fold_ok_iff, foldStage, Traced.result_mapError, mapError_eq_ok_iff]

/-- A parse succeeds when its three stages do. -/
theorem parseBuffer_ok_iff_stages {offset : Int} {ss out : List Node} :
    (parseBuffer l offset ss).result = .ok out ↔
      ∃ lexed grouped, (lexStage l.grammar offset ss).result = .ok lexed ∧
        (groupStage l offset lexed).result = .ok grouped ∧ (foldStage l offset grouped).result = .ok out := by
  simp only [parseBuffer, Traced.result_bind]
  cases (lexStage l.grammar offset ss).result with
  | error e => simp [Except.bind]
  | ok lexed => cases hg : (groupStage l offset lexed).result <;> simp [Except.bind, hg]

theorem parseParam_ok_iff {p : Param} {n : Node} :
    parseParam l p = .ok n ↔
      ∃ ss, (parseBuffer l p.offset p.sentences).result = .ok ss ∧ n = .equation .none ss p.offset := by
  unfold parseParam
  cases (parseBuffer l p.offset p.sentences).result <;> simp [Except.map, eq_comm]

/-! ## The group stage -/

theorem groupStage_of_window {offset : Int} {ss params : List Node} {w : Window}
    (hw : nextGroup l.grammar.brackets ss = .window w)
    (hp : parseParams l (w.inside l.grammar.separator offset).params = .ok params) :
    (groupStage l offset ss).result = (groupStage l offset (w.collapse l offset params)).result := by
  rw [result_groupStage, hw]
  simp only [hp]

theorem groupStage_of_absent {offset : Int} {ss : List Node} (hw : nextGroup l.grammar.brackets ss = .absent)
    (hs : strayOpener? l.grammar.brackets ss = none) : (groupStage l offset ss).result = .ok ss := by
  rw [result_groupStage, hw]
  simp only [hs]

/-- A group stage that succeeds has found nothing to collapse, or has collapsed a window with parsed parameters. -/
theorem groupStage_ok_cases {offset : Int} {ss out : List Node} (h : (groupStage l offset ss).result = .ok out) :
    (nextGroup l.grammar.brackets ss = .absent ∧ strayOpener? l.grammar.brackets ss = none ∧ out = ss) ∨
      ∃ w params, nextGroup l.grammar.brackets ss = .window w ∧
        parseParams l (w.inside l.grammar.separator offset).params = .ok params ∧
        (groupStage l offset (w.collapse l offset params)).result = .ok out := by
  rw [result_groupStage] at h
  split at h
  · rename_i hw
    split at h
    · cases h
    · rename_i hs
      cases h
      exact .inl ⟨hw, hs, rfl⟩
  · cases h
  · rename_i w hw
    split at h
    · cases h
    · rename_i params hp
      exact .inr ⟨w, params, hw, hp, h⟩

/-- A collapse leaves less raw text. -/
theorem rawLength_collapse_lt {offset : Int} {ss params : List Node} {w : Window}
    (hw : nextGroup l.grammar.brackets ss = .window w) : rawLength (w.collapse l offset params) < rawLength ss := by
  have := nextGroup_eq_window hw
  simp only [Window.collapse, rawLength_append, rawLength_cons, Window.group, Node.rawText?, Option.getD_none,
    List.length_nil]
  omega

/-- A lexed parameter has less raw text than the buffer around its group. -/
theorem rawLength_param_lt {offset : Int} {ss lexed : List Node} {w : Window} {p : Param}
    (hw : nextGroup l.grammar.brackets ss = .window w) (hp : p ∈ (w.inside l.grammar.separator offset).params)
    (hl : (lexStage l.grammar p.offset p.sentences).result = .ok lexed) : rawLength lexed < rawLength ss := by
  have h₁ := nextGroup_eq_window hw
  have h₂ := Interior.rawLength_param_le hp
  have h₃ := rawLength_lexStage_le hl
  omega

/-- What holds of buffers with nothing to collapse, and is kept by the collapse of a window whose parameters have it, holds
of every group stage that succeeds. -/
theorem groupStage_induction {motive : Int → List Node → List Node → Prop}
    (done : ∀ offset ss, nextGroup l.grammar.brackets ss = .absent → strayOpener? l.grammar.brackets ss = none →
      motive offset ss ss)
    (collapse : ∀ offset ss w params out, nextGroup l.grammar.brackets ss = .window w →
      List.Forall₂ (fun p n => ∃ lexed grouped folded, (lexStage l.grammar p.offset p.sentences).result = .ok lexed ∧
          (groupStage l p.offset lexed).result = .ok grouped ∧ motive p.offset lexed grouped ∧
          (foldStage l p.offset grouped).result = .ok folded ∧ n = .equation .none folded p.offset)
        (w.inside l.grammar.separator offset).params params →
      motive offset (w.collapse l offset params) out → motive offset ss out)
    {offset : Int} {ss out : List Node} (h : (groupStage l offset ss).result = .ok out) : motive offset ss out := by
  induction hn : rawLength ss using Nat.strong_induction_on generalizing offset ss out with
  | _ n ih =>
    rcases groupStage_ok_cases h with ⟨hw, hs, rfl⟩ | ⟨w, params, hw, hp, hout⟩
    · exact done _ _ hw hs
    · refine collapse _ _ w params _ hw ?_ (ih _ (hn ▸ rawLength_collapse_lt hw) hout rfl)
      refine List.forall₂_iff_zip.2 ⟨(parseParams_ok_iff.1 hp).length_eq, fun {p m} hm => ?_⟩
      obtain ⟨folded, hf, hm'⟩ := parseParam_ok_iff.1 ((List.forall₂_iff_zip.1 (parseParams_ok_iff.1 hp)).2 hm)
      obtain ⟨lexed, grouped, hl, hg, hf⟩ := parseBuffer_ok_iff_stages.1 hf
      have hlt := rawLength_param_lt hw (List.of_mem_zip hm).1 hl
      exact ⟨lexed, grouped, folded, hl, hg, ih _ (hn ▸ hlt) hg rfl, hf, hm'⟩

/-! ## Runs -/

/-- The work on one buffer: its groups are being collapsed, or its sentences folded by the tiers that are left. -/
inductive Work where
  | grouping (buffer : List Node)
  | folding (tiers : List Tier) (buffer : List Node)

namespace Work

/-- The buffer under work. -/
def buffer : Work → List Node
  | grouping ss => ss
  | folding _ ss => ss

/-- One more group is collapsed or one more match replaced, or the work passes on to the next tier. -/
inductive Step (l : Language) (offset : Int) : Work → Work → Prop
  | collapse {ss params : List Node} {w : Window} (hw : nextGroup l.grammar.brackets ss = .window w)
      (hp : parseParams l (w.inside l.grammar.separator offset).params = .ok params) :
      Step l offset (grouping ss) (grouping (w.collapse l offset params))
  | grouped {ss : List Node} (hw : nextGroup l.grammar.brackets ss = .absent)
      (hs : strayOpener? l.grammar.brackets ss = none) :
      Step l offset (grouping ss) (folding l.grammar.tiers ss)
  | replace {t : Tier} {ts : List Tier} {ss : List Node} {m : Match} {n : Node} (hm : t.match? ss = some m)
      (hn : m.rule.build l.resolve m.window = .ok n) :
      Step l offset (folding (t :: ts) ss) (folding (t :: ts) (m.before ++ n :: m.after))
  | next {t : Tier} {ts : List Tier} {ss : List Node} (hm : t.match? ss = none) :
      Step l offset (folding (t :: ts) ss) (folding ts ss)

/-- The states that the work passes through. -/
abbrev Reaches (l : Language) (offset : Int) : Work → Work → Prop :=
  Relation.ReflTransGen (Step l offset)

variable {offset : Int} {a b : Work}

/-- The work comes to an end in `out`. -/
def Yields (l : Language) (offset : Int) (out : List Node) : Work → Prop
  | grouping ss => ∃ grouped, (groupStage l offset ss).result = .ok grouped ∧
      (foldTiers l.grammar.tiers l.resolve grouped).result = .ok out
  | folding ts ss => (foldTiers ts l.resolve ss).result = .ok out

theorem Step.yields {out : List Node} (h : Step l offset a b) (hb : Yields l offset out b) : Yields l offset out a := by
  cases h with
  | collapse hw hp =>
    obtain ⟨grouped, hg, hf⟩ := hb
    exact ⟨grouped, (groupStage_of_window hw hp).trans hg, hf⟩
  | grouped hw hs => exact ⟨_, groupStage_of_absent hw hs, hb⟩
  | replace hm hn =>
    obtain ⟨mid, ht, hf⟩ := foldTiers_cons_ok_iff.1 hb
    exact foldTiers_cons_ok_iff.2 ⟨mid, (Tier.result_fold_of_build hm hn).trans ht, hf⟩
  | next hm => exact foldTiers_cons_ok_iff.2 ⟨_, Tier.result_fold_of_none hm, hb⟩

theorem reaches_of_fold {t : Tier} {ts : List Tier} {ss out : List Node}
    (h : (t.fold l.resolve ss).result = .ok out) : Reaches l offset (folding (t :: ts) ss) (folding ts out) :=
  Tier.fold_induction (motive := fun ss out => Reaches l offset (folding (t :: ts) ss) (folding ts out))
    (fun _ hm => .single (.next hm)) (fun _ _ _ _ hm hn ih => .head (.replace hm hn) ih) h

theorem reaches_of_foldTiers {ts : List Tier} {ss out : List Node} (h : (foldTiers ts l.resolve ss).result = .ok out) :
    Reaches l offset (folding ts ss) (folding [] out) := by
  induction ts generalizing ss with
  | nil =>
    cases foldTiers_nil_ok_iff.1 h
    exact .refl
  | cons t ts ih =>
    obtain ⟨mid, ht, hf⟩ := foldTiers_cons_ok_iff.1 h
    exact (reaches_of_fold ht).trans (ih hf)

theorem reaches_of_groupStage {ss out : List Node} (h : (groupStage l offset ss).result = .ok out) :
    Reaches l offset (grouping ss) (folding l.grammar.tiers out) := by
  refine groupStage_induction (motive := fun o ss out => Reaches l o (grouping ss) (folding l.grammar.tiers out)) ?_ ?_ h
  · exact fun o ss hw hs => .single (.grouped hw hs)
  · intro o ss w params out hw hp hout
    refine .head (.collapse hw (parseParams_ok_iff.2 (hp.imp fun p n h => ?_))) hout
    obtain ⟨lexed, grouped, folded, hl, hg, -, hf, rfl⟩ := h
    exact parseParam_ok_iff.2 ⟨folded, parseBuffer_ok_iff_stages.2 ⟨lexed, grouped, hl, hg, hf⟩, rfl⟩

/-- Where the work comes to an end in `out` it does so step by step, and conversely. -/
theorem yields_iff {out : List Node} : Yields l offset out a ↔ Reaches l offset a (folding [] out) := by
  constructor
  · intro h
    cases a with
    | grouping ss =>
      obtain ⟨grouped, hg, hf⟩ := h
      exact (reaches_of_groupStage hg).trans (reaches_of_foldTiers hf)
    | folding ts ss => exact reaches_of_foldTiers h
  · intro h
    induction h using Relation.ReflTransGen.head_induction_on with
    | refl => exact foldTiers_nil_ok_iff.2 rfl
    | head hs _ ih => exact hs.yields ih

end Work

/-- A parse gives `out` iff the run from the lexed buffer ends in `out`. -/
theorem parseBuffer_ok_iff {offset : Int} {ss out : List Node} :
    (parseBuffer l offset ss).result = .ok out ↔
      ∃ lexed, (lexStage l.grammar offset ss).result = .ok lexed ∧
        Work.Reaches l offset (.grouping lexed) (.folding [] out) := by
  simp only [parseBuffer_ok_iff_stages, foldStage_ok_iff, ← Work.yields_iff, Work.Yields]
  constructor
  · rintro ⟨lexed, grouped, hl, hg, hf⟩
    exact ⟨lexed, hl, grouped, hg, hf⟩
  · rintro ⟨lexed, hl, grouped, hg, hf⟩
    exact ⟨lexed, grouped, hl, hg, hf⟩

/-! ## Parsed formulas -/

theorem Formula.root_parse_of_ok {t : Text} {out : List Node} (h : (parseText l t).result = .ok out) :
    (Formula.parse l t).formula.root = .equation .none out 0 := by
  simp [Formula.parse, Formula.settle, h]

theorem Formula.parse_failure_eq_none_iff {t : Text} :
    (Formula.parse l t).failure = none ↔ ∃ out, (parseText l t).result = .ok out := by
  unfold Formula.parse Formula.settle
  cases h : (parseText l t).result <;> simp

/-! ## The buffers of a parse -/

/-- The buffers that are parsed in the course of the parse of the buffer `ss` at `offset`: this buffer itself, and the
parameters of every group that is collapsed in one of them. -/
inductive Enters (l : Language) (offset : Int) (ss : List Node) : Int → List Node → Prop
  | self : Enters l offset ss offset ss
  | param {o : Int} {sentences lexed buffer : List Node} {w : Window} {p : Param} (h : Enters l offset ss o sentences)
      (hl : (lexStage l.grammar o sentences).result = .ok lexed)
      (hr : Work.Reaches l o (.grouping lexed) (.grouping buffer))
      (hw : nextGroup l.grammar.brackets buffer = .window w)
      (hp : p ∈ (w.inside l.grammar.separator o).params) : Enters l offset ss p.offset p.sentences

end FormulaLang
