import FormulaLang.Proofs.Nesting.Marks
import FormulaLang.Proofs.Parse.FieldAtoms
import FormulaLang.Proofs.Parse.Steps

/-!
# A parse comes to its end

From every text the machine of `ParseState.Step` comes to the result of the parse, and it cannot run on for ever. Each loop
ends by its own measure: the raw text that leaves are cut from (`reaches_lexText`), the closing brackets that are still raw
(`reaches_groupStage`), the weight of the sentences (`reaches_fold`). The equations within an equation end because they
have less text (`parses`). The main result is `parse_halts`.
-/

namespace FormulaLang

open Node (sourceTexts sourceTexts_append)

variable {l : Language}

/-! ## No fragment is empty -/

/-- Whatever is cut at the separators, no parameter holds an empty fragment. -/
theorem Param.empty_not_mem_sentences {separator : Separator} {offset : Int} {ss : List Node} {p : Param}
    (hp : p ∈ (Interior.ofSentences separator offset ss).params) : .raw [] ∉ p.sentences := by
  have hitems : ∀ m, Piece.item m ∈ ss.flatMap (cutSentence separator) → m ≠ .raw [] := by
    rintro m hm rfl
    obtain ⟨n, hn, hm⟩ := List.mem_flatMap.1 hm
    cases n with
    | raw t => exact (fused_cutText separator t).nonempty (List.mem_map_of_mem (f := Piece.node) hm)
    | _ => cases List.mem_singleton.1 hm
  obtain ⟨hfirst, hrest⟩ := forall_mem_fields hitems
  unfold Param.sentences
  split
  · simp [emptyLiteral]
  · exact fun hmem => forall_mem_ofFields hfirst hrest p hp _ hmem rfl

/-- A fragment in which a leaf is found is a sentence. -/
theorem raws_of_leafCut? {rules : List LeafRule} {t : Text} {c : LeafCut} (h : leafCut? rules t = some c) :
    Node.raws t = [.raw t] := by
  obtain ⟨rfl, hne⟩ := leafCut?_eq_some h
  simp [Node.raws, hne]

namespace ParseState

/-! ## Runs -/

/-- One step of any kind. -/
def Goes (l : Language) (a b : ParseState l) : Prop :=
  ∃ move, Step l move a b

/-- The states that a parse passes through. -/
abbrev Reaches (l : Language) : ParseState l → ParseState l → Prop :=
  Relation.ReflTransGen (Goes l)

/-- Before a parse. -/
def start (l : Language) (t : Text) : ParseState l :=
  equation [] 0 (.cutting [] (Node.raws t))

/-- The state with the outcome of a part of the work: a failure ends the parse. -/
def proceed (around : List (OpenGroup l)) (go : List Node → ParseState l) : Except Failure (List Node) → ParseState l
  | .ok ss => go ss
  | .error f => ended (.error (f.through around))

variable {around : List (OpenGroup l)} {a b : ParseState l} {move : Move}

theorem Step.reaches (h : Step l move a b) : Reaches l a b :=
  .single ⟨move, h⟩

/-- One part of the work after another. -/
theorem Reaches.proceed {go go' : List Node → ParseState l} {x : Except Failure (List Node)}
    {f : List Node → Except Failure (List Node)} (h : Reaches l a (ParseState.proceed around go x))
    (hf : ∀ ss, x = .ok ss → Reaches l (go ss) (ParseState.proceed around go' (f ss))) :
    Reaches l a (ParseState.proceed around go' (x.bind f)) := by
  cases x with
  | error e => exact h
  | ok ss => exact h.trans (hf ss rfl)

/-! ## Cutting leaves -/

/-- The state with the outcome of cutting the sentences between `done` and `rest`. -/
def cutTo (around : List (OpenGroup l)) (o : Int) (done rest : List Node) : Except BadLiteral (List Node) → ParseState l
  | .ok out => equation around o (.cutting (done ++ out) rest)
  | .error e =>
    ended (.error ((Failure.ofBadLiteral o { e with before := done ++ e.before, after := e.after ++ rest }).through around))

/-- A leaf is cut, and what is left before it. -/
theorem reaches_leaf {o : Int} {t : Text} {done rest left : List Node} {c : LeafCut} {leaf : Node}
    (hc : leafCut? l.grammar.leaves t = some c) (hleaf : c.kind.leaf c.matched = .ok leaf)
    (hleft : ∀ rest, Reaches l (equation around o (.cutting done (Node.raws c.before ++ rest)))
      (equation around o (.cutting (done ++ left) rest))) :
    Reaches l (equation around o (.cutting done (.raw t :: rest)))
      (equation around o (.cutting (done ++ left ++ [leaf]) (Node.raws c.after ++ rest))) := by
  have hkeep : leaf.rawText?.bind (leafCut? l.grammar.leaves) = none := by rw [rawText?_leaf hleaf, Option.bind_none]
  exact (Step.cut hc hleaf).reaches.trans ((hleft _).trans (Step.keep hkeep).reaches)

/-- A fragment is cut. The induction is on its leaves: what is left on either side of a leaf is shorter. -/
theorem reaches_lexText (o : Int) (t : Text) (done rest : List Node) :
    Reaches l (equation around o (.cutting done (Node.raws t ++ rest)))
      (cutTo around o done rest (lexText l.grammar.leaves t)) := by
  fun_induction lexText l.grammar.leaves t generalizing done rest with
  | case1 t hc =>
    unfold Node.raws
    split
    · rw [List.nil_append, cutTo, List.append_nil]
    · have hkeep : (Node.raw t).rawText?.bind (leafCut? l.grammar.leaves) = none := hc
      exact (Step.keep hkeep).reaches
  | case2 t c hc e he =>
    rw [raws_of_leafCut? hc, cutTo, List.append_nil]
    exact (Step.misread hc he).reaches
  | case3 t c hc leaf hleaf e he ih =>
    rw [raws_of_leafCut? hc]
    have hleft := ih done (leaf :: (Node.raws c.after ++ rest))
    rw [he] at hleft
    refine (Step.cut hc hleaf).reaches.trans ?_
    simpa [cutTo] using hleft
  | case4 t c hc leaf hleaf left hleft e he ih₁ ih₂ =>
    rw [raws_of_leafCut? hc]
    have hright := ih₂ (done ++ left ++ [leaf]) rest
    rw [he] at hright
    refine (reaches_leaf hc hleaf fun rest => hleft ▸ ih₁ done rest).trans ?_
    simpa [cutTo] using hright
  | case5 t c hc leaf hleaf left hleft right hright ih₁ ih₂ =>
    rw [raws_of_leafCut? hc]
    have hrest := ih₂ (done ++ left ++ [leaf]) rest
    rw [hright] at hrest
    refine (reaches_leaf hc hleaf fun rest => hleft ▸ ih₁ done rest).trans ?_
    simpa [cutTo] using hrest

theorem reaches_lexSentence (o : Int) {n : Node} (hne : n ≠ .raw []) (done rest : List Node) :
    Reaches l (equation around o (.cutting done (n :: rest)))
      (cutTo around o done rest (lexSentence l.grammar.leaves n)) := by
  cases n with
  | raw t =>
    have ht : Node.raws t = [.raw t] := by simpa [Node.raws] using hne
    have htext : Reaches l (equation around o (.cutting done (Node.raws t ++ rest)))
      (cutTo around o done rest (lexText l.grammar.leaves t)) := reaches_lexText o t done rest
    rwa [ht] at htext
  | _ => exact (Step.keep rfl).reaches

/-- The sentences of a buffer are cut one after another. -/
theorem reaches_lexEach (o : Int) {ss : List Node} (hne : .raw [] ∉ ss) (done : List Node) :
    Reaches l (equation around o (.cutting done ss))
      (cutTo around o done [] ((lexEach l.grammar.leaves ss).map List.flatten)) := by
  induction ss generalizing done with
  | nil => rw [lexEach, Except.map, List.flatten_nil, cutTo, List.append_nil]
  | cons n rest ih =>
    rw [List.mem_cons, not_or] at hne
    refine (reaches_lexSentence o (Ne.symm hne.1) done rest).trans ?_
    rw [lexEach]
    cases lexSentence l.grammar.leaves n with
    | error e => simpa [cutTo, Except.map] using .refl
    | ok pieces =>
      refine (ih hne.2 (done ++ pieces)).trans ?_
      cases lexEach l.grammar.leaves rest with
      | error e => simpa [cutTo, Except.map] using .refl
      | ok others => simpa [cutTo, Except.map] using .refl

/-- **The first loop** cuts the leaves. -/
theorem reaches_lexStage (o : Int) {ss : List Node} (hne : .raw [] ∉ ss) :
    Reaches l (equation around o (.cutting [] ss))
      (proceed around (fun lexed => equation around o (.grouping lexed)) (lexStage l.grammar o ss).result) := by
  refine (reaches_lexEach o hne []).trans ?_
  unfold lexStage
  cases lexEach l.grammar.leaves ss with
  | error e => simpa [cutTo, Except.map, proceed] using .refl
  | ok pieces => exact Step.lexed.reaches

/-! ## Replacing matches -/

/-- A tier is applied. The induction is on the weight of the buffer. -/
theorem reaches_fold (o : Int) (t : Tier) (ts : List Tier) (ss : List Node) :
    Reaches l (equation around o (.folding (t :: ts) ss))
      (proceed around (fun out => equation around o (.folding ts out))
        ((t.fold l.resolve ss).result.mapError fun e => .ofRule o e.defect e.buffer)) := by
  induction hk : weight ss using Nat.strong_induction_on generalizing ss with
  | _ k ih =>
    rw [Tier.result_fold]
    cases hm : t.match? ss with
    | none => exact (Step.next hm).reaches
    | some m =>
      cases hn : m.rule.build l.resolve m.window with
      | error d =>
        simp only [hn]
        exact (Step.stuck hm hn).reaches
      | ok n =>
        simp only [hn]
        exact (Step.replace hm hn).reaches.trans (ih _ (hk ▸ Tier.weight_replace_lt hm hn) _ rfl)

theorem reaches_foldTiers (o : Int) (ts : List Tier) (ss : List Node) :
    Reaches l (equation around o (.folding ts ss))
      (proceed around (fun out => equation around o (.folding [] out))
        ((foldTiers ts l.resolve ss).result.mapError fun e => .ofRule o e.defect e.buffer)) := by
  induction ts generalizing ss with
  | nil => exact .refl
  | cons t ts ih =>
    refine (reaches_fold o t ts ss).trans ?_
    rw [foldTiers, Traced.result_bind]
    cases (t.fold l.resolve ss).result with
    | error e => exact .refl
    | ok mid => exact ih mid

/-- **The third loop** replaces the matches of all tiers. -/
theorem reaches_foldStage (o : Int) (ss : List Node) :
    Reaches l (equation around o (.folding l.grammar.tiers ss))
      (proceed around (fun out => equation around o (.folding [] out)) (foldStage l o ss).result) := by
  have hfold : (fold l.grammar.tiers l.resolve ss).result = (foldTiers l.grammar.tiers l.resolve ss).result := by
    rw [fold, Traced.result_bind]
    cases (foldTiers l.grammar.tiers l.resolve ss).result <;> rfl
  rw [foldStage, Traced.result_mapError, hfold]
  exact reaches_foldTiers o l.grammar.tiers ss

/-! ## Collapsing groups -/

/-- The machine does with the buffer at a position what the parser does. -/
def Parses (l : Language) (o : Int) (ss : List Node) : Prop :=
  ∀ around, Reaches l (equation around o (.cutting [] ss))
    (proceed around (fun out => equation around o (.folding [] out)) (parseBuffer l o ss).result)

theorem parseParams_cons (p : Param) (ps : List Param) :
    parseParams l (p :: ps) = (parseParam l p).bind fun n => (parseParams l ps).map (n :: ·) := by
  rw [parseParams, List.mapM_cons]
  cases parseParam l p with
  | error e => rfl
  | ok n => cases hps : parseParams l ps <;> simp_all [parseParams, bind, Except.bind, pure, Except.pure, Except.map]

/-- The parameters of a group are parsed one after another. -/
theorem reaches_parseParams {g : OpenGroup l} {ps : List Param} (hg : g.params.drop g.parsed.length = ps)
    (hps : ∀ p ∈ ps, Parses l p.offset p.sentences) :
    Reaches l (group around g)
      (proceed (g :: around) (fun ns => group around { g with parsed := g.parsed ++ ns }) (parseParams l ps)) := by
  induction ps generalizing g with
  | nil => simpa [parseParams, proceed, pure, Except.pure] using .refl
  | cons p ps ih =>
    rw [List.forall_mem_cons] at hps
    have hnext : g.next? = some p := by rw [OpenGroup.next?, ← List.head?_drop, hg, List.head?_cons]
    refine (Step.enter hnext).reaches.trans ((hps.1 (g :: around)).trans ?_)
    rw [parseParams_cons, parseParam]
    cases (parseBuffer l p.offset p.sentences).result with
    | error f => exact .refl
    | ok out =>
      have hrest : g.params.drop (g.parsed ++ [Node.equation .none out p.offset]).length = ps := by
        rw [List.length_append, ← List.drop_drop, hg]
        rfl
      refine Step.leave.reaches.trans ((ih (g := g.add (.equation .none out p.offset)) hrest hps.2).trans ?_)
      cases parseParams l ps with
      | error f => exact .refl
      | ok ns => simpa [proceed, OpenGroup.add, Except.bind, Except.map] using .refl

/-- The brackets of the next group are set apart and its parameters parsed. -/
theorem reaches_window {o : Int} {ss : List Node} {w : Window} (hw : nextGroup l.grammar.brackets ss = .window w)
    (hps : ∀ p ∈ (w.inside l.grammar.separator o).params, Parses l p.offset p.sentences) :
    Reaches l (equation around o (.grouping ss))
      (proceed (⟨o, ss, w, hw, []⟩ :: around) (fun params => group around ⟨o, ss, w, hw, params⟩)
        (parseParams l (w.inside l.grammar.separator o).params)) :=
  (Step.isolate hw).reaches.trans (reaches_parseParams (g := ⟨o, ss, w, hw, []⟩) rfl hps)

/-- **The second loop** collapses the groups. The induction is on the closing brackets that are still raw. -/
theorem reaches_groupStage (hb : DistinctBrackets l.grammar.brackets) (o : Int) {ss : List Node}
    (hparams : ∀ o' ss', .raw [] ∉ ss' → (sourceTexts ss').length < (sourceTexts ss).length → Parses l o' ss') :
    Reaches l (equation around o (.grouping ss))
      (proceed around (fun grouped => equation around o (.folding l.grammar.tiers grouped)) (groupStage l o ss).result) := by
  induction hk : closerCount l.grammar.brackets ss using Nat.strong_induction_on generalizing ss with
  | _ k ih =>
    rw [result_groupStage]
    cases hw : nextGroup l.grammar.brackets ss with
    | absent =>
      cases hs : strayOpener? l.grammar.brackets ss with
      | none => exact (Step.grouped hw hs).reaches
      | some found => exact (Step.stray hw hs).reaches
    | unmatched closer buffer index => exact (Step.unmatched hw).reaches
    | window w =>
      have hps : ∀ p ∈ (w.inside l.grammar.separator o).params, Parses l p.offset p.sentences := by
        intro p hp
        refine hparams _ _ (p.empty_not_mem_sentences hp) ?_
        rw [← OpenGroup.sourceTexts_isolated hb ⟨o, ss, w, hw, []⟩]
        exact OpenGroup.length_param_lt hb _ hp
      refine (reaches_window hw hps).trans ?_
      simp only
      cases hparsed : parseParams l (w.inside l.grammar.separator o).params with
      | error f => exact .refl
      | ok params =>
        let g : OpenGroup l := ⟨o, ss, w, hw, params⟩
        have hlength : g.params.length = params.length := (parseParams_ok_iff.1 hparsed).length_eq
        have hnext : g.next? = none := List.getElem?_eq_none hlength.le
        have htext : sourceTexts g.collapsed = sourceTexts ss :=
          sourceTexts_collapse hb hw ((parseParams_ok_iff.1 hparsed).imp fun p n => sourceText_parseParam hb)
        have hfewer : closerCount l.grammar.brackets g.collapsed < k := by
          rw [← hk, ← g.closerCount_isolated hb]
          exact g.closerCount_collapsed_lt hb
        exact (Step.collapse hnext).reaches.trans (ih _ hfewer (htext.symm ▸ hparams) rfl)

/-! ## The whole parse -/

/-- **An equation** is parsed. The induction is on the length of its text. -/
theorem parses (hb : DistinctBrackets l.grammar.brackets) (o : Int) {ss : List Node} (hne : .raw [] ∉ ss) :
    Parses l o ss := by
  induction hn : (sourceTexts ss).length using Nat.strong_induction_on generalizing o ss with
  | _ n ih =>
    intro around
    simp only [parseBuffer, Traced.result_bind]
    refine (reaches_lexStage o hne).proceed fun lexed hl => ?_
    rw [← sourceTexts_lexStage hl] at hn
    refine (reaches_groupStage hb o fun o' ss' hne' hlt => ih _ (hn ▸ hlt) o' hne' rfl).proceed fun grouped _ => ?_
    exact reaches_foldStage o grouped

theorem reaches_parseText (hb : DistinctBrackets l.grammar.brackets) (t : Text) :
    Reaches l (start l t) (ended (parseText l t).result) := by
  refine (parses hb 0 (Fused.raws t).nonempty []).trans ?_
  unfold parseText
  cases (parseBuffer l 0 (Node.raws t)).result with
  | error f => exact .refl
  | ok out => exact Step.finish.reaches

/-- Where an end is reached there is no endless run. -/
theorem Reaches.acc {r : Except Failure (List Node)} (h : Reaches l a (ended r)) : Acc (fun b a => Goes l a b) a := by
  induction h using Relation.ReflTransGen.head_induction_on with
  | refl =>
    refine Acc.intro _ fun b hb => ?_
    obtain ⟨move, hstep⟩ := hb
    cases hstep
  | head hab _ ih =>
    refine Acc.intro _ fun b hb => ?_
    obtain ⟨move, hstep⟩ := hab
    obtain ⟨move', hstep'⟩ := hb
    rwa [hstep'.det hstep]

end ParseState

/-- **A parse** under the default grammar comes to its end, whatever the text and the functions that names stand for. In
every state it can be in, cutting a leaf leaves less raw text, setting the brackets of a group apart keeps the number of raw
closing brackets and the group leaves fewer of them, a parameter has less text than the buffer around its group, and
replacing a match leaves the buffer lighter and no new name in it. There is no endless run from any text, and the run ends
in the result of the parse. -/
theorem parse_halts (resolve : Text → Option Function) (t : Text) :
    (∀ move a b, ParseState.Step ⟨.default, resolve⟩ move a b →
        move.Lowers Grammar.defaultBrackets a.buffer b.buffer) ∧
      Acc (fun b a => ParseState.Goes ⟨.default, resolve⟩ a b) (.start _ t) ∧
      ParseState.Reaches ⟨.default, resolve⟩ (.start _ t) (.ended (parseText ⟨.default, resolve⟩ t).result) := by
  have hb : DistinctBrackets (Language.mk .default resolve).grammar.brackets := distinctBrackets_default
  have hreaches := ParseState.reaches_parseText hb t
  exact ⟨fun _ _ _ h => h.lowers hb, hreaches.acc, hreaches⟩

end FormulaLang
