import FormulaLang.Proofs.Node.Walk
import FormulaLang.Proofs.Parse.Run
import FormulaLang.Proofs.Parse.Window

/-!
# Parameters

Every group, at any depth of a parsed tree, was made in one of the buffers that the whole parse has entered
(`everyGroup_parseText`), and so every parameter is an equation that came out of the parse of such a buffer
(`everyParam_parseText`).
-/

namespace FormulaLang

variable {l : Language}

/-! ## Nodes of a stage -/

/-- A leaf is a literal or a name, with the matched text as it is. -/
theorem LeafKind.leaf_cases {k : LeafKind} {t : Text} {n : Node} (h : k.leaf t = .ok n) :
    (∃ v, n = .number .none v t) ∨ n = .identifier .none t := by
  unfold LeafKind.leaf at h
  cases k with
  | hex =>
    cases h' : Number.readInt 16 (LeafKind.hexDigitsOf t) with
    | error e => simp [h', bind, Except.bind] at h
    | ok v =>
      simp only [h', bind, Except.bind, pure, Except.pure, Except.ok.injEq] at h
      exact .inl ⟨_, h.symm⟩
  | binary =>
    cases h' : Number.readInt 2 (t.drop 2) with
    | error e => simp [h', bind, Except.bind] at h
    | ok v =>
      simp only [h', bind, Except.bind, pure, Except.pure, Except.ok.injEq] at h
      exact .inl ⟨_, h.symm⟩
  | identifier =>
    cases h
    exact .inr rfl
  | decimal =>
    cases h' : LeafKind.readDecimal t with
    | error e => simp [h', bind, Except.bind] at h
    | ok v =>
      simp only [h', bind, Except.bind, pure, Except.pure, Except.ok.injEq] at h
      exact .inl ⟨_, h.symm⟩

/-- A leaf that is a name is of that kind. -/
theorem LeafKind.eq_identifier_of_leaf {k : LeafKind} {t u : Text} {p : Pad} (h : k.leaf t = .ok (.identifier p u)) :
    k = .identifier := by
  cases k with
  | identifier => rfl
  | hex => cases hn : Number.readInt 16 (LeafKind.hexDigitsOf t) <;> rw [LeafKind.leaf, hn] at h <;> cases h
  | binary => cases hn : Number.readInt 2 (t.drop 2) <;> rw [LeafKind.leaf, hn] at h <;> cases h
  | decimal => cases hv : LeafKind.readDecimal t <;> rw [LeafKind.leaf, hv] at h <;> cases h

theorem exists_of_forall₂ {α β : Type} {R : α → β → Prop} {xs : List α} {ys : List β} (h : List.Forall₂ R xs ys) :
    ∀ y ∈ ys, ∃ x ∈ xs, R x y := by
  induction h with
  | nil => simp
  | cons hxy _ ih =>
    simp only [List.forall_mem_cons, List.exists_mem_cons_iff]
    exact ⟨.inl hxy, fun y hy => .inr (ih y hy)⟩

section Nodes

variable {Q : Node → Prop} (raw : ∀ t, Q (.raw t))

include raw

theorem forall_mem_raws (t : Text) : ∀ n ∈ Node.raws t, Q n := by
  unfold Node.raws
  split <;> simp [raw]

theorem forall_mem_lexText {rules : List LeafRule}
    (leaf : ∀ t c n, leafCut? rules t = some c → c.kind.leaf c.matched = .ok n → Q n) {t : Text} {out : List Node}
    (h : lexText rules t = .ok out) : ∀ n ∈ out, Q n := by
  fun_induction lexText rules t generalizing out with
  | case1 t hc =>
    cases h
    exact forall_mem_raws raw t
  | case2 => cases h
  | case3 => cases h
  | case4 => cases h
  | case5 t c hc n hn left hleft right hright ih₁ ih₂ =>
    cases h
    simp only [List.forall_mem_append, List.forall_mem_cons]
    exact ⟨ih₁ hleft, leaf t c n hc hn, ih₂ hright⟩

theorem forall_mem_lexEach {rules : List LeafRule}
    (leaf : ∀ t c n, leafCut? rules t = some c → c.kind.leaf c.matched = .ok n → Q n) {ss : List Node}
    {out : List (List Node)} (h : lexEach rules ss = .ok out) (hs : ∀ n ∈ ss, Q n) : ∀ n ∈ out.flatten, Q n := by
  induction ss generalizing out with
  | nil =>
    cases h
    simp
  | cons s rest ih =>
    rw [lexEach] at h
    split at h
    · cases h
    · rename_i pieces hpieces
      split at h
      · cases h
      · rename_i others hothers
        cases h
        rw [List.flatten_cons, List.forall_mem_append]
        refine ⟨?_, ih hothers fun n hn => hs n (by simp [hn])⟩
        unfold lexSentence at hpieces
        split at hpieces
        · exact forall_mem_lexText raw leaf hpieces
        · cases hpieces
          simpa using hs s (by simp)

/-- A lexed buffer holds the nodes that it held before, leaves, and raw fragments. -/
theorem forall_mem_lexStage {g : Grammar}
    (leaf : ∀ t c n, leafCut? g.leaves t = some c → c.kind.leaf c.matched = .ok n → Q n) {offset : Int}
    {ss out : List Node} (h : (lexStage g offset ss).result = .ok out) (hs : ∀ n ∈ ss, Q n) : ∀ n ∈ out, Q n := by
  unfold lexStage at h
  split at h
  · cases h
  · rename_i pieces hp
    cases h
    exact forall_mem_lexEach raw leaf hp hs

omit raw in
theorem forall_mem_firstPlace {mark : Text} {ss : List Node} {p : Place} (h : firstPlace? mark ss = some p)
    (hs : ∀ n ∈ ss, Q n) : (∀ n ∈ p.before, Q n) ∧ ∀ n ∈ p.after, Q n := by
  induction ss generalizing p with
  | nil => simp [firstPlace?] at h
  | cons n rest ih =>
    rw [firstPlace?] at h
    split at h
    · cases h
      exact ⟨by simp, fun n hn => hs n (by simp [hn])⟩
    · obtain ⟨q, hq, rfl⟩ := Option.map_eq_some_iff.1 h
      obtain ⟨h₁, h₂⟩ := ih hq fun n hn => hs n (by simp [hn])
      exact ⟨by simpa [hs n (by simp)] using h₁, h₂⟩

omit raw in
theorem forall_mem_lastPlace {mark : Text} {ss : List Node} {p : Place} (h : lastPlace? mark ss = some p)
    (hs : ∀ n ∈ ss, Q n) : (∀ n ∈ p.before, Q n) ∧ ∀ n ∈ p.after, Q n := by
  induction ss generalizing p with
  | nil => simp [lastPlace?] at h
  | cons n rest ih =>
    rw [lastPlace?] at h
    split at h
    · rename_i q hq
      cases h
      obtain ⟨h₁, h₂⟩ := ih hq fun n hn => hs n (by simp [hn])
      exact ⟨by simpa [hs n (by simp)] using h₁, h₂⟩
    · obtain ⟨_, -, rfl⟩ := Option.map_eq_some_iff.1 h
      exact ⟨by simp, fun n hn => hs n (by simp [hn])⟩

/-- A window and its surroundings hold nodes of the buffer and raw fragments. -/
theorem forall_mem_window {brackets : List (Text × Text)} (hb : DistinctBrackets brackets) {ss : List Node} {w : Window}
    (h : nextGroup brackets ss = .window w) (hs : ∀ n ∈ ss, Q n) :
    (∀ n ∈ w.before, Q n) ∧ (∀ n ∈ w.interior, Q n) ∧ ∀ n ∈ w.after, Q n := by
  obtain ⟨-, -, a, b, p, q, -, -, -, hp, hq, rfl⟩ := nextGroup_window_cases hb h
  obtain ⟨hp₁, hp₂⟩ := forall_mem_firstPlace hp hs
  obtain ⟨hq₁, hq₂⟩ := forall_mem_lastPlace hq
    (List.forall_mem_append.2 ⟨hp₁, forall_mem_raws raw p.head⟩)
  simp only [Window.between, List.forall_mem_append]
  exact ⟨⟨hq₁, forall_mem_raws raw _⟩, ⟨forall_mem_raws raw _, hq₂⟩, forall_mem_raws raw _, hp₂⟩

theorem forall_item_cutSentence (separator : Separator) {n : Node} (hn : Q n) {m : Node}
    (hm : Piece.item m ∈ cutSentence separator n) : Q m := by
  have hcut (t : Text) (h : Piece.item m ∈ cutText separator t) : Q m := by
    fun_induction cutText separator t with
    | case1 t hc =>
      obtain ⟨k, hk, ⟨⟩⟩ := List.mem_map.1 h
      exact forall_mem_raws raw t m hk
    | case2 t c hc ih =>
      rcases List.mem_append.1 h with h | h
      · obtain ⟨k, hk, ⟨⟩⟩ := List.mem_map.1 h
        exact forall_mem_raws raw _ m hk
      · exact ih (by simpa using h)
  unfold cutSentence at hm
  split at hm
  · exact hcut _ hm
  · simp only [List.mem_singleton, Piece.item.injEq] at hm
    exact hm ▸ hn

omit raw in
theorem forall_mem_fields {ps : List Piece} (h : ∀ m, Piece.item m ∈ ps → Q m) :
    (∀ m ∈ (fields ps).1, Q m) ∧ ∀ f ∈ (fields ps).2, ∀ m ∈ f.2, Q m := by
  induction ps with
  | nil => simp [fields]
  | cons p ps ih =>
    obtain ⟨h₁, h₂⟩ := ih fun m hm => h m (by simp [hm])
    cases p with
    | item n => exact ⟨by simpa [fields, h n (by simp)] using h₁, h₂⟩
    | mark t =>
      simp only [fields, List.forall_mem_cons]
      exact ⟨by simp, h₁, h₂⟩

omit raw in
theorem forall_mem_ofFields {offset : Int} {field : List Node} {rest : List (Text × List Node)}
    (h₁ : ∀ m ∈ field, Q m) (h₂ : ∀ f ∈ rest, ∀ m ∈ f.2, Q m) :
    ∀ p ∈ (Interior.ofFields offset field rest).params, ∀ m ∈ p.field, Q m := by
  induction rest generalizing offset field with
  | nil =>
    unfold Interior.ofFields
    split
    · simp
    · simpa using h₁
  | cons f rest ih =>
    simp only [Interior.ofFields, List.forall_mem_cons] at h₂ ⊢
    exact ⟨h₁, ih h₂.1 h₂.2⟩

/-- A parameter holds nodes of the interior, raw fragments, and perhaps the literal of an empty field. -/
theorem forall_mem_sentences (empty : Q emptyLiteral) {separator : Separator} {offset : Int} {ss : List Node} {p : Param}
    (hp : p ∈ (Interior.ofSentences separator offset ss).params) (hs : ∀ n ∈ ss, Q n) : ∀ n ∈ p.sentences, Q n := by
  have hitems : ∀ m, Piece.item m ∈ ss.flatMap (cutSentence separator) → Q m := by
    intro m hm
    obtain ⟨n, hn, hm⟩ := List.mem_flatMap.1 hm
    exact forall_item_cutSentence raw separator (hs n hn) hm
  obtain ⟨h₁, h₂⟩ := forall_mem_fields hitems
  unfold Param.sentences
  split
  · simpa using empty
  · exact forall_mem_ofFields h₁ h₂ p hp

omit raw in
/-- What every rule keeps, the fold stage keeps. -/
theorem forall_mem_foldStage (build : ∀ (r : Rule) matched n, r.Builds l.resolve matched n → (∀ m ∈ matched, Q m) → Q n)
    {offset : Int} {ss out : List Node} (h : (foldStage l offset ss).result = .ok out) (hs : ∀ n ∈ ss, Q n) :
    ∀ n ∈ out, Q n := by
  refine foldTiers_keep (P := fun ss => ∀ n ∈ ss, Q n) ?_ (foldStage_ok_iff.1 h) hs
  intro t _ ss m n hm hn hs
  rw [← Tier.match?_eq_some hm] at hs
  simp only [List.forall_mem_append, List.forall_mem_cons] at hs ⊢
  exact ⟨hs.1.1, build m.rule _ n (Rule.builds_of_build hn) hs.1.2, hs.2⟩

end Nodes

/-! ## Parameters in a tree -/

namespace Node

/-- The separators and parameters of all groups in a tree have the property. -/
def EveryGroup (P : List Text → List Node → Prop) (n : Node) : Prop :=
  ∀ b ps, group b ps ∈ n.walk → P b.separators ps

variable {P : List Text → List Node → Prop}

theorem everyGroup_of_walk {n : Node} (h : ∀ x ∈ n.walk, x.isGroup = false) : EveryGroup P n := by
  intro b ps hb
  simpa [isGroup] using h _ hb

theorem everyGroup_raw (t : Text) : EveryGroup P (raw t) :=
  everyGroup_of_walk (by simp)

theorem everyGroup_emptyLiteral : EveryGroup P emptyLiteral :=
  everyGroup_of_walk (by simp [emptyLiteral, isGroup])

theorem everyGroup_leaf {k : LeafKind} {t : Text} {n : Node} (h : k.leaf t = .ok n) : EveryGroup P n := by
  rcases LeafKind.leaf_cases h with ⟨v, rfl⟩ | rfl <;> exact everyGroup_of_walk (by simp [isGroup])

theorem everyGroup_group {b : Brackets} {ps : List Node} (h : P b.separators ps) (hps : ∀ q ∈ ps, EveryGroup P q) :
    EveryGroup P (group b ps) := by
  intro b' qs hb
  rcases (mem_walk_group rfl).1 hb with hself | ⟨p, hp, hb⟩
  · cases hself
    exact h
  · exact hps p hp _ _ hb

theorem everyGroup_equation {p : Pad} {ss : List Node} {o : Int} :
    EveryGroup P (equation p ss o) ↔ ∀ s ∈ ss, EveryGroup P s := by
  simp only [EveryGroup, walk_equation, List.mem_cons, reduceCtorEq, false_or, mem_walkAll]
  exact ⟨fun h s hs b ps hb => h b ps ⟨s, hs, hb⟩, fun h b ps ⟨s, hs, hb⟩ => h s hs b ps hb⟩

/-- The operator of an operation may be any node. -/
theorem mem_walk_of_operatorToken {s : Node} {b : Brackets} {ps : List Node} (h : group b ps = operatorToken s) :
    group b ps ∈ s.walk := by
  cases s <;> simp_all [operatorToken]

theorem EveryGroup.withPad {n : Node} (h : EveryGroup P n) (p : Pad) : EveryGroup P (n.withPad p) := by
  intro b ps hb
  cases n with
  | group b' qs =>
    simp only [Node.withPad, walk_group, List.mem_cons, group.injEq] at hb
    rcases hb with ⟨rfl, rfl⟩ | hb
    · exact h b' _ (by simp)
    · exact h b ps (by simp only [walk_group, List.mem_cons, hb, or_true])
  | _ => exact h b ps (by simp_all [Node.withPad])

theorem EveryGroup.builds {r : Rule} {resolve : Text → Option Function} {matched : List Node} {n : Node}
    (h : r.Builds resolve matched n) (hm : ∀ m ∈ matched, EveryGroup P m) : EveryGroup P n := by
  cases h with
  | @spaceBefore t n => exact (hm n (by simp)).withPad _
  | @spaceAfter t n => exact (hm n (by simp)).withPad _
  | @functionCall c a =>
    intro b ps hb
    simp only [walk_call, List.mem_cons, reduceCtorEq, false_or, List.mem_append] at hb
    exact hb.elim (hm c (by simp) b ps) (hm a (by simp) b ps)
  | variableUse => exact everyGroup_of_walk (by simp [isGroup])
  | @binary x s y =>
    intro b ps hb
    simp only [walk_binary, List.mem_cons, reduceCtorEq, false_or, List.mem_append] at hb
    rcases hb with hb | hb | hb
    · exact hm x (by simp) b ps hb
    · exact hm s (by simp) b ps (mem_walk_of_operatorToken hb)
    · exact hm y (by simp) b ps hb
  | @implicit x y =>
    intro b ps hb
    simp only [walk_binary, List.mem_cons, reduceCtorEq, false_or, List.mem_append, operatorToken] at hb
    exact hb.elim (hm x (by simp) b ps) (hm y (by simp) b ps)
  | @unary s x =>
    intro b ps hb
    simp only [walk_unary, List.mem_cons, reduceCtorEq, false_or] at hb
    rcases hb with hb | hb
    · exact hm s (by simp) b ps (mem_walk_of_operatorToken hb)
    · exact hm x (by simp) b ps hb

end Node

/-! ## Where the groups come from -/

/-- The parse of the buffer `ss` at `offset` makes a group: in a buffer at `o` the window `w` is collapsed, with the parsed
parameters `params`. -/
inductive MakesGroup (l : Language) (offset : Int) (ss : List Node) : Int → Window → List Node → Prop
  | mk {o : Int} {sentences lexed buffer params : List Node} {w : Window} (h : Enters l offset ss o sentences)
      (hl : (lexStage l.grammar o sentences).result = .ok lexed)
      (hr : Work.Reaches l o (.grouping lexed) (.grouping buffer))
      (hw : nextGroup l.grammar.brackets buffer = .window w)
      (hp : parseParams l (w.inside l.grammar.separator o).params = .ok params) : MakesGroup l offset ss o w params

/-- What holds of every group that a parse makes. -/
def OfMadeGroups (l : Language) (offset : Int) (ss : List Node) (P : List Text → List Node → Prop) : Prop :=
  ∀ o w params, MakesGroup l offset ss o w params → P (w.inside l.grammar.separator o).separators params

section Origin

variable (hb : DistinctBrackets l.grammar.brackets) {offset₀ : Int} {ss₀ : List Node} {P : List Text → List Node → Prop}
  (hP : OfMadeGroups l offset₀ ss₀ P)

include hb hP

open Node (EveryGroup everyGroup_raw everyGroup_leaf everyGroup_emptyLiteral)

theorem everyGroup_groupStage {offset : Int} {ss out : List Node} (h : (groupStage l offset ss).result = .ok out) :
    ∀ sentences lexed, Enters l offset₀ ss₀ offset sentences →
      (lexStage l.grammar offset sentences).result = .ok lexed →
      Work.Reaches l offset (.grouping lexed) (.grouping ss) →
      (∀ n ∈ ss, EveryGroup P n) → ∀ n ∈ out, EveryGroup P n := by
  refine groupStage_induction (motive := fun offset ss out => ∀ sentences lexed, Enters l offset₀ ss₀ offset sentences →
      (lexStage l.grammar offset sentences).result = .ok lexed → Work.Reaches l offset (.grouping lexed) (.grouping ss) →
      (∀ n ∈ ss, EveryGroup P n) → ∀ n ∈ out, EveryGroup P n) ?_ ?_ h
  · exact fun _ _ _ _ _ _ _ _ _ hs => hs
  · intro offset ss w params out hw hp ih sentences lexed hent hl hr hs
    obtain ⟨hbefore, hinside, hafter⟩ := forall_mem_window everyGroup_raw hb hw hs
    have hparams : parseParams l (w.inside l.grammar.separator offset).params = .ok params := by
      refine parseParams_ok_iff.2 (hp.imp fun p n h => ?_)
      obtain ⟨lexed, grouped, folded, hl, hg, -, hf, rfl⟩ := h
      exact parseParam_ok_iff.2 ⟨folded, parseBuffer_ok_iff_stages.2 ⟨lexed, grouped, hl, hg, hf⟩, rfl⟩
    have heach : ∀ q ∈ params, EveryGroup P q := by
      intro q hq
      obtain ⟨p, hpm, lexed', grouped, folded, hl', hg, ih', hf, rfl⟩ := exists_of_forall₂ hp q hq
      have hsub := forall_mem_lexStage everyGroup_raw (fun _ _ _ _ => everyGroup_leaf) hl'
        (forall_mem_sentences everyGroup_raw everyGroup_emptyLiteral hpm hinside)
      refine Node.everyGroup_equation.2 ?_
      exact forall_mem_foldStage (fun r matched n => Node.EveryGroup.builds) hf
        (ih' _ _ (.param hent hl hr hw hpm) hl' .refl hsub)
    refine ih sentences lexed hent hl (hr.tail (.collapse hw hparams)) ?_
    simp only [Window.collapse, List.forall_mem_append, List.forall_mem_cons]
    exact ⟨hbefore, Node.everyGroup_group (hP _ _ _ (.mk hent hl hr hw hparams)) heach, hafter⟩

/-- **The groups** that a parsed text holds are those that the parse has made. -/
theorem everyGroup_parseBuffer {out : List Node} (hs : ∀ n ∈ ss₀, EveryGroup P n)
    (h : (parseBuffer l offset₀ ss₀).result = .ok out) : ∀ n ∈ out, EveryGroup P n := by
  obtain ⟨lexed, grouped, hl, hg, hf⟩ := parseBuffer_ok_iff_stages.1 h
  have hlexed : ∀ n ∈ lexed, EveryGroup P n := forall_mem_lexStage everyGroup_raw (fun _ _ _ _ => everyGroup_leaf) hl hs
  exact forall_mem_foldStage (fun r matched n => EveryGroup.builds) hf
    (everyGroup_groupStage hb hP hg _ lexed .self hl .refl hlexed)

end Origin

/-- What holds of every group that the parse of a text makes holds of the groups of its formula. -/
theorem everyGroup_parseText (hb : DistinctBrackets l.grammar.brackets) {P : List Text → List Node → Prop} {t : Text}
    (hP : OfMadeGroups l 0 (Node.raws t) P) {out : List Node} (h : (parseText l t).result = .ok out) {b : Brackets}
    {ps : List Node} (hg : .group b ps ∈ (Node.equation .none out 0).walk) : P b.separators ps :=
  Node.everyGroup_equation.2 (everyGroup_parseBuffer hb hP (forall_mem_raws Node.everyGroup_raw t) h) b ps hg

/-- The node is the equation of a buffer that the parse of the buffer `ss` at `offset` enters. -/
def IsEntered (l : Language) (offset : Int) (ss : List Node) (q : Node) : Prop :=
  ∃ o sentences out, Enters l offset ss o sentences ∧ (parseBuffer l o sentences).result = .ok out ∧
    q = .equation .none out o

theorem MakesGroup.isEntered {offset o : Int} {ss params : List Node} {w : Window}
    (h : MakesGroup l offset ss o w params) : ∀ q ∈ params, IsEntered l offset ss q := by
  cases h with
  | mk h hl hr hw hp =>
    intro q hq
    obtain ⟨p, hpm, hparam⟩ := exists_of_forall₂ (parseParams_ok_iff.1 hp) q hq
    obtain ⟨out, hout, rfl⟩ := parseParam_ok_iff.1 hparam
    exact ⟨_, _, out, .param h hl hr hw hpm, hout, rfl⟩

/-- **The parameters** of the groups of a formula are the equations of buffers that its parse has entered. -/
theorem everyParam_parseText (hb : DistinctBrackets l.grammar.brackets) {t : Text} {out : List Node}
    (h : (parseText l t).result = .ok out) {b : Brackets} {ps : List Node}
    (hg : .group b ps ∈ (Node.equation .none out 0).walk) : ∀ q ∈ ps, IsEntered l 0 (Node.raws t) q :=
  everyGroup_parseText (P := fun _ ps => ∀ q ∈ ps, IsEntered l 0 (Node.raws t) q) hb
    (fun _ _ _ hmade => hmade.isEntered) h hg

end FormulaLang
