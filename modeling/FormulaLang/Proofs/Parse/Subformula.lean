import FormulaLang.Formula.Session
import FormulaLang.Proofs.Parse.Collapse
import FormulaLang.Proofs.Parse.FieldAtoms
import FormulaLang.Proofs.Parse.Shift

/-!
# Sub-formulas

In the text around it, the field of a parameter is lexed together with its surroundings, and some of its groups are collapsed
before the group that it belongs to. Alone, all of this happens in a buffer of its own, and comes to the same sentences
(`reaches_field`, for one group; `Enters.reaches`, at any depth). So a parameter is the tree that its text alone has, but
for its position (`Formula.parse_param`).
-/

namespace FormulaLang

open Nesting
open Node (sourceTexts sourceTexts_append)
open Reading (atoms)

/-! ## Texts of lexed sentences -/

theorem atoms_text_ne_nil {rules : List LeafRule} {t : Text} {out : List Node} (h : lexText rules t = .ok out) :
    ∀ n ∈ atoms.nodes out, n.sourceText ≠ [] := by
  have hraw (t : Text) : ∀ n ∈ atoms.nodes (Node.raws t), n.sourceText ≠ [] := by
    rw [Reading.nodes_raws, Reading.atoms_raw, List.forall_mem_map]
    exact fun c _ => List.cons_ne_nil c []
  fun_induction lexText rules t generalizing out with
  | case1 t hcut =>
    cases h
    exact hraw t
  | case2 => cases h
  | case3 => cases h
  | case4 => cases h
  | case5 t cut hcut leaf hleaf left hleft right hright ih₁ ih₂ =>
    cases h
    rw [Reading.nodes_append, Reading.nodes_cons, Reading.atoms_of_not_isRaw (LeafKind.isRaw_leaf hleaf),
      List.forall_mem_append, List.singleton_append, List.forall_mem_cons, LeafKind.sourceText_leaf hleaf]
    exact ⟨ih₁ hleft, (leafCut?_eq_some hcut).2, ih₂ hright⟩

/-- Sentences with texts are divided in one way by the text of the first part. -/
theorem append_unique_of_text {x y u v : List Node} (hne : ∀ n ∈ x ++ y, n.sourceText ≠ []) (h : x ++ y = u ++ v)
    (ht : sourceTexts x = sourceTexts u) : x = u ∧ y = v := by
  have hempty : ∀ {m : List Node}, (∀ n ∈ m, n.sourceText ≠ []) → sourceTexts m = [] → m = [] := by
    intro m hm hs
    cases m with
    | nil => rfl
    | cons n m =>
      rw [sourceTexts, List.append_eq_nil_iff] at hs
      exact absurd hs.1 (hm n List.mem_cons_self)
  rcases List.append_eq_append_iff.1 h with ⟨m, rfl, rfl⟩ | ⟨m, rfl, rfl⟩
  · rw [sourceTexts_append, List.self_eq_append_right] at ht
    obtain rfl := hempty (fun n hn => hne n (by simp [hn])) ht
    simp
  · rw [sourceTexts_append, List.append_right_eq_self] at ht
    obtain rfl := hempty (fun n hn => hne n (by simp [hn])) ht
    simp

theorem sourceTexts_lexText {rules : List LeafRule} {t : Text} {out : List Node} (h : lexText rules t = .ok out) :
    sourceTexts out = t := by
  rw [← Reading.nodes_source, Reading.nodes_lexText (readsLeaves_source rules) h]
  rfl

/-- What lexing finds between two breaks it finds in the text between them. -/
theorem lexText_between {c d : Char} (hc : ¬Pattern.LeafChar c) (hd : ¬Pattern.LeafChar d) {rules : List LeafRule}
    {t : Text} {out x us y : List Node} (h : lexText rules t = .ok out)
    (hout : atoms.nodes out = x ++ .raw [c] :: (us ++ .raw [d] :: y)) :
    ∃ lexed, lexText rules (sourceTexts us) = .ok lexed ∧ atoms.nodes lexed = us := by
  have ht : t = sourceTexts x ++ c :: (sourceTexts us ++ d :: sourceTexts y) := by
    rw [← sourceTexts_lexText h, ← Reading.sourceTexts_atoms, hout]
    simp [sourceTexts_append, sourceTexts, Node.sourceText]
  have hne := atoms_text_ne_nil h
  subst ht
  obtain ⟨front, rest, hfront, hrest, hatoms⟩ := atoms_lexText_break hc h
  obtain ⟨lexed, back, hlexed, -, hrestAtoms⟩ := atoms_lexText_break hd hrest
  rw [hout] at hne
  rw [hout, hrestAtoms] at hatoms
  obtain ⟨-, htail⟩ := append_unique_of_text hne hatoms
    (by rw [Reading.sourceTexts_atoms, sourceTexts_lexText hfront])
  rw [List.cons.injEq] at htail
  obtain ⟨hus, -⟩ := append_unique_of_text (fun n hn => hne n (by simp_all)) htail.2
    (by rw [Reading.sourceTexts_atoms, sourceTexts_lexText hlexed])
  exact ⟨lexed, hlexed, hus.symm⟩

/-! ## Fields alone -/

section Default

variable {l : Language} (hl : l.grammar = .default)

include hl

omit hl in
/-- The field of a parameter stands between two breaks of the buffer around its group. -/
theorem Window.field_between {offset : Int} {buffer : List Node} {w : Window} {p : Param} (hfused : Fused buffer)
    (hw : nextGroup Grammar.defaultBrackets buffer = .window w) (hp : p ∈ (w.inside (.spaced ',') offset).params) :
    Fused p.field ∧ ∃ x c d y, ¬Pattern.LeafChar c ∧ ¬Pattern.LeafChar d ∧
      offset + (sourceTexts x).length + 1 = p.offset ∧
      atoms.nodes buffer = x ++ .raw [c] :: (atoms.nodes p.field ++ .raw [d] :: y) := by
  obtain ⟨⟨k, hnext⟩, hatoms, -, -⟩ := isNext_of_window hfused hw
  have hbreak : ∀ c, isMark c = true → ¬Pattern.LeafChar c := by
    intro c hc hleaf
    rw [isMark_of_leafChar hleaf] at hc
    cases hc
  obtain ⟨hfield, x, c, d, y, hc, hd, hoffset, hinterior⟩ := Interior.field_between
    (hbreak _ (isMark_opener k)) (hbreak _ (isMark_closer k)) hnext.fused hp
  refine ⟨hfield, atoms.nodes w.before ++ x, c, d, y ++ atoms.nodes w.after, hc, hd, ?_, ?_⟩
  · have hopener : w.opener.length = 1 := congrArg List.length hnext.opener
    rw [hoffset, hopener, sourceTexts_append, Reading.sourceTexts_atoms, List.length_append]
    omega
  · calc atoms.nodes buffer
        = atoms.nodes w.before ++ .raw w.toAtoms.opener :: (atoms.nodes w.interior ++
            .raw w.toAtoms.closer :: atoms.nodes w.after) := hatoms
      _ = atoms.nodes w.before ++ (.raw [k.opener] :: (atoms.nodes w.interior ++ [.raw [k.closer]])) ++
            atoms.nodes w.after := by
          rw [hnext.opener, hnext.closer]
          simp
      _ = (atoms.nodes w.before ++ x) ++ .raw [c] :: (atoms.nodes p.field ++ .raw [d] :: (y ++ atoms.nodes w.after)) := by
          rw [show w.interior = w.toAtoms.interior from rfl, hinterior]
          simp

/-- **The field of a parameter** is what the group stage makes of the text of the field alone, before it collapses the
next group in it. -/
theorem reaches_field {offset : Int} {t : Text} {lexed buffer : List Node} {w : Window} {p : Param}
    (ht : lexText l.grammar.leaves t = .ok lexed) (hr : Work.Reaches l offset (.grouping lexed) (.grouping buffer))
    (hw : nextGroup l.grammar.brackets buffer = .window w) (hp : p ∈ (w.inside l.grammar.separator offset).params) :
    ∃ alone, lexText l.grammar.leaves (sourceTexts p.field) = .ok alone ∧
      Work.Reaches l p.offset (.grouping alone) (.grouping p.field) ∧
      (lexStage l.grammar p.offset p.field).result = .ok p.field := by
  have hleaves : l.grammar.leaves = Grammar.defaultLeaves := congrArg Grammar.leaves hl
  have hbrackets : l.grammar.brackets = Grammar.defaultBrackets := congrArg Grammar.brackets hl
  have hseparator : l.grammar.separator = .spaced ',' := congrArg Grammar.separator hl
  obtain ⟨hchain, hfused⟩ := Collapse.of_reaches hl (fused_lexText ht) hr
  obtain ⟨hfield, x, c, d, y, hc, hd, hposition, hbuffer⟩ :=
    Window.field_between hfused (hbrackets ▸ hw) (hseparator ▸ hp)
  -- the same place in the lexed text
  rw [hbuffer] at hchain
  obtain ⟨x₀, us, y₀, hlexed, hx₀, hus⟩ := Collapse.chain_between hl hchain
  rw [hposition] at hus
  -- and in the text of the field alone
  obtain ⟨alone, halone, rfl⟩ := lexText_between hc hd ht hlexed
  have htext := Collapse.chain_sourceTexts hl hus
  rw [Reading.sourceTexts_atoms] at htext
  obtain ⟨field, hreaches, hsame, hfused'⟩ := Collapse.exists_reaches hl (fused_lexText halone) hus
  obtain rfl := hfused'.eq_of_atoms hfield hsame
  have hraws : Lexed p.field := by
    intro e he
    rw [hleaves] at halone
    exact lexed_lexText halone e (Collapse.chain_mem_of_raw hus he)
  exact ⟨alone, htext ▸ halone, hreaches, lexStage_eq_self hleaves hfield hraws p.offset⟩

omit hl in
theorem lexStage_raws_ok_iff {g : Grammar} {offset : Int} {t : Text} {out : List Node} :
    (lexStage g offset (Node.raws t)).result = .ok out ↔ lexText g.leaves t = .ok out := by
  unfold Node.raws
  split
  · rename_i ht
    have hnone : leafCut? g.leaves [] = none := by
      refine Option.eq_none_iff_forall_ne_some.2 fun c hc => ?_
      obtain ⟨happend, hne⟩ := leafCut?_eq_some hc
      exact hne (List.append_eq_nil_iff.1 (List.append_eq_nil_iff.1 happend).1).2
    rw [List.isEmpty_iff.1 ht, lexText_of_none hnone]
    simp [lexStage, lexEach, Node.raws]
  · cases hlex : lexText g.leaves t with
    | error e => simp [lexStage, lexEach, lexSentence, hlex]
    | ok sentences => simp [lexStage, lexEach, lexSentence, hlex]

/-- A buffer in which a pair of brackets is found has a text. -/
theorem sourceTexts_ne_nil_of_window {offset : Int} {sentences lexed buffer : List Node} {w : Window}
    (hlexed : (lexStage l.grammar offset sentences).result = .ok lexed)
    (hr : Work.Reaches l offset (.grouping lexed) (.grouping buffer)) (hw : nextGroup l.grammar.brackets buffer = .window w) :
    sourceTexts sentences ≠ [] := by
  have hb : DistinctBrackets l.grammar.brackets := hl ▸ distinctBrackets_default
  have htext : sourceTexts lexed = sourceTexts buffer := (Work.Reaches.sourceTexts_buffer hb hr).symm
  have hbrackets : l.grammar.brackets = Grammar.defaultBrackets := congrArg Grammar.brackets hl
  obtain ⟨k, hopener, -⟩ := Reading.marks_window (hbrackets ▸ hw)
  rw [← sourceTexts_lexStage hlexed, htext, sourceTexts_window hb hw, hopener]
  simp

/-- A buffer that a parse enters comes out of its own text in the course of the group stage. -/
theorem Enters.reaches {offset o : Int} {t : Text} {sentences lexed : List Node}
    (h : Enters l offset (Node.raws t) o sentences) (hne : sourceTexts sentences ≠ [])
    (hlexed : (lexStage l.grammar o sentences).result = .ok lexed) :
    ∃ alone, lexText l.grammar.leaves (sourceTexts sentences) = .ok alone ∧
      Work.Reaches l o (.grouping alone) (.grouping lexed) := by
  induction h generalizing lexed with
  | self =>
    refine ⟨lexed, ?_, .refl⟩
    rw [Node.sourceTexts_raws]
    exact lexStage_raws_ok_iff.1 hlexed
  | @param o sentences outer buffer w p _ houter hr hw hp ih =>
    obtain ⟨aloneOuter, haloneOuter, hreaches⟩ := ih (sourceTexts_ne_nil_of_window hl houter hr hw) houter
    obtain ⟨alone, halone, hfield, hself⟩ := reaches_field hl haloneOuter (hreaches.trans hr) hw hp
    have hsentences : p.sentences = p.field := by
      unfold Param.sentences
      split
      · rename_i hempty
        rw [Param.sourceTexts_sentences, List.isEmpty_iff.1 hempty] at hne
        exact absurd rfl hne
      · rfl
    rw [hsentences] at hlexed ⊢
    cases hself.symm.trans hlexed
    exact ⟨alone, halone, hfield⟩

/-- **A buffer** that a parse enters has the sentences that its own text has in the same place. -/
theorem Enters.parseBuffer_alone {offset o : Int} {t : Text} {sentences out : List Node}
    (h : Enters l offset (Node.raws t) o sentences) (hne : sourceTexts sentences ≠ [])
    (hout : (parseBuffer l o sentences).result = .ok out) :
    (parseBuffer l o (Node.raws (sourceTexts sentences))).result = .ok out := by
  obtain ⟨lexed, hlexed, hr⟩ := parseBuffer_ok_iff.1 hout
  obtain ⟨alone, halone, hreaches⟩ := h.reaches hl hne hlexed
  refine parseBuffer_ok_iff.2 ⟨alone, ?_, hreaches.trans hr⟩
  rw [Node.raws, if_neg (by simpa using hne)]
  simp [lexStage, lexEach, lexSentence, halone]

/-- **A sub-formula** means what it means alone: the text of a parameter parses, and its tree is that of the parameter with
all positions counted from the start of that text. -/
theorem Formula.parse_param {t : Text} (h : (parse l t).failure = none) {b : Brackets} {ps : List Node}
    (hg : .group b ps ∈ (parse l t).formula.root.walk) {q : Node} (hq : q ∈ ps) (hs : q.sourceText ≠ []) :
    ∃ out o, q = .equation .none out o ∧ (parse l q.sourceText).failure = none ∧
      (parse l q.sourceText).formula.root = q.shift (-o) := by
  have hb : DistinctBrackets l.grammar.brackets := hl ▸ distinctBrackets_default
  obtain ⟨root, hroot⟩ := parse_failure_eq_none_iff.1 h
  rw [root_parse_of_ok hroot] at hg
  obtain ⟨o, sentences, out, henters, hout, rfl⟩ := everyParam_parseText hb hroot hg q hq
  have htext : (Node.equation .none out o).sourceText = sourceTexts sentences := by
    rw [← sourceTexts_parseBuffer hb hout]
    simp [Node.sourceText, Pad.wrap, Pad.none]
  rw [htext] at hs ⊢
  have halone := parseBuffer_shift (-o) (henters.parseBuffer_alone hl hs hout)
  rw [Int.add_right_neg, Node.map_shift_raws] at halone
  refine ⟨out, o, rfl, parse_failure_eq_none_iff.2 ⟨_, halone⟩, ?_⟩
  rw [root_parse_of_ok halone, Node.shift, Node.shiftAll_eq_map, Int.add_right_neg]

end Default

/-- The second parameter of a call, in which a group was collapsed before the groups around it. -/
theorem Formula.parse_param_sum :
    (parse .default "[max(1, 2), (x +2) y]".toList).failure = none ∧
      ∃ b ps q out o, .group b ps ∈ (parse .default "[max(1, 2), (x +2) y]".toList).formula.root.walk ∧ q ∈ ps ∧
        q.sourceText = "(x +2) y".toList ∧ q = .equation .none out o ∧
        (parse .default "(x +2) y".toList).failure = none ∧
        (parse .default "(x +2) y".toList).formula.root = q.shift (-o) := by
  have h : (parse .default "[max(1, 2), (x +2) y]".toList).failure = none := Option.isNone_iff_eq_none.1 (by decide +kernel)
  have hfound : ((parse .default "[max(1, 2), (x +2) y]".toList).formula.root.walk.any fun n =>
      n.params?.any fun ps => ps.any fun q => q.sourceText == "(x +2) y".toList) = true := by
    decide +kernel
  obtain ⟨n, hn, hps⟩ := List.any_eq_true.1 hfound
  cases n with
  | group b ps =>
    obtain ⟨q, hq, htext⟩ := List.any_eq_true.1 hps
    have hs : q.sourceText = "(x +2) y".toList := eq_of_beq htext
    obtain ⟨out, o, hqo, hok, hroot⟩ := parse_param rfl h hn hq (by rw [hs]; exact List.cons_ne_nil _ _)
    rw [hs] at hok hroot
    exact ⟨h, b, ps, q, out, o, hn, hq, hs, hqo, hok, hroot⟩
  | _ => cases hps

end FormulaLang
