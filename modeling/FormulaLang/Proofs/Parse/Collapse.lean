import FormulaLang.Proofs.List.Marked
import FormulaLang.Proofs.Nesting.Acceptance
import FormulaLang.Proofs.Parse.Atoms

/-!
# Collapses

A collapse, seen on the atoms of a buffer, takes an innermost pair of brackets out and puts a group in its place
(`Collapse`). A fused buffer makes a step of its group stage exactly where its atoms collapse (`Collapse.of_step`,
`Collapse.exists_step`). A collapse in a buffer happens on one side of two raw characters, or between them: there it is a
collapse of the sentences between them alone (`Collapse.between`). The fields of a group stand between such characters, all
of them breaks (`Interior.field_between`).
-/

namespace FormulaLang

open Nesting
open Node (sourceTexts sourceTexts_append)
open Reading (atoms marks)

/-! ## Windows of atoms -/

theorem firstPlace?_eq_some {c : Char} {ss : List Node} {p : Place} (h : firstPlace? [c] ss = some p) :
    ss = p.before ++ .raw (p.head ++ c :: p.tail) :: p.after := by
  induction ss generalizing p with
  | nil => cases h
  | cons n rest ih =>
    rw [firstPlace?] at h
    split at h
    · rename_i head tail hb
      cases h
      obtain ⟨t, ht, hb⟩ := Option.bind_eq_some_iff.1 hb
      rw [Text.splitFirst_singleton] at hb
      obtain ⟨rfl, -⟩ := Text.breakFirst_eq_some hb
      cases n <;> cases ht
      rfl
    · obtain ⟨q, hq, rfl⟩ := Option.map_eq_some_iff.1 h
      rw [List.cons_append, ← ih hq]

theorem lastPlace?_eq_some {c : Char} {ss : List Node} {p : Place} (h : lastPlace? [c] ss = some p) :
    ss = p.before ++ .raw (p.head ++ c :: p.tail) :: p.after := by
  induction ss generalizing p with
  | nil => cases h
  | cons n rest ih =>
    rw [lastPlace?] at h
    split at h
    · rename_i q hq
      cases h
      rw [List.cons_append, ← ih hq]
    · obtain ⟨⟨head, tail⟩, hb, rfl⟩ := Option.map_eq_some_iff.1 h
      obtain ⟨t, ht, hb⟩ := Option.bind_eq_some_iff.1 hb
      rw [Text.splitLast_singleton] at hb
      obtain ⟨rfl, -⟩ := Text.breakLast_eq_some hb
      cases n <;> cases ht
      rfl

theorem Nesting.raw_closer_ne_opener (k : Kind) : Node.raw [k.closer] ≠ .raw [k.opener] := by
  cases k <;> simp [Kind.closer, Kind.opener]

namespace Window

/-- The atoms of the buffer from which a window was cut, if the sentences before and after it are atoms. -/
def spread (w : Window) : List Node :=
  w.before ++ .raw w.opener :: (atoms.nodes w.interior ++ .raw w.closer :: w.after)

theorem spread_eq (w : Window) :
    w.spread = (w.before ++ .raw w.opener :: atoms.nodes w.interior) ++ .raw w.closer :: w.after := by
  rw [spread, List.append_assoc, List.cons_append]

/-- The window with the atoms before and after it. -/
def toAtoms (w : Window) : Window :=
  { w with before := atoms.nodes w.before, after := atoms.nodes w.after }

/-- The window holds an innermost pair of brackets of the kind `k`, with no closing bracket of the kind before it. No
closing bracket of an earlier kind is left anywhere. -/
structure IsNext (k : Kind) (w : Window) : Prop where
  opener : w.opener = [k.opener]
  closer : w.closer = [k.closer]
  pair : w.shared = false
  fused : Fused w.interior
  before : .raw [k.closer] ∉ w.before
  inside : .raw [k.closer] ∉ atoms.nodes w.interior
  innermost : .raw [k.opener] ∉ atoms.nodes w.interior
  earlier : ∀ j : Kind, j.rank < k.rank → .raw [j.closer] ∉ w.spread

namespace IsNext

variable {j k : Kind} {w w' : Window}

theorem closer_mem (h : w.IsNext k) : .raw [k.closer] ∈ w.spread := by
  simp [spread, h.closer]

theorem front_not_mem (h : w.IsNext k) : .raw [k.closer] ∉ w.before ++ .raw [k.opener] :: atoms.nodes w.interior := by
  simp only [List.mem_append, List.mem_cons, not_or]
  exact ⟨h.before, raw_closer_ne_opener k, h.inside⟩

/-- The kind is the first one in the list of brackets with a closing bracket left. -/
theorem kind_unique (h : w.IsNext k) {ws : List Node} (hs : w.spread = ws) (hmem : .raw [j.closer] ∈ ws)
    (hearlier : ∀ i : Kind, i.rank < j.rank → .raw [i.closer] ∉ ws) : k = j := by
  subst hs
  rcases Nat.lt_trichotomy k.rank j.rank with hlt | heq | hlt
  · exact absurd h.closer_mem (hearlier k hlt)
  · exact rank_injective heq
  · exact absurd hmem (h.earlier j hlt)

/-- **The next pair** of a buffer is determined by its atoms. -/
theorem unique (h : w.IsNext k) (h' : w'.IsNext j) (hs : w.spread = w'.spread) : w = w' := by
  obtain rfl := h.kind_unique hs h'.closer_mem h'.earlier
  rw [spread_eq, spread_eq, h.opener, h'.opener, h.closer, h'.closer] at hs
  obtain ⟨hfront, hafter⟩ := split_first_unique h.front_not_mem h'.front_not_mem hs
  obtain ⟨hbefore, hatoms⟩ := split_last_unique h.innermost h'.innermost hfront
  have hinterior := h.fused.eq_of_atoms h'.fused hatoms
  have hopener := h.opener.trans h'.opener.symm
  have hcloser := h.closer.trans h'.closer.symm
  have hpair := h.pair.trans h'.pair.symm
  cases w
  cases w'
  simp_all

end IsNext

/-- The window with more sentences on either side. -/
def embed (x y : List Node) (w : Window) : Window :=
  { w with before := x ++ w.before, after := w.after ++ y }

variable {w : Window} {x y : List Node}

theorem spread_embed : (w.embed x y).spread = x ++ w.spread ++ y := by
  simp [embed, spread]

theorem inside_embed (separator : Separator) (offset : Int) :
    (w.embed x y).inside separator offset = w.inside separator (offset + (sourceTexts x).length) := by
  simp only [inside, embed, sourceTexts_append, List.length_append, Int.natCast_add, Int.add_assoc]

theorem IsNext.of_embed {k : Kind} (h : (w.embed x y).IsNext k) : w.IsNext k where
  opener := h.opener
  closer := h.closer
  pair := h.pair
  fused := h.fused
  before hmem := h.before (List.mem_append_right x hmem)
  inside := h.inside
  innermost := h.innermost
  earlier j hj hmem := h.earlier j hj (spread_embed ▸ List.mem_append_left y (List.mem_append_right x hmem))

end Window

/-- The window that the search finds in a fused buffer, on the atoms of the buffer. -/
theorem isNext_of_window {ss : List Node} (hs : Fused ss) {w : Window}
    (h : nextGroup Grammar.defaultBrackets ss = .window w) :
    (∃ k, w.toAtoms.IsNext k) ∧ atoms.nodes ss = w.toAtoms.spread ∧ Fused w.before ∧ Fused w.after := by
  obtain ⟨k, hopener, hcloser, -, hinnermost, hinside, hearlier⟩ := Reading.marks_window h
  obtain ⟨-, -, a, b, p, q, -, -, -, hp, hq, rfl⟩ := nextGroup_window_cases distinctBrackets_default h
  have hspread := atoms.nodes_window distinctBrackets_default h
  cases hopener
  cases hcloser
  have hatoms : atoms.nodes ss = (Window.between [k.opener] [k.closer] q p).toAtoms.spread := by
    rw [hspread]
    simp [Window.spread, Window.toAtoms, Reading.atoms_raw, Window.between]
  have hfused := firstPlace?_eq_some hp ▸ hs
  have hfront := lastPlace?_eq_some hq ▸ (hfused.replace_raw p.head).1
  have hfree := Reading.not_mem_of_firstPlace (isMark_closer k) hp
  rw [Reading.mem_marks_iff (isMark_closer k), lastPlace?_eq_some hq] at hfree
  refine ⟨⟨k, rfl, rfl, rfl, (hfront.replace_raw q.tail).2, ?_, ?_, ?_, ?_⟩, hatoms, (hfront.replace_raw q.head).1,
    (hfused.replace_raw p.tail).2⟩
  · refine fun hmem => hfree ?_
    simp only [Window.toAtoms, Window.between, Reading.nodes_append, Reading.nodes_raws, Reading.nodes_cons,
      Reading.atoms_raw, List.map_append, List.mem_append] at hmem ⊢
    exact hmem.imp_right fun hhead => .inl (.inl hhead)
  · exact (Reading.mem_marks_iff (isMark_closer k)).not.1 hinside
  · exact (Reading.mem_marks_iff (isMark_opener k)).not.1 hinnermost
  · intro j hj
    rw [← hatoms]
    exact (Reading.mem_marks_iff (isMark_closer j)).not.1 (hearlier j hj)

/-- Where the atoms of a fused buffer have a next pair, the search finds it. -/
theorem exists_window {ss : List Node} (hs : Fused ss) {k : Kind} {w : Window} (hw : w.IsNext k)
    (hatoms : atoms.nodes ss = w.spread) :
    ∃ w', nextGroup Grammar.defaultBrackets ss = .window w' ∧ w'.toAtoms = w ∧ Fused w'.before ∧ Fused w'.after := by
  have hmem : k.closer ∈ marks.nodes ss := by
    rw [Reading.mem_marks_iff (isMark_closer k), hatoms]
    exact hw.closer_mem
  cases hnext : nextGroup Grammar.defaultBrackets ss with
  | absent => exact absurd hmem (closer_not_mem_of_absent hnext k)
  | unmatched closer buffer index =>
    obtain ⟨earlier, later, a, b, p, hbr, -, hfree, hp, hq, -⟩ := nextGroup_unmatched_cases distinctBrackets_default hnext
    obtain ⟨j, rfl, rfl, hrank⟩ := Reading.kind_of_defaultBrackets hbr
    have hcloser : .raw [j.closer] ∈ atoms.nodes ss := by
      rw [← Reading.mem_marks_iff (isMark_closer j)]
      refine Decidable.not_not.1 fun hnone => ?_
      cases hp.symm.trans ((Reading.firstPlace?_eq_none_iff (isMark_closer j)).2 hnone)
    have hearlier : ∀ i : Kind, i.rank < j.rank → .raw [i.closer] ∉ atoms.nodes ss := by
      intro i hi
      rw [← Reading.mem_marks_iff (isMark_closer i)]
      exact (Reading.firstPlace?_eq_none_iff (isMark_closer i)).1 (hfree _ (hrank i hi))
    obtain rfl := hw.kind_unique hatoms.symm hcloser hearlier
    -- the text before the first closing bracket has an opening one
    have hfront : .raw [k.opener] ∉ atoms.nodes (p.before ++ Node.raws p.head) := by
      rw [← Reading.mem_marks_iff (isMark_opener k)]
      exact (Reading.lastPlace?_eq_none_iff (isMark_opener k)).1 hq
    have hfree := (Reading.mem_marks_iff (isMark_closer k)).not.1 (Reading.not_mem_of_firstPlace (isMark_closer k) hp)
    have hdivide : w.spread = atoms.nodes (p.before ++ Node.raws p.head) ++
        .raw [k.closer] :: (atoms.node (.raw p.tail) ++ atoms.nodes p.after) := by
      rw [← hatoms, atoms.nodes_firstPlace hp, Reading.nodes_append, Reading.nodes_raws, Reading.atoms_raw [k.closer]]
      simp
    rw [Window.spread_eq, hw.opener, hw.closer] at hdivide
    obtain ⟨hsame, -⟩ := split_first_unique hw.front_not_mem hfree hdivide
    rw [← hsame] at hfront
    simp at hfront
  | window w' =>
    obtain ⟨⟨j, hw'⟩, hatoms', hbefore, hafter⟩ := isNext_of_window hs hnext
    exact ⟨w', rfl, hw'.unique hw (hatoms'.symm.trans hatoms), hbefore, hafter⟩

/-! ## Collapses -/

variable {l : Language}

/-- A pair of brackets among atoms gives way to a group. -/
inductive Collapse (l : Language) (offset : Int) : List Node → List Node → Prop
  | mk {k : Kind} {w : Window} {params : List Node} (hw : w.IsNext k)
      (hp : parseParams l (w.inside l.grammar.separator offset).params = .ok params) :
      Collapse l offset w.spread (w.collapse l offset params)

theorem Window.inside_toAtoms (w : Window) (separator : Separator) (offset : Int) :
    w.toAtoms.inside separator offset = w.inside separator offset := by
  rw [inside, inside, toAtoms, Reading.sourceTexts_atoms]

theorem Window.collapse_toAtoms (w : Window) (offset : Int) (params : List Node) :
    w.toAtoms.collapse l offset params = atoms.nodes (w.collapse l offset params) := by
  rw [collapse, collapse, inside_toAtoms, Reading.nodes_append, Reading.nodes_cons, Reading.atoms_of_not_isRaw rfl]
  rfl

/-- What a collapse of atoms leaves are atoms of before, and a group. -/
theorem Collapse.mem_of_raw {offset : Int} {ws vs : List Node} (h : Collapse l offset ws vs) {t : Text} (ht : .raw t ∈ vs) :
    .raw t ∈ ws := by
  cases h with
  | mk hw hp =>
    rw [Window.collapse, Window.group, List.mem_append, List.mem_cons] at ht
    rw [Window.spread, List.mem_append, List.mem_cons, List.mem_append, List.mem_cons]
    rcases ht with ht | ht | ht
    · exact .inl ht
    · cases ht
    · exact .inr (.inr (.inr (.inr ht)))

theorem Collapse.of_embed {offset : Int} {k : Kind} {w : Window} {x y params : List Node} (hw : (w.embed x y).IsNext k)
    (hp : parseParams l ((w.embed x y).inside l.grammar.separator offset).params = .ok params) :
    Collapse l (offset + (sourceTexts x).length) w.spread
      (w.before ++ (w.embed x y).group ((w.embed x y).inside l.grammar.separator offset) params :: w.after) := by
  rw [Window.inside_embed] at hp ⊢
  exact .mk hw.of_embed hp

section Default

variable (hl : l.grammar = .default) {offset : Int}

include hl

/-- A step of the group stage is a collapse of atoms. -/
theorem Collapse.of_step {ss ss' : List Node} (hs : Fused ss)
    (h : Work.Step l offset (.grouping ss) (.grouping ss')) :
    Collapse l offset (atoms.nodes ss) (atoms.nodes ss') ∧ Fused ss' := by
  cases h with
  | @collapse _ params w hw hp =>
    have hbrackets : l.grammar.brackets = Grammar.defaultBrackets := congrArg Grammar.brackets hl
    obtain ⟨⟨k, hnext⟩, hatoms, hbefore, hafter⟩ := isNext_of_window hs (hbrackets ▸ hw)
    rw [← w.inside_toAtoms] at hp
    rw [hatoms, ← w.collapse_toAtoms]
    exact ⟨.mk hnext hp, .append_node rfl hbefore hafter⟩

/-- A collapse of the atoms of a fused buffer is a step of its group stage. -/
theorem Collapse.exists_step {ss vs : List Node} (hs : Fused ss) (h : Collapse l offset (atoms.nodes ss) vs) :
    ∃ ss', Work.Step l offset (.grouping ss) (.grouping ss') ∧ atoms.nodes ss' = vs ∧ Fused ss' := by
  generalize hws : atoms.nodes ss = ws at h
  cases h with
  | @mk k w params hw hp =>
    obtain ⟨w', hnext, rfl, hbefore, hafter⟩ := exists_window hs hw hws
    have hbrackets : l.grammar.brackets = Grammar.defaultBrackets := congrArg Grammar.brackets hl
    rw [w'.inside_toAtoms] at hp
    exact ⟨_, .collapse (hbrackets ▸ hnext) hp, (w'.collapse_toAtoms offset params).symm,
      .append_node rfl hbefore hafter⟩

/-- The group of a pair has the text of the pair. -/
theorem sourceText_group_of_parseParams {w : Window} {params : List Node}
    (hp : parseParams l (w.inside l.grammar.separator offset).params = .ok params) :
    (w.group (w.inside l.grammar.separator offset) params).sourceText =
      w.opener ++ sourceTexts w.interior ++ w.closer := by
  have hb : DistinctBrackets l.grammar.brackets := hl ▸ distinctBrackets_default
  exact Window.sourceText_group ((parseParams_ok_iff.1 hp).imp fun p n => sourceText_parseParam hb)

/-- A collapse keeps the text. -/
theorem Collapse.sourceTexts {ws vs : List Node} (h : Collapse l offset ws vs) : sourceTexts vs = sourceTexts ws := by
  cases h with
  | @mk k w params hw hp =>
    rw [Window.collapse, Window.spread]
    simp only [sourceTexts_append, Node.sourceTexts, sourceText_group_of_parseParams hl hp, Reading.sourceTexts_atoms,
      Node.sourceText, List.append_assoc]

/-- **A collapse** in a buffer with two raw characters leaves the sentences between them as they are, or it is a collapse
of these sentences alone. -/
theorem Collapse.between {ws x vs y : List Node} {c d : Char}
    (h : Collapse l offset ws (x ++ .raw [c] :: (vs ++ .raw [d] :: y))) :
    ∃ x₀ us y₀, ws = x₀ ++ .raw [c] :: (us ++ .raw [d] :: y₀) ∧ Node.sourceTexts x₀ = Node.sourceTexts x ∧
      (us = vs ∨ Collapse l (offset + (Node.sourceTexts x).length + 1) us vs) := by
  generalize hout : x ++ .raw [c] :: (vs ++ .raw [d] :: y) = out at h
  cases h with
  | @mk k w params hw hp =>
    rw [Window.collapse] at hout
    obtain ⟨-, hraw, -⟩ | ⟨m, hbefore, hrest⟩ | ⟨m, rfl, hafter⟩ := append_cons_eq_cases hout
    · cases hraw
    · obtain ⟨-, hraw, -⟩ | ⟨m', rfl, -⟩ | ⟨m', rfl, hafter⟩ := append_cons_eq_cases hrest
      · cases hraw
      · -- behind both characters
        refine ⟨x, vs, m' ++ .raw w.opener :: (atoms.nodes w.interior ++ .raw w.closer :: w.after), ?_, rfl, .inl rfl⟩
        rw [Window.spread, hbefore]
        simp
      · -- between them
        obtain ⟨v, rfl, rfl, rfl⟩ : ∃ v : Window,
            w = v.embed (x ++ [.raw [c]]) (.raw [d] :: y) ∧ v.before = m ∧ v.after = m' := by
          refine ⟨{ w with before := m, after := m' }, ?_, rfl, rfl⟩
          rw [Window.embed, List.append_assoc, List.singleton_append, ← hbefore, ← hafter]
        have hlength : ((Node.sourceTexts (x ++ [.raw [c]])).length : Int) = (Node.sourceTexts x).length + 1 := by
          simp [sourceTexts_append, Node.sourceTexts, Node.sourceText]
        have hcollapse := Collapse.of_embed hw hp
        rw [hlength, ← Int.add_assoc] at hcollapse
        refine ⟨x, v.spread, y, ?_, rfl, .inr hcollapse⟩
        rw [Window.spread_embed]
        simp
    · -- in front of both
      refine ⟨w.before ++ .raw w.opener :: (atoms.nodes w.interior ++ .raw w.closer :: m), vs, y, ?_, ?_, .inl rfl⟩
      · rw [Window.spread, hafter]
        simp
      · simp only [sourceTexts_append, Node.sourceTexts, sourceText_group_of_parseParams hl hp, Reading.sourceTexts_atoms,
          Node.sourceText, List.append_assoc]

/-! ## Runs of collapses -/

/-- The group stage on a fused buffer, seen on its atoms. -/
theorem Collapse.of_reaches {ss ss' : List Node} (hs : Fused ss)
    (h : Work.Reaches l offset (.grouping ss) (.grouping ss')) :
    Relation.ReflTransGen (Collapse l offset) (atoms.nodes ss) (atoms.nodes ss') ∧ Fused ss' := by
  generalize hb : Work.grouping ss' = b at h
  induction h generalizing ss' with
  | refl =>
    cases hb
    exact ⟨.refl, hs⟩
  | tail _ hstep ih =>
    subst hb
    cases hstep with
    | collapse hw hp =>
      obtain ⟨hchain, hfused⟩ := ih rfl
      obtain ⟨hcollapse, hfused'⟩ := Collapse.of_step hl hfused (.collapse hw hp)
      exact ⟨hchain.tail hcollapse, hfused'⟩

theorem Collapse.exists_reaches {ss vs : List Node} (hs : Fused ss)
    (h : Relation.ReflTransGen (Collapse l offset) (atoms.nodes ss) vs) :
    ∃ ss', Work.Reaches l offset (.grouping ss) (.grouping ss') ∧ atoms.nodes ss' = vs ∧ Fused ss' := by
  induction h with
  | refl => exact ⟨ss, .refl, rfl, hs⟩
  | tail _ hcollapse ih =>
    obtain ⟨mid, hreaches, rfl, hfused⟩ := ih
    obtain ⟨ss', hstep, hatoms, hfused'⟩ := Collapse.exists_step hl hfused hcollapse
    exact ⟨ss', hreaches.tail hstep, hatoms, hfused'⟩

/-- What collapses in a buffer leads to the sentences between two raw characters, collapses lead there from the sentences
between the same two characters. -/
theorem Collapse.chain_between {ws x vs y : List Node} {c d : Char}
    (h : Relation.ReflTransGen (Collapse l offset) ws (x ++ .raw [c] :: (vs ++ .raw [d] :: y))) :
    ∃ x₀ us y₀, ws = x₀ ++ .raw [c] :: (us ++ .raw [d] :: y₀) ∧ Node.sourceTexts x₀ = Node.sourceTexts x ∧
      Relation.ReflTransGen (Collapse l (offset + (Node.sourceTexts x).length + 1)) us vs := by
  induction h using Relation.ReflTransGen.head_induction_on with
  | refl => exact ⟨x, vs, y, rfl, rfl, .refl⟩
  | head hcollapse _ ih =>
    obtain ⟨x₁, us₁, y₁, rfl, hx₁, hchain⟩ := ih
    obtain ⟨x₀, us, y₀, hws, hx₀, hus⟩ := Collapse.between hl hcollapse
    refine ⟨x₀, us, y₀, hws, hx₀.trans hx₁, ?_⟩
    rcases hus with rfl | hus
    · exact hchain
    · rw [hx₁] at hus
      exact hchain.head hus

theorem Collapse.chain_sourceTexts {ws vs : List Node} (h : Relation.ReflTransGen (Collapse l offset) ws vs) :
    Node.sourceTexts vs = Node.sourceTexts ws := by
  induction h with
  | refl => rfl
  | tail _ hcollapse ih => exact (hcollapse.sourceTexts hl).trans ih

omit hl in
theorem Collapse.chain_mem_of_raw {ws vs : List Node} (h : Relation.ReflTransGen (Collapse l offset) ws vs) {t : Text}
    (ht : .raw t ∈ vs) : .raw t ∈ ws := by
  induction h with
  | refl => exact ht
  | tail _ hcollapse ih => exact ih (hcollapse.mem_of_raw ht)

end Default

end FormulaLang
