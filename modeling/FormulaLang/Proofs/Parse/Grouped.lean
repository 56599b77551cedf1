import FormulaLang.Proofs.Parse.Collapse

/-!
# Grouping in a context

A stretch of atoms of a buffer becomes a stretch of sentences when its groups are collapsed, wherever in the buffer it stands
(`Groups`). Stretches side by side are grouped side by side (`Groups.append`), and a stretch between round brackets becomes a
group when its parameters parse (`Groups.group`). So the group stage of a text can be followed along the structure of the
text, although it takes the groups out of the whole buffer one after another (`Groups.reaches`).
-/

namespace FormulaLang

open Nesting
open Node (sourceTexts sourceTexts_append)
open Reading (atoms)

variable {l : Language}

/-- The atoms `ws`, the first of them at the position `o`, are grouped to the sentences `out` in every buffer with no round
closing bracket in front of them. -/
structure Groups (l : Language) (o : Int) (ws out : List Node) : Prop where
  closed : .raw [')'] ∉ atoms.nodes out
  collapses : ∀ offset x y, .raw [')'] ∉ x → offset + (sourceTexts x).length = o →
    Relation.ReflTransGen (Collapse l offset) (x ++ ws ++ y) (x ++ atoms.nodes out ++ y)

/-- A collapse puts no name at the end of the atoms. -/
theorem Collapse.mem_getLast?_of_isIdentifier {offset : Int} {xs ys : List Node} (h : Collapse l offset xs ys) {n : Node}
    (hn : n ∈ ys.getLast?) (hname : n.isIdentifier = true) : n ∈ xs.getLast? := by
  obtain @⟨k, w, params, hw, hp⟩ := h
  rw [Window.collapse, List.getLast?_append_of_ne_nil _ (List.cons_ne_nil _ _)] at hn
  have hspread : w.spread.getLast? = (.raw w.closer :: w.after).getLast? := by
    rw [Window.spread_eq, List.getLast?_append_of_ne_nil _ (List.cons_ne_nil _ _)]
  rw [hspread]
  generalize w.after = after at hn ⊢
  cases after with
  | nil =>
    cases Option.mem_some_iff.1 hn
    cases hname
  | cons m after => rwa [List.getLast?_cons_cons] at hn ⊢

namespace Groups

variable {o : Int} {ws vs out out' : List Node}

/-- Sentences without a closing bracket stay as they are. -/
theorem refl (h : .raw [')'] ∉ atoms.nodes out) : Groups l o (atoms.nodes out) out where
  closed := h
  collapses _ _ _ _ _ := .refl

theorem node {n : Node} (hn : n.isRaw = false) : Groups l o [n] [n] := by
  have hatoms : atoms.nodes [n] = [n] := Reading.atoms_nodes_singleton hn
  have hclosed : .raw [')'] ∉ atoms.nodes [n] := by
    rw [hatoms, List.mem_singleton]
    rintro rfl
    cases hn
  have hrefl := refl (l := l) (o := o) hclosed
  rwa [hatoms] at hrefl

/-- A name at the end of the sentences stands at the end of the atoms. -/
theorem mem_getLast?_of_isIdentifier (h : Groups l o ws out) {n : Node} (hn : n ∈ out.getLast?)
    (hname : n.isIdentifier = true) : n ∈ ws.getLast? := by
  have hchain := h.collapses o [] [] (by simp) (by simp [sourceTexts])
  rw [List.append_nil, List.append_nil, List.nil_append, List.nil_append] at hchain
  have hatoms : n ∈ (atoms.nodes out).getLast? := by
    obtain ⟨front, rfl⟩ := List.getLast?_eq_some_iff.1 hn
    have hnode : n.isRaw = false := by
      cases n <;> first | rfl | cases hname
    rw [Reading.nodes_append, Reading.atoms_nodes_singleton hnode, List.getLast?_concat]
    rfl
  clear h
  induction hchain using Relation.ReflTransGen.head_induction_on with
  | refl => exact hatoms
  | head hstep _ ih => exact hstep.mem_getLast?_of_isIdentifier ih hname

section Default

variable (hl : l.grammar = .default)

include hl

theorem sourceTexts_eq (h : Groups l o ws out) : sourceTexts out = sourceTexts ws := by
  have hchain := h.collapses o [] [] (by simp) (by simp [sourceTexts])
  rw [List.append_nil, List.append_nil, List.nil_append, List.nil_append] at hchain
  rw [← Reading.sourceTexts_atoms, Collapse.chain_sourceTexts hl hchain]

/-- **Stretches side by side** are grouped side by side. -/
theorem append (h : Groups l o ws out) (h' : Groups l (o + (sourceTexts ws).length) vs out') :
    Groups l o (ws ++ vs) (out ++ out') where
  closed := by
    rw [Reading.nodes_append, List.mem_append, not_or]
    exact ⟨h.closed, h'.closed⟩
  collapses offset x y hx ho := by
    have hfront := h.collapses offset x (vs ++ y) hx ho
    have hclosed : .raw [')'] ∉ x ++ atoms.nodes out := by
      rw [List.mem_append, not_or]
      exact ⟨hx, h.closed⟩
    have hposition : offset + (sourceTexts (x ++ atoms.nodes out)).length = o + (sourceTexts ws).length := by
      rw [sourceTexts_append, Reading.sourceTexts_atoms, h.sourceTexts_eq hl, List.length_append]
      omega
    have hback := h'.collapses offset (x ++ atoms.nodes out) y hclosed hposition
    rw [Reading.nodes_append]
    simp only [List.append_assoc] at hfront hback ⊢
    exact hfront.trans hback

omit hl in
/-- **A stretch between round brackets** becomes a group. -/
theorem group (h : Groups l (o + 1) ws out) (hfused : Fused out) (hopen : .raw ['('] ∉ atoms.nodes out)
    {params : List Node} (hp : parseParams l (Interior.ofSentences l.grammar.separator (o + 1) out).params = .ok params) :
    Groups l o (.raw ['('] :: ws ++ [.raw [')']])
      [.group ⟨.none, ['('], (Interior.ofSentences l.grammar.separator (o + 1) out).separators,
        (Interior.ofSentences l.grammar.separator (o + 1) out).blank ++ [')']⟩ params] where
  closed := by simp [Reading.atoms_of_not_isRaw (n := .group _ params) rfl]
  collapses offset x y hx ho := by
    have hinner : .raw [')'] ∉ x ++ [.raw ['(']] := by simpa using hx
    have hposition : offset + (sourceTexts (x ++ [.raw ['(']])).length = o + 1 := by
      simp [sourceTexts_append, sourceTexts, Node.sourceText]
      omega
    have hchain := h.collapses offset (x ++ [.raw ['(']]) (.raw [')'] :: y) hinner hposition
    -- what is left between the brackets is an innermost pair
    let w : Window := ⟨x, ['('], out, [')'], y, false⟩
    have hnext : w.IsNext .round :=
      { opener := rfl
        closer := rfl
        pair := rfl
        fused := hfused
        before := hx
        inside := h.closed
        innermost := hopen
        earlier := fun j hj => absurd hj (by simp [Kind.rank, Kind.all]) }
    have hinside : w.inside l.grammar.separator offset = Interior.ofSentences l.grammar.separator (o + 1) out := by
      have hopener : ((['('] : Text).length : Int) = 1 := rfl
      simp only [Window.inside, w, hopener, ho]
    have hcollapse : Collapse l offset w.spread (w.collapse l offset params) := .mk hnext (hinside ▸ hp)
    rw [Window.collapse, Window.group, hinside] at hcollapse
    have hspread : w.spread = x ++ [.raw ['(']] ++ atoms.nodes out ++ .raw [')'] :: y := by simp [Window.spread, w]
    rw [hspread] at hcollapse
    simpa [w, Reading.atoms_of_not_isRaw (n := .group _ params) rfl] using hchain.tail hcollapse

/-- **The group stage** of lexed sentences, followed along their structure. -/
theorem reaches {lexed : List Node} (hlexed : Fused lexed) (h : Groups l o (atoms.nodes lexed) out) (hout : Fused out) :
    Work.Reaches l o (.grouping lexed) (.grouping out) := by
  have hchain := h.collapses o [] [] (by simp) (by simp [sourceTexts])
  rw [List.append_nil, List.append_nil, List.nil_append, List.nil_append] at hchain
  obtain ⟨grouped, hreaches, hatoms, hgrouped⟩ := Collapse.exists_reaches hl hlexed hchain
  rwa [hgrouped.eq_of_atoms hout hatoms] at hreaches

end Default

end Groups

end FormulaLang
