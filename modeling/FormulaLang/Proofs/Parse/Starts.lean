import FormulaLang.Parse.Sharing
import FormulaLang.Proofs.List.Marked
import FormulaLang.Proofs.Parse.Subformula
import Mathlib.Data.List.Nodup

/-!
# Where the nodes of a buffer begin

A node keeps its position as long as it is a sentence of some buffer, so a position tells one node from another in all the
buffers that share it (`nodeStarts`). No raw character stands where a node begins (`not_mem_nodeStarts_of_rawAt`). The nodes
of an interior are those of its fields, in their order (`Interior.nodeStarts_params`). What the steps of a parse leave raw
was raw before (`Window.rawAt_of_field`, `Window.rawAt_of_collapse`).
-/

namespace FormulaLang

open Node (sourceTexts sourceTexts_append)
open Reading (atoms)

/-- The positions at which the nodes of a buffer begin, raw fragments aside. -/
def nodeStarts (offset : Int) : List Node → List Int
  | [] => []
  | n :: ss =>
    if n.isRaw then nodeStarts (offset + n.sourceText.length) ss
    else offset :: nodeStarts (offset + n.sourceText.length) ss

/-- The positions at which the nodes inside a window begin. -/
def Window.innerStarts (w : Window) (offset : Int) : List Int :=
  nodeStarts (offset + (sourceTexts w.before).length + w.opener.length) w.interior

/-- A raw character of the buffer stands at the position. -/
def RawAt (offset : Int) (ss : List Node) (x : Int) : Prop :=
  ∃ a c b, atoms.nodes ss = a ++ .raw [c] :: b ∧ x = offset + (sourceTexts a).length

variable {offset x : Int} {n : Node} {ss xs ys : List Node}

/-! ## Positions of nodes -/

@[simp] theorem nodeStarts_nil : nodeStarts offset [] = [] := rfl

theorem nodeStarts_cons_raw (h : n.isRaw = true) :
    nodeStarts offset (n :: ss) = nodeStarts (offset + n.sourceText.length) ss := by
  rw [nodeStarts, if_pos h]

theorem nodeStarts_cons_node (h : n.isRaw = false) :
    nodeStarts offset (n :: ss) = offset :: nodeStarts (offset + n.sourceText.length) ss := by
  rw [nodeStarts, if_neg (by simp [h])]

theorem nodeStarts_append (offset : Int) (xs ys : List Node) :
    nodeStarts offset (xs ++ ys) = nodeStarts offset xs ++ nodeStarts (offset + (sourceTexts xs).length) ys := by
  induction xs generalizing offset with
  | nil => simp [sourceTexts]
  | cons n xs ih =>
    have hlength : offset + (sourceTexts (n :: xs)).length =
        offset + n.sourceText.length + (sourceTexts xs).length := by
      rw [sourceTexts, List.length_append]
      omega
    rw [List.cons_append, hlength]
    cases hn : n.isRaw with
    | true => rw [nodeStarts_cons_raw hn, nodeStarts_cons_raw hn, ih]
    | false => rw [nodeStarts_cons_node hn, nodeStarts_cons_node hn, ih, List.cons_append]

theorem nodeCount_cons_raw {n : Node} (h : n.isRaw = true) (rest : List Node) :
    nodeCount (n :: rest) = nodeCount rest := by
  simp [nodeCount, h]

theorem nodeCount_cons_node {n : Node} (h : n.isRaw = false) (rest : List Node) :
    nodeCount (n :: rest) = nodeCount rest + 1 := by
  simp [nodeCount, h]

theorem nodeCount_append (xs ys : List Node) : nodeCount (xs ++ ys) = nodeCount xs + nodeCount ys :=
  List.countP_append

theorem length_nodeStarts (offset : Int) (ss : List Node) : (nodeStarts offset ss).length = nodeCount ss := by
  induction ss generalizing offset with
  | nil => rfl
  | cons n ss ih =>
    cases hn : n.isRaw with
    | true => rw [nodeStarts_cons_raw hn, ih, nodeCount_cons_raw hn]
    | false => rw [nodeStarts_cons_node hn, List.length_cons, ih, nodeCount_cons_node hn]

theorem Window.length_innerStarts (w : Window) (offset : Int) : (w.innerStarts offset).length = nodeCount w.interior :=
  length_nodeStarts _ _

/-- Raw text alone has no nodes. -/
theorem nodeStarts_of_isRaw (h : ∀ n ∈ ss, n.isRaw = true) : nodeStarts offset ss = [] := by
  induction ss generalizing offset with
  | nil => rfl
  | cons n ss ih =>
    rw [List.forall_mem_cons] at h
    rw [nodeStarts_cons_raw h.1, ih h.2]

theorem nodeStarts_atoms (offset : Int) (ss : List Node) : nodeStarts offset (atoms.nodes ss) = nodeStarts offset ss := by
  induction ss generalizing offset with
  | nil => rfl
  | cons n ss ih =>
    rw [Reading.nodes_cons, nodeStarts_append]
    rcases n.raw_or_not with ⟨t, rfl⟩ | hn
    · have hraw : nodeStarts offset (t.map fun c => .raw [c]) = [] :=
        nodeStarts_of_isRaw (List.forall_mem_map.2 fun _ _ => rfl)
      rw [Reading.atoms_raw, hraw, Reading.sourceTexts_map_raw, nodeStarts_cons_raw rfl, ih]
      rfl
    · rw [Reading.atoms_of_not_isRaw hn, nodeStarts_cons_node hn, nodeStarts_cons_node hn, ih]
      simp [sourceTexts]

/-- The position of a node has the number of the nodes before it. -/
theorem getElem?_nodeStarts (h : n.isRaw = false) :
    (nodeStarts offset (xs ++ n :: ys))[nodeCount xs]? = some (offset + (sourceTexts xs).length) := by
  rw [nodeStarts_append, ← length_nodeStarts offset xs, List.getElem?_append_right (Nat.le_refl _), Nat.sub_self,
    nodeStarts_cons_node h, List.getElem?_cons_zero]

theorem exists_of_mem_nodeStarts (h : x ∈ nodeStarts offset ss) :
    ∃ a n b, ss = a ++ n :: b ∧ n.isRaw = false ∧ x = offset + (sourceTexts a).length := by
  induction ss generalizing offset with
  | nil => cases h
  | cons n ss ih =>
    have hrest : x ∈ nodeStarts (offset + n.sourceText.length) ss →
        ∃ a m b, n :: ss = a ++ m :: b ∧ m.isRaw = false ∧ x = offset + (sourceTexts a).length := by
      intro h
      obtain ⟨a, m, b, rfl, hm, rfl⟩ := ih h
      refine ⟨n :: a, m, b, rfl, hm, ?_⟩
      rw [sourceTexts, List.length_append]
      omega
    cases hn : n.isRaw with
    | true =>
      rw [nodeStarts_cons_raw hn] at h
      exact hrest h
    | false =>
      rw [nodeStarts_cons_node hn] at h
      rcases List.mem_cons.1 h with rfl | h
      · exact ⟨[], n, ss, rfl, hn, by simp [sourceTexts]⟩
      · exact hrest h

/-! ## Nodes with texts -/

/-- Every node of the buffer has a text. -/
def HasTexts (ss : List Node) : Prop :=
  ∀ n ∈ ss, n.isRaw = false → n.sourceText ≠ []

theorem HasTexts.pos (h : HasTexts ss) (hn : n ∈ ss) (hraw : n.isRaw = false) : 0 < n.sourceText.length :=
  List.length_pos_iff.2 (h n hn hraw)

/-- The positions of nodes with texts are different. -/
theorem HasTexts.nodup_nodeStarts (h : HasTexts ss) : (nodeStarts offset ss).Nodup := by
  induction ss generalizing offset with
  | nil => exact List.nodup_nil
  | cons n ss ih =>
    have hrest : HasTexts ss := fun m hm => h m (List.mem_cons_of_mem n hm)
    cases hn : n.isRaw with
    | true =>
      rw [nodeStarts_cons_raw hn]
      exact ih hrest
    | false =>
      rw [nodeStarts_cons_node hn, List.nodup_cons]
      refine ⟨fun hmem => ?_, ih hrest⟩
      obtain ⟨a, m, b, -, -, hx⟩ := exists_of_mem_nodeStarts hmem
      have hpos := h.pos List.mem_cons_self hn
      omega

theorem Window.nodup_innerStarts {w : Window} (h : HasTexts w.interior) : (w.innerStarts offset).Nodup :=
  h.nodup_nodeStarts

/-- **No raw character** stands where a node begins. -/
theorem not_mem_nodeStarts_of_rawAt (h : HasTexts ss) (hx : RawAt offset ss x) : x ∉ nodeStarts offset ss := by
  intro hmem
  rw [← nodeStarts_atoms] at hmem
  obtain ⟨a, c, b, hraw, rfl⟩ := hx
  obtain ⟨a', m, b', hnode, hm, heq⟩ := exists_of_mem_nodeStarts hmem
  have hlength : (sourceTexts a').length = (sourceTexts a).length := by omega
  obtain ⟨-, rfl, -⟩ | ⟨mid, rfl, -⟩ | ⟨mid, rfl, -⟩ := append_cons_eq_cases (hraw.symm.trans hnode)
  · cases hm
  · simp only [sourceTexts_append, sourceTexts, Node.sourceText, List.length_append, List.length_cons] at hlength
    omega
  · have hmem : m ∈ ss := by
      have hatom : m ∈ atoms.nodes ss := hnode ▸ List.mem_append_right a' List.mem_cons_self
      obtain ⟨k, hk, hmk⟩ := List.mem_flatMap.1 hatom
      rcases k.raw_or_not with ⟨t, rfl⟩ | hkraw
      · rw [Reading.atoms_raw] at hmk
        obtain ⟨d, -, rfl⟩ := List.mem_map.1 hmk
        cases hm
      · rw [Reading.atoms_of_not_isRaw hkraw] at hmk
        exact List.mem_singleton.1 hmk ▸ hk
    have hpos := h.pos hmem hm
    simp only [sourceTexts_append, sourceTexts, List.length_append] at hlength
    omega

/-! ## Fields -/

/-- The nodes of fields are those of the parameters; there are none in a blank field behind the last separator. -/
theorem Interior.nodeStarts_ofFields (field : List Node) (rest : List (Text × List Node)) :
    nodeStarts offset (atoms.nodes field ++ atoms.rest rest) =
      (ofFields offset field rest).params.flatMap fun p => nodeStarts p.offset p.field := by
  induction rest generalizing offset field with
  | nil =>
    rw [Reading.rest, List.flatMap_nil, List.append_nil, nodeStarts_atoms, ofFields]
    split
    · rename_i hblank
      refine nodeStarts_of_isRaw fun n hn => ?_
      have hn := List.all_eq_true.1 hblank n hn
      cases n <;> first | rfl | cases hn
    · simp
  | cons f rest ih =>
    obtain ⟨separator, next⟩ := f
    have hraw : nodeStarts (offset + (sourceTexts field).length) (separator.map fun c => .raw [c]) = [] :=
      nodeStarts_of_isRaw (List.forall_mem_map.2 fun _ _ => rfl)
    have hrest : atoms.rest ((separator, next) :: rest) =
        atoms.node (.raw separator) ++ atoms.nodes next ++ atoms.rest rest := List.flatMap_cons
    rw [hrest, nodeStarts_append, nodeStarts_atoms, Reading.sourceTexts_atoms, List.append_assoc, nodeStarts_append,
      Reading.atoms_raw, hraw, Reading.sourceTexts_map_raw, List.nil_append, ih, ofFields, List.flatMap_cons]

/-- **The nodes of an interior** are those of its parameters, in their order. -/
theorem Interior.nodeStarts_params (separator : Separator) (offset : Int) (ss : List Node) :
    nodeStarts offset ss =
      (ofSentences separator offset ss).params.flatMap fun p => nodeStarts p.offset p.field := by
  rw [← nodeStarts_atoms, ← atoms.nodes_fields separator ss]
  exact nodeStarts_ofFields _ _

/-! ## Windows -/

section Windows

variable {l : Language} {buffer params : List Node} {w : Window} {p : Param}

theorem Window.atoms_eq (hs : Fused buffer) (hw : nextGroup Grammar.defaultBrackets buffer = .window w) :
    ∃ c d, w.opener = [c] ∧ w.closer = [d] ∧ w.shared = false ∧
      atoms.nodes buffer =
        atoms.nodes w.before ++ .raw [c] :: (atoms.nodes w.interior ++ .raw [d] :: atoms.nodes w.after) := by
  obtain ⟨⟨k, hnext⟩, hatoms, -, -⟩ := isNext_of_window hs hw
  have hopener : w.opener = [k.opener] := hnext.opener
  have hcloser : w.closer = [k.closer] := hnext.closer
  refine ⟨k.opener, k.closer, hopener, hcloser, hnext.pair, ?_⟩
  rw [hatoms, Window.spread, hnext.opener, hnext.closer]
  rfl

/-- The nodes of a buffer stand before, inside and behind a window. -/
theorem Window.nodeStarts_eq (hs : Fused buffer) (hw : nextGroup Grammar.defaultBrackets buffer = .window w) :
    nodeStarts offset buffer = nodeStarts offset w.before ++ (w.innerStarts offset ++
      nodeStarts (offset + (sourceTexts w.before).length + w.opener.length + (sourceTexts w.interior).length +
        w.closer.length) w.after) := by
  obtain ⟨c, d, hopener, hcloser, -, hatoms⟩ := Window.atoms_eq hs hw
  rw [← nodeStarts_atoms, hatoms, hopener, hcloser, nodeStarts_append, nodeStarts_cons_raw rfl, nodeStarts_append,
    nodeStarts_cons_raw rfl, Window.innerStarts, hopener]
  simp only [nodeStarts_atoms, Reading.sourceTexts_atoms]
  rfl

/-- A group stands where the window began. -/
theorem Window.nodeStarts_collapse (hg : (w.group (w.inside l.grammar.separator offset) params).sourceText =
      w.opener ++ sourceTexts w.interior ++ w.closer) :
    nodeStarts offset (w.collapse l offset params) = nodeStarts offset w.before ++
      (offset + (sourceTexts w.before).length) ::
        nodeStarts (offset + (sourceTexts w.before).length + w.opener.length + (sourceTexts w.interior).length +
          w.closer.length) w.after := by
  rw [Window.collapse, nodeStarts_append, nodeStarts_cons_node rfl, hg]
  simp only [List.length_append, Int.natCast_add, Int.add_assoc]

/-! ## Raw characters in the course of a parse -/

/-- An opening bracket is raw text. -/
theorem Window.rawAt_opener (hs : Fused buffer) (hw : nextGroup Grammar.defaultBrackets buffer = .window w) :
    RawAt offset buffer (offset + (sourceTexts w.before).length) := by
  obtain ⟨c, d, -, -, -, hatoms⟩ := Window.atoms_eq hs hw
  exact ⟨_, c, _, hatoms, by rw [Reading.sourceTexts_atoms]⟩

/-- The raw characters of a parameter are raw characters of the buffer around its group. -/
theorem Window.rawAt_of_field (hs : Fused buffer) (hw : nextGroup Grammar.defaultBrackets buffer = .window w)
    (hp : p ∈ (w.inside (.spaced ',') offset).params) (hx : RawAt p.offset p.field x) : RawAt offset buffer x := by
  obtain ⟨-, u, c, d, v, -, -, hoffset, hatoms⟩ := Window.field_between hs hw hp
  obtain ⟨a, e, b, hfield, rfl⟩ := hx
  refine ⟨u ++ .raw [c] :: a, e, b ++ .raw [d] :: v, ?_, ?_⟩
  · rw [hatoms, hfield]
    simp
  · simp only [sourceTexts_append, sourceTexts, Node.sourceText, List.length_append, List.length_cons, List.length_nil]
    omega

/-- An empty parameter stands in front of a raw character. -/
theorem Window.rawAt_of_field_eq_nil (hs : Fused buffer) (hw : nextGroup Grammar.defaultBrackets buffer = .window w)
    (hp : p ∈ (w.inside (.spaced ',') offset).params) (hempty : p.field = []) : RawAt offset buffer p.offset := by
  obtain ⟨-, u, c, d, v, -, -, hoffset, hatoms⟩ := Window.field_between hs hw hp
  rw [hempty, Reading.nodes_nil, List.nil_append] at hatoms
  refine ⟨u ++ [.raw [c]], d, v, by rw [hatoms, List.append_assoc, List.singleton_append], ?_⟩
  simp only [sourceTexts_append, sourceTexts, Node.sourceText, List.length_append, List.length_cons, List.length_nil]
  omega

/-- A collapse brings no raw character up. -/
theorem Window.rawAt_of_collapse (hs : Fused buffer) (hw : nextGroup Grammar.defaultBrackets buffer = .window w)
    (hg : (w.group (w.inside l.grammar.separator offset) params).sourceText =
      w.opener ++ sourceTexts w.interior ++ w.closer)
    (hx : RawAt offset (w.collapse l offset params) x) : RawAt offset buffer x := by
  obtain ⟨c, d, hopener, hcloser, -, hatoms⟩ := Window.atoms_eq hs hw
  obtain ⟨a, e, b, hsplit, rfl⟩ := hx
  rw [Window.collapse, Reading.nodes_append, Reading.nodes_cons, Reading.atoms_of_not_isRaw rfl, List.singleton_append]
    at hsplit
  obtain ⟨-, hraw, -⟩ | ⟨m, hbefore, -⟩ | ⟨m, rfl, hafter⟩ := append_cons_eq_cases hsplit.symm
  · cases hraw
  · refine ⟨a, e, m ++ .raw [c] :: (atoms.nodes w.interior ++ .raw [d] :: atoms.nodes w.after), ?_, rfl⟩
    simp [hatoms, hbefore]
  · refine ⟨atoms.nodes w.before ++ .raw [c] :: (atoms.nodes w.interior ++ .raw [d] :: m), e, b, ?_, ?_⟩
    · simp [hatoms, hafter]
    · simp only [sourceTexts_append, sourceTexts, hg, hopener, hcloser, Reading.sourceTexts_atoms, Node.sourceText,
        List.length_append, List.length_cons, List.length_nil]
      omega

end Windows

end FormulaLang
