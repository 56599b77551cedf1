import FormulaLang.Proofs.Leaf.Local
import FormulaLang.Proofs.Nesting.Fields
import FormulaLang.Proofs.Parse.Lossless
import Mathlib.Data.List.Chain

/-!
# The atoms of a buffer

An atom of a buffer is a node, or a single character of raw text (`Reading.atoms`). No step of a parse leaves two raw
fragments side by side or an empty one (`Fused`), and such a buffer is determined by its atoms (`Fused.eq_of_atoms`): it is
what `fuse` makes of them. Lexing works on either side of a break by itself (`atoms_lexText_break`), and where no leaf starts
it changes nothing (`lexStage_eq_self`).
-/

namespace FormulaLang

open Node (sourceTexts sourceTexts_append)

/-! ## Atoms -/

/-- The node, or the characters of raw text one by one. -/
def Node.atoms : Node → List Node
  | .raw t => t.map fun c => .raw [c]
  | n => [n]

/-- The atoms of a buffer. -/
def Reading.atoms : Reading Node where
  node := Node.atoms
  raw_append _ _ := List.map_append

open Reading (atoms)

theorem Node.raw_or_not (n : Node) : (∃ t, n = .raw t) ∨ n.isRaw = false := by
  cases n with
  | raw t => exact .inl ⟨t, rfl⟩
  | _ => exact .inr rfl

namespace Reading

theorem atoms_raw (t : Text) : atoms.node (.raw t) = t.map fun c => .raw [c] := rfl

theorem atoms_of_not_isRaw {n : Node} (h : n.isRaw = false) : atoms.node n = [n] := by
  cases n with
  | raw t => cases h
  | _ => rfl

theorem atoms_nodes_singleton {n : Node} (h : n.isRaw = false) : atoms.nodes [n] = [n] := by
  rw [nodes_cons, atoms_of_not_isRaw h, nodes_nil, List.append_nil]

theorem sourceTexts_map_raw (t : Text) : sourceTexts (t.map fun c => .raw [c]) = t := by
  induction t with
  | nil => rfl
  | cons c t ih => simp [sourceTexts, Node.sourceText, ih]

/-- The atoms have the text of the buffer. -/
theorem sourceTexts_atoms (ss : List Node) : sourceTexts (atoms.nodes ss) = sourceTexts ss := by
  induction ss with
  | nil => rfl
  | cons n ss ih =>
    rw [nodes_cons, sourceTexts_append, ih, sourceTexts]
    rcases n.raw_or_not with ⟨t, rfl⟩ | hn
    · rw [atoms_raw, sourceTexts_map_raw, Node.sourceText]
    · rw [atoms_of_not_isRaw hn, sourceTexts, sourceTexts, List.append_nil]

/-- A bracket or comma is an atom where it is a mark. -/
theorem mem_marks_iff {c : Char} (hc : Nesting.isMark c = true) {ss : List Node} :
    c ∈ marks.nodes ss ↔ .raw [c] ∈ atoms.nodes ss := by
  induction ss with
  | nil => simp
  | cons n ss ih =>
    rw [mem_marks_cons hc, nodes_cons, List.mem_append, ih]
    refine or_congr_left ?_
    rcases n.raw_or_not with ⟨t, rfl⟩ | hn
    · simp [atoms_raw, Node.rawText?]
    · rw [atoms_of_not_isRaw hn]
      cases n <;> simp_all [Node.rawText?, Node.isRaw]

end Reading

/-! ## Fused buffers -/

/-- No raw fragment is empty, and no two of them stand side by side. -/
structure Fused (ss : List Node) : Prop where
  nonempty : .raw [] ∉ ss
  apart : ss.IsChain fun m n => m.isRaw = false ∨ n.isRaw = false

/-- Raw text in front of a buffer, joined with the raw text at its start. -/
def joinRaw (s : Text) : List Node → List Node
  | .raw t :: rest => .raw (s ++ t) :: rest
  | ss => .raw s :: ss

/-- Raw fragments that stand side by side become one. -/
def fuse : List Node → List Node
  | [] => []
  | .raw s :: rest => joinRaw s (fuse rest)
  | n :: rest => n :: fuse rest

theorem joinRaw_of_not_isRaw (s : Text) {ss : List Node} (h : ∀ n ∈ ss.head?, n.isRaw = false) :
    joinRaw s ss = .raw s :: ss := by
  cases ss with
  | nil => rfl
  | cons n ss =>
    cases n with
    | raw t => cases h (.raw t) rfl
    | _ => rfl

theorem fuse_cons_of_not_isRaw {n : Node} (h : n.isRaw = false) (ss : List Node) : fuse (n :: ss) = n :: fuse ss := by
  cases n with
  | raw t => cases h
  | _ => rfl

namespace Fused

theorem nil : Fused [] :=
  ⟨by simp, .nil⟩

theorem raws (t : Text) : Fused (Node.raws t) := by
  unfold Node.raws
  split
  · exact nil
  · rename_i ht
    exact ⟨by simpa using ht, .singleton _⟩

theorem append_iff {xs ys : List Node} :
    Fused (xs ++ ys) ↔
      Fused xs ∧ Fused ys ∧ ∀ m ∈ xs.getLast?, ∀ n ∈ ys.head?, m.isRaw = false ∨ n.isRaw = false := by
  constructor
  · rintro ⟨hne, hapart⟩
    obtain ⟨hx, hy, hjoin⟩ := List.isChain_append.1 hapart
    rw [List.mem_append, not_or] at hne
    exact ⟨⟨hne.1, hx⟩, ⟨hne.2, hy⟩, hjoin⟩
  · rintro ⟨hx, hy, hjoin⟩
    refine ⟨?_, List.isChain_append.2 ⟨hx.apart, hy.apart, hjoin⟩⟩
    rw [List.mem_append, not_or]
    exact ⟨hx.nonempty, hy.nonempty⟩

theorem cons_iff {n : Node} {ss : List Node} :
    Fused (n :: ss) ↔ n ≠ .raw [] ∧ Fused ss ∧ ∀ m ∈ ss.head?, n.isRaw = false ∨ m.isRaw = false := by
  constructor
  · rintro ⟨hne, hapart⟩
    obtain ⟨hhead, htail⟩ := List.isChain_cons.1 hapart
    rw [List.mem_cons, not_or] at hne
    exact ⟨Ne.symm hne.1, ⟨hne.2, htail⟩, hhead⟩
  · rintro ⟨hn, h, hhead⟩
    refine ⟨?_, List.isChain_cons.2 ⟨hhead, h.apart⟩⟩
    rw [List.mem_cons, not_or]
    exact ⟨Ne.symm hn, h.nonempty⟩

theorem cons_node {n : Node} {ss : List Node} (hn : n.isRaw = false) (h : Fused ss) : Fused (n :: ss) := by
  refine cons_iff.2 ⟨?_, h, fun m _ => .inl hn⟩
  rintro rfl
  cases hn

/-- A node keeps what stands on either side of it apart. -/
theorem append_node {n : Node} {xs ys : List Node} (hn : n.isRaw = false) (hx : Fused xs) (hy : Fused ys) :
    Fused (xs ++ n :: ys) := by
  refine append_iff.2 ⟨hx, hy.cons_node hn, fun m _ k hk => .inr ?_⟩
  cases Option.mem_some_iff.1 hk
  exact hn

/-- A raw fragment may be replaced by any raw text. -/
theorem replace_raw {t : Text} {xs ys : List Node} (h : Fused (xs ++ .raw t :: ys)) (u : Text) :
    Fused (xs ++ Node.raws u) ∧ Fused (Node.raws u ++ ys) := by
  obtain ⟨hx, hty, hleft⟩ := append_iff.1 h
  obtain ⟨-, hy, hright⟩ := cons_iff.1 hty
  unfold Node.raws
  split
  · rw [List.append_nil]
    exact ⟨hx, hy⟩
  · rename_i hu
    have hraw : Fused [.raw u] := by
      have hfused := raws u
      rwa [Node.raws, if_neg hu] at hfused
    refine ⟨append_iff.2 ⟨hx, hraw, fun m hm n hn => ?_⟩, append_iff.2 ⟨hraw, hy, fun m hm n hn => ?_⟩⟩
    · cases Option.mem_some_iff.1 hn
      exact hleft m hm (.raw t) rfl
    · cases Option.mem_some_iff.1 hm
      exact hright n hn

end Fused

/-- The atoms of raw text fuse to the text again, in front of anything but raw text. -/
theorem fuse_map_raw {t : Text} (ht : t ≠ []) {ws : List Node} (hw : ∀ n ∈ (fuse ws).head?, n.isRaw = false) :
    fuse ((t.map fun c => .raw [c]) ++ ws) = .raw t :: fuse ws := by
  induction t with
  | nil => exact absurd rfl ht
  | cons c t ih =>
    rw [List.map_cons, List.cons_append, fuse]
    by_cases hnil : t = []
    · rw [hnil, List.map_nil, List.nil_append, joinRaw_of_not_isRaw [c] hw]
    · rw [ih hnil, joinRaw, List.singleton_append]

/-- **A fused buffer** is made up again from its atoms. -/
theorem fuse_atoms {ss : List Node} (h : Fused ss) : fuse (atoms.nodes ss) = ss := by
  induction ss with
  | nil => rfl
  | cons n ss ih =>
    obtain ⟨hn, hss, hjoin⟩ := Fused.cons_iff.1 h
    rw [Reading.nodes_cons]
    rcases n.raw_or_not with ⟨t, rfl⟩ | hnode
    · have ht : t ≠ [] := fun ht => hn (congrArg Node.raw ht)
      rw [Reading.atoms_raw, fuse_map_raw ht, ih hss]
      rw [ih hss]
      exact fun m hm => (hjoin m hm).resolve_left (by simp [Node.isRaw])
    · rw [Reading.atoms_of_not_isRaw hnode, List.singleton_append, fuse_cons_of_not_isRaw hnode, ih hss]

theorem Fused.eq_of_atoms {xs ys : List Node} (hx : Fused xs) (hy : Fused ys) (h : atoms.nodes xs = atoms.nodes ys) :
    xs = ys := by
  rw [← fuse_atoms hx, ← fuse_atoms hy, h]

theorem Fused.of_infix {xs ys : List Node} (h : Fused ys) (hx : xs <:+: ys) : Fused xs :=
  ⟨fun hmem => h.nonempty (hx.subset hmem), h.apart.infix hx⟩

/-! ## Leaves -/

theorem lexText_of_none {rules : List LeafRule} {t : Text} (h : leafCut? rules t = none) :
    lexText rules t = .ok (Node.raws t) := by
  rw [lexText]
  split
  · rfl
  · rename_i hc
    cases h.symm.trans hc

theorem lexText_of_cut {rules : List LeafRule} {t : Text} {c : LeafCut} {leaf : Node} {left right : List Node}
    (h : leafCut? rules t = some c) (hleaf : c.kind.leaf c.matched = .ok leaf) (hleft : lexText rules c.before = .ok left)
    (hright : lexText rules c.after = .ok right) : lexText rules t = .ok (left ++ leaf :: right) := by
  rw [lexText]
  split
  · rename_i hc
    cases h.symm.trans hc
  · rename_i c' hc
    cases h.symm.trans hc
    simp only [hleaf, hleft, hright]

/-- Lexing works by itself on either side of a character that divides the cuts of the texts in `P` in front of it. -/
theorem atoms_lexText_of_cutsApart {c : Char} {rules : List LeafRule} {P : Text → Prop}
    (hcuts : ∀ x y, P x → CutsApart rules c x y) (hafter : ∀ x d, P x → leafCut? rules x = some d → P d.after)
    {x y : Text} {out : List Node} (hx : P x) (h : lexText rules (x ++ c :: y) = .ok out) :
    ∃ left right, lexText rules x = .ok left ∧ lexText rules y = .ok right ∧
      atoms.nodes out = atoms.nodes left ++ .raw [c] :: atoms.nodes right := by
  generalize ht : x ++ c :: y = t at h
  fun_induction lexText rules t generalizing x y out with
  | case1 t hcut =>
    cases h
    subst ht
    obtain ⟨-, hx, hy⟩ | ⟨d, -, hd⟩ | ⟨d, -, hd⟩ := hcuts x y hx
    · refine ⟨_, _, lexText_of_none hx, lexText_of_none hy, ?_⟩
      simp [Reading.atoms_raw]
    · cases hcut.symm.trans hd
    · cases hcut.symm.trans hd
  | case2 => cases h
  | case3 => cases h
  | case4 => cases h
  | case5 t cut hcut leaf hleaf left hleft right hright ih₁ ih₂ =>
    cases h
    subst ht
    obtain ⟨hnone, -⟩ | ⟨d, hcut', hd⟩ | ⟨d, hcut', hd⟩ := hcuts x y hx
    · cases hcut.symm.trans hnone
    · cases hcut.symm.trans hd
      obtain ⟨behind, right', hbehind, hy, hatoms⟩ := ih₂ (hafter x d hx hcut') rfl hright
      refine ⟨left ++ leaf :: behind, right', lexText_of_cut hcut' hleaf hleft hbehind, hy, ?_⟩
      simp [hatoms]
    · cases hcut.symm.trans hd
      obtain ⟨left', front, hx, hfront, hatoms⟩ := ih₁ hx rfl hleft
      refine ⟨left', front ++ leaf :: right, hx, lexText_of_cut hcut' hleaf hfront hright, ?_⟩
      simp [hatoms]

/-- **Lexing** works on either side of a break by itself. -/
theorem atoms_lexText_break {c : Char} (hc : ¬Pattern.LeafChar c) {rules : List LeafRule} {x y : Text} {out : List Node}
    (h : lexText rules (x ++ c :: y) = .ok out) :
    ∃ left right, lexText rules x = .ok left ∧ lexText rules y = .ok right ∧
      atoms.nodes out = atoms.nodes left ++ .raw [c] :: atoms.nodes right :=
  atoms_lexText_of_cutsApart (P := fun _ => True) (fun x y _ => cutsApart_break hc rules x y) (fun _ _ _ _ => True.intro)
    True.intro h

theorem LeafKind.isRaw_leaf {k : LeafKind} {t : Text} {n : Node} (h : k.leaf t = .ok n) : n.isRaw = false := by
  rcases LeafKind.leaf_cases h with ⟨v, rfl⟩ | rfl <;> rfl

/-- A lexed text is fused. -/
theorem fused_lexText {rules : List LeafRule} {t : Text} {out : List Node} (h : lexText rules t = .ok out) : Fused out := by
  fun_induction lexText rules t generalizing out with
  | case1 t hcut =>
    cases h
    exact .raws t
  | case2 => cases h
  | case3 => cases h
  | case4 => cases h
  | case5 t cut hcut leaf hleaf left hleft right hright ih₁ ih₂ =>
    cases h
    exact .append_node (LeafKind.isRaw_leaf hleaf) (ih₁ hleft) (ih₂ hright)

/-- No raw character of the buffer starts a leaf of the default grammar. -/
def Lexed (ss : List Node) : Prop :=
  ∀ c, .raw [c] ∈ atoms.nodes ss → Pattern.isLeafStart c = false

theorem lexed_lexText {t : Text} {out : List Node} (h : lexText Grammar.defaultLeaves t = .ok out) : Lexed out := by
  generalize hrules : Grammar.defaultLeaves = rules at h
  fun_induction lexText rules t generalizing out with
  | case1 t hcut =>
    cases h
    subst hrules
    intro c hmem
    refine leafCut?_default_eq_none_iff.1 hcut c ?_
    simpa [Reading.atoms_raw] using hmem
  | case2 => cases h
  | case3 => cases h
  | case4 => cases h
  | case5 t cut hcut leaf hleaf left hleft right hright ih₁ ih₂ =>
    cases h
    intro c hmem
    rw [Reading.nodes_append, Reading.nodes_cons, Reading.atoms_of_not_isRaw (LeafKind.isRaw_leaf hleaf)] at hmem
    rcases List.mem_append.1 hmem with hmem | hmem
    · exact ih₁ hleft c hmem
    · rcases List.mem_cons.1 hmem with rfl | hmem
      · cases LeafKind.isRaw_leaf hleaf
      · exact ih₂ hright c hmem

theorem lexEach_eq_self {rules : List LeafRule} {ss : List Node} (h : ∀ n ∈ ss, lexSentence rules n = .ok [n]) :
    lexEach rules ss = .ok (ss.map fun n => [n]) := by
  induction ss with
  | nil => rfl
  | cons n ss ih =>
    rw [List.forall_mem_cons] at h
    rw [lexEach, h.1, ih h.2]
    rfl

/-- No sentence of a lexed buffer is cut once more. -/
theorem lexEach_of_lexed {ss : List Node} (hf : Fused ss) (h : Lexed ss) :
    lexEach Grammar.defaultLeaves ss = .ok (ss.map fun n => [n]) := by
  refine lexEach_eq_self fun n hn => ?_
  rcases n.raw_or_not with ⟨t, rfl⟩ | hnode
  · have ht : t ≠ [] := by
      rintro rfl
      exact hf.nonempty hn
    have hcut : leafCut? Grammar.defaultLeaves t = none :=
      leafCut?_default_eq_none_iff.2 fun c hc => h c (List.mem_flatMap.2 ⟨.raw t, hn, List.mem_map.2 ⟨c, hc, rfl⟩⟩)
    rw [lexSentence, lexText_of_none hcut, Node.raws, if_neg (by simpa using ht)]
  · cases n with
    | raw t => cases hnode
    | _ => rfl

/-- **A lexed buffer** is not changed by lexing it once more. -/
theorem lexStage_eq_self {g : Grammar} (hg : g.leaves = Grammar.defaultLeaves) {ss : List Node} (hf : Fused ss)
    (h : Lexed ss) (offset : Int) : (lexStage g offset ss).result = .ok ss := by
  simp only [lexStage, hg, lexEach_of_lexed hf h, ← List.flatMap_def, List.flatMap_singleton']

end FormulaLang
