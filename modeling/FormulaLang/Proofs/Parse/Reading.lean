import FormulaLang.Parse.Parser
import FormulaLang.Proofs.Parse.Window

/-!
# Readings

A reading takes every node to a list, such as a text, and raw text so that a cut loses nothing (`Reading`). The source text
is a reading (`Reading.source`). What the stages of a parse do to raw text, they do to every reading: places and windows
divide it (`Reading.nodes_window`), the fields of a group with their separators make up the reading of the interior
(`Reading.nodes_fields`), and cutting leaves keeps it when the leaves read as their texts (`Reading.nodes_lexStage`).
-/

namespace FormulaLang

/-- A list for every node, such that the list of a raw fragment is made up of those of its parts. -/
structure Reading (α : Type) where
  node : Node → List α
  raw_append : ∀ s t, node (.raw (s ++ t)) = node (.raw s) ++ node (.raw t)

namespace Reading

variable {α : Type} (φ : Reading α)

/-- The reading of a buffer. -/
def nodes (ss : List Node) : List α :=
  ss.flatMap φ.node

@[simp] theorem nodes_nil : φ.nodes [] = [] := rfl

@[simp] theorem nodes_cons (n : Node) (ss : List Node) : φ.nodes (n :: ss) = φ.node n ++ φ.nodes ss :=
  List.flatMap_cons

@[simp] theorem nodes_append (xs ys : List Node) : φ.nodes (xs ++ ys) = φ.nodes xs ++ φ.nodes ys :=
  List.flatMap_append

theorem raw_nil : φ.node (.raw []) = [] := by
  have h := φ.raw_append [] []
  rw [List.append_nil] at h
  exact List.self_eq_append_left.1 h

@[simp] theorem nodes_raws (t : Text) : φ.nodes (Node.raws t) = φ.node (.raw t) := by
  unfold Node.raws
  split
  · rename_i h
    rw [List.isEmpty_iff.1 h, raw_nil, nodes_nil]
  · rw [nodes_cons, nodes_nil, List.append_nil]

/-- The source text is a reading. -/
def source : Reading Char where
  node := Node.sourceText
  raw_append s t := by simp only [Node.sourceText]

theorem nodes_source (ss : List Node) : source.nodes ss = Node.sourceTexts ss :=
  (Node.sourceTexts_eq_flatMap ss).symm

/-! ## Leaves -/

/-- Every leaf that the rules find reads as its text. -/
def ReadsLeaves (rules : List LeafRule) : Prop :=
  ∀ t c leaf, leafCut? rules t = some c → c.kind.leaf c.matched = .ok leaf → φ.node leaf = φ.node (.raw c.matched)

variable {φ}

theorem nodes_lexText {rules : List LeafRule} (hleaf : φ.ReadsLeaves rules) {t : Text} {out : List Node}
    (h : lexText rules t = .ok out) : φ.nodes out = φ.node (.raw t) := by
  fun_induction lexText rules t generalizing out with
  | case1 t hc =>
    cases h
    exact φ.nodes_raws t
  | case2 => cases h
  | case3 => cases h
  | case4 => cases h
  | case5 t c hc leaf hl left hleft right hright ih₁ ih₂ =>
    cases h
    obtain ⟨ht, -⟩ := leafCut?_eq_some hc
    rw [nodes_append, nodes_cons, ih₁ hleft, ih₂ hright, hleaf t c leaf hc hl, ← ht, φ.raw_append, φ.raw_append,
      List.append_assoc]

theorem nodes_lexEach {rules : List LeafRule} (hleaf : φ.ReadsLeaves rules) {ss : List Node} {out : List (List Node)}
    (h : lexEach rules ss = .ok out) : φ.nodes out.flatten = φ.nodes ss := by
  induction ss generalizing out with
  | nil =>
    cases h
    rfl
  | cons n rest ih =>
    rw [lexEach] at h
    split at h
    · cases h
    · rename_i pieces hpieces
      split at h
      · cases h
      · rename_i others hothers
        cases h
        have hn : φ.nodes pieces = φ.node n := by
          unfold lexSentence at hpieces
          split at hpieces
          · exact nodes_lexText hleaf hpieces
          · cases hpieces
            rw [nodes_cons, nodes_nil, List.append_nil]
        rw [List.flatten_cons, nodes_append, ih hothers, hn, nodes_cons]

/-- Cutting leaves keeps the reading. -/
theorem nodes_lexStage {g : Grammar} (hleaf : φ.ReadsLeaves g.leaves) {offset : Int} {ss out : List Node}
    (h : (lexStage g offset ss).result = .ok out) : φ.nodes out = φ.nodes ss := by
  unfold lexStage at h
  split at h
  · cases h
  · rename_i pieces hp
    cases h
    exact nodes_lexEach hleaf hp

variable (φ)

/-! ## Windows -/

theorem nodes_firstPlace {mark : Text} {ss : List Node} {p : Place} (h : firstPlace? mark ss = some p) :
    φ.nodes ss =
      φ.nodes p.before ++ φ.node (.raw p.head) ++ φ.node (.raw mark) ++ φ.node (.raw p.tail) ++ φ.nodes p.after := by
  induction ss generalizing p with
  | nil => cases h
  | cons n rest ih =>
    rw [firstPlace?] at h
    split at h
    · rename_i head tail hb
      cases h
      obtain ⟨t, ht, hb⟩ := Option.bind_eq_some_iff.1 hb
      obtain ⟨rfl, -⟩ := Text.splitFirst_eq_some hb
      cases n <;> cases ht
      simp [φ.raw_append]
    · obtain ⟨q, hq, rfl⟩ := Option.map_eq_some_iff.1 h
      rw [nodes_cons, ih hq]
      simp

theorem nodes_lastPlace {mark : Text} {ss : List Node} {p : Place} (h : lastPlace? mark ss = some p) :
    φ.nodes ss =
      φ.nodes p.before ++ φ.node (.raw p.head) ++ φ.node (.raw mark) ++ φ.node (.raw p.tail) ++ φ.nodes p.after := by
  induction ss generalizing p with
  | nil => cases h
  | cons n rest ih =>
    rw [lastPlace?] at h
    split at h
    · rename_i q hq
      cases h
      rw [nodes_cons, ih hq]
      simp
    · obtain ⟨⟨head, tail⟩, hb, rfl⟩ := Option.map_eq_some_iff.1 h
      obtain ⟨t, ht, hb⟩ := Option.bind_eq_some_iff.1 hb
      obtain ⟨rfl, -⟩ := Text.splitLast_eq_some hb
      cases n <;> cases ht
      simp [φ.raw_append]

theorem nodes_between {a b : Char} {ss : List Node} {p q : Place} (hp : firstPlace? [b] ss = some p)
    (hq : lastPlace? [a] (p.before ++ Node.raws p.head) = some q) :
    φ.nodes ss =
      φ.nodes (Window.between [a] [b] q p).before ++ (φ.node (.raw [a]) ++ φ.nodes (Window.between [a] [b] q p).interior ++
        φ.node (.raw [b])) ++ φ.nodes (Window.between [a] [b] q p).after := by
  have h₁ := φ.nodes_firstPlace hp
  have h₂ := φ.nodes_lastPlace hq
  rw [nodes_append, nodes_raws] at h₂
  rw [h₁, h₂]
  simp [Window.between]

/-- A window divides the reading. -/
theorem nodes_window {brackets : List (Text × Text)} (hb : DistinctBrackets brackets) {ss : List Node} {w : Window}
    (h : nextGroup brackets ss = .window w) :
    φ.nodes ss =
      φ.nodes w.before ++ (φ.node (.raw w.opener) ++ φ.nodes w.interior ++ φ.node (.raw w.closer)) ++
        φ.nodes w.after := by
  obtain ⟨-, -, a, b, p, q, -, -, -, hp, hq, rfl⟩ := nextGroup_window_cases hb h
  exact φ.nodes_between hp hq

/-! ## Fields -/

/-- The reading of a piece. -/
def piece : Piece → List α
  | .item n => φ.node n
  | .mark s => φ.node (.raw s)

theorem flatMap_piece_raws (t : Text) : ((Node.raws t).map Piece.item).flatMap φ.piece = φ.node (.raw t) := by
  rw [List.flatMap_map]
  exact φ.nodes_raws t

theorem flatMap_piece_cutText (separator : Separator) (t : Text) :
    (cutText separator t).flatMap φ.piece = φ.node (.raw t) := by
  fun_induction cutText separator t with
  | case1 t h => exact φ.flatMap_piece_raws t
  | case2 t c h ih =>
    obtain ⟨ht, -⟩ := Separator.search?_eq_some h
    rw [List.flatMap_append, List.flatMap_cons, flatMap_piece_raws, ih, piece, ← List.append_assoc, ← φ.raw_append,
      ← φ.raw_append, ht]

/-- Cutting sentences at the separators keeps the reading. -/
theorem flatMap_piece_cutSentence (separator : Separator) (ss : List Node) :
    (ss.flatMap (cutSentence separator)).flatMap φ.piece = φ.nodes ss := by
  induction ss with
  | nil => rfl
  | cons n ss ih =>
    have hn : (cutSentence separator n).flatMap φ.piece = φ.node n := by
      cases n <;> simp [cutSentence, flatMap_piece_cutText, piece]
    rw [List.flatMap_cons, List.flatMap_append, hn, ih, nodes_cons]

/-- The reading of the fields behind separators. -/
def rest (rest : List (Text × List Node)) : List α :=
  rest.flatMap fun f => φ.node (.raw f.1) ++ φ.nodes f.2

theorem nodes_fields_pieces (ps : List Piece) :
    φ.nodes (fields ps).1 ++ φ.rest (fields ps).2 = ps.flatMap φ.piece := by
  induction ps with
  | nil => rfl
  | cons p ps ih => cases p <;> simp [fields, rest, piece, ← ih]

/-- The fields of a group with their separators make up the interior. -/
theorem nodes_fields (separator : Separator) (ss : List Node) :
    φ.nodes (fields (ss.flatMap (cutSentence separator))).1 ++ φ.rest (fields (ss.flatMap (cutSentence separator))).2 =
      φ.nodes ss := by
  rw [nodes_fields_pieces, flatMap_piece_cutSentence]

end Reading

end FormulaLang
