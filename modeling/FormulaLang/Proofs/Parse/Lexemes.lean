import FormulaLang.Proofs.Parse.Lexed
import FormulaLang.Proofs.Parse.Parameters

/-!
# Lexemes

The atoms of a lexed text are leaves and characters of which no leaf is made (`Reading.isLexeme_of_lexText`). A leaf starts with
a character of which leaves are made, or with a number sign in front of one, so the text and the leaves in it say where each
leaf stands: they determine the atoms (`Node.eq_of_sourceTexts`).
-/

namespace FormulaLang

open Node (sourceTexts)

namespace Pattern

theorem leafChar_of_isLeafStart {c : Char} (h : isLeafStart c = true) : LeafChar c := by
  rw [isLeafStart, Bool.or_eq_true, Bool.or_eq_true, beq_iff_eq] at h
  rcases h with (h | rfl) | h
  · exact .inl (isWord_of_isLetter h)
  · exact .inl (by decide)
  · exact .inl (Text.isWord_of_isDecimal h)

theorem isLeafStart_of_isBlank {c : Char} (h : Text.isBlank c = true) : isLeafStart c = false :=
  Bool.eq_false_iff.2 fun hc => not_leafChar_of_isBlank h (leafChar_of_isLeafStart hc)

/-- A text that starts as leaves do: with a character that starts one, or with a number sign in front of such a character. -/
inductive StartsLeaf : Text → Prop
  | plain {c : Char} (h : isLeafStart c = true) (t : Text) : StartsLeaf (c :: t)
  | marked {c : Char} (h : isLeafStart c = true) (t : Text) : StartsLeaf ('#' :: c :: t)

theorem StartsLeaf.of_run {p : Char → Bool} (hp : ∀ c, p c = true → isLeafStart c = true) {t : Text} (h : Number.IsRun p t) :
    StartsLeaf ('#' :: t) := by
  cases t with
  | nil => exact absurd rfl h.1
  | cons c t => exact .marked (hp c (h.2 c List.mem_cons_self)) t

/-- **The leaves** that are cut out start as leaves do. -/
theorem startsLeaf_of_leafCut? {t : Text} {c : LeafCut} (h : leafCut? Grammar.defaultLeaves t = some c) :
    StartsLeaf c.matched := by
  obtain ⟨r, hr, -, before, t', hm⟩ := leafCut?_matchAt h
  have hne : c.matched ≠ [] := (leafCut?_eq_some h).2
  simp only [Grammar.defaultLeaves, List.mem_cons, List.not_mem_nil, or_false] at hr
  have hzero : isLeafStart '0' = true := by decide
  rcases hr with rfl | rfl | rfl | rfl
  · obtain ⟨mark, part, hmatched, hmark, hpart⟩ := hex?_run hm
    simp only at hmatched
    rw [hmatched]
    rcases hmark with rfl | rfl | rfl
    · exact .of_run (fun _ => isLeafStart_of_isHexDigit) hpart
    · exact .plain hzero _
    · exact .plain hzero _
  · obtain ⟨mark, part, hmatched, hmark, -⟩ := binary?_run hm
    simp only at hmatched
    rw [hmatched]
    rcases hmark with rfl | rfl <;> exact .plain hzero _
  · obtain ⟨d, rest, hmatched, hd, -⟩ := name?_shape hm
    simp only at hmatched
    rw [hmatched]
    exact .plain (by rw [isLeafStart, hd, Bool.true_or]) _
  · have hhead := (decimal?_isDecimal hm).head
    obtain ⟨d, rest, hmatched⟩ := List.exists_cons_of_ne_nil hne
    rw [hmatched] at hhead ⊢
    exact .plain (by rw [isLeafStart, hhead d rfl, Bool.or_true]) _

end Pattern

open Pattern (StartsLeaf isLeafStart)

/-- An atom of a lexed text: a leaf, or a character of which no leaf is made. -/
inductive Node.IsLexeme : Node → Prop
  | char {c : Char} (h : isLeafStart c = false) : IsLexeme (.raw [c])
  | leaf {n : Node} (hn : n.isRaw = false) (h : StartsLeaf n.sourceText) : IsLexeme n

namespace Reading

theorem filter_atoms (ss : List Node) : ((atoms.nodes ss).filter fun n => !n.isRaw) = ss.filter fun n => !n.isRaw := by
  induction ss with
  | nil => rfl
  | cons n ss ih =>
    rw [nodes_cons, List.filter_append, ih]
    rcases n.raw_or_not with ⟨t, rfl⟩ | hn
    · rw [atoms_raw, List.filter_eq_nil_iff.2 (by simp [Node.isRaw])]
      rfl
    · rw [atoms_of_not_isRaw hn, List.filter_cons, List.filter_cons, hn]
      rfl

/-- Lexing makes lexemes. -/
theorem isLexeme_of_lexText {t : Text} {ss : List Node} (h : lexText Grammar.defaultLeaves t = .ok ss) :
    ∀ n ∈ atoms.nodes ss, n.IsLexeme := by
  have hleaf : ∀ n ∈ ss, n.isRaw = false → StartsLeaf n.sourceText := by
    refine forall_mem_lexText (Q := fun n => n.isRaw = false → StartsLeaf n.sourceText) (fun t ht => by cases ht) ?_ h
    intro t c n hc hn _
    rw [LeafKind.sourceText_leaf hn]
    exact Pattern.startsLeaf_of_leafCut? hc
  intro n hn
  obtain ⟨m, hm, hmem⟩ := List.mem_flatMap.1 hn
  rcases m.raw_or_not with ⟨u, rfl⟩ | hraw
  · obtain ⟨c, -, rfl⟩ := List.mem_map.1 hmem
    exact .char (lexed_lexText h c hn)
  · rw [atoms_of_not_isRaw hraw, List.mem_singleton] at hmem
    subst hmem
    exact .leaf hraw (hleaf n hm hraw)

end Reading

namespace Node

variable {n : Node} {xs ys : List Node}

theorem IsLexeme.text_ne_nil (h : n.IsLexeme) : n.sourceText ≠ [] := by
  cases h with
  | @char c hc => exact List.cons_ne_nil c []
  | leaf _ hstart =>
    intro hnil
    rw [hnil] at hstart
    cases hstart

theorem nil_of_sourceTexts (h : ∀ m ∈ xs, m.IsLexeme) (htext : sourceTexts xs = []) : xs = [] := by
  cases xs with
  | nil => rfl
  | cons m xs =>
    rw [sourceTexts, List.append_eq_nil_iff] at htext
    exact absurd htext.1 (h m List.mem_cons_self).text_ne_nil

/-- A character of which no leaf is made is not the start of the next leaf. -/
theorem IsLexeme.char_ne_leaf {c : Char} (hc : isLeafStart c = false) (hxs : ∀ m ∈ xs, m.IsLexeme)
    (hstart : StartsLeaf n.sourceText) {rest : List Node} (hleaves : (xs.filter fun m => !m.isRaw) = n :: rest) (t : Text) :
    c :: sourceTexts xs ≠ n.sourceText ++ t := by
  intro htext
  generalize hs : n.sourceText = s at hstart htext
  cases hstart with
  | plain hd u =>
    obtain ⟨rfl, -⟩ := List.cons.inj htext
    cases hc.symm.trans hd
  | @marked d hd u =>
    -- behind the number sign comes the leaf that starts with it, which is none
    obtain ⟨-, htail⟩ := List.cons.inj htext
    cases xs with
    | nil => cases htail
    | cons m xs =>
      rw [sourceTexts] at htail
      cases hxs m List.mem_cons_self with
      | char he =>
        obtain ⟨rfl, -⟩ := List.cons.inj htail
        cases he.symm.trans hd
      | leaf hraw _ =>
        rw [List.filter_cons_of_pos (by simp [hraw])] at hleaves
        cases hleaves
        rw [hs] at htail
        obtain ⟨rfl, -⟩ := List.cons.inj htail
        exact absurd hd (by decide)

/-- **Lexemes** with the same text are the same when the leaves among them are. -/
theorem eq_of_sourceTexts (hxs : ∀ m ∈ xs, m.IsLexeme) (hys : ∀ m ∈ ys, m.IsLexeme)
    (hleaves : (xs.filter fun m => !m.isRaw) = ys.filter fun m => !m.isRaw) (htext : sourceTexts xs = sourceTexts ys) :
    xs = ys := by
  induction xs generalizing ys with
  | nil => exact (nil_of_sourceTexts hys htext.symm).symm
  | cons n xs ih =>
    cases ys with
    | nil => exact nil_of_sourceTexts hxs htext
    | cons m ys =>
      rw [List.forall_mem_cons] at hxs hys
      rw [sourceTexts, sourceTexts] at htext
      cases hxs.1 with
      | char hc =>
        cases hys.1 with
        | char hd =>
          obtain ⟨hcd, htail⟩ := List.cons.inj htext
          rw [hcd, ih hxs.2 hys.2 hleaves htail]
        | leaf hm hstart =>
          rw [List.filter_cons_of_pos (a := m) (by simp [hm])] at hleaves
          exact absurd htext (IsLexeme.char_ne_leaf hc hxs.2 hstart hleaves _)
      | leaf hn hstart =>
        cases hys.1 with
        | char hd =>
          rw [List.filter_cons_of_pos (a := n) (by simp [hn])] at hleaves
          exact absurd htext.symm (IsLexeme.char_ne_leaf hd hys.2 hstart hleaves.symm _)
        | leaf hm _ =>
          rw [List.filter_cons_of_pos (by simp [hn]), List.filter_cons_of_pos (by simp [hm])] at hleaves
          obtain ⟨rfl, hrest⟩ := List.cons.inj hleaves
          rw [ih hxs.2 hys.2 hrest (List.append_cancel_left htext)]

end Node

end FormulaLang
