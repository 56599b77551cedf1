import FormulaLang.Proofs.Parse.Atoms

/-!
# The atoms of a field

A separator is a comma among white space (`isComma_fields`). So the fields of a group stand between raw characters that are
part of no leaf: the brackets, or the first and the last character of a separator (`Interior.field_between`). The fields of
a fused interior are fused (`fused_fields`).
-/

namespace FormulaLang

open Node (sourceTexts sourceTexts_append)
open Reading (atoms)

/-! ## Separators -/

/-- A comma among white space. -/
def IsComma (s : Text) : Prop :=
  ∃ x y, s = x ++ ',' :: y ∧ Text.allBlank x = true ∧ Text.allBlank y = true

theorem IsComma.ne_nil {s : Text} (h : IsComma s) : s ≠ [] := by
  obtain ⟨x, y, rfl, -⟩ := h
  simp

/-- A separator stands in no leaf. -/
theorem IsComma.not_leafChar {s : Text} (h : IsComma s) : ∀ c ∈ s, ¬Pattern.LeafChar c := by
  obtain ⟨x, y, rfl, hx, hy⟩ := h
  rw [Text.allBlank, List.all_eq_true] at hx hy
  rw [List.forall_mem_append, List.forall_mem_cons]
  exact ⟨fun c hc => Pattern.not_leafChar_of_isBlank (hx c hc), by decide,
    fun c hc => Pattern.not_leafChar_of_isBlank (hy c hc)⟩

theorem isComma_separator {t : Text} {c : Separator.Cut} (h : Separator.search? (.spaced ',') t = some c) :
    IsComma c.separator := by
  obtain ⟨⟨before, after⟩, -, rfl⟩ := Option.map_eq_some_iff.1 h
  refine ⟨Separator.trailingBlanks before, after.takeWhile Text.isBlank, rfl, ?_, ?_⟩
  · rw [Separator.trailingBlanks, Text.allBlank, List.all_reverse]
    exact List.all_takeWhile
  · exact List.all_takeWhile

theorem isComma_cutText {t s : Text} (h : .mark s ∈ cutText (.spaced ',') t) : IsComma s := by
  fun_induction cutText (.spaced ',') t with
  | case1 t hc => simp at h
  | case2 t c hc ih =>
    simp only [List.mem_append, List.mem_map, reduceCtorEq, and_false, exists_false, List.mem_cons, Piece.mark.injEq,
      false_or] at h
    rcases h with rfl | h
    · exact isComma_separator hc
    · exact ih h

theorem isComma_cutSentence {ss : List Node} {s : Text} (h : .mark s ∈ ss.flatMap (cutSentence (.spaced ','))) :
    IsComma s := by
  obtain ⟨n, -, hn⟩ := List.mem_flatMap.1 h
  cases n with
  | raw t => exact isComma_cutText hn
  | _ => cases List.mem_singleton.1 hn

theorem mark_mem_of_fields {ps : List Piece} {f : Text × List Node} (h : f ∈ (fields ps).2) : .mark f.1 ∈ ps := by
  induction ps with
  | nil => cases h
  | cons p ps ih =>
    cases p with
    | item n => exact List.mem_cons_of_mem _ (ih h)
    | mark s =>
      rcases List.mem_cons.1 h with rfl | h
      · exact List.mem_cons_self
      · exact List.mem_cons_of_mem _ (ih h)

/-- The fields of an interior stand behind commas. -/
theorem isComma_fields {ss : List Node} : ∀ f ∈ (fields (ss.flatMap (cutSentence (.spaced ',')))).2, IsComma f.1 :=
  fun _ hf => isComma_cutSentence (mark_mem_of_fields hf)

/-! ## Fused fields -/

/-- A separator as a token, which keeps the sentences beside it apart. -/
def Piece.node : Piece → Node
  | .item n => n
  | .mark s => Node.separatorToken s

theorem map_node_fields (ps : List Piece) :
    ps.map Piece.node = (fields ps).1 ++ (fields ps).2.flatMap fun f => Node.separatorToken f.1 :: f.2 := by
  induction ps with
  | nil => rfl
  | cons p ps ih =>
    rw [List.map_cons, ih]
    cases p <;> rfl

theorem fused_cutText (separator : Separator) (t : Text) : Fused ((cutText separator t).map Piece.node) := by
  fun_induction cutText separator t with
  | case1 t hc => simpa [Function.comp_def, Piece.node] using Fused.raws t
  | case2 t c hc ih =>
    rw [List.map_append, List.map_cons]
    refine .append_node rfl ?_ ih
    simpa [Function.comp_def, Piece.node] using Fused.raws c.before

theorem fused_cutSentence (separator : Separator) {ss : List Node} (h : Fused ss) :
    Fused ((ss.flatMap (cutSentence separator)).map Piece.node) := by
  induction ss with
  | nil => exact .nil
  | cons n ss ih =>
    obtain ⟨-, hss, hjoin⟩ := Fused.cons_iff.1 h
    rw [List.flatMap_cons, List.map_append]
    rcases n.raw_or_not with ⟨t, rfl⟩ | hnode
    · refine Fused.append_iff.2 ⟨fused_cutText separator t, ih hss, fun m _ k hk => .inr ?_⟩
      -- raw text is followed by a node, which is not cut
      cases ss with
      | nil => cases hk
      | cons s ss =>
        have hs : s.isRaw = false := (hjoin s rfl).resolve_left (by simp [Node.isRaw])
        cases s with
        | raw t => cases hs
        | _ =>
          cases Option.mem_some_iff.1 hk
          rfl
    · have hcut : (cutSentence separator n).map Piece.node = [n] := by
        cases n with
        | raw t => cases hnode
        | _ => rfl
      rw [hcut]
      exact (ih hss).cons_node hnode

/-- The fields of a fused interior are fused. -/
theorem fused_fields (separator : Separator) {ss : List Node} (h : Fused ss) :
    Fused (fields (ss.flatMap (cutSentence separator))).1 ∧
      ∀ f ∈ (fields (ss.flatMap (cutSentence separator))).2, Fused f.2 := by
  have hfused := fused_cutSentence separator h
  rw [map_node_fields] at hfused
  refine ⟨hfused.of_infix (List.infix_append [] _ _), fun f hf => hfused.of_infix ?_⟩
  have hmem := List.mem_map_of_mem (f := fun f : Text × List Node => Node.separatorToken f.1 :: f.2) hf
  have hrest := List.infix_of_mem_flatten hmem
  rw [← List.flatMap_def] at hrest
  exact (List.suffix_cons _ _).isInfix.trans (hrest.trans (List.suffix_append _ _).isInfix)

/-! ## Parameters -/

namespace Interior

theorem field_of_mem_ofFields {offset : Int} {field : List Node} {rest : List (Text × List Node)} {p : Param}
    (hp : p ∈ (ofFields offset field rest).params) : p.field = field ∨ ∃ f ∈ rest, p.field = f.2 := by
  induction rest generalizing offset field with
  | nil =>
    unfold ofFields at hp
    split at hp
    · cases hp
    · exact .inl (congrArg Param.field (List.mem_singleton.1 hp))
  | cons f rest ih =>
    rcases List.mem_cons.1 hp with rfl | hp
    · exact .inl rfl
    · rcases ih hp with hfield | ⟨g, hg, hfield⟩
      · exact .inr ⟨f, List.mem_cons_self, hfield⟩
      · exact .inr ⟨g, List.mem_cons_of_mem _ hg, hfield⟩

/-- **The field of a parameter** stands between two breaks, at the position of the parameter. The breaks in front of the
first field and behind the last one are given. -/
theorem param_between {a e : Char} (ha : ¬Pattern.LeafChar a) (he : ¬Pattern.LeafChar e) {offset : Int}
    {field : List Node} {rest : List (Text × List Node)} (hrest : ∀ f ∈ rest, IsComma f.1) {p : Param}
    (hp : p ∈ (ofFields offset field rest).params) :
    ∃ x c d y, ¬Pattern.LeafChar c ∧ ¬Pattern.LeafChar d ∧ p.offset = offset + (sourceTexts x).length ∧
      .raw [a] :: (atoms.nodes field ++ atoms.rest rest ++ [.raw [e]]) =
        x ++ .raw [c] :: (atoms.nodes p.field ++ .raw [d] :: y) := by
  induction rest generalizing a offset field with
  | nil =>
    unfold ofFields at hp
    split at hp
    · cases hp
    · cases List.mem_singleton.1 hp
      exact ⟨[], a, e, [], ha, he, by simp [sourceTexts], by simp [Reading.rest]⟩
  | cons f rest ih =>
    obtain ⟨separator, next⟩ := f
    rw [List.forall_mem_cons] at hrest
    obtain ⟨hcomma, hrest⟩ := hrest
    rcases List.mem_cons.1 hp with rfl | hp
    · obtain ⟨d, tail, rfl⟩ := List.exists_cons_of_ne_nil hcomma.ne_nil
      refine ⟨[], a, d, tail.map (fun c => .raw [c]) ++ (atoms.nodes next ++ atoms.rest rest ++ [.raw [e]]), ha,
        hcomma.not_leafChar d List.mem_cons_self, by simp [sourceTexts], ?_⟩
      simp [Reading.rest, Reading.atoms_raw]
    · obtain ⟨front, c, rfl⟩ := (List.eq_nil_or_concat' separator).resolve_left hcomma.ne_nil
      obtain ⟨x, c', d, y, hc', hd, hoffset, hatoms⟩ := ih (hcomma.not_leafChar c (by simp)) hrest hp
      refine ⟨.raw [a] :: (atoms.nodes field ++ front.map fun c => .raw [c]) ++ x, c', d, y, hc', hd, ?_, ?_⟩
      · simp only [sourceTexts, sourceTexts_append, Node.sourceText, Reading.sourceTexts_atoms,
          Reading.sourceTexts_map_raw, List.length_append, List.length_cons, List.length_nil] at hoffset ⊢
        omega
      · rw [List.append_assoc _ x, ← hatoms]
        simp [Reading.rest, Reading.atoms_raw]

/-- The field of a parameter of a group, between the brackets. -/
theorem field_between {a e : Char} (ha : ¬Pattern.LeafChar a) (he : ¬Pattern.LeafChar e) {offset : Int} {ss : List Node}
    (hs : Fused ss) {p : Param} (hp : p ∈ (ofSentences (.spaced ',') offset ss).params) :
    Fused p.field ∧ ∃ x c d y, ¬Pattern.LeafChar c ∧ ¬Pattern.LeafChar d ∧
      p.offset = offset + (sourceTexts x).length ∧
      .raw [a] :: (atoms.nodes ss ++ [.raw [e]]) = x ++ .raw [c] :: (atoms.nodes p.field ++ .raw [d] :: y) := by
  obtain ⟨hfirst, hothers⟩ := fused_fields (.spaced ',') hs
  refine ⟨?_, ?_⟩
  · rcases field_of_mem_ofFields hp with hfield | ⟨f, hf, hfield⟩
    · exact hfield ▸ hfirst
    · exact hfield ▸ hothers f hf
  · rw [← atoms.nodes_fields (.spaced ',') ss]
    exact param_between ha he isComma_fields hp

end Interior

end FormulaLang
