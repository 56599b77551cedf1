import FormulaLang.Proofs.Nesting.Marks
import Mathlib.Data.List.TakeWhile

/-!
# The fields between two brackets

The commas between two brackets cut the marks of the interior into those of the fields (`Reading.marks_fields`). A field
that gives no parameter is blank, so a reading that passes over white space makes no difference between the fields and the
parameters (`SkipsBlanks.forall_params_iff`, `SkipsBlanks.nodes_params`).
-/

namespace FormulaLang

open Nesting

namespace Reading

/-! ## Cutting at commas -/

/-- A piece between commas: no comma is left in a sentence, and a separator has one comma among white space. -/
def IsCut : Piece → Prop
  | .item n => ',' ∉ marks.node n
  | .mark s => s.filter isMark = [',']

theorem isCut_raws {t : Text} (h : ',' ∉ t) : ∀ p ∈ (Node.raws t).map Piece.item, IsCut p := by
  unfold Node.raws
  split
  · simp
  · simp [IsCut, marks_raw, h]

theorem filter_isMark_of_blank {t : Text} (h : ∀ c ∈ t, Text.isBlank c = true) : t.filter isMark = [] :=
  List.filter_eq_nil_iff.2 fun c hc => Bool.eq_false_iff.1 (isMark_of_isBlank (h c hc))

theorem isCut_cutText (t : Text) : ∀ p ∈ cutText (.spaced ',') t, IsCut p := by
  fun_induction cutText (.spaced ',') t with
  | case1 t h =>
    have hnone : Text.breakFirst ',' t = none := by simpa [Separator.search?] using h
    exact isCut_raws (Text.breakFirst_eq_none.1 hnone)
  | case2 t c h ih =>
    obtain ⟨⟨before, after⟩, hb, rfl⟩ := Option.map_eq_some_iff.1 h
    obtain ⟨-, hbefore⟩ := Text.breakFirst_eq_some hb
    rw [List.forall_mem_append, List.forall_mem_cons]
    refine ⟨isCut_raws fun hmem => hbefore ?_, ?_, ih⟩
    · rw [← Separator.trimRight_append_trailingBlanks before]
      exact List.mem_append_left _ hmem
    · have hleft : ∀ c ∈ Separator.trailingBlanks before, Text.isBlank c = true := by
        intro c hc
        exact List.mem_takeWhile_imp (List.mem_reverse.1 hc)
      have hright : ∀ c ∈ after.takeWhile Text.isBlank, Text.isBlank c = true := fun c hc => List.mem_takeWhile_imp hc
      rw [IsCut, List.filter_append, filter_isMark_of_blank hleft, List.filter_cons_of_pos (by decide),
        filter_isMark_of_blank hright, List.nil_append]

theorem isCut_cutSentence (ss : List Node) : ∀ p ∈ ss.flatMap (cutSentence (.spaced ',')), IsCut p := by
  intro p hp
  obtain ⟨n, -, hp⟩ := List.mem_flatMap.1 hp
  cases n with
  | raw t => exact isCut_cutText t p hp
  | _ =>
    cases List.mem_singleton.1 hp
    rw [IsCut, marks_of_not_isRaw rfl]
    exact List.not_mem_nil

theorem isCut_fields {ps : List Piece} (h : ∀ p ∈ ps, IsCut p) :
    ',' ∉ marks.nodes (fields ps).1 ∧ ∀ f ∈ (fields ps).2, f.1.filter isMark = [','] ∧ ',' ∉ marks.nodes f.2 := by
  induction ps with
  | nil => simp [fields]
  | cons p ps ih =>
    rw [List.forall_mem_cons] at h
    obtain ⟨h₁, h₂⟩ := ih h.2
    cases p with
    | item n =>
      rw [fields, nodes_cons, List.mem_append, not_or]
      exact ⟨⟨h.1, h₁⟩, h₂⟩
    | mark s =>
      rw [fields, List.forall_mem_cons]
      exact ⟨List.not_mem_nil, ⟨h.1, h₁⟩, h₂⟩

/-- **The fields** of a group have no comma, and their marks with commas between them are those of the interior. -/
theorem marks_fields (ss : List Node) {first : List Node} {rest : List (Text × List Node)}
    (hf : fields (ss.flatMap (cutSentence (.spaced ','))) = (first, rest)) :
    marks.nodes ss = joinFields (marks.nodes first) (rest.map fun f => marks.nodes f.2) ∧
      ∀ g ∈ marks.nodes first :: rest.map fun f => marks.nodes f.2, ',' ∉ g := by
  have hcut := isCut_fields (isCut_cutSentence ss)
  have hnodes := marks.nodes_fields (.spaced ',') ss
  rw [hf] at hcut hnodes
  refine ⟨?_, ?_⟩
  · rw [← hnodes, joinFields, Reading.rest, List.flatMap_map]
    refine congrArg _ (List.flatMap_congr fun f hfm => ?_)
    rw [marks_raw, (hcut.2 f hfm).1]
    rfl
  · rw [List.forall_mem_cons, List.forall_mem_map]
    exact ⟨hcut.1, fun f hfm => (hcut.2 f hfm).2⟩

/-! ## Parameters -/

/-- A reading that passes over white space and the literal of an empty field. -/
structure SkipsBlanks {α : Type} (φ : Reading α) : Prop where
  blank : ∀ t, Text.allBlank t = true → φ.node (.raw t) = []
  empty : φ.node emptyLiteral = []

theorem skipsBlanks_marks : marks.SkipsBlanks where
  blank _ ht := filter_isMark_of_blank (List.all_eq_true.1 ht)
  empty := rfl

theorem filter_isBracket (t : Text) : t.filter isBracket = (t.filter isMark).filter isBracket := by
  rw [List.filter_filter]
  refine List.filter_congr fun c _ => ?_
  cases hb : isBracket c with
  | false => rfl
  | true => rw [isMark_of_isBracket hb]; rfl

theorem skipsBlanks_brackets : brackets.SkipsBlanks where
  blank _ ht := by rw [brackets_raw, filter_isBracket, filter_isMark_of_blank (List.all_eq_true.1 ht), List.filter_nil]
  empty := rfl

namespace SkipsBlanks

variable {α : Type} {φ : Reading α} (hφ : φ.SkipsBlanks)

include hφ

theorem nodes_sentences (p : Param) : φ.nodes p.sentences = φ.nodes p.field := by
  unfold Param.sentences
  split
  · rename_i h
    rw [List.isEmpty_iff.1 h, nodes_cons, hφ.empty]
    rfl
  · rfl

theorem nodes_blank {field : List Node} (h : field.all Node.isBlankRaw = true) : φ.nodes field = [] := by
  refine List.flatMap_eq_nil_iff.2 fun n hn => ?_
  have hb := List.all_eq_true.1 h n hn
  cases n with
  | raw t => exact hφ.blank t hb
  | _ => cases hb

/-- What holds of the readings of all fields holds of those of the parameters, and conversely. -/
theorem forall_params_iff {P : List α → Prop} (hP : P []) {offset : Int} {field : List Node}
    {rest : List (Text × List Node)} :
    (∀ p ∈ (Interior.ofFields offset field rest).params, P (φ.nodes p.sentences)) ↔
      ∀ g ∈ φ.nodes field :: rest.map fun f => φ.nodes f.2, P g := by
  induction rest generalizing offset field with
  | nil =>
    unfold Interior.ofFields
    split
    · rename_i h
      simp [hφ.nodes_blank h, hP]
    · simp [hφ.nodes_sentences]
  | cons f rest ih =>
    simp only [Interior.ofFields, List.forall_mem_cons, hφ.nodes_sentences, List.map_cons] at ih ⊢
    rw [ih]

/-- The readings of the parameters make up that of the fields, if the separators read as nothing. -/
theorem nodes_params {offset : Int} {field : List Node} {rest : List (Text × List Node)}
    (hs : ∀ f ∈ rest, φ.node (.raw f.1) = []) :
    ((Interior.ofFields offset field rest).params.flatMap fun p => φ.nodes p.sentences) =
      φ.nodes field ++ φ.rest rest := by
  induction rest generalizing offset field with
  | nil =>
    unfold Interior.ofFields
    split
    · rename_i h
      simp [hφ.nodes_blank h, Reading.rest]
    · simp [hφ.nodes_sentences, Reading.rest]
  | cons f rest ih =>
    rw [List.forall_mem_cons] at hs
    simp only [Interior.ofFields, List.flatMap_cons, hφ.nodes_sentences, Reading.rest, hs.1, List.nil_append] at ih ⊢
    rw [ih hs.2]

/-- The readings of the parameters of a window make up that of its interior, if commas among white space read as nothing. -/
theorem nodes_interior (hs : ∀ s, s.filter isMark = [','] → φ.node (.raw s) = []) (w : Window) (offset : Int) :
    ((w.inside (.spaced ',') offset).params.flatMap fun p => φ.nodes p.sentences) = φ.nodes w.interior := by
  have hcut := isCut_fields (isCut_cutSentence w.interior)
  rw [← φ.nodes_fields (.spaced ',') w.interior]
  exact hφ.nodes_params fun f hf => hs f.1 (hcut.2 f hf).1

end SkipsBlanks

end Reading

end FormulaLang
