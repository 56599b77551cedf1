import FormulaLang.Proofs.Nesting.Acceptance
import FormulaLang.Proofs.Parse.Atoms
import Mathlib.Data.List.Forall2

/-!
# Fields between commas

Sentences in which no comma stands make one field each, when single commas stand between them (`fields_commaJoin`). A field
without brackets and leaves is parsed by folding it (`parseBuffer_of_foldTiers`), and the parameters of a group are then the
equations of its fields (`parseParams_commaJoin`).
-/

namespace FormulaLang

open Nesting
open Reading (atoms marks)

/-! ## Fields -/

/-- No sentence is cut at a comma. -/
def Uncut (ss : List Node) : Prop :=
  ∀ n ∈ ss, cutSentence (.spaced ',') n = [.item n]

theorem cutSentence_of_not_isRaw {n : Node} (h : n.isRaw = false) (separator : Separator) :
    cutSentence separator n = [.item n] := by
  cases n with
  | raw t => cases h
  | _ => rfl

theorem cutText_of_none {separator : Separator} {t : Text} (h : separator.search? t = none) :
    cutText separator t = (Node.raws t).map .item := by
  rw [cutText]
  split
  · rfl
  · rename_i c hc
    cases h.symm.trans hc

theorem cutText_of_some {separator : Separator} {t : Text} {c : Separator.Cut} (h : separator.search? t = some c) :
    cutText separator t = (Node.raws c.before).map .item ++ .mark c.separator :: cutText separator c.after := by
  rw [cutText]
  split
  · rename_i hc
    cases h.symm.trans hc
  · rename_i d hd
    cases h.symm.trans hd
    rfl

theorem cutSentence_raw {t : Text} (hne : t ≠ []) (h : ',' ∉ t) : cutSentence (.spaced ',') (.raw t) = [.item (.raw t)] := by
  have hnone : Separator.search? (.spaced ',') t = none := by
    rw [Separator.search?, Option.map_eq_none_iff, Text.breakFirst_eq_none]
    exact h
  rw [cutSentence, cutText_of_none hnone, Node.raws, if_neg (by simpa using hne)]
  rfl

theorem cutSentence_comma : cutSentence (.spaced ',') (.raw [',']) = [.mark [',']] := by
  have hcomma : Separator.search? (.spaced ',') [','] = some ⟨[], [','], []⟩ := rfl
  have hnone : Separator.search? (.spaced ',') [] = none := rfl
  rw [cutSentence, cutText_of_some hcomma, cutText_of_none hnone]
  rfl

theorem Uncut.flatMap_cutSentence {ss : List Node} (h : Uncut ss) :
    ss.flatMap (cutSentence (.spaced ',')) = ss.map .item := by
  induction ss with
  | nil => rfl
  | cons n ss ih =>
    rw [Uncut, List.forall_mem_cons] at h
    rw [List.flatMap_cons, h.1, ih h.2, List.map_cons, List.singleton_append]

theorem fields_items (ss : List Node) (ps : List Piece) :
    fields (ss.map .item ++ ps) = (ss ++ (fields ps).1, (fields ps).2) := by
  induction ss with
  | nil => rfl
  | cons n ss ih => rw [List.map_cons, List.cons_append, fields, ih, List.cons_append]

/-- Sentences with commas between them. -/
abbrev commaJoin (fs : List (List Node)) : List Node :=
  [Node.raw [',']].intercalate fs

/-- **The fields** of sentences with commas between them. -/
theorem fields_commaJoin {f : List Node} {fs : List (List Node)} (h : ∀ g ∈ f :: fs, Uncut g) :
    fields ((commaJoin (f :: fs)).flatMap (cutSentence (.spaced ','))) = (f, fs.map fun g => ([','], g)) := by
  induction fs generalizing f with
  | nil =>
    have hf : Uncut f := h f List.mem_cons_self
    rw [commaJoin, List.intercalate_singleton, hf.flatMap_cutSentence, ← List.append_nil (f.map _), fields_items, fields]
    simp
  | cons g fs ih =>
    rw [List.forall_mem_cons] at h
    rw [commaJoin, List.intercalate_cons_cons, List.flatMap_append, List.flatMap_append, h.1.flatMap_cutSentence,
      List.flatMap_singleton, cutSentence_comma, List.append_assoc, fields_items, List.singleton_append, fields, ih h.2]
    simp

namespace Interior

/-- Fields that are not blank are parameters, all of them. -/
theorem field_params_ofFields {offset : Int} {f : List Node} {fs : List (List Node)}
    (h : ∀ g ∈ f :: fs, g.all Node.isBlankRaw = false) :
    (ofFields offset f (fs.map fun g => ([','], g))).params.map Param.field = f :: fs ∧
      (ofFields offset f (fs.map fun g => ([','], g))).blank = [] := by
  induction fs generalizing offset f with
  | nil =>
    have hf := h f List.mem_cons_self
    simp [ofFields, hf]
  | cons g fs ih =>
    rw [List.forall_mem_cons] at h
    simp only [List.map_cons, ofFields]
    exact ⟨congrArg (f :: ·) (ih h.2).1, (ih h.2).2⟩

theorem field_params_commaJoin {offset : Int} {fs : List (List Node)} (huncut : ∀ g ∈ fs, Uncut g)
    (h : ∀ g ∈ fs, g.all Node.isBlankRaw = false) :
    (ofSentences (.spaced ',') offset (commaJoin fs)).params.map Param.field = fs ∧
      (ofSentences (.spaced ',') offset (commaJoin fs)).blank = [] := by
  cases fs with
  | nil => exact ⟨rfl, rfl⟩
  | cons f fs =>
    rw [ofSentences, fields_commaJoin huncut]
    exact field_params_ofFields h

end Interior

/-! ## Parsing fields -/

variable {l : Language}

/-- The only raw characters of a buffer are those of operators: none starts a leaf, and none is a bracket or comma. -/
def Plain (ss : List Node) : Prop :=
  ∀ c, .raw [c] ∈ atoms.nodes ss → Pattern.isLeafStart c = false ∧ isMark c = false

section Default

variable (hl : l.grammar = .default)

include hl

/-- A fused buffer without leaves and brackets is parsed by folding it. -/
theorem parseBuffer_of_foldTiers {ss out : List Node} (hfused : Fused ss) (hplain : Plain ss)
    (hfold : (foldTiers Grammar.default.tiers l.resolve ss).result = .ok out) (offset : Int) :
    (parseBuffer l offset ss).result = .ok out := by
  have hleaves : l.grammar.leaves = Grammar.defaultLeaves := congrArg Grammar.leaves hl
  have hbrackets : l.grammar.brackets = Grammar.defaultBrackets := congrArg Grammar.brackets hl
  have hfree : ∀ c, isMark c = true → c ∉ marks.nodes ss := by
    intro c hc
    rw [Reading.mem_marks_iff hc]
    intro hmem
    rw [(hplain c hmem).2] at hc
    cases hc
  have habsent : nextGroup l.grammar.brackets ss = .absent := by
    rw [hbrackets, nextGroup_absent_iff distinctBrackets_default, defaultBrackets_eq, List.forall_mem_map]
    exact fun k _ => (Reading.firstPlace?_eq_none_iff (isMark_closer k)).2 (hfree _ (isMark_closer k))
  have hstray : strayOpener? l.grammar.brackets ss = none := by
    rw [hbrackets, strayOpener?_eq_none_iff]
    exact fun k => hfree _ (isMark_opener k)
  refine parseBuffer_ok_iff_stages.2 ⟨ss, ss, lexStage_eq_self hleaves hfused (fun c hc => (hplain c hc).1) offset,
    groupStage_of_absent habsent hstray, foldStage_ok_iff.2 ?_⟩
  rwa [hl]

omit hl in
/-- The field `f` is a parameter by itself, with the sentence `n`. -/
structure Field (l : Language) (f : List Node) (n : Node) : Prop where
  uncut : Uncut f
  nonblank : f.all Node.isBlankRaw = false
  parses : ∀ offset, (parseBuffer l offset f).result = .ok [n]

omit hl in
/-- A parameter with such a field is an equation with that sentence. -/
theorem Field.parseParam {p : Param} {n : Node} (h : Field l p.field n) :
    FormulaLang.parseParam l p = .ok (.equation .none [n] p.offset) := by
  have hsentences : p.sentences = p.field := by
    unfold Param.sentences
    split
    · rename_i hempty
      have hblank := h.nonblank
      rw [List.isEmpty_iff.1 hempty] at hblank
      cases hblank
    · rfl
  refine parseParam_ok_iff.2 ⟨[n], ?_, rfl⟩
  rw [hsentences]
  exact h.parses p.offset

omit hl in
/-- Of fields that are parameters by themselves, none is dropped and none is blank. -/
theorem Field.params_commaJoin {fs : List (List Node)} {ns : List Node} (h : List.Forall₂ (Field l) fs ns) (offset : Int) :
    (Interior.ofSentences (.spaced ',') offset (commaJoin fs)).params.map Param.field = fs ∧
      (Interior.ofSentences (.spaced ',') offset (commaJoin fs)).blank = [] := by
  have hfield : ∀ g ∈ fs, ∃ n, Field l g n := fun g hg => (exists_of_forall₂ h.flip g hg).imp fun n hn => hn.2
  exact Interior.field_params_commaJoin (fun g hg => (hfield g hg).elim fun _ hn => hn.uncut)
    fun g hg => (hfield g hg).elim fun _ hn => hn.nonblank

/-- **The parameters** of fields with commas between them. -/
theorem parseParams_commaJoin {fs : List (List Node)} {ns : List Node} (h : List.Forall₂ (Field l) fs ns) (offset : Int) :
    ∃ params, parseParams l (Interior.ofSentences l.grammar.separator offset (commaJoin fs)).params = .ok params ∧
      List.Forall₂ (fun n q => ∃ o, q = .equation .none [n] o) ns params := by
  have hseparator : l.grammar.separator = .spaced ',' := congrArg Grammar.separator hl
  have hfields : (Interior.ofSentences (.spaced ',') offset (commaJoin fs)).params.map Param.field = fs :=
    (Field.params_commaJoin h offset).1
  rw [hseparator]
  generalize (Interior.ofSentences (.spaced ',') offset (commaJoin fs)).params = ps at hfields
  subst hfields
  simp only [parseParams_ok_iff]
  replace h := List.forall₂_map_left_iff.1 h
  induction h with
  | nil => exact ⟨[], .nil, .nil⟩
  | @cons p n ps ns hp _ ih =>
    obtain ⟨params, hparams, hequations⟩ := ih
    exact ⟨_, .cons hp.parseParam hparams, .cons ⟨p.offset, rfl⟩ hequations⟩

end Default

end FormulaLang
