import FormulaLang.Grammar.Separator
import FormulaLang.Leaf.Lexing

/-!
# The interior of a group

The sentences between two brackets are cut at the separators into fields. A field is a parameter; an empty field before a
separator is a parameter too, the literal 0 without text. What stands behind the last separator is a parameter unless it is
blank: then it belongs to the closing bracket. Every parameter knows its position.
-/

namespace FormulaLang

/-- The field of a parameter and the position of its first character. -/
structure Param where
  field : List Node
  offset : Int

/-- The literal that stands in an empty field. -/
def emptyLiteral : Node := .number .none (.int 0) []

/-- The sentences of a parameter. -/
def Param.sentences (p : Param) : List Node :=
  if p.field.isEmpty then [emptyLiteral] else p.field

/-- A sentence or a separator. -/
inductive Piece where
  | item (n : Node)
  | mark (separator : Text)

/-- The pieces of a raw text. -/
def cutText (separator : Separator) (t : Text) : List Piece :=
  match _h : separator.search? t with
  | none => (Node.raws t).map .item
  | some c => (Node.raws c.before).map .item ++ .mark c.separator :: cutText separator c.after
termination_by t.length
decreasing_by have := Separator.Cut.length_lt _h; omega

/-- The pieces of a sentence; only raw text is cut. -/
def cutSentence (separator : Separator) : Node → List Piece
  | .raw t => cutText separator t
  | n => [.item n]

/-- The fields between the separators: the first field, and every other one behind its separator. -/
def fields : List Piece → List Node × List (Text × List Node)
  | [] => ([], [])
  | .item n :: rest => (n :: (fields rest).1, (fields rest).2)
  | .mark t :: rest => ([], (t, (fields rest).1) :: (fields rest).2)

/-- The parameters of a group, the separators between and behind them, and the blank text before the closing bracket. -/
structure Interior where
  params : List Param
  separators : List Text
  blank : Text

namespace Interior

/-- The interior of fields from a position on. -/
def ofFields (offset : Int) (field : List Node) : List (Text × List Node) → Interior
  | [] =>
    if field.all Node.isBlankRaw then ⟨[], [], Node.sourceTexts field⟩ else ⟨[⟨field, offset⟩], [], []⟩
  | (separator, next) :: rest =>
    let i := ofFields (offset + (Node.sourceTexts field).length + separator.length) next rest
    ⟨⟨field, offset⟩ :: i.params, separator :: i.separators, i.blank⟩

/-- The interior of the sentences between two brackets, the first of them at a position. -/
def ofSentences (separator : Separator) (offset : Int) (ss : List Node) : Interior :=
  let f := fields (ss.flatMap (cutSentence separator))
  ofFields offset f.1 f.2

end Interior

/-! ## Parameters have no more raw text than the interior -/

/-- The raw text of pieces. -/
def pieceLength : List Piece → Nat
  | [] => 0
  | .item n :: rest => (n.rawText?.getD []).length + pieceLength rest
  | .mark _ :: rest => pieceLength rest

theorem pieceLength_append (xs ys : List Piece) : pieceLength (xs ++ ys) = pieceLength xs + pieceLength ys := by
  induction xs with
  | nil => simp [pieceLength]
  | cons x xs ih => cases x <;> simp [pieceLength, ih, Nat.add_assoc]

theorem pieceLength_raws (t : Text) : pieceLength ((Node.raws t).map .item) = t.length := by
  unfold Node.raws
  split <;> simp_all [pieceLength, Node.rawText?]

theorem pieceLength_cutText_le (separator : Separator) (t : Text) :
    pieceLength (cutText separator t) ≤ t.length := by
  fun_induction cutText separator t with
  | case1 t h => simp [pieceLength_raws]
  | case2 t c h ih =>
    have := Separator.Cut.length_lt h
    simp only [pieceLength_append, pieceLength_raws, pieceLength]
    omega

theorem pieceLength_cutSentence_le (separator : Separator) (n : Node) :
    pieceLength (cutSentence separator n) ≤ (n.rawText?.getD []).length := by
  unfold cutSentence
  split
  · exact pieceLength_cutText_le separator _
  · simp [pieceLength]

theorem pieceLength_flatMap_le (separator : Separator) (ss : List Node) :
    pieceLength (ss.flatMap (cutSentence separator)) ≤ rawLength ss := by
  induction ss with
  | nil => simp [pieceLength]
  | cons n ss ih =>
    have := pieceLength_cutSentence_le separator n
    simp only [List.flatMap_cons, pieceLength_append, rawLength_cons]
    omega

/-- The raw text of the fields behind separators. -/
def restLength : List (Text × List Node) → Nat
  | [] => 0
  | (_, field) :: rest => rawLength field + restLength rest

/-- The raw text of the first field and of the others. -/
theorem rawLength_fields_le (ps : List Piece) : rawLength (fields ps).1 + restLength (fields ps).2 ≤ pieceLength ps := by
  induction ps with
  | nil => simp [fields, restLength]
  | cons p ps ih => cases p <;> simp [fields, pieceLength, restLength] <;> omega

theorem Param.rawLength_sentences (p : Param) : rawLength p.sentences = rawLength p.field := by
  unfold Param.sentences
  split <;> simp_all [emptyLiteral, Node.rawText?]

theorem Interior.rawLength_ofFields_le {offset : Int} {field : List Node} {rest : List (Text × List Node)} {p : Param}
    (h : p ∈ (ofFields offset field rest).params) :
    rawLength p.field ≤ rawLength field + restLength rest := by
  induction rest generalizing offset field with
  | nil =>
    unfold ofFields at h
    split at h
    · simp at h
    · simp only [List.mem_singleton] at h
      subst h
      simp [restLength]
  | cons f rest ih =>
    obtain ⟨separator, next⟩ := f
    simp only [ofFields, List.mem_cons] at h
    rcases h with rfl | h
    · simp
    · have := ih h
      simp only [restLength]
      omega

/-- A parameter has no more raw text than the interior that it was cut from. -/
theorem Interior.rawLength_param_le {separator : Separator} {offset : Int} {ss : List Node} {p : Param}
    (h : p ∈ (ofSentences separator offset ss).params) : rawLength p.sentences ≤ rawLength ss := by
  rw [Param.rawLength_sentences]
  have h₁ := rawLength_ofFields_le h
  have h₂ := rawLength_fields_le (ss.flatMap (cutSentence separator))
  have h₃ := pieceLength_flatMap_le separator ss
  omega

end FormulaLang
