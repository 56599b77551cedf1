import FormulaLang.Proofs.Fold.Mapped
import FormulaLang.Proofs.Parse.Parameters

/-!
# Positions

Where a buffer stands in a text decides about nothing but the positions that its equations know: when the same buffer is
parsed at another offset, every position in the tree is moved by the difference (`parseBuffer_shift`).
-/

namespace FormulaLang

open Node (sourceTexts)

namespace Node

mutual
/-- A tree with all positions moved. -/
def shift (d : Int) : Node → Node
  | group b ps => group b (shiftAll d ps)
  | call p c f a => call p (shift d c) f (shift d a)
  | unary p s o x => unary p (shift d s) o (shift d x)
  | binary p l s o r => binary p (shift d l) (shift d s) o (shift d r)
  | equation p ss o => equation p (shiftAll d ss) (o + d)
  | n => n

/-- Trees with all positions moved. -/
def shiftAll (d : Int) : List Node → List Node
  | [] => []
  | n :: rest => shift d n :: shiftAll d rest
end

variable (d : Int)

theorem shiftAll_eq_map (ss : List Node) : shiftAll d ss = ss.map (shift d) := by
  induction ss with
  | nil => rfl
  | cons n ss ih => rw [shiftAll, ih, List.map_cons]

@[simp] theorem shift_raw (t : Text) : shift d (raw t) = raw t := rfl

@[simp] theorem shift_emptyLiteral : shift d emptyLiteral = emptyLiteral := rfl

@[simp] theorem map_shift_raws (t : Text) : (raws t).map (shift d) = raws t := by
  unfold raws
  split <;> rfl

@[simp] theorem isRaw_shift (n : Node) : (shift d n).isRaw = n.isRaw := by
  cases n <;> rfl

@[simp] theorem rawText?_shift (n : Node) : (shift d n).rawText? = n.rawText? := by
  cases n <;> rfl

@[simp] theorem isBlankRaw_shift (n : Node) : (shift d n).isBlankRaw = n.isBlankRaw := by
  cases n <;> rfl

@[simp] theorem pad_shift (n : Node) : (shift d n).pad = n.pad := by
  cases n <;> rfl

theorem shift_withPad (p : Pad) (n : Node) : shift d (n.withPad p) = (shift d n).withPad p := by
  cases n <;> rfl

theorem name?_shift (n : Node) : (shift d n).name? = n.name? := by
  cases n with
  | call p c f a => exact name?_shift c
  | _ => rfl

mutual
theorem sourceText_shift (n : Node) : (shift d n).sourceText = n.sourceText := by
  cases n with
  | group b ps => rw [shift, sourceText, sourceText, paramsText_shiftAll ps]
  | call p c f a => rw [shift, sourceText, sourceText, sourceText_shift c, sourceText_shift a]
  | unary p s o x => rw [shift, sourceText, sourceText, sourceText_shift s, sourceText_shift x]
  | binary p l s o r =>
    rw [shift, sourceText, sourceText, sourceText_shift l, sourceText_shift s, sourceText_shift r]
  | equation p ss o => rw [shift, sourceText, sourceText, sourceTexts_shiftAll ss]
  | _ => rfl

theorem sourceTexts_shiftAll (ss : List Node) : sourceTexts (shiftAll d ss) = sourceTexts ss := by
  cases ss with
  | nil => rfl
  | cons n ss => rw [shiftAll, sourceTexts, sourceTexts, sourceText_shift n, sourceTexts_shiftAll ss]

theorem paramsText_shiftAll (ps : List Node) (separators : List Text) :
    paramsText (shiftAll d ps) separators = paramsText ps separators := by
  cases ps with
  | nil => rfl
  | cons p ps =>
    cases separators with
    | nil => rw [shiftAll, paramsText, paramsText, sourceText_shift p, paramsText_shiftAll ps]
    | cons s separators => rw [shiftAll, paramsText, paramsText, sourceText_shift p, paramsText_shiftAll ps]
end

@[simp] theorem sourceTexts_map_shift (ss : List Node) : sourceTexts (ss.map (shift d)) = sourceTexts ss := by
  rw [← shiftAll_eq_map, sourceTexts_shiftAll]

end Node

variable (d : Int)

/-! ## Leaves -/

theorem LeafKind.shift_leaf {k : LeafKind} {t : Text} {n : Node} (h : k.leaf t = .ok n) : n.shift d = n := by
  rcases LeafKind.leaf_cases h with ⟨v, rfl⟩ | rfl <;> rfl

theorem map_eq_self {α : Type} {f : α → α} {xs : List α} (h : ∀ x ∈ xs, f x = x) : xs.map f = xs := by
  conv_rhs => rw [← List.map_id xs]
  exact List.map_congr_left h

theorem lexSentence_shift {rules : List LeafRule} {n : Node} {out : List Node} (h : lexSentence rules n = .ok out) :
    lexSentence rules (n.shift d) = .ok (out.map (Node.shift d)) := by
  cases n with
  | raw t =>
    rw [map_eq_self (forall_mem_lexText (Node.shift_raw d) (fun _ _ _ _ => LeafKind.shift_leaf d) h)]
    exact h
  | _ =>
    cases h
    rfl

theorem lexEach_shift {rules : List LeafRule} {ss : List Node} {out : List (List Node)} (h : lexEach rules ss = .ok out) :
    lexEach rules (ss.map (Node.shift d)) = .ok (out.map (List.map (Node.shift d))) := by
  induction ss generalizing out with
  | nil =>
    cases h
    rfl
  | cons n ss ih =>
    rw [lexEach] at h
    split at h
    · cases h
    · rename_i pieces hpieces
      split at h
      · cases h
      · rename_i others hothers
        cases h
        rw [List.map_cons, lexEach, lexSentence_shift d hpieces, ih hothers]
        rfl

theorem lexStage_shift {g : Grammar} {offset : Int} {ss out : List Node} (h : (lexStage g offset ss).result = .ok out) :
    (lexStage g (offset + d) (ss.map (Node.shift d))).result = .ok (out.map (Node.shift d)) := by
  unfold lexStage at h
  split at h
  · cases h
  · rename_i pieces hpieces
    cases h
    rw [lexStage, lexEach_shift d hpieces]
    simp

/-! ## Folding -/

theorem Element.fits_shift (e : Element) (n : Node) : e.fits (n.shift d) = e.fits n := by
  cases e <;> cases n <;> rfl

theorem Rule.Builds.shift {r : Rule} {resolve : Text → Option Function} {matched : List Node} {n : Node}
    (h : r.Builds resolve matched n) : r.Builds resolve (matched.map (Node.shift d)) (n.shift d) := by
  cases h with
  | @spaceBefore t n hb hn =>
    rw [Node.shift_withPad, ← Node.pad_shift d n]
    exact .spaceBefore hb ((Node.isRaw_shift d n).trans hn)
  | @spaceAfter t n hb hn =>
    rw [Node.shift_withPad, ← Node.pad_shift d n]
    exact .spaceAfter hb ((Node.isRaw_shift d n).trans hn)
  | functionCall hb hn => exact .functionCall hb ((Node.name?_shift d _).trans hn)
  | variableUse hb => exact .variableUse hb
  | binary hb => exact .binary hb
  | implicit hb => exact .implicit hb
  | unary hb => exact .unary hb

theorem foldTiers_shift {ts : List Tier} {resolve : Text → Option Function} {ss out : List Node}
    (h : (foldTiers ts resolve ss).result = .ok out) :
    (foldTiers ts resolve (ss.map (Node.shift d))).result = .ok (out.map (Node.shift d)) :=
  foldTiers_map (fun _ _ _ _ => ⟨fun e _ n => e.fits_shift d n, fun _ _ hn => hn.shift d⟩) h

/-! ## Windows -/

/-- A place with all positions moved. -/
def Place.shift (p : Place) : Place :=
  ⟨p.before.map (Node.shift d), p.head, p.tail, p.after.map (Node.shift d)⟩

theorem firstPlace?_shift (mark : Text) (ss : List Node) :
    firstPlace? mark (ss.map (Node.shift d)) = (firstPlace? mark ss).map (Place.shift d) := by
  induction ss with
  | nil => rfl
  | cons n ss ih =>
    rw [List.map_cons, firstPlace?, firstPlace?, Node.rawText?_shift, ih]
    cases n.rawText?.bind (Text.splitFirst mark) with
    | some r => rfl
    | none => simp [Function.comp_def, Place.shift]

theorem lastPlace?_shift (mark : Text) (ss : List Node) :
    lastPlace? mark (ss.map (Node.shift d)) = (lastPlace? mark ss).map (Place.shift d) := by
  induction ss with
  | nil => rfl
  | cons n ss ih =>
    rw [List.map_cons, lastPlace?, lastPlace?, Node.rawText?_shift, ih]
    cases lastPlace? mark ss with
    | some q => rfl
    | none => simp [Function.comp_def, Place.shift]

/-- A window with all positions moved. -/
def Window.shift (w : Window) : Window :=
  { w with
    before := w.before.map (Node.shift d)
    interior := w.interior.map (Node.shift d)
    after := w.after.map (Node.shift d) }

/-- A group that is found, with all positions moved. -/
def NextGroup.shift : NextGroup → NextGroup
  | absent => absent
  | unmatched closer buffer index => unmatched closer (buffer.map (Node.shift d)) index
  | window w => window (w.shift d)

theorem nextGroupOf_shift (opener closer : Text) (ss : List Node) :
    nextGroupOf opener closer (ss.map (Node.shift d)) = (nextGroupOf opener closer ss).shift d := by
  rw [nextGroupOf, nextGroupOf, firstPlace?_shift]
  cases firstPlace? closer ss with
  | none => rfl
  | some p =>
    have hfront : (p.shift d).before ++ Node.raws (p.shift d).head = (p.before ++ Node.raws p.head).map (Node.shift d) := by
      simp [Place.shift]
    simp only [Option.map_some, hfront, lastPlace?_shift]
    cases Text.splitLast opener closer with
    | some r => simp [NextGroup.shift, Window.shift, Place.shift]
    | none =>
      cases lastPlace? opener (p.before ++ Node.raws p.head) <;>
        simp [NextGroup.shift, Window.shift, Place.shift]

theorem nextGroup_shift (brackets : List (Text × Text)) (ss : List Node) :
    nextGroup brackets (ss.map (Node.shift d)) = (nextGroup brackets ss).shift d := by
  induction brackets with
  | nil => rfl
  | cons b rest ih =>
    rw [nextGroup, nextGroup, nextGroupOf_shift, ih]
    cases nextGroupOf b.1 b.2 ss <;> rfl

theorem strayOpener?_shift {brackets : List (Text × Text)} {ss : List Node} (h : strayOpener? brackets ss = none) :
    strayOpener? brackets (ss.map (Node.shift d)) = none := by
  rw [strayOpener?, List.findSome?_eq_none_iff] at h ⊢
  rintro ⟨opener, closer⟩ hb
  have hnone := Option.map_eq_none_iff.1 (h _ hb)
  simp only [firstPlace?_shift, hnone, Option.map_none]

/-! ## Parameters -/

/-- A piece with all positions moved. -/
def Piece.shift : Piece → Piece
  | item n => item (n.shift d)
  | mark s => mark s

theorem cutText_shift (separator : Separator) (t : Text) :
    (cutText separator t).map (Piece.shift d) = cutText separator t := by
  fun_induction cutText separator t with
  | case1 t hc =>
    unfold Node.raws
    split <;> rfl
  | case2 t c hc ih =>
    rw [List.map_append, List.map_cons, ih]
    unfold Node.raws
    split <;> rfl

theorem cutSentence_shift (separator : Separator) (n : Node) :
    cutSentence separator (n.shift d) = (cutSentence separator n).map (Piece.shift d) := by
  cases n with
  | raw t => exact (cutText_shift d separator t).symm
  | _ => rfl

/-- The fields behind separators with all positions moved. -/
def shiftFields (rest : List (Text × List Node)) : List (Text × List Node) :=
  rest.map fun f => (f.1, f.2.map (Node.shift d))

theorem fields_shift (ps : List Piece) :
    fields (ps.map (Piece.shift d)) = ((fields ps).1.map (Node.shift d), shiftFields d (fields ps).2) := by
  induction ps with
  | nil => rfl
  | cons p ps ih =>
    cases p <;> simp [fields, Piece.shift, ih, shiftFields]

/-- A parameter with all positions moved. -/
def Param.shift (p : Param) : Param :=
  ⟨p.field.map (Node.shift d), p.offset + d⟩

theorem Param.sentences_shift (p : Param) : (p.shift d).sentences = p.sentences.map (Node.shift d) := by
  unfold sentences shift
  cases p.field <;> rfl

/-- An interior with all positions moved. -/
def Interior.shift (i : Interior) : Interior :=
  { i with params := i.params.map (Param.shift d) }

theorem Interior.ofFields_shift (offset : Int) (field : List Node) (rest : List (Text × List Node)) :
    ofFields (offset + d) (field.map (Node.shift d)) (shiftFields d rest) = (ofFields offset field rest).shift d := by
  induction rest generalizing offset field with
  | nil =>
    have hblank : (field.map (Node.shift d)).all Node.isBlankRaw = field.all Node.isBlankRaw := by
      simp [List.all_map, Function.comp_def]
    rw [shiftFields, List.map_nil, ofFields, ofFields, hblank]
    split <;> simp [shift, Param.shift]
  | cons f rest ih =>
    obtain ⟨separator, next⟩ := f
    have hoffset : offset + d + (sourceTexts field).length + separator.length =
        offset + (sourceTexts field).length + separator.length + d := by omega
    rw [shiftFields, List.map_cons, ofFields, ofFields, Node.sourceTexts_map_shift, hoffset]
    have hrest := ih (offset + (sourceTexts field).length + separator.length) next
    rw [shiftFields] at hrest
    simp [hrest, shift, Param.shift]

theorem Window.inside_shift (w : Window) (separator : Separator) (offset : Int) :
    (w.shift d).inside separator (offset + d) = (w.inside separator offset).shift d := by
  have hoffset : offset + d + (sourceTexts w.before).length + w.opener.length =
      offset + (sourceTexts w.before).length + w.opener.length + d := by omega
  have hpieces : (w.interior.map (Node.shift d)).flatMap (cutSentence separator) =
      (w.interior.flatMap (cutSentence separator)).map (Piece.shift d) := by
    simp [List.flatMap_map, List.map_flatMap, cutSentence_shift]
  rw [inside, inside, shift, Node.sourceTexts_map_shift, hoffset, Interior.ofSentences, Interior.ofSentences, hpieces,
    fields_shift]
  exact Interior.ofFields_shift d _ _ _

/-! ## Parses -/

variable {l : Language}

theorem Window.collapse_shift (w : Window) (offset : Int) (params : List Node) :
    (w.shift d).collapse l (offset + d) (params.map (Node.shift d)) = (w.collapse l offset params).map (Node.shift d) := by
  rw [collapse, collapse, inside_shift, List.map_append, List.map_cons, group, group, Node.shift, Node.shiftAll_eq_map]
  rfl

theorem groupStage_shift {offset : Int} {ss out : List Node} (h : (groupStage l offset ss).result = .ok out) :
    (groupStage l (offset + d) (ss.map (Node.shift d))).result = .ok (out.map (Node.shift d)) := by
  refine groupStage_induction (motive := fun offset ss out =>
    (groupStage l (offset + d) (ss.map (Node.shift d))).result = .ok (out.map (Node.shift d))) ?_ ?_ h
  · intro offset ss hw hs
    exact groupStage_of_absent (by rw [nextGroup_shift, hw]; rfl) (strayOpener?_shift d hs)
  · intro offset ss w params out hw hp ih
    have hw' : nextGroup l.grammar.brackets (ss.map (Node.shift d)) = .window (w.shift d) := by
      rw [nextGroup_shift, hw]
      rfl
    have hp' : parseParams l ((w.shift d).inside l.grammar.separator (offset + d)).params =
        .ok (params.map (Node.shift d)) := by
      rw [Window.inside_shift, parseParams_ok_iff]
      refine List.forall₂_map_left_iff.2 (List.forall₂_map_right_iff.2 (hp.imp fun p n hn => ?_))
      obtain ⟨lexed, grouped, folded, hl, -, hg, hf, rfl⟩ := hn
      refine parseParam_ok_iff.2 ⟨folded.map (Node.shift d), ?_, by rw [Node.shift, Node.shiftAll_eq_map]; rfl⟩
      rw [Param.sentences_shift]
      exact parseBuffer_ok_iff_stages.2 ⟨_, _, lexStage_shift d hl, hg,
        foldStage_ok_iff.2 (foldTiers_shift d (foldStage_ok_iff.1 hf))⟩
    rw [groupStage_of_window hw' hp', Window.collapse_shift, ih]

/-- **A buffer at another position** gives the same tree with all positions moved. -/
theorem parseBuffer_shift {offset : Int} {ss out : List Node} (h : (parseBuffer l offset ss).result = .ok out) :
    (parseBuffer l (offset + d) (ss.map (Node.shift d))).result = .ok (out.map (Node.shift d)) := by
  obtain ⟨lexed, grouped, hl, hg, hf⟩ := parseBuffer_ok_iff_stages.1 h
  exact parseBuffer_ok_iff_stages.2 ⟨_, _, lexStage_shift d hl, groupStage_shift d hg,
    foldStage_ok_iff.2 (foldTiers_shift d (foldStage_ok_iff.1 hf))⟩

end FormulaLang
