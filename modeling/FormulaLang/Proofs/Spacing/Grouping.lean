import FormulaLang.Proofs.Nesting.Groups
import FormulaLang.Proofs.Parse.CommaFields
import FormulaLang.Proofs.Parse.WellFormed
import FormulaLang.Proofs.Spacing.Bare

/-!
# Groups and white space

Which group is taken out of a buffer next, and where its parameters are cut, is a matter of its visible sentences
(`nextGroup_visible`, `Window.params_visible`). White space does not come between the brackets and the group, because a blank
interior goes to the closing bracket and a separator takes the white space around it. So two buffers with the same visible
sentences pass through the group stage side by side, to buffers with the same visible sentences (`groupStage_visible`).
-/

namespace FormulaLang

open Nesting
open Node (bare visible sourceTexts)
open Reading (atoms)

/-! ## Places -/

namespace Text

variable {c : Char}

/-- A bracket or comma breaks the squeezed text where it breaks the text. -/
theorem breakFirst_squeeze (hc : isMark c = true) (t : Text) :
    breakFirst c (squeeze t) = (breakFirst c t).map fun r => (squeeze r.1, squeeze r.2) := by
  cases hb : breakFirst c t with
  | none => rw [Option.map_none, breakFirst_eq_none, mem_squeeze_iff hc, ← breakFirst_eq_none, hb]
  | some r =>
    obtain ⟨rfl, hnot⟩ := breakFirst_eq_some hb
    rw [squeeze_append_mark hc, breakFirst_append ((mem_squeeze_iff hc).not.2 hnot), Option.map_some]

theorem breakLast_squeeze (hc : isMark c = true) (t : Text) :
    breakLast c (squeeze t) = (breakLast c t).map fun r => (squeeze r.1, squeeze r.2) := by
  cases hb : breakLast c t with
  | none => rw [Option.map_none, breakLast_eq_none, mem_squeeze_iff hc, ← breakLast_eq_none, hb]
  | some r =>
    obtain ⟨rfl, hnot⟩ := breakLast_eq_some hb
    rw [squeeze_append_mark hc, breakLast_append _ ((mem_squeeze_iff hc).not.2 hnot), Option.map_some]

end Text

/-- A place among the visible sentences. -/
def Place.visible (p : Place) : Place :=
  ⟨Node.visible p.before, Text.squeeze p.head, Text.squeeze p.tail, Node.visible p.after⟩

theorem Node.rawText?_bare_of_not_isRaw {n : Node} (h : n.isRaw = false) : n.rawText? = none ∧ n.bare.rawText? = none := by
  cases n <;> first | exact ⟨rfl, rfl⟩ | cases h

theorem firstPlace?_raws_append (c : Char) (t : Text) (ss : List Node) :
    firstPlace? [c] (Node.raws t ++ ss) =
      ((Text.breakFirst c t).map fun r => ⟨[], r.1, r.2, ss⟩).or
        ((firstPlace? [c] ss).map fun p => { p with before := Node.raws t ++ p.before }) := by
  unfold Node.raws
  split
  · rename_i ht
    rw [List.isEmpty_iff.1 ht]
    simp [Text.breakFirst]
  · rw [List.singleton_append, firstPlace?, Node.rawText?, Option.bind_some, Text.splitFirst_singleton]
    cases Text.breakFirst c t <;> rfl

theorem lastPlace?_raws_append (c : Char) (t : Text) (ss : List Node) :
    lastPlace? [c] (Node.raws t ++ ss) =
      ((lastPlace? [c] ss).map fun p => { p with before := Node.raws t ++ p.before }).or
        ((Text.breakLast c t).map fun r => ⟨[], r.1, r.2, ss⟩) := by
  unfold Node.raws
  split
  · rename_i ht
    rw [List.isEmpty_iff.1 ht]
    cases hq : lastPlace? [c] ss <;> simp [Text.breakLast, hq]
  · rw [List.singleton_append, lastPlace?, Node.rawText?, Option.bind_some, Text.splitLast_singleton]
    cases lastPlace? [c] ss <;> rfl

/-- **A bracket** is found first among the visible sentences where it is found first in the buffer. -/
theorem firstPlace?_visible {c : Char} (hc : isMark c = true) (ss : List Node) :
    firstPlace? [c] (visible ss) = (firstPlace? [c] ss).map Place.visible := by
  induction ss with
  | nil => rfl
  | cons n ss ih =>
    rcases n.raw_or_not with ⟨t, rfl⟩ | hraw
    · rw [Node.visible_cons_raw, firstPlace?_raws_append, Text.breakFirst_squeeze hc, firstPlace?, Node.rawText?,
        Option.bind_some, Text.splitFirst_singleton, ih]
      cases Text.breakFirst c t with
      | some r => rfl
      | none =>
        simp only [Option.map_none, Option.map_map]
        refine Option.map_congr fun p _ => ?_
        simp only [Function.comp_apply, Place.visible, Node.visible_cons_raw]
    · obtain ⟨hnone, hnone'⟩ := Node.rawText?_bare_of_not_isRaw hraw
      rw [Node.visible_cons_node hraw, firstPlace?, firstPlace?, hnone, hnone', ih]
      simp only [Option.bind_none, Option.map_map]
      refine Option.map_congr fun p _ => ?_
      simp only [Function.comp_apply, Place.visible, Node.visible_cons_node hraw]

theorem lastPlace?_visible {c : Char} (hc : isMark c = true) (ss : List Node) :
    lastPlace? [c] (visible ss) = (lastPlace? [c] ss).map Place.visible := by
  induction ss with
  | nil => rfl
  | cons n ss ih =>
    rcases n.raw_or_not with ⟨t, rfl⟩ | hraw
    · rw [Node.visible_cons_raw, lastPlace?_raws_append, Text.breakLast_squeeze hc, lastPlace?, Node.rawText?,
        Option.bind_some, Text.splitLast_singleton, ih]
      cases lastPlace? [c] ss with
      | some q => simp only [Option.map_some, Option.some_or, Place.visible, Node.visible_cons_raw]
      | none => cases Text.breakLast c t <;> rfl
    · obtain ⟨hnone, hnone'⟩ := Node.rawText?_bare_of_not_isRaw hraw
      rw [Node.visible_cons_node hraw, lastPlace?, lastPlace?, hnone, hnone', ih]
      cases lastPlace? [c] ss with
      | some q => simp only [Option.map_some, Place.visible, Node.visible_cons_node hraw]
      | none => rfl

/-! ## Windows -/

/-- A window of visible sentences. -/
def Window.visible (w : Window) : Window :=
  { w with before := Node.visible w.before, interior := Node.visible w.interior, after := Node.visible w.after }

/-- What is found among visible sentences. -/
def NextGroup.visible : NextGroup → NextGroup
  | absent => absent
  | unmatched closer buffer index => unmatched closer (Node.visible buffer) (Node.visible (buffer.take index)).length
  | window w => window w.visible

theorem nextGroupOf_visible (k : Kind) (ss : List Node) :
    nextGroupOf [k.opener] [k.closer] (visible ss) = (nextGroupOf [k.opener] [k.closer] ss).visible := by
  have hdistinct : k.opener ≠ k.closer := by cases k <;> decide
  rw [nextGroupOf_eq hdistinct, nextGroupOf_eq hdistinct, firstPlace?_visible (isMark_closer k)]
  cases firstPlace? [k.closer] ss with
  | none => rfl
  | some p =>
    have hfront : p.visible.before ++ Node.raws p.visible.head = visible (p.before ++ Node.raws p.head) := by
      simp [Place.visible]
    have hcloser : Node.raws (Text.squeeze [k.closer]) = [.raw [k.closer]] := by cases k <;> rfl
    simp only [Option.map_some, hfront, lastPlace?_visible (isMark_opener k)]
    cases lastPlace? [k.opener] (p.before ++ Node.raws p.head) with
    | none =>
      rw [NextGroup.visible, List.take_left, Node.visible_append _ (_ :: _), Node.visible_cons_raw, hcloser]
      simp [Place.visible]
    | some q => simp [NextGroup.visible, Window.visible, Window.between, Place.visible]

/-- **The next group** of the visible sentences is that of the buffer. -/
theorem nextGroup_visible (ss : List Node) :
    nextGroup Grammar.defaultBrackets (visible ss) = (nextGroup Grammar.defaultBrackets ss).visible := by
  rw [defaultBrackets_eq]
  induction Kind.all with
  | nil => rfl
  | cons k ks ih =>
    rw [List.map_cons, nextGroup, nextGroup, nextGroupOf_visible, ih]
    cases nextGroupOf [k.opener] [k.closer] ss <;> rfl

/-- Two buffers with the same visible sentences have the same next group. -/
theorem exists_window_of_visible {ss ss' : List Node} (h : visible ss' = visible ss) {w : Window}
    (hw : nextGroup Grammar.defaultBrackets ss = .window w) :
    ∃ w', nextGroup Grammar.defaultBrackets ss' = .window w' ∧ w'.visible = w.visible := by
  have hvisible := nextGroup_visible ss'
  rw [h, nextGroup_visible, hw] at hvisible
  cases hw' : nextGroup Grammar.defaultBrackets ss' with
  | absent =>
    rw [hw'] at hvisible
    cases hvisible
  | unmatched closer buffer index =>
    rw [hw'] at hvisible
    cases hvisible
  | window w' =>
    rw [hw'] at hvisible
    exact ⟨w', rfl, (NextGroup.window.inj hvisible).symm⟩

theorem absent_of_visible {ss ss' : List Node} (h : visible ss' = visible ss)
    (hw : nextGroup Grammar.defaultBrackets ss = .absent) (hs : strayOpener? Grammar.defaultBrackets ss = none) :
    nextGroup Grammar.defaultBrackets ss' = .absent ∧ strayOpener? Grammar.defaultBrackets ss' = none := by
  have hfirst (c : Char) (hc : isMark c = true) (hnone : firstPlace? [c] ss = none) : firstPlace? [c] ss' = none := by
    have hvisible := firstPlace?_visible hc ss'
    rw [h, firstPlace?_visible hc, hnone] at hvisible
    exact Option.map_eq_none_iff.1 hvisible.symm
  constructor
  · rw [nextGroup_absent_iff distinctBrackets_default, defaultBrackets_eq, List.forall_mem_map] at hw ⊢
    exact fun k hk => hfirst _ (isMark_closer k) (hw k hk)
  · rw [strayOpener?, List.findSome?_eq_none_iff, defaultBrackets_eq, List.forall_mem_map] at hs ⊢
    exact fun k hk => Option.map_eq_none_iff.2 (hfirst _ (isMark_opener k) (Option.map_eq_none_iff.1 (hs k hk)))

/-! ## Fields -/

/-- A piece without white space. -/
def Piece.visible : Piece → List Piece
  | item n => (Node.visible [n]).map item
  | mark _ => [mark [',']]

theorem cutText_squeeze (t : Text) :
    cutText (.spaced ',') (Text.squeeze t) = (cutText (.spaced ',') t).flatMap Piece.visible := by
  have hcomma : isMark ',' = true := by decide
  have hitems (t : Text) : ((Node.raws t).map Piece.item).flatMap Piece.visible = (Node.raws (Text.squeeze t)).map .item := by
    rw [List.flatMap_map, ← Node.visible_raws]
    unfold Node.raws
    split <;> simp [Piece.visible]
  fun_induction cutText (.spaced ',') t with
  | case1 t hc =>
    rw [hitems, cutText_of_none]
    rw [Separator.search?, Option.map_eq_none_iff] at hc ⊢
    rw [Text.breakFirst_squeeze hcomma, hc, Option.map_none]
  | case2 t c hc ih =>
    obtain ⟨⟨before, after⟩, hb, rfl⟩ := Option.map_eq_some_iff.1 hc
    have hafter : Text.squeeze (after.dropWhile Text.isBlank) = Text.squeeze after := Text.squeeze_trimLeft after
    have hhead : (Text.squeeze after).takeWhile Text.isBlank = [] ∧
        (Text.squeeze after).dropWhile Text.isBlank = Text.squeeze after := by
      have hdrop : (Text.squeeze after).dropWhile Text.isBlank = Text.squeeze after := Text.trimLeft_squeeze after
      have happend := List.takeWhile_append_dropWhile (p := Text.isBlank) (l := Text.squeeze after)
      rw [hdrop] at happend
      exact ⟨List.append_left_eq_self.1 happend, hdrop⟩
    have htrailing : Separator.trailingBlanks (Text.squeeze before) = [] := by
      have happend := Separator.trimRight_append_trailingBlanks (Text.squeeze before)
      rw [Text.trimRight_squeeze] at happend
      exact List.append_right_eq_self.1 happend
    have hcut : Separator.search? (.spaced ',') (Text.squeeze t) =
        some ⟨Text.squeeze before, [','], Text.squeeze after⟩ := by
      rw [Separator.search?, Text.breakFirst_squeeze hcomma, hb]
      simp [hhead, htrailing, Text.trimRight_squeeze]
    rw [cutText_of_some hcut, List.flatMap_append, hitems, List.flatMap_cons, ← ih, hafter, Text.squeeze_trimRight]
    rfl

theorem flatMap_cutSentence_visible (ss : List Node) :
    (visible ss).flatMap (cutSentence (.spaced ',')) = (ss.flatMap (cutSentence (.spaced ','))).flatMap Piece.visible := by
  induction ss with
  | nil => rfl
  | cons n ss ih =>
    rw [List.flatMap_cons, List.flatMap_append, ← ih]
    rcases n.raw_or_not with ⟨t, rfl⟩ | hraw
    · rw [Node.visible_cons_raw, List.flatMap_append, cutSentence, ← cutText_squeeze]
      unfold Node.raws
      split
      · rename_i ht
        rw [List.isEmpty_iff.1 ht, cutText_of_none rfl]
        rfl
      · rw [List.flatMap_singleton, cutSentence]
    · rw [Node.visible_cons_node hraw, List.flatMap_cons, cutSentence_of_not_isRaw hraw,
        cutSentence_of_not_isRaw ((Node.isRaw_bare n).trans hraw), List.flatMap_singleton, Piece.visible,
        Node.visible_cons_node hraw]
      rfl

theorem fields_visible (ps : List Piece) :
    fields (ps.flatMap Piece.visible) = (visible (fields ps).1, (fields ps).2.map fun f => ([','], visible f.2)) := by
  induction ps with
  | nil => rfl
  | cons p ps ih =>
    rw [List.flatMap_cons]
    cases p with
    | item n =>
      rw [Piece.visible, fields_items, ih, fields, ← Node.visible_append]
      rfl
    | mark s =>
      rw [Piece.visible, List.singleton_append, fields, ih, fields]
      rfl

/-! ## Parameters -/

namespace Interior

/-- The parameters of fields, of which none is white space alone. -/
theorem params_ofFields_visible {offset : Int} {field : List Node} {rest : List (Text × List Node)}
    (h : ∀ p ∈ (ofFields offset field rest).params, visible p.field = [] → p.field = []) (o : Int) :
    (ofFields o (visible field) (rest.map fun f => ([','], visible f.2))).params.map Param.sentences =
      (ofFields offset field rest).params.map fun p => visible p.sentences := by
  induction rest generalizing offset o field with
  | nil =>
    rw [List.map_nil, ofFields, ofFields]
    cases hblank : field.all Node.isBlankRaw with
    | true =>
      rw [Node.visible_eq_nil_iff.2 (List.all_eq_true.1 hblank)]
      rfl
    | false =>
      have hne : visible field ≠ [] := fun hnil => by
        rw [List.all_eq_true.2 (Node.visible_eq_nil_iff.1 hnil)] at hblank
        cases hblank
      have hvisible : (visible field).all Node.isBlankRaw = false := by
        obtain ⟨n, ns, hcons⟩ := List.exists_cons_of_ne_nil hne
        rw [hcons, List.all_cons, Node.not_isBlankRaw_of_mem_visible n (hcons ▸ List.mem_cons_self), Bool.false_and]
      have hfield : field ≠ [] := fun hnil => hne (by rw [hnil]; rfl)
      simp [hvisible, Param.sentences, hne, hfield]
  | cons f rest ih =>
    obtain ⟨separator, next⟩ := f
    rw [ofFields, List.forall_mem_cons] at h
    simp only [List.map_cons, ofFields, ih h.2, List.cons.injEq, and_true]
    unfold Param.sentences
    cases hfield : field with
    | nil => rfl
    | cons n ns =>
      have hne : visible (n :: ns) ≠ [] := fun hnil => by
        have hempty : field = [] := h.1 (by rw [hfield, hnil])
        rw [hfield] at hempty
        cases hempty
      simp [hne]

/-- The parameters of an interior, of which none is white space alone. -/
theorem params_ofSentences_visible {offset : Int} {ss : List Node}
    (h : ∀ p ∈ (ofSentences (.spaced ',') offset ss).params, visible p.field = [] → p.field = []) (o : Int) :
    (ofSentences (.spaced ',') o (visible ss)).params.map Param.sentences =
      (ofSentences (.spaced ',') offset ss).params.map fun p => visible p.sentences := by
  rw [ofSentences, flatMap_cutSentence_visible, fields_visible]
  exact params_ofFields_visible h o

end Interior

/-- A fused field that is not white space alone has visible sentences, if it has any. -/
theorem eq_nil_of_visible_eq_nil {field : List Node} (hs : Fused field) (hblank : ∀ t, field = [.raw t] → Text.allBlank t = false)
    (h : visible field = []) : field = [] := by
  have hall := Node.visible_eq_nil_iff.1 h
  cases field with
  | nil => rfl
  | cons n ns =>
    rw [List.forall_mem_cons] at hall
    rcases n.raw_or_not with ⟨t, rfl⟩ | hraw
    · cases ns with
      | nil => cases hall.1.symm.trans (hblank t rfl)
      | cons m ns =>
        -- a node stands beside raw text
        have hm : m.isRaw = false := ((Fused.cons_iff.1 hs).2.2 m rfl).resolve_left (by simp [Node.isRaw])
        cases (Node.isBlankRaw_of_not_isRaw hm).symm.trans (hall.2 m List.mem_cons_self)
    · cases (Node.isBlankRaw_of_not_isRaw hraw).symm.trans hall.1

/-- A buffer between brackets whose leaves have been found, and which is not white space. -/
structure Ready (ss : List Node) : Prop where
  fused : Fused ss
  lexed : Lexed ss
  visible : visible ss ≠ []

namespace Window

variable {w w' : Window} {offset : Int} {ss ss' : List Node}

theorem ready_param (hs : Fused ss) (hlexed : Lexed ss) (hw : nextGroup Grammar.defaultBrackets ss = .window w) {p : Param}
    (hp : p ∈ (w.inside (.spaced ',') offset).params) :
    Ready p.sentences ∧ (Node.visible p.field = [] → p.field = []) := by
  obtain ⟨hfused, x, c, d, y, -, -, -, hatoms⟩ := field_between hs hw hp
  obtain ⟨⟨k, hnext⟩, -⟩ := isNext_of_window hs hw
  have hempty : Node.visible p.field = [] → p.field = [] :=
    eq_nil_of_visible_eq_nil hfused fun t => Interior.not_allBlank_of_field hnext.fused hp
  refine ⟨?_, hempty⟩
  unfold Param.sentences
  split
  · refine ⟨isCut_emptyLiteral.fused, isCut_emptyLiteral.lexed, ?_⟩
    rw [Node.visible_cons_node rfl]
    exact List.cons_ne_nil _ _
  · rename_i hne
    refine ⟨hfused, fun e he => hlexed e ?_, fun hnil => hne (by rw [hempty hnil]; rfl)⟩
    rw [hatoms]
    simp [he]

/-- **The parameters** of windows with the same visible sentences have the same visible sentences, one by one. -/
theorem params_visible (hs : Fused ss) (hlexed : Lexed ss) (hw : nextGroup Grammar.defaultBrackets ss = .window w)
    (hs' : Fused ss') (hlexed' : Lexed ss') (hw' : nextGroup Grammar.defaultBrackets ss' = .window w')
    (h : w'.visible = w.visible) (offset offset' : Int) :
    List.Forall₂ (fun p p' => Ready p.sentences ∧ Ready p'.sentences ∧ Node.visible p'.sentences = Node.visible p.sentences)
      (w.inside (.spaced ',') offset).params (w'.inside (.spaced ',') offset').params := by
  have hparams {w : Window} {ss : List Node} (hs : Fused ss) (hlexed : Lexed ss)
      (hw : nextGroup Grammar.defaultBrackets ss = .window w) (offset : Int) :
      (w.inside (.spaced ',') offset).params.map (fun p => Node.visible p.sentences) =
        (w.visible.inside (.spaced ',') 0).params.map Param.sentences :=
    (Interior.params_ofSentences_visible (fun p hp => (ready_param hs hlexed hw hp).2) _).symm
  have hsame : List.Forall₂ (fun p p' => Node.visible p'.sentences = Node.visible p.sentences)
      (w.inside (.spaced ',') offset).params (w'.inside (.spaced ',') offset').params := by
    have heq := hparams hs hlexed hw offset
    rw [← h, ← hparams hs' hlexed' hw' offset', ← List.forall₂_eq_eq_eq, List.forall₂_map_left_iff,
      List.forall₂_map_right_iff] at heq
    exact heq.imp fun _ _ hpp => hpp.symm
  refine List.forall₂_iff_zip.2 ⟨hsame.length_eq, fun {p p'} hmem => ?_⟩
  obtain ⟨hp, hp'⟩ := List.of_mem_zip hmem
  exact ⟨(ready_param hs hlexed hw hp).1, (ready_param hs' hlexed' hw' hp').1, (List.forall₂_iff_zip.1 hsame).2 hmem⟩

/-- The bare group of a window. -/
theorem bare_group {k : Kind} (hk : w.closer = [k.closer]) (params : List Node) :
    (w.group (w.inside (.spaced ',') offset) params).bare = .group ⟨.none, w.opener, [], [k.closer]⟩ (params.map bare) := by
  have hblank : Text.allBlank (w.inside (.spaced ',') offset).blank = true := Interior.allBlank_blank
  have hcloser : ∀ c ∈ [k.closer].head?, Text.isBlank c = false := by
    rintro c ⟨⟩
    cases k <;> decide
  have htrim : Text.trimLeft ((w.inside (.spaced ',') offset).blank ++ w.closer) = [k.closer] := by
    rw [hk]
    exact Text.dropWhile_blank hblank hcloser
  rw [group, bare, Node.bareAll_eq_map, htrim]

end Window

/-! ## The group stage -/

theorem exists_forall₂_of_forall₂ {α β : Type} {S : α → α → Prop} {R R' : α → β → Prop} {f : β → β} {xs xs' : List α}
    {ys : List β} (hS : List.Forall₂ S xs xs') (hR : List.Forall₂ R xs ys)
    (h : ∀ x x' y, S x x' → R x y → ∃ y', R' x' y' ∧ f y' = f y) : ∃ ys', List.Forall₂ R' xs' ys' ∧ ys'.map f = ys.map f := by
  induction hS generalizing ys with
  | nil =>
    cases hR
    exact ⟨[], .nil, rfl⟩
  | cons hx _ ih =>
    obtain _ | ⟨hy, hys⟩ := hR
    obtain ⟨y', hy', heq⟩ := h _ _ _ hx hy
    obtain ⟨ys', hys', heqs⟩ := ih hys
    exact ⟨y' :: ys', .cons hy' hys', by rw [List.map_cons, List.map_cons, heq, heqs]⟩

section Default

variable {l : Language} (hl : l.grammar = .default)

include hl

/-- A collapse keeps the characters of raw text, and puts a group in the buffer. -/
theorem ready_collapse {offset : Int} {ss params : List Node} {w : Window} (hs : Fused ss) (hlexed : Lexed ss)
    (hw : nextGroup l.grammar.brackets ss = .window w)
    (hp : parseParams l (w.inside l.grammar.separator offset).params = .ok params) : Ready (w.collapse l offset params) := by
  obtain ⟨hcollapse, hfused⟩ := Collapse.of_step hl hs (.collapse hw hp)
  refine ⟨hfused, fun c hc => hlexed c (hcollapse.mem_of_raw hc), ?_⟩
  rw [Window.collapse, Node.visible_append, Node.visible_cons_node rfl]
  simp

/-- Collapses of windows with the same visible sentences to groups with the same bare parameters. -/
theorem visible_collapse {k : Kind} {w w' : Window} (hk : w.closer = [k.closer]) (h : w'.visible = w.visible)
    {params params' : List Node} (hp : params'.map bare = params.map bare) (offset offset' : Int) :
    visible (w'.collapse l offset' params') = visible (w.collapse l offset params) := by
  have hbefore : visible w'.before = visible w.before := congrArg Window.before h
  have hopener : w'.opener = w.opener := (congrArg Window.opener h : w'.visible.opener = w.visible.opener)
  have hcloser : w'.closer = w.closer := (congrArg Window.closer h : w'.visible.closer = w.visible.closer)
  have hafter : visible w'.after = visible w.after := congrArg Window.after h
  rw [collapse_default hl, collapse_default hl, Node.visible_append, Node.visible_append, Node.visible_cons_node rfl,
    Node.visible_cons_node rfl, Window.bare_group hk, Window.bare_group (hcloser.trans hk), hbefore, hopener, hafter, hp]

/-- The group stage takes every buffer with the visible sentences of `ss` to the visible sentences of `out`, and there are some
if the buffer has some. -/
def GroupsAlike (l : Language) (ss out : List Node) : Prop :=
  ∀ (offset : Int) (ss' : List Node), Fused ss → Lexed ss → Fused ss' → Lexed ss' → visible ss' = visible ss →
    (∃ out', (groupStage l offset ss').result = .ok out' ∧ visible out' = visible out) ∧ (visible ss ≠ [] → visible out ≠ [])

/-- What has been grouped alike is folded to the same bare sentences. -/
theorem stages_visible {offset : Int} {ss ss' grouped folded : List Node} (hs : Fused ss) (hlexed : Lexed ss)
    (hs' : Fused ss') (hlexed' : Lexed ss') (heq : visible ss' = visible ss)
    (hgroup : (groupStage l offset ss).result = .ok grouped) (hgroups : GroupsAlike l ss grouped) (hne : visible grouped ≠ [])
    (hfold : (foldStage l offset grouped).result = .ok folded) (offset' : Int) :
    ∃ grouped' folded', (groupStage l offset' ss').result = .ok grouped' ∧
      (foldStage l offset' grouped').result = .ok folded' ∧ folded'.map bare = folded.map bare := by
  obtain ⟨⟨grouped', hgroup', hgrouped⟩, -⟩ := hgroups offset' ss' hs hlexed hs' hlexed' heq
  have hfused := (fused_groupStage hl hgroup hs).1
  have hfused' := (fused_groupStage hl hgroup' hs').1
  rw [foldStage_ok_iff, hl] at hfold
  obtain ⟨folded', hfold', hbare⟩ := foldTiers_visible hfused hfused' hgrouped hne hfold
  exact ⟨grouped', folded', hgroup', foldStage_ok_iff.2 (hl ▸ hfold'), hbare⟩

/-- Parameters with the same visible sentences are parsed to the same bare trees. -/
theorem parseParam_visible {p p' : Param} (hs : Ready p.sentences) (hs' : Ready p'.sentences)
    (heq : visible p'.sentences = visible p.sentences) {grouped folded : List Node}
    (hgroup : (groupStage l p.offset p.sentences).result = .ok grouped) (hgroups : GroupsAlike l p.sentences grouped)
    (hfold : (foldStage l p.offset grouped).result = .ok folded) :
    ∃ n', parseParam l p' = .ok n' ∧ n'.bare = (Node.equation .none folded p.offset).bare := by
  have hleaves : l.grammar.leaves = Grammar.defaultLeaves := congrArg Grammar.leaves hl
  have hne : visible grouped ≠ [] := (hgroups 0 _ hs.fused hs.lexed hs'.fused hs'.lexed heq).2 hs.visible
  obtain ⟨grouped', folded', hgroup', hfold', hbare⟩ :=
    stages_visible hl hs.fused hs.lexed hs'.fused hs'.lexed heq hgroup hgroups hne hfold p'.offset
  have hlexed : (lexStage l.grammar p'.offset p'.sentences).result = .ok p'.sentences :=
    lexStage_eq_self hleaves hs'.fused hs'.lexed _
  refine ⟨.equation .none folded' p'.offset, parseParam_ok_iff.2 ⟨folded', ?_, rfl⟩, ?_⟩
  · exact parseBuffer_ok_iff_stages.2 ⟨_, grouped', hlexed, hgroup', hfold'⟩
  · rw [bare, bare, Node.bareAll_eq_map, Node.bareAll_eq_map, hbare]

/-- **The group stage** does to buffers with the same visible sentences the same. -/
theorem groupStage_visible {offset : Int} {ss out : List Node} (h : (groupStage l offset ss).result = .ok out) :
    GroupsAlike l ss out := by
  have hbrackets : l.grammar.brackets = Grammar.defaultBrackets := congrArg Grammar.brackets hl
  have hseparator : l.grammar.separator = .spaced ',' := congrArg Grammar.separator hl
  have hleaves : l.grammar.leaves = Grammar.defaultLeaves := congrArg Grammar.leaves hl
  refine groupStage_induction (motive := fun _ => GroupsAlike l) ?_ ?_ h
  · intro offset ss hw hstray offset' ss' _ _ _ _ heq
    rw [hbrackets] at hw hstray
    obtain ⟨hw', hstray'⟩ := absent_of_visible heq hw hstray
    exact ⟨⟨ss', groupStage_of_absent (hbrackets ▸ hw') (hbrackets ▸ hstray'), heq⟩, id⟩
  · intro offset ss w params out hw hp ih offset' ss' hs hlexed hs' hlexed' heq
    obtain ⟨w', hw', hwindow⟩ := exists_window_of_visible heq (hbrackets ▸ hw)
    obtain ⟨⟨k, hnext⟩, -⟩ := isNext_of_window hs (hbrackets ▸ hw)
    have hcloser : w.closer = [k.closer] := hnext.closer
    -- the parameters
    have hpair := Window.params_visible hs hlexed (hbrackets ▸ hw) hs' hlexed' hw' hwindow offset offset'
    rw [hseparator] at hp
    obtain ⟨params', hp', hbare⟩ : ∃ params', List.Forall₂ (fun p n => parseParam l p = .ok n)
        (w'.inside (.spaced ',') offset').params params' ∧ params'.map bare = params.map bare := by
      refine exists_forall₂_of_forall₂ hpair hp fun p p' n hpp hn => ?_
      obtain ⟨hready, hready', hsentences⟩ := hpp
      obtain ⟨lexed, grouped, folded, hlex, hgroup, hgroups, hfold, rfl⟩ := hn
      cases (lexStage_eq_self hleaves hready.fused hready.lexed p.offset).symm.trans hlex
      exact parseParam_visible hl hready hready' hsentences hgroup hgroups hfold
    have hparams : parseParams l (w.inside l.grammar.separator offset).params = .ok params := by
      rw [hseparator, parseParams_ok_iff]
      refine hp.imp fun p n hn => ?_
      obtain ⟨lexed, grouped, folded, hlex, hgroup, -, hfold, rfl⟩ := hn
      exact parseParam_ok_iff.2 ⟨folded, parseBuffer_ok_iff_stages.2 ⟨lexed, grouped, hlex, hgroup, hfold⟩, rfl⟩
    rw [← parseParams_ok_iff, ← hseparator] at hp'
    -- the collapsed buffers
    have hready := ready_collapse hl hs hlexed hw hparams
    have hready' := ready_collapse hl hs' hlexed' (hbrackets ▸ hw') hp'
    obtain ⟨⟨out', hout', hvisible⟩, hne⟩ := ih offset' _ hready.fused hready.lexed hready'.fused hready'.lexed
      (visible_collapse hl hcloser hwindow hbare offset offset')
    exact ⟨⟨out', (groupStage_of_window (hbrackets ▸ hw') hp').trans hout', hvisible⟩, fun _ => hne hready.visible⟩

end Default

end FormulaLang
