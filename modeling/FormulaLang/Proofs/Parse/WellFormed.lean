import FormulaLang.Proofs.Fold.Spaces
import FormulaLang.Proofs.Literal.Parsed
import FormulaLang.Proofs.Parse.Subformula

/-!
# The shape of a parsed tree

Isolating brackets and separators divides raw text, and a buffer in the course of a parse may hold white space anywhere. What
is left at the end is tidy (`Node.Tidy`): raw text that is no part of a leaf and no bracket, in fragments that nodes keep
apart, and values. White space is left only where the text holds nothing else: the tiers of spaces give it to the nodes beside
it, and a parameter that is blank is none (`Interior.not_allBlank_of_field`). Names are left only as names of calls, and a
group has a separator behind each of its parameters, but perhaps the last (`Formula.wellFormed_parse`).
-/

namespace FormulaLang

open Nesting
open Node (sourceTexts sourceTexts_append)
open Reading (atoms)

variable {l : Language}

/-! ## Blank fields -/

theorem Text.not_allBlank_trimRight {t : Text} (h : trimRight t ≠ []) : allBlank (trimRight t) = false := by
  rw [trimRight, ne_eq, List.reverse_eq_nil_iff] at h
  rw [allBlank, trimRight, List.all_reverse]
  have hhead : isBlank ((t.reverse.dropWhile isBlank).head h) = false := List.head_dropWhile_not isBlank h
  exact List.all_eq_false.2 ⟨_, List.head_mem h, by rw [hhead]; decide⟩

/-- No white space alone stands in front of a separator. -/
def Trimmed (ps : List Piece) : Prop :=
  ps.IsChain fun a b => ∀ t s, a = .item (.raw t) → b = .mark s → Text.allBlank t = false

theorem trimmed_raws (t : Text) : Trimmed ((Node.raws t).map .item) := by
  unfold Node.raws
  split
  · exact .nil
  · exact .singleton _

theorem trimmed_cutText (mark : Char) (t : Text) : Trimmed (cutText (.spaced mark) t) := by
  fun_induction cutText (.spaced mark) t with
  | case1 t hc => exact trimmed_raws t
  | case2 t c hc ih =>
    have hmark : Trimmed (.mark c.separator :: cutText (.spaced mark) c.after) := by
      refine List.isChain_cons.2 ⟨fun _ _ _ _ ha => ?_, ih⟩
      cases ha
    refine List.isChain_append.2 ⟨trimmed_raws _, hmark, fun a ha b hb u s hau _ => ?_⟩
    obtain ⟨⟨before, after⟩, -, rfl⟩ := Option.map_eq_some_iff.1 hc
    simp only [Node.raws] at ha
    split at ha
    · cases ha
    · rename_i hne
      cases ha
      cases hau
      exact Text.not_allBlank_trimRight (by simpa using hne)

/-- The pieces of a fused interior. -/
theorem trimmed_cutSentence (mark : Char) {ss : List Node} (h : Fused ss) :
    Trimmed (ss.flatMap (cutSentence (.spaced mark))) := by
  induction ss with
  | nil => exact .nil
  | cons n ss ih =>
    obtain ⟨-, hss, hjoin⟩ := Fused.cons_iff.1 h
    rw [List.flatMap_cons]
    rcases n.raw_or_not with ⟨t, rfl⟩ | hnode
    · refine List.isChain_append.2 ⟨trimmed_cutText mark t, ih hss, fun a _ b hb u s _ hbs => ?_⟩
      -- raw text is followed by a node, which is no separator
      subst hbs
      cases ss with
      | nil => cases hb
      | cons m ss =>
        have hm : m.isRaw = false := (hjoin m rfl).resolve_left (by simp [Node.isRaw])
        cases m with
        | raw t => cases hm
        | _ => cases hb
    · have hcut : cutSentence (.spaced mark) n = [.item n] := by
        cases n with
        | raw t => cases hnode
        | _ => rfl
      rw [hcut]
      refine List.isChain_cons.2 ⟨fun b _ u s ha _ => ?_, ih hss⟩
      cases ha
      cases hnode

/-- The pieces of the first field, the separator behind it, and those of the other fields. -/
theorem fields_cons {ps : List Piece} {f : Text × List Node} {rest : List (Text × List Node)} (h : (fields ps).2 = f :: rest) :
    ∃ qs, ps = (fields ps).1.map .item ++ .mark f.1 :: qs ∧ fields qs = (f.2, rest) := by
  induction ps with
  | nil => cases h
  | cons p ps ih =>
    cases p with
    | item n =>
      obtain ⟨qs, hps, hqs⟩ := ih h
      exact ⟨qs, congrArg (List.cons (Piece.item n)) hps, hqs⟩
    | mark s =>
      cases h
      exact ⟨ps, rfl, rfl⟩

namespace Interior

theorem not_allBlank_of_mem_ofFields {offset : Int} {ps : List Piece} (hps : Trimmed ps) {p : Param}
    (hp : p ∈ (ofFields offset (fields ps).1 (fields ps).2).params) {t : Text} (ht : p.field = [.raw t]) :
    Text.allBlank t = false := by
  generalize hrest : (fields ps).2 = rest at hp
  induction rest generalizing offset ps with
  | nil =>
    unfold ofFields at hp
    split at hp
    · cases hp
    · rename_i hblank
      have hfield : (fields ps).1 = [.raw t] := by rw [← ht, List.mem_singleton.1 hp]
      rw [hfield] at hblank
      simpa [Node.isBlankRaw] using hblank
  | cons f rest ih =>
    obtain ⟨qs, hsplit, hqs⟩ := fields_cons hrest
    rw [hsplit] at hps
    obtain ⟨-, hbehind, hjoin⟩ := List.isChain_append.1 hps
    rcases List.mem_cons.1 hp with hp | hp
    · have hfield : (fields ps).1 = [.raw t] := by rw [← ht, hp]
      rw [hfield] at hjoin
      exact hjoin _ rfl _ rfl t f.1 rfl rfl
    · have hfirst : (fields qs).1 = f.2 := congrArg Prod.fst hqs
      exact ih (List.isChain_cons.1 hbehind).2 (congrArg Prod.snd hqs) (hfirst ▸ hp)

/-- **A parameter** is not white space alone. -/
theorem not_allBlank_of_field {offset : Int} {ss : List Node} (hs : Fused ss) {p : Param}
    (hp : p ∈ (ofSentences (.spaced ',') offset ss).params) {t : Text} (ht : p.field = [.raw t]) :
    Text.allBlank t = false :=
  not_allBlank_of_mem_ofFields (trimmed_cutSentence ',' hs) hp ht

/-- A separator stands behind each field but the last, and the last one is a parameter or not. -/
theorem length_separators_ofFields {offset : Int} {field : List Node} {rest : List (Text × List Node)} :
    (ofFields offset field rest).separators.length = (ofFields offset field rest).params.length ∨
      (ofFields offset field rest).separators.length + 1 = (ofFields offset field rest).params.length := by
  induction rest generalizing offset field with
  | nil =>
    unfold ofFields
    split
    · exact .inl rfl
    · exact .inr rfl
  | cons f rest ih =>
    simp only [ofFields, List.length_cons, Nat.add_right_cancel_iff]
    exact ih

end Interior

/-! ## What is left of raw text -/

/-- Work that has changed the buffer has put a node into it. -/
theorem Work.Reaches.buffer_eq_or_node {offset : Int} {a b : Work} (h : Reaches l offset a b) :
    b.buffer = a.buffer ∨ ∃ n ∈ b.buffer, n.isRaw = false := by
  induction h with
  | refl => exact .inl rfl
  | tail _ hstep ih =>
    cases hstep with
    | collapse hw hp => exact .inr ⟨_, List.mem_append_right _ List.mem_cons_self, rfl⟩
    | grouped => exact ih
    | replace hm hn =>
      exact .inr ⟨_, List.mem_append_right _ List.mem_cons_self, (Rule.builds_of_build hn).isRaw_eq⟩
    | next => exact ih

/-- A sentence of a buffer under work. -/
def Node.isSentence (n : Node) : Bool :=
  n.isRaw || n.isIdentifier || n.isValue

theorem Node.isSentence_withPad (n : Node) (p : Pad) : (n.withPad p).isSentence = n.isSentence := by
  cases n <;> rfl

theorem carries_isSentence (l : Language) : l.Carries fun n => n.isSentence = true where
  raw _ := rfl
  leaf _ _ _ _ hleaf := by rcases LeafKind.leaf_cases hleaf with ⟨v, rfl⟩ | rfl <;> rfl
  empty := rfl
  group _ _ _ _ _ _ := rfl
  fold _ _ _ := forall_mem_foldStage fun r matched n hn hm => by
    cases hn with
    | spaceBefore hb hn => rw [Node.isSentence_withPad]; exact hm _ (by simp)
    | spaceAfter hb hn => rw [Node.isSentence_withPad]; exact hm _ (by simp)
    | _ => rfl

/-- A buffer whose leaves have been found. -/
structure IsCut (ss : List Node) : Prop where
  fused : Fused ss
  lexed : Lexed ss
  sentence : ∀ n ∈ ss, n.isSentence = true

/-- Sentences are left of a text when no raw fragment of them is empty, holds a bracket or a character of a leaf, or stands
beside another one, and when all others are values. -/
structure Node.Tidy (ss : List Node) : Prop where
  fused : Fused ss
  raw : ∀ t, .raw t ∈ ss → ∀ c ∈ t, isBracket c = false ∧ Pattern.isLetter c = false ∧ c ≠ '_' ∧ Text.isDecimal c = false
  value : ∀ n ∈ ss, n.isRaw = true ∨ n.isValue = true

theorem isCut_emptyLiteral : IsCut [emptyLiteral] := by
  refine ⟨.cons_node rfl .nil, fun c hc => ?_, by simp [emptyLiteral, Node.isSentence, Node.isValue]⟩
  rw [Reading.atoms_nodes_singleton rfl] at hc
  cases List.mem_singleton.1 hc

section Default

variable (hl : l.grammar = .default)

include hl

/-- The groups of a fused buffer leave it fused and without brackets. -/
theorem fused_groupStage {offset : Int} {ss out : List Node} (h : (groupStage l offset ss).result = .ok out) :
    Fused ss → Fused out ∧ ∀ c, .raw [c] ∈ atoms.nodes out → .raw [c] ∈ atoms.nodes ss ∧ isBracket c = false := by
  have hbrackets : l.grammar.brackets = Grammar.defaultBrackets := congrArg Grammar.brackets hl
  refine groupStage_induction (motive := fun _ ss out => Fused ss →
    Fused out ∧ ∀ c, .raw [c] ∈ atoms.nodes out → .raw [c] ∈ atoms.nodes ss ∧ isBracket c = false) ?_ ?_ h
  · intro offset ss hw hstray hs
    rw [hbrackets] at hw hstray
    refine ⟨hs, fun c hc => ⟨hc, Bool.eq_false_iff.2 fun hbracket => ?_⟩⟩
    rw [← Reading.mem_marks_iff (isMark_of_isBracket hbracket)] at hc
    cases Reading.comma_of_mem_marks (strayOpener?_eq_none_iff.1 hstray) (closer_not_mem_of_absent hw) c hc
    cases hbracket
  · intro offset ss w params out hw hp ih hs
    have hparams : parseParams l (w.inside l.grammar.separator offset).params = .ok params := by
      refine parseParams_ok_iff.2 (hp.imp fun p n h => ?_)
      obtain ⟨lexed, grouped, folded, hlexed, hgrouped, -, hfolded, rfl⟩ := h
      exact parseParam_ok_iff.2 ⟨folded, parseBuffer_ok_iff_stages.2 ⟨lexed, grouped, hlexed, hgrouped, hfolded⟩, rfl⟩
    obtain ⟨hcollapse, hfused⟩ := Collapse.of_step hl hs (.collapse hw hparams)
    obtain ⟨hout, hraws⟩ := ih hfused
    exact ⟨hout, fun c hc => ⟨hcollapse.mem_of_raw (hraws c hc).1, (hraws c hc).2⟩⟩

/-- The tiers of the default grammar leave no white space beside anything and bring no raw text up. -/
theorem fused_folded {ss out : List Node} (h : (foldTiers l.grammar.tiers l.resolve ss).result = .ok out) (hs : Fused ss) :
    Fused out ∧ BlanksAlone out ∧ ∀ t, .raw t ∈ out → .raw t ∈ ss := by
  rw [hl] at h
  have hraws := raw_mem_of_foldTiers h
  obtain ⟨named, hnamed, hoperators⟩ := foldTiers_append_ok_iff.1 h
  obtain ⟨spaced, hspaces, hnames⟩ := foldTiers_append_ok_iff.1 hnamed
  obtain ⟨hspaced, hblanks⟩ := foldTiers_spaceTiers hs hspaces
  obtain ⟨hout, halone⟩ := fused_foldTiers (by decide) (foldTiers_append_ok_iff.2 ⟨named, hnames, hoperators⟩) hspaced hblanks
  exact ⟨hout, halone, hraws⟩

/-- **A lexed buffer** that is parsed is tidy afterwards, and holds no white space unless it was nothing else. -/
theorem IsCut.tidy {offset : Int} {lexed out : List Node} (hcut : IsCut lexed)
    (h : Work.Reaches l offset (.grouping lexed) (.folding [] out)) :
    Node.Tidy out ∧ ∀ t, .raw t ∈ out → Text.allBlank t = true → out = [.raw t] ∧ lexed = [.raw t] := by
  have hleaves : l.grammar.leaves = Grammar.defaultLeaves := congrArg Grammar.leaves hl
  have hparse : (parseBuffer l offset lexed).result = .ok out :=
    parseBuffer_ok_iff.2 ⟨lexed, lexStage_eq_self hleaves hcut.fused hcut.lexed offset, h⟩
  obtain ⟨grouped, hgrouped, hfolded⟩ := Work.yields_iff.2 h
  obtain ⟨hfusedGrouped, hchars⟩ := fused_groupStage hl hgrouped hcut.fused
  obtain ⟨hout, halone, hraws⟩ := fused_folded hl hfolded hfusedGrouped
  refine ⟨⟨hout, fun t ht c hc => ?_, fun n hn => ?_⟩, fun t ht hblank => ?_⟩
  · obtain ⟨hmem, hbracket⟩ := hchars c (raw_mem_atoms_iff.2 ⟨t, hraws t ht, hc⟩)
    have hstart := hcut.lexed c hmem
    simp only [Pattern.isLeafStart, Bool.or_eq_false_iff, beq_eq_false_iff_ne] at hstart
    exact ⟨hbracket, hstart.1.1, hstart.1.2, hstart.2⟩
  · have hkind := (carries_isSentence l).parseBuffer (hl ▸ distinctBrackets_default) hparse hcut.sentence n hn
    rw [Node.isSentence, not_isIdentifier_of_parseBuffer hl hparse n hn, Bool.or_false, Bool.or_eq_true] at hkind
    exact hkind
  · have hne : t ≠ [] := by
      rintro rfl
      exact hout.nonempty ht
    have hout' : out = [.raw t] := halone _ ht (by simp [Element.fits, hne, hblank])
    refine ⟨hout', ?_⟩
    obtain hsame | ⟨n, hn, hraw⟩ := h.buffer_eq_or_node
    · exact hsame.symm.trans hout'
    · rw [Work.buffer, hout', List.mem_singleton] at hn
      subst hn
      cases hraw

/-! ## Every equation -/

theorem isCut_lexText {t : Text} {lexed : List Node} (h : lexText l.grammar.leaves t = .ok lexed) : IsCut lexed where
  fused := fused_lexText h
  lexed := lexed_lexText (congrArg Grammar.leaves hl ▸ h)
  sentence := forall_mem_lexText (carries_isSentence l).raw (carries_isSentence l).leaf h

theorem IsCut.reaches {offset : Int} {ss ss' : List Node} (hcut : IsCut ss)
    (h : Work.Reaches l offset (.grouping ss) (.grouping ss')) : IsCut ss' := by
  obtain ⟨hchain, hfused⟩ := Collapse.of_reaches hl hcut.fused h
  refine ⟨hfused, fun c hc => hcut.lexed c (Collapse.chain_mem_of_raw hchain hc), ?_⟩
  exact (carries_isSentence l).reaches (hl ▸ distinctBrackets_default) h hcut.sentence

/-- **The buffer of a parameter** has its leaves found before it is lexed, and it is not white space alone. -/
theorem Enters.isCut_param {o : Int} {t : Text} {sentences outer buffer : List Node} {w : Window} {p : Param}
    (h : Enters l 0 (Node.raws t) o sentences) (houter : (lexStage l.grammar o sentences).result = .ok outer)
    (hr : Work.Reaches l o (.grouping outer) (.grouping buffer)) (hw : nextGroup l.grammar.brackets buffer = .window w)
    (hp : p ∈ (w.inside l.grammar.separator o).params) :
    IsCut p.sentences ∧ (lexStage l.grammar p.offset p.sentences).result = .ok p.sentences ∧
      ∀ u, p.sentences = [.raw u] → Text.allBlank u = false := by
  have hleaves : l.grammar.leaves = Grammar.defaultLeaves := congrArg Grammar.leaves hl
  have hbrackets : l.grammar.brackets = Grammar.defaultBrackets := congrArg Grammar.brackets hl
  have hseparator : l.grammar.separator = .spaced ',' := congrArg Grammar.separator hl
  obtain ⟨alone, halone, hreaches⟩ := h.reaches hl (sourceTexts_ne_nil_of_window hl houter hr hw) houter
  have hbuffer : IsCut buffer := (isCut_lexText hl halone).reaches hl (hreaches.trans hr)
  obtain ⟨⟨k, hnext⟩, -⟩ := isNext_of_window hbuffer.fused (hbrackets ▸ hw)
  obtain ⟨aloneField, hfield, hreachesField, hself⟩ := reaches_field hl halone (hreaches.trans hr) hw hp
  unfold Param.sentences
  split
  · have hcut := isCut_emptyLiteral
    exact ⟨hcut, lexStage_eq_self hleaves hcut.fused hcut.lexed p.offset, by simp [emptyLiteral]⟩
  · refine ⟨(isCut_lexText hl hfield).reaches hl hreachesField, hself, fun u hu => ?_⟩
    exact Interior.not_allBlank_of_field hnext.fused (hseparator ▸ hp) hu

/-- The sentences of a parameter are tidy and hold no white space. -/
theorem MakesGroup.tidy {o : Int} {t : Text} {w : Window} {params : List Node}
    (h : MakesGroup l 0 (Node.raws t) o w params) :
    ∀ q ∈ params, ∃ out po, q = .equation .none out po ∧ Node.Tidy out ∧ ∀ u, .raw u ∈ out → Text.allBlank u = false := by
  cases h with
  | mk hent houter hr hw hp =>
    intro q hq
    obtain ⟨p, hpm, hparam⟩ := exists_of_forall₂ (parseParams_ok_iff.1 hp) q hq
    obtain ⟨out, hout, rfl⟩ := parseParam_ok_iff.1 hparam
    obtain ⟨hcut, hself, hblank⟩ := hent.isCut_param hl houter hr hw hpm
    obtain ⟨lexed, hlexed, hreaches⟩ := parseBuffer_ok_iff.1 hout
    cases hself.symm.trans hlexed
    obtain ⟨htidy, halone⟩ := hcut.tidy hl hreaches
    refine ⟨out, p.offset, rfl, htidy, fun u hu => Bool.eq_false_iff.2 fun hub => ?_⟩
    rw [hblank u (halone u hu hub).2] at hub
    cases hub

omit hl in
theorem MakesGroup.length_separators {o : Int} {t : Text} {w : Window} {params : List Node}
    (h : MakesGroup l 0 (Node.raws t) o w params) :
    (w.inside l.grammar.separator o).separators.length = params.length ∨
      (w.inside l.grammar.separator o).separators.length + 1 = params.length := by
  cases h with
  | mk _ _ _ _ hp =>
    rw [← (parseParams_ok_iff.1 hp).length_eq]
    exact Interior.length_separators_ofFields

end Default

/-! ## Names -/

namespace Node

/-- A name among the parts of the node is the callee of a call. -/
def NamesCallee (n : Node) : Prop :=
  ∀ i p t, n.parts[i]? = some (identifier p t) → i = 0 ∧ ∃ q f a, n = call q (identifier p t) f a

/-- A name stands nowhere in the tree but in the place of the callee of a call. -/
def NamesCalls (n : Node) : Prop :=
  ∀ m ∈ n.walk, NamesCallee m

theorem namesCallee_of_forall {n : Node} (h : ∀ m ∈ n.parts, m.isIdentifier = false) : NamesCallee n := by
  intro i p t hi
  cases h _ (List.mem_of_getElem? hi)

theorem Parsed.isIdentifier_eq {n : Node} (h : n.Parsed l) : n.isIdentifier = false := by
  cases h <;> rfl

/-- In a tree that is parsed the names among the parts of the node itself stand in their place. -/
theorem Parsed.namesCallee {n : Node} (h : n.Parsed l) (hr : n.Resolved) : NamesCallee n := by
  cases h with
  | number | var => exact namesCallee_of_forall (by simp [parts])
  | group b hps =>
    refine namesCallee_of_forall fun m hm => ?_
    simp only [parts, List.mem_append, List.mem_cons, List.not_mem_nil, or_false] at hm
    rcases hm with (rfl | hm) | rfl
    · rfl
    · rcases mem_interleave hm with hm | htoken
      · exact (hps m hm).isIdentifier_eq
      · cases m <;> first | rfl | cases htoken
    · rfl
  | call p q hname b hps =>
    intro i p' t hi
    cases i with
    | zero =>
      cases hi
      exact ⟨rfl, _, _, _, rfl⟩
    | succ i => cases i <;> cases hi
  | unary p hop hs hx =>
    exact namesCallee_of_forall (List.forall_mem_cons.2 ⟨rfl, List.forall_mem_singleton.2 hx.isIdentifier_eq⟩)
  | binary p hop hs hx hy | implicit p hx hy =>
    refine namesCallee_of_forall (List.forall_mem_cons.2 ⟨hx.isIdentifier_eq, ?_⟩)
    exact List.forall_mem_cons.2 ⟨rfl, List.forall_mem_singleton.2 hy.isIdentifier_eq⟩
  | equation p hss o => exact namesCallee_of_forall hr

/-- What the walk over a tree that is parsed meets is parsed or has no parts. -/
theorem Parsed.mem_walk {n : Node} (h : n.Parsed l) (hwalk : ∀ m ∈ n.walk, m.Resolved) {x : Node} (hx : x ∈ n.walk) :
    x.Parsed l ∨ x.parts = [] := by
  by_cases htoken : x.isToken = true
  · cases x <;> first | exact .inr rfl | cases htoken
  rw [Bool.not_eq_true] at htoken
  induction h with
  | number => exact .inr (by cases List.mem_singleton.1 hx; rfl)
  | var => exact .inr (by cases List.mem_singleton.1 hx; rfl)
  | @group b ps hps ih =>
    rcases (mem_walk_group htoken).1 hx with rfl | ⟨q, hq, hx⟩
    · exact .inl (.group b hps)
    · exact ih q hq (fun m hm => hwalk m (walk_subset_group hq b hm)) hx
  | @call p q name hname b ps hps ih =>
    rw [walk_call, walk_identifier, List.singleton_append, List.mem_cons, List.mem_cons] at hx
    rcases hx with rfl | rfl | hx
    · exact .inl (.call p q hname b hps)
    · exact .inr rfl
    · rcases (mem_walk_group htoken).1 hx with rfl | ⟨r, hr, hx⟩
      · exact .inl (.group b hps)
      · exact ih r hr (fun m hm => hwalk m (walk_subset_call p _ _ _ (walk_subset_group hr b hm))) hx
  | @unary p op hop s hs y hy ih =>
    rcases (mem_walk_unary htoken).1 hx with rfl | hx
    · exact .inl (.unary p hop hs hy)
    · exact ih (fun m hm => hwalk m (walk_subset_unary p _ _ _ hm)) hx
  | @binary p op hop s hs y z hy hz ihy ihz =>
    rcases (mem_walk_binary htoken).1 hx with rfl | hx | hx
    · exact .inl (.binary p hop hs hy hz)
    · exact ihy (fun m hm => hwalk m (walk_subset_left p _ _ _ _ hm)) hx
    · exact ihz (fun m hm => hwalk m (walk_subset_right p _ _ _ _ hm)) hx
  | @implicit p y z hy hz hyv hzv ihy ihz =>
    rcases (mem_walk_binary htoken).1 hx with rfl | hx | hx
    · exact .inl (.implicit p hy hz hyv hzv)
    · exact ihy (fun m hm => hwalk m (walk_subset_left p _ _ _ _ hm)) hx
    · exact ihz (fun m hm => hwalk m (walk_subset_right p _ _ _ _ hm)) hx
  | @equation p ss hss o ih =>
    rw [walk_equation, List.mem_cons, mem_walkAll] at hx
    rcases hx with rfl | ⟨s, hs, hx⟩
    · exact .inl (.equation p hss o)
    · rcases s.raw_or_not with ⟨t, rfl⟩ | hraw
      · cases hx
      · have hname : s.isIdentifier = false := hwalk _ (mem_walk_self rfl) s hs
        exact ih s hs hraw hname (fun m hm => hwalk m (walk_subset_equation hs p o hm)) hx

theorem Parsed.namesCalls {n : Node} (h : n.Parsed l) (hwalk : ∀ m ∈ n.walk, m.Resolved) : NamesCalls n := by
  intro m hm
  rcases h.mem_walk hwalk hm with hparsed | hparts
  · exact hparsed.namesCallee (hwalk m hm)
  · exact namesCallee_of_forall (by simp [hparts])

/-! ## Trees -/

/-- The tree with the sentences `out` in its root has the shape of a parsed tree. -/
structure WellFormed (out : List Node) : Prop where
  /-- Every equation holds fragments of raw text that is left over, apart from one another, and values. -/
  tidy : ∀ p ss o, equation p ss o ∈ (equation .none out 0).walk → Tidy ss
  /-- White space is the only sentence of the root, -/
  blank : ∀ t, raw t ∈ out → Text.allBlank t = true → out = [raw t]
  /-- and no equation below the root holds any. -/
  blank_below : ∀ p ss o, equation p ss o ∈ walkAll out → ∀ t, raw t ∈ ss → Text.allBlank t = false
  /-- A name stands in the place of the callee of a call. -/
  names : NamesCalls (equation .none out 0)
  /-- A group has a separator behind each parameter, but perhaps the last. -/
  separators : ∀ b ps, group b ps ∈ (equation .none out 0).walk →
    b.separators.length = ps.length ∨ b.separators.length + 1 = ps.length
  /-- The parameters of a group are equations. -/
  params : ∀ b ps, group b ps ∈ (equation .none out 0).walk → ∀ q ∈ ps, ∃ ss o, q = equation .none ss o

end Node

/-- The sentences of a text are tidy, and hold no white space unless it is the only sentence. -/
theorem tidy_parseText (hl : l.grammar = .default) {t : Text} {out : List Node} (h : (parseText l t).result = .ok out) :
    Node.Tidy out ∧ ∀ u, .raw u ∈ out → Text.allBlank u = true → out = [.raw u] := by
  obtain ⟨lexed, hlexed, hreaches⟩ := parseBuffer_ok_iff.1 h
  obtain ⟨htidy, halone⟩ := (isCut_lexText hl (lexStage_raws_ok_iff.1 hlexed)).tidy hl hreaches
  exact ⟨htidy, fun u hu hblank => (halone u hu hblank).1⟩

/-- The parameters of a group are equations of tidy sentences that hold no white space. -/
theorem params_parseText (hl : l.grammar = .default) {t : Text} {out : List Node} (h : (parseText l t).result = .ok out)
    {b : Brackets} {ps : List Node} (hgroup : .group b ps ∈ (Node.equation .none out 0).walk) :
    ∀ q ∈ ps, ∃ ss o, q = .equation .none ss o ∧ Node.Tidy ss ∧ ∀ u, .raw u ∈ ss → Text.allBlank u = false := by
  have hb : DistinctBrackets l.grammar.brackets := hl ▸ distinctBrackets_default
  exact everyGroup_parseText (P := fun _ ps => ∀ q ∈ ps, ∃ ss o, q = .equation .none ss o ∧ Node.Tidy ss ∧
    ∀ u, .raw u ∈ ss → Text.allBlank u = false) hb (fun _ _ _ hmade => hmade.tidy hl) h hgroup

/-- The equations below the root are such parameters. -/
theorem tidy_below_parseText (hl : l.grammar = .default) {t : Text} {out : List Node} (h : (parseText l t).result = .ok out)
    {p : Pad} {ss : List Node} {o : Int} (hmem : .equation p ss o ∈ Node.walkAll out) :
    Node.Tidy ss ∧ ∀ u, .raw u ∈ ss → Text.allBlank u = false := by
  have hb : DistinctBrackets l.grammar.brackets := hl ▸ distinctBrackets_default
  obtain ⟨n, hn, hmem⟩ := Node.mem_walkAll.1 hmem
  obtain ⟨b, ps, hgroup, hparam⟩ := ((carries_housed l).parseText hb h n hn).below p ss o hmem
  obtain ⟨ss', o', heq, hss⟩ := params_parseText hl h (Node.walk_subset_equation hn _ _ hgroup) _ hparam
  cases heq
  exact hss

/-- Every equation of a tree that was parsed has tidy sentences. -/
theorem tidy_equations_parseText (hl : l.grammar = .default) {t : Text} {out : List Node}
    (h : (parseText l t).result = .ok out) {p : Pad} {ss : List Node} {o : Int}
    (hmem : .equation p ss o ∈ (Node.equation .none out 0).walk) : Node.Tidy ss := by
  rcases List.mem_cons.1 hmem with hself | hmem
  · cases hself
    exact (tidy_parseText hl h).1
  · exact (tidy_below_parseText hl h hmem).1

/-- **The shape of a parsed tree**. -/
theorem Formula.wellFormed_parse (resolve : Text → Option Function) {t : Text}
    (h : (parse ⟨.default, resolve⟩ t).failure = none) :
    ∃ out, (parse ⟨.default, resolve⟩ t).formula.root = .equation .none out 0 ∧ Node.WellFormed out := by
  obtain ⟨out, hout⟩ := parse_failure_eq_none_iff.1 h
  have hb : DistinctBrackets Grammar.default.brackets := distinctBrackets_default
  refine ⟨out, root_parse_of_ok hout, fun p ss o => tidy_equations_parseText rfl hout, (tidy_parseText rfl hout).2,
    fun p ss o hmem => (tidy_below_parseText rfl hout hmem).2,
    (parsed_parseText rfl hout).namesCalls (resolved_parseText rfl hout), fun b ps => ?_, fun b ps hgroup q hq => ?_⟩
  · exact everyGroup_parseText (P := fun separators ps => separators.length = ps.length ∨ separators.length + 1 = ps.length)
      hb (fun _ _ _ hmade => hmade.length_separators) hout
  · obtain ⟨ss, o, heq, -⟩ := params_parseText rfl hout hgroup q hq
    exact ⟨ss, o, heq⟩

/-- A call with an empty parameter and a blank last one, an operator without its operand, and text that is left over. -/
theorem Formula.wellFormed_parse_leftover :
    (parse .default " max( 2 , , [x !] (y) , ) @ 3".toList).failure = none ∧
      ∃ out, (parse .default " max( 2 , , [x !] (y) , ) @ 3".toList).formula.root = .equation .none out 0 ∧
        Node.WellFormed out := by
  have h : (parse .default " max( 2 , , [x !] (y) , ) @ 3".toList).failure = none :=
    Option.isNone_iff_eq_none.1 (by decide +kernel)
  exact ⟨h, wellFormed_parse _ h⟩

end FormulaLang
