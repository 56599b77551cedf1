import FormulaLang.Proofs.Parse.Recorded
import FormulaLang.Proofs.Parse.WellFormed

/-!
# White space that a failed parse doubles

A parse begins with the parameters of a group one after another, and inside each of them with the parameters of its groups
(`Begun`). Once the groups of a parameter are made, its nodes take up the white space beside them (`SpaceTaken`). The marks
of the nodes of the outermost interior stay with their positions through all of this (`marksAt`), so the white space that the
trace shows to be taken up is that of the nodes at these positions (`taken_groupStage`).
-/

namespace FormulaLang

open Node (sourceTexts sourceTexts_append)
open Reading (atoms)

/-! ## What a parse takes up -/

/-- Among the parameters of a group and those of the groups inside them, one with which the parse begins: those before it in
its group have been parsed. -/
inductive Begun (l : Language) : List Param → Param → Prop
  | here {p : Param} {ps : List Param} : Begun l (p :: ps) p
  | next {p q : Param} {ps : List Param} {n : Node} (hp : parseParam l p = .ok n) (h : Begun l ps q) : Begun l (p :: ps) q
  | inside {p q : Param} {ps : List Param} {lexed buffer : List Node} {w : Window}
      (hlexed : (lexStage l.grammar p.offset p.sentences).result = .ok lexed)
      (hr : Work.Reaches l p.offset (.grouping lexed) (.grouping buffer))
      (hw : nextGroup l.grammar.brackets buffer = .window w)
      (h : Begun l (w.inside l.grammar.separator p.offset).params q) : Begun l (p :: ps) q

/-- White space stands beside the node at a position. -/
def NodeBesideBlank (offset : Int) (ss : List Node) (x : Int) : Prop :=
  ∃ xs n ys, ss = xs ++ n :: ys ∧ n.isRaw = false ∧ BesideBlank xs ys ∧ x = offset + (sourceTexts xs).length

/-- The node at a position takes up white space as a sentence of a parameter: the parse begins with the parameter and makes
its groups, and white space stands beside the node then. -/
def SpaceTaken (l : Language) (ps : List Param) (x : Int) : Prop :=
  ∃ p lexed grouped, Begun l ps p ∧ (lexStage l.grammar p.offset p.sentences).result = .ok lexed ∧
    (groupStage l p.offset lexed).result = .ok grouped ∧ NodeBesideBlank p.offset grouped x

/-- It does so in a parameter of a group of the buffer. -/
def SpaceTakenWithin (l : Language) (offset : Int) (ss : List Node) (x : Int) : Prop :=
  ∃ buffer w, Work.Reaches l offset (.grouping ss) (.grouping buffer) ∧ nextGroup l.grammar.brackets buffer = .window w ∧
    SpaceTaken l (w.inside l.grammar.separator offset).params x

section Taken

/-- What is folded is not grouped again. -/
theorem Work.Reaches.ne_grouping {l : Language} {offset : Int} {ts : List Tier} {ss ss' : List Node} {b : Work}
    (h : Reaches l offset (.folding ts ss) b) : b ≠ .grouping ss' := by
  suffices ∃ ts' out, b = .folding ts' out by
    obtain ⟨ts', out, rfl⟩ := this
    exact Work.noConfusion
  induction h with
  | refl => exact ⟨ts, ss, rfl⟩
  | tail _ hstep ih =>
    obtain ⟨ts', out, rfl⟩ := ih
    cases hstep with
    | replace => exact ⟨_, _, rfl⟩
    | next => exact ⟨_, _, rfl⟩

/-- The group stage has made no group yet, or it has made the first one. -/
theorem Work.Reaches.grouping_cases {l : Language} {offset : Int} {ss buffer : List Node}
    (h : Reaches l offset (.grouping ss) (.grouping buffer)) :
    buffer = ss ∨ ∃ w params, nextGroup l.grammar.brackets ss = .window w ∧
      parseParams l (w.inside l.grammar.separator offset).params = .ok params ∧
      Reaches l offset (.grouping (w.collapse l offset params)) (.grouping buffer) := by
  rcases Relation.ReflTransGen.cases_head h with heq | ⟨mid, hstep, hrest⟩
  · cases heq
    exact .inl rfl
  · cases hstep with
    | collapse hw hp => exact .inr ⟨_, _, hw, hp, hrest⟩
    | grouped => exact absurd rfl (Work.Reaches.ne_grouping hrest)

variable {l : Language} {offset x : Int} {ss : List Node} {w : Window} {p : Param} {ps : List Param}

theorem not_spaceTaken_nil : ¬SpaceTaken l [] x := by
  rintro ⟨p, lexed, grouped, ⟨⟩, -⟩

/-- The first parameter, or one behind it once it has been parsed. -/
theorem spaceTaken_cons_iff {lexed : List Node} (hlexed : (lexStage l.grammar p.offset p.sentences).result = .ok lexed) :
    SpaceTaken l (p :: ps) x ↔
      (SpaceTakenWithin l p.offset lexed x ∨
        ∃ grouped, (groupStage l p.offset lexed).result = .ok grouped ∧ NodeBesideBlank p.offset grouped x) ∨
      ∃ n, parseParam l p = .ok n ∧ SpaceTaken l ps x := by
  constructor
  · rintro ⟨q, out, grouped, hq, hout, hgrouped, hblank⟩
    cases hq with
    | here =>
      cases hlexed.symm.trans hout
      exact .inl (.inr ⟨grouped, hgrouped, hblank⟩)
    | next hp hq => exact .inr ⟨_, hp, q, out, grouped, hq, hout, hgrouped, hblank⟩
    | inside hp hr hw hq =>
      cases hlexed.symm.trans hp
      exact .inl (.inl ⟨_, _, hr, hw, q, out, grouped, hq, hout, hgrouped, hblank⟩)
  · rintro ((⟨buffer, w, hr, hw, htaken⟩ | ⟨grouped, hgrouped, hblank⟩) | ⟨n, hp, htaken⟩)
    · obtain ⟨q, out, grouped, hq, hrest⟩ := htaken
      exact ⟨q, out, grouped, .inside hlexed hr hw hq, hrest⟩
    · exact ⟨p, lexed, grouped, .here, hlexed, hgrouped, hblank⟩
    · obtain ⟨q, out, grouped, hq, hrest⟩ := htaken
      exact ⟨q, out, grouped, .next hp hq, hrest⟩

/-- The parameters of the first group, and then those of the groups found when it is made. -/
theorem spaceTakenWithin_iff (hw : nextGroup l.grammar.brackets ss = .window w) :
    SpaceTakenWithin l offset ss x ↔
      SpaceTaken l (w.inside l.grammar.separator offset).params x ∨
        ∃ params, parseParams l (w.inside l.grammar.separator offset).params = .ok params ∧
          SpaceTakenWithin l offset (w.collapse l offset params) x := by
  constructor
  · rintro ⟨buffer, v, hr, hv, htaken⟩
    rcases hr.grouping_cases with rfl | ⟨w', params, hw', hp, hrest⟩
    · cases hw.symm.trans hv
      exact .inl htaken
    · cases hw.symm.trans hw'
      exact .inr ⟨params, hp, buffer, v, hrest, hv, htaken⟩
  · rintro (htaken | ⟨params, hp, buffer, v, hr, hv, htaken⟩)
    · exact ⟨ss, w, .refl, hw, htaken⟩
    · exact ⟨buffer, v, .head (.collapse hw hp) hr, hv, htaken⟩

/-- Without a group there is no parameter. -/
theorem not_spaceTakenWithin (h : ∀ w, nextGroup l.grammar.brackets ss ≠ .window w) : ¬SpaceTakenWithin l offset ss x := by
  rintro ⟨buffer, v, hr, hv, -⟩
  rcases hr.grouping_cases with rfl | ⟨w, params, hw, -, -⟩
  · exact h v hv
  · exact h w hw

end Taken

/-! ## Marks by positions -/

/-- The marks of the nodes of a buffer when the positions `S` are numbered: a node has the number of its position, if any. -/
def marksAt (S : List Int) (offset : Int) (ss : List Node) : Marks :=
  (nodeStarts offset ss).map S.idxOf?

/-- The mark of a position with the property. -/
def MarkAt (S : List Int) (P : Int → Prop) (mark : Nat) : Prop :=
  ∃ x, S.idxOf? x = some mark ∧ P x

/-- No raw character of the buffer stands at one of the positions. -/
def Avoids (S : List Int) (offset : Int) (ss : List Node) : Prop :=
  ∀ x, RawAt offset ss x → x ∉ S

section Marks

variable {l : Language} {S : List Int} {offset : Int} {ss buffer : List Node} {w : Window} {p : Param} {P Q : Int → Prop}
  {mark : Nat}

theorem markAt_or : MarkAt S (fun x => P x ∨ Q x) mark ↔ MarkAt S P mark ∨ MarkAt S Q mark := by
  simp only [MarkAt, and_or_left, exists_or]

theorem markAt_exists {α : Type} {c : α → Prop} {P : α → Int → Prop} :
    MarkAt S (fun x => ∃ a, c a ∧ P a x) mark ↔ ∃ a, c a ∧ MarkAt S (P a) mark := by
  constructor
  · rintro ⟨x, hx, a, ha, hP⟩
    exact ⟨a, ha, x, hx, hP⟩
  · rintro ⟨a, ha, x, hx, hP⟩
    exact ⟨x, hx, a, ha, hP⟩

theorem markAt_congr (h : ∀ x, P x ↔ Q x) : MarkAt S P mark ↔ MarkAt S Q mark := by
  simp only [MarkAt, h]

theorem not_markAt (h : ∀ x, ¬P x) : ¬MarkAt S P mark :=
  fun ⟨x, _, hx⟩ => h x hx

theorem length_marksAt (S : List Int) (offset : Int) (ss : List Node) : (marksAt S offset ss).length = nodeCount ss := by
  rw [marksAt, List.length_map, length_nodeStarts]

theorem getElem?_marksAt {xs ys : List Node} {n : Node} (h : n.isRaw = false) :
    (marksAt S offset (xs ++ n :: ys))[nodeCount xs]? = some (S.idxOf? (offset + (sourceTexts xs).length)) := by
  rw [marksAt, List.getElem?_map, getElem?_nodeStarts h, Option.map_some]

/-- Among different positions each has the number of its place. -/
theorem idxOf?_eq_some_iff_of_nodup {x : Int} (h : S.Nodup) : S.idxOf? x = some mark ↔ S[mark]? = some x := by
  rw [List.idxOf?_eq_some_iff, List.getElem?_eq_some_iff]
  constructor
  · rintro ⟨hlt, hx, -⟩
    exact ⟨hlt, hx⟩
  · rintro ⟨hlt, rfl⟩
    exact ⟨hlt, rfl, fun j hj heq => Nat.ne_of_lt hj (h.getElem_inj_iff.1 heq)⟩

/-- The property of a mark is that of its position. -/
theorem markAt_iff {x : Int} (h : S.Nodup) (hx : S[mark]? = some x) : MarkAt S P mark ↔ P x := by
  simp only [MarkAt, idxOf?_eq_some_iff_of_nodup h, hx, Option.some.injEq, exists_eq_left']

/-- The nodes of an interior are numbered by their positions. -/
theorem numbered_eq (h : HasTexts w.interior) :
    Marks.numbered w.interior = (w.innerStarts offset).map (w.innerStarts offset).idxOf? := by
  rw [Marks.numbered, ← w.length_innerStarts offset]
  refine List.ext_getElem (by simp) fun i hi _ => ?_
  rw [List.getElem_map, List.getElem_map, List.getElem_range, eq_comm,
    idxOf?_eq_some_iff_of_nodup (Window.nodup_innerStarts h), List.getElem?_eq_getElem]

/-- The nodes of a lexed buffer keep their marks when it is lexed once more. -/
theorem Marks.cut_self {M : Marks} (h : M.length = nodeCount ss) : Marks.cut (ss.zip (ss.map fun n => [n])) M = M := by
  induction ss generalizing M with
  | nil => exact (List.eq_nil_of_length_eq_zero h).symm
  | cons n ss ih =>
    rw [List.map_cons, List.zip_cons_cons, Marks.cut]
    cases hn : n.isRaw with
    | true =>
      rw [nodeCount_cons_raw hn] at h
      rw [if_pos rfl, ih h]
      simp [nodeCount, hn]
    | false =>
      rw [nodeCount_cons_node hn] at h
      obtain ⟨m, M, rfl⟩ := List.exists_cons_of_length_eq_add_one h
      rw [if_neg Bool.false_ne_true, List.tail_cons, ih (Nat.succ_injective h)]
      rfl

/-- The marks of a parameter that is lexed once more. The literal of an empty field has none. -/
theorem marksAt_sentences (hempty : p.field = [] → p.offset ∉ S) :
    Marks.cut (p.sentences.zip (p.sentences.map fun n => [n])) (marksAt S p.offset p.field) =
      marksAt S p.offset p.sentences := by
  unfold Param.sentences
  split
  · rename_i hfield
    rw [List.isEmpty_iff] at hfield
    have hnone : S.idxOf? p.offset = none := List.idxOf?_eq_none_iff.2 (hempty hfield)
    rw [hfield, marksAt, marksAt, nodeStarts_nil, nodeStarts_cons_node rfl, nodeStarts_nil, List.map_cons, List.map_cons,
      hnone]
    rfl
  · exact Marks.cut_self (length_marksAt S p.offset p.field)

section Windows

variable (hs : Fused buffer) (hw : nextGroup Grammar.defaultBrackets buffer = .window w)

include hs hw

/-- The marks of an interior among those of the buffer. -/
theorem marksAt_interior :
    ((marksAt S offset buffer).drop (nodeCount w.before)).take (nodeCount w.interior) =
      (w.innerStarts offset).map S.idxOf? := by
  rw [marksAt, Window.nodeStarts_eq hs hw, List.map_append, List.drop_left' (by simp [length_nodeStarts]), List.map_append,
    List.take_left' (by simp [Window.length_innerStarts])]

omit hs hw in
/-- They are the marks of the parameters one after another. -/
theorem marksAt_inside (separator : Separator) :
    (w.innerStarts offset).map S.idxOf? =
      (w.inside separator offset).params.flatMap fun p => marksAt S p.offset p.field := by
  rw [Window.innerStarts, Interior.nodeStarts_params separator, List.map_flatMap]
  rfl

/-- The group has no mark, since a bracket stood where it begins. -/
theorem marksAt_collapse (havoid : Avoids S offset buffer) {params : List Node}
    (hg : (w.group (w.inside l.grammar.separator offset) params).sourceText =
      w.opener ++ sourceTexts w.interior ++ w.closer) :
    Marks.replace w.before w.sentences (marksAt S offset buffer) = marksAt S offset (w.collapse l offset params) := by
  have hnone : S.idxOf? (offset + (sourceTexts w.before).length) = none :=
    List.idxOf?_eq_none_iff.2 (havoid _ (Window.rawAt_opener hs hw))
  obtain ⟨c, d, -, -, hpair, -⟩ := Window.atoms_eq hs hw
  have hcount : nodeCount w.sentences = nodeCount w.interior := by
    rw [Window.sentences, hpair, if_neg Bool.false_ne_true, List.cons_append, nodeCount_cons_raw rfl, nodeCount_append,
      nodeCount_cons_raw rfl]
    rfl
  rw [marksAt, marksAt, Window.nodeStarts_eq hs hw, Window.nodeStarts_collapse hg, Marks.replace, hcount, ← List.drop_drop]
  simp only [List.map_append, List.map_cons, hnone]
  rw [List.take_left' (by simp [length_nodeStarts]), List.drop_left' (by simp [length_nodeStarts]),
    List.drop_left' (by simp [Window.length_innerStarts])]

/-- A parameter avoids what the buffer around its group avoids. -/
theorem Avoids.sentences (havoid : Avoids S offset buffer) (hp : p ∈ (w.inside (.spaced ',') offset).params) :
    Avoids S p.offset p.sentences ∧ (p.field = [] → p.offset ∉ S) := by
  refine ⟨fun x hx => ?_, fun hempty => havoid _ (Window.rawAt_of_field_eq_nil hs hw hp hempty)⟩
  unfold Param.sentences at hx
  split at hx
  · obtain ⟨a, c, b, hatoms, -⟩ := hx
    rw [Reading.atoms_nodes_singleton rfl] at hatoms
    have hmem : Node.raw [c] ∈ [emptyLiteral] := hatoms ▸ List.mem_append_right a List.mem_cons_self
    cases List.mem_singleton.1 hmem
  · exact havoid x (Window.rawAt_of_field hs hw hp hx)

/-- So does the buffer when the group is made. -/
theorem Avoids.collapse (havoid : Avoids S offset buffer) {params : List Node}
    (hg : (w.group (w.inside l.grammar.separator offset) params).sourceText =
      w.opener ++ sourceTexts w.interior ++ w.closer) : Avoids S offset (w.collapse l offset params) :=
  fun x hx => havoid x (Window.rawAt_of_collapse hs hw hg hx)

end Windows

end Marks

/-! ## Buffers whose leaves have been found -/

section Cut

variable {l : Language} (hl : l.grammar = .default) {offset : Int} {buffer : List Node} {w : Window} {p : Param}

include hl

/-- A parameter of a group has its leaves found. -/
theorem IsCut.sentences (hcut : IsCut buffer) (hw : nextGroup l.grammar.brackets buffer = .window w)
    (hp : p ∈ (w.inside l.grammar.separator offset).params) : IsCut p.sentences := by
  have hbrackets : l.grammar.brackets = Grammar.defaultBrackets := congrArg Grammar.brackets hl
  have hseparator : l.grammar.separator = .spaced ',' := congrArg Grammar.separator hl
  obtain ⟨hfield, x, c, d, y, -, -, -, hatoms⟩ := Window.field_between hcut.fused (hbrackets ▸ hw) (hseparator ▸ hp)
  have hinside := (forall_mem_window (Q := fun n => n.isSentence = true) (fun _ => rfl) (hl ▸ distinctBrackets_default) hw
    hcut.sentence).2.1
  have hsentence := forall_mem_sentences (Q := fun n => n.isSentence = true) (fun _ => rfl) rfl hp hinside
  unfold Param.sentences at hsentence ⊢
  split
  · exact isCut_emptyLiteral
  · rename_i hne
    rw [if_neg hne] at hsentence
    exact ⟨hfield, fun e he => hcut.lexed e (by rw [hatoms]; simp [he]), hsentence⟩

/-- Its sentences are not cut once more. -/
theorem IsCut.lexStage_eq {ss : List Node} (hcut : IsCut ss) (offset : Int) :
    lexStage l.grammar offset ss = ⟨.ok ss, [.lexed (ss.zip (ss.map fun n => [n]))]⟩ := by
  have hleaves : l.grammar.leaves = Grammar.defaultLeaves := congrArg Grammar.leaves hl
  simp only [lexStage, hleaves, lexEach_of_lexed hcut.fused hcut.lexed, ← List.flatMap_def, List.flatMap_singleton']

theorem IsCut.collapse {params : List Node} (hcut : IsCut buffer) (hw : nextGroup l.grammar.brackets buffer = .window w)
    (hp : parseParams l (w.inside l.grammar.separator offset).params = .ok params) :
    IsCut (w.collapse l offset params) :=
  hcut.reaches hl (.single (.collapse hw hp))

end Cut

/-! ## The stages of a parse -/

/-- The group stage of a buffer keeps the marks at their positions, and takes down what is taken up inside its groups. -/
def GroupsRecorded (l : Language) (S : List Int) (offset : Int) (ss : List Node) : Prop :=
  ∀ F, (groupStage l offset ss).Records (marksAt S offset ss :: F) (fun out G => G = marksAt S offset out :: F)
    (MarkAt S (SpaceTakenWithin l offset ss))

section Run

variable {l : Language} (hl : l.grammar = .default) {S : List Int} {offset : Int} {ss : List Node} {p : Param}

include hl

theorem records_foldStage_marksAt (hs : Fused ss) (F : List Marks) :
    (foldStage l offset ss).Records (marksAt S offset ss :: F) (fun _ G => ∃ M, G = M :: F)
      (MarkAt S (NodeBesideBlank offset ss)) := by
  refine (records_foldStage hl offset hs).congr fun mark => ?_
  constructor
  · rintro ⟨xs, n, ys, rfl, hn, hmark, hblank⟩
    rw [getElem?_marksAt hn, Option.some.injEq] at hmark
    exact ⟨_, hmark, xs, n, ys, rfl, hn, hblank, rfl⟩
  · rintro ⟨x, hx, xs, n, ys, rfl, hn, hblank, rfl⟩
    exact ⟨xs, n, ys, rfl, hn, by rw [getElem?_marksAt hn, hx], hblank⟩

/-- A parameter takes down what is taken up inside its groups, and then beside its nodes. -/
theorem records_paramStage (hcut : IsCut p.sentences) (hempty : p.field = [] → p.offset ∉ S)
    (hgroups : GroupsRecorded l S p.offset p.sentences) (R : Marks) (F : List Marks) :
    (paramStage l p).Records ((marksAt S p.offset p.field ++ R) :: F) (fun _ G => G = R :: F)
      (MarkAt S fun x => SpaceTakenWithin l p.offset p.sentences x ∨
        ∃ grouped, (groupStage l p.offset p.sentences).result = .ok grouped ∧ NodeBesideBlank p.offset grouped x) := by
  have hentered : Records [.entered p.field, .lexed (p.sentences.zip (p.sentences.map fun n => [n]))]
      ((marksAt S p.offset p.field ++ R) :: F) (marksAt S p.offset p.sentences :: R :: F) fun _ => False := by
    refine .of_run fun taken => ?_
    simp only [List.foldl_cons, List.foldl_nil, Sharing.step, List.take_left' (length_marksAt S p.offset p.field),
      List.drop_left' (length_marksAt S p.offset p.field), marksAt_sentences hempty]
  have hstart : (⟨.ok (), [.entered p.field, .lexed (p.sentences.zip (p.sentences.map fun n => [n]))]⟩ :
      Traced Failure Unit).Records ((marksAt S p.offset p.field ++ R) :: F)
        (fun _ G => G = marksAt S p.offset p.sentences :: R :: F) fun _ => False :=
    ⟨_, hentered, fun _ _ => rfl⟩
  have hfolds (grouped : List Node) (G : List Marks) (hgrouped : (groupStage l p.offset p.sentences).result = .ok grouped)
      (hG : G = marksAt S p.offset grouped :: R :: F) :
      (do
        let folded ← foldStage l p.offset grouped
        .emit .left
        return .equation .none folded p.offset : Traced Failure Node).Records G (fun _ G => G = R :: F)
          (MarkAt S (NodeBesideBlank p.offset grouped)) := by
    obtain ⟨hfused, -⟩ := fused_groupStage hl hgrouped hcut.fused
    subst hG
    refine (records_foldStage_marksAt hl hfused (R :: F)).behind fun folded G _ hG => ?_
    obtain ⟨M, rfl⟩ := hG
    exact (Traced.records_emit (.of_run fun _ => rfl)).before rfl fun G hG => hG ▸ Traced.records_pure rfl
  unfold paramStage
  rw [hcut.lexStage_eq hl p.offset]
  refine hstart.before rfl fun G hG => hG ▸ ?_
  refine ((hgroups (R :: F)).bind hfolds).congr fun mark => ?_
  rw [markAt_or, markAt_exists]

/-- The parameters of a group, one after another. -/
theorem records_params {ps : List Param}
    (h : ∀ p ∈ ps, IsCut p.sentences ∧ (p.field = [] → p.offset ∉ S) ∧ GroupsRecorded l S p.offset p.sentences)
    (F : List Marks) :
    (Traced.onEach ps fun p _ => paramStage l p).Records ((ps.flatMap fun p => marksAt S p.offset p.field) :: F)
      (fun _ G => G = [] :: F) (MarkAt S (SpaceTaken l ps)) := by
  induction ps with
  | nil =>
    have hnone (mark : Nat) : False ↔ MarkAt S (SpaceTaken l []) mark :=
      iff_of_false id (not_markAt fun x => not_spaceTaken_nil)
    exact Traced.Records.congr (Traced.records_pure rfl) hnone
  | cons p ps ih =>
    rw [List.forall_mem_cons] at h
    obtain ⟨⟨hcut, hempty, hgroups⟩, hps⟩ := h
    have hlexed : (lexStage l.grammar p.offset p.sentences).result = .ok p.sentences := by rw [hcut.lexStage_eq hl]
    have hrest (n : Node) (G : List Marks) (_ : (paramStage l p).result = .ok n)
        (hG : G = (ps.flatMap fun p => marksAt S p.offset p.field) :: F) :
        (do
          let ns ← Traced.onEach ps fun p _ => paramStage l p
          return n :: ns : Traced Failure (List Node)).Records G (fun _ G => G = [] :: F) (MarkAt S (SpaceTaken l ps)) :=
      (hG ▸ ih hps).behind fun ns G _ hG => hG ▸ Traced.records_pure rfl
    refine ((records_paramStage hl hcut hempty hgroups _ F).bind hrest).congr fun mark => ?_
    rw [markAt_congr fun x => spaceTaken_cons_iff hlexed, result_paramStage]
    simp only [markAt_or, markAt_exists]

section Windows

variable {w : Window} (hcut : IsCut ss) (havoid : Avoids S offset ss) (hw : nextGroup l.grammar.brackets ss = .window w)

include hcut hw

theorem records_opened (F : List Marks) :
    (Traced.emit (.opened w.before w.interior) : Traced Failure Unit).Records (marksAt S offset ss :: F)
      (fun _ G => G = (w.innerStarts offset).map S.idxOf? :: marksAt S offset ss :: F) fun _ => False := by
  have hbrackets : l.grammar.brackets = Grammar.defaultBrackets := congrArg Grammar.brackets hl
  rw [← marksAt_interior hcut.fused (hbrackets ▸ hw)]
  exact Traced.records_emit (.of_run fun _ => rfl)

include havoid

theorem records_collapsed {params : List Node}
    (hp : parseParams l (w.inside l.grammar.separator offset).params = .ok params) (F : List Marks) :
    (Traced.emit (.collapsed w.before w.sentences (w.group (w.inside l.grammar.separator offset) params)) :
      Traced Failure Unit).Records ([] :: marksAt S offset ss :: F)
        (fun _ G => G = marksAt S offset (w.collapse l offset params) :: F) fun _ => False := by
  have hbrackets : l.grammar.brackets = Grammar.defaultBrackets := congrArg Grammar.brackets hl
  rw [← marksAt_collapse hcut.fused (hbrackets ▸ hw) havoid (sourceText_group_of_parseParams hl hp)]
  exact Traced.records_emit (.of_run fun _ => rfl)

/-- The parameters of a window. -/
theorem records_window
    (hgroups : ∀ p ∈ (w.inside l.grammar.separator offset).params, IsCut p.sentences → Avoids S p.offset p.sentences →
      GroupsRecorded l S p.offset p.sentences) (F : List Marks) :
    ((Traced.onEach (w.inside l.grammar.separator offset).params fun p _ => paramStage l p).mapError
      (Failure.within w)).Records ((w.innerStarts offset).map S.idxOf? :: F) (fun _ G => G = [] :: F)
      (MarkAt S (SpaceTaken l (w.inside l.grammar.separator offset).params)) := by
  have hbrackets : l.grammar.brackets = Grammar.defaultBrackets := congrArg Grammar.brackets hl
  have hseparator : l.grammar.separator = .spaced ',' := congrArg Grammar.separator hl
  rw [marksAt_inside l.grammar.separator]
  refine (records_params hl (fun p hp => ?_) F).mapError _
  have hcutParam := hcut.sentences hl hw hp
  obtain ⟨havoidParam, hempty⟩ := havoid.sentences hcut.fused (hbrackets ▸ hw) (hseparator ▸ hp)
  exact ⟨hcutParam, hempty, hgroups p hp hcutParam havoidParam⟩

end Windows

/-- **The group stage** takes down what is taken up inside the groups. -/
theorem records_groupStage (hcut : IsCut ss) (havoid : Avoids S offset ss) : GroupsRecorded l S offset ss := by
  induction hn : rawLength ss using Nat.strong_induction_on generalizing offset ss with
  | _ n ih =>
    intro F
    have hnone (h : ∀ w, nextGroup l.grammar.brackets ss ≠ .window w) (mark : Nat) :
        False ↔ MarkAt S (SpaceTakenWithin l offset ss) mark :=
      iff_of_false id (not_markAt fun x => not_spaceTakenWithin h)
    rw [groupStage_eq]
    cases hw : nextGroup l.grammar.brackets ss with
    | absent =>
      refine Traced.Records.congr ?_ (hnone (by simp [hw]))
      cases strayOpener? l.grammar.brackets ss with
      | some found => exact Traced.records_fail _
      | none => exact ⟨_, .of_run fun _ => rfl, fun out h => by cases h; rfl⟩
    | unmatched closer buffer index => exact Traced.Records.congr (Traced.records_fail _) (hnone (by simp [hw]))
    | window w =>
      have hbrackets : l.grammar.brackets = Grammar.defaultBrackets := congrArg Grammar.brackets hl
      have hparams := records_window hl hcut havoid hw fun p hp hcutParam havoidParam =>
        ih _ (hn ▸ rawLength_param_lt hw hp (by rw [hcutParam.lexStage_eq hl])) hcutParam havoidParam rfl
      have hrest (params : List Node) (G : List Marks)
          (hok : ((Traced.onEach (w.inside l.grammar.separator offset).params fun p _ => paramStage l p).mapError
            (Failure.within w)).result = .ok params) (hG : G = [] :: marksAt S offset ss :: F) :
          (do
            .emit (.collapsed w.before w.sentences (w.group (w.inside l.grammar.separator offset) params))
            groupStage l offset (w.collapse l offset params) : Traced Failure (List Node)).Records G
              (fun out G => G = marksAt S offset out :: F)
              (MarkAt S (SpaceTakenWithin l offset (w.collapse l offset params))) := by
        rw [result_params_ok_iff] at hok
        have havoidRest : Avoids S offset (w.collapse l offset params) :=
          havoid.collapse hcut.fused (hbrackets ▸ hw) (sourceText_group_of_parseParams hl hok)
        subst hG
        refine (records_collapsed hl hcut havoid hw hok F).before rfl fun G hG => hG ▸ ?_
        exact ih _ (hn ▸ rawLength_collapse_lt hw) (hcut.collapse hl hw hok) havoidRest rfl F
      refine (records_opened hl hcut hw F).before rfl fun G hG => hG ▸ ?_
      refine ((hparams _).bind hrest).congr fun mark => ?_
      rw [markAt_congr fun x => spaceTakenWithin_iff hw]
      simp only [markAt_or, markAt_exists, result_params_ok_iff]

end Run

/-! ## Failed parses -/

section Failed

variable {l : Language} (hl : l.grammar = .default) {offset : Int} {ss : List Node} {w : Window}

theorem hasTexts_lexText {rules : List LeafRule} {t : Text} {out : List Node} (h : lexText rules t = .ok out) :
    HasTexts out := by
  intro n hn hraw
  exact atoms_text_ne_nil h n (List.mem_flatMap.2 ⟨n, hn, by simp [Reading.atoms_of_not_isRaw hraw]⟩)

theorem HasTexts.window (h : HasTexts ss) (hw : nextGroup Grammar.defaultBrackets ss = .window w) :
    HasTexts w.before ∧ HasTexts w.interior ∧ HasTexts w.after :=
  forall_mem_window (Q := fun n => n.isRaw = false → n.sourceText ≠ []) (fun _ hraw => by cases hraw)
    distinctBrackets_default hw h

theorem HasTexts.collapse (h : HasTexts ss) (hs : Fused ss) (hw : nextGroup Grammar.defaultBrackets ss = .window w)
    {params : List Node} (hg : (w.group (w.inside l.grammar.separator offset) params).sourceText =
      w.opener ++ sourceTexts w.interior ++ w.closer) : HasTexts (w.collapse l offset params) := by
  obtain ⟨hbefore, -, hafter⟩ := h.window hw
  obtain ⟨c, d, hopener, -⟩ := Window.atoms_eq hs hw
  refine List.forall_mem_append.2 ⟨hbefore, List.forall_mem_cons.2 ⟨fun _ => ?_, hafter⟩⟩
  rw [hg, hopener]
  simp

/-- No raw character of a buffer stands at a node of an interior in it. -/
theorem HasTexts.avoids (h : HasTexts ss) (hs : Fused ss) (hw : nextGroup Grammar.defaultBrackets ss = .window w) :
    Avoids (w.innerStarts offset) offset ss := by
  intro x hx hmem
  refine not_mem_nodeStarts_of_rawAt h hx ?_
  rw [Window.nodeStarts_eq hs hw, List.mem_append, List.mem_append]
  exact .inr (.inl hmem)

include hl

/-- **A group stage that fails** in a parameter of a window has taken down the marks of the nodes inside the window that take
up white space. -/
theorem taken_groupStage (hcut : IsCut ss) (htexts : HasTexts ss) {f : Failure}
    (h : (groupStage l offset ss).result = .error f) (ha : f.around = some w) (taken : List (Nat × Pad)) :
    ∃ F taken', (groupStage l offset ss).events.foldl Sharing.step ⟨[], taken⟩ = ⟨F, taken'⟩ ∧
      ∀ mark x, (w.innerStarts offset)[mark]? = some x →
        (Taken taken' mark ↔ SpaceTaken l (w.inside l.grammar.separator offset).params x) := by
  have hbrackets : l.grammar.brackets = Grammar.defaultBrackets := congrArg Grammar.brackets hl
  induction hn : rawLength ss using Nat.strong_induction_on generalizing ss taken with
  | _ n ih =>
    rw [result_groupStage] at h
    split at h
    · split at h
      · cases h
        cases ha
      · cases h
    · cases h
      cases ha
    · rename_i v hv
      have hdefault := hbrackets ▸ hv
      have havoid : Avoids (v.innerStarts offset) offset ss := htexts.avoids hcut.fused hdefault
      obtain ⟨-, hinside, -⟩ := htexts.window hdefault
      obtain ⟨F, hrecords, hdone⟩ :=
        records_window hl hcut havoid hv (fun p _ hcutParam => records_groupStage hl hcutParam) []
      rw [← numbered_eq hinside] at hrecords
      obtain ⟨mid, hrun, hmarks⟩ := hrecords []
      rw [groupStage_eq, hv]
      dsimp only
      split at h
      · rename_i e he
        cases h
        cases ha
        refine ⟨F, mid, ?_, fun mark x hx => ?_⟩
        · rw [Traced.bind_of_ok rfl, Traced.bind_of_error (by rw [result_params, he]; rfl), List.foldl_append]
          exact hrun
        · rw [hmarks mark, markAt_iff (Window.nodup_innerStarts hinside) hx]
          simp [Taken]
      · rename_i params hp
        have hok := result_params_ok_iff (g := Failure.within v) |>.2 hp
        obtain rfl : F = [[]] := hdone params hok
        obtain ⟨G, taken', hrest, hfinal⟩ := ih _ (hn ▸ rawLength_collapse_lt hv) (hcut.collapse hl hv hp)
          (htexts.collapse hcut.fused hdefault (sourceText_group_of_parseParams hl hp)) h mid rfl
        refine ⟨G, taken', ?_, hfinal⟩
        rw [Traced.bind_of_ok rfl, Traced.bind_of_ok hok, Traced.bind_of_ok rfl, List.foldl_append,
          List.foldl_append]
        -- the group ends the frame of the interior
        change List.foldl Sharing.step (List.foldl Sharing.step ⟨[Marks.numbered v.interior], []⟩ _) _ = _
        rw [hrun]
        exact hrest

end Failed

end FormulaLang
