import FormulaLang.Proofs.Fold.Variables
import FormulaLang.Proofs.Nesting.Fields
import FormulaLang.Proofs.Parse.Variables
import Mathlib.Data.List.Pairwise

/-!
# Variables in the order of work

A parse meets the variables of a text in the order of its work (`metVariables_parseText`), which is not that of the text: the
round groups come first, then the square and the curly ones, and at last what stands outside of groups.

The invariant of the group stage is `Waiting`: as long as a closing bracket of a kind is left, no names have come up in groups
of later kinds, those in groups of this kind stand before it, and no variable stands outside of groups. A collapse keeps it
(`Window.IsDue.waiting_collapse`) and puts the names of its parameters behind all names that have come up before
(`Window.IsDue.toldNames_collapse`).
-/

namespace FormulaLang

open Nesting
open Formula (metVariables)
open Reading (loose made marks composed_loose composed_made)

/-! ## Names and closing brackets -/

namespace Reading

/-- The closing brackets of a kind that are still raw, and between them the names that have come up in groups of the kind. -/
def turns (k : Kind) : Reading (Option Text) where
  node n := ((marks.node n).filter (· == k.closer)).map (fun _ => none) ++ ((made k).node n).map some
  raw_append s t := by
    have hmade (t : Text) : (made k).node (.raw t) = [] := rfl
    simp [hmade, marks.raw_append]

variable {k : Kind} {ss : List Node}

theorem turns_node (k : Kind) (n : Node) :
    (turns k).node n = ((marks.node n).filter (· == k.closer)).map (fun _ => none) ++ ((made k).node n).map some :=
  rfl

@[simp] theorem made_raw (k : Kind) (t : Text) : (made k).node (.raw t) = [] := rfl

theorem made_equation (k : Kind) (p : Pad) (ss : List Node) (o : Int) :
    (made k).node (.equation p ss o) = (made k).nodes ss :=
  Node.namesInAll_eq_flatMap ss

@[simp] theorem turns_raw (k : Kind) (t : Text) :
    (turns k).node (.raw t) = ((marks.node (.raw t)).filter (· == k.closer)).map fun _ => none := by
  rw [turns_node, made_raw, List.map_nil, List.append_nil]

theorem none_mem_turns : none ∈ (turns k).nodes ss ↔ k.closer ∈ marks.nodes ss := by
  simp [nodes, turns]

theorem some_mem_turns {name : Text} : some name ∈ (turns k).nodes ss ↔ name ∈ (made k).nodes ss := by
  simp [nodes, turns]

theorem Composed.readsLeaves {α : Type} {φ : Reading α} (hφ : φ.Composed) (rules : List LeafRule) : φ.ReadsLeaves rules := by
  intro t c leaf _ hleaf
  rcases LeafKind.leaf_cases hleaf with ⟨v, rfl⟩ | rfl
  · rw [hφ.number, hφ.raw]
  · rw [hφ.identifier, hφ.raw]

theorem Composed.skipsBlanks {α : Type} {φ : Reading α} (hφ : φ.Composed) : φ.SkipsBlanks :=
  ⟨fun t _ => hφ.raw t, hφ.number _ _ _⟩

theorem readsLeaves_turns (k : Kind) (rules : List LeafRule) : (turns k).ReadsLeaves rules := by
  intro t c leaf hc hleaf
  rw [turns_node, turns_node, readsLeaves_marks rules t c leaf hc hleaf,
    (composed_made k).readsLeaves rules t c leaf hc hleaf]

theorem skipsBlanks_turns (k : Kind) : (turns k).SkipsBlanks where
  blank t ht := by
    rw [turns_raw, skipsBlanks_marks.blank t ht]
    rfl
  empty := rfl

/-- Commas are no closing brackets. -/
theorem turns_of_comma {s : Text} (h : s.filter isMark = [',']) : (turns k).node (.raw s) = [] := by
  rw [turns_raw, marks_raw, h]
  cases k <;> rfl

/-- The names in groups that are kept in all parameters are kept between the brackets. -/
theorem made_params {i : Kind} {w : Window} {offset : Int} {params : List Node}
    (h : List.Forall₂ (fun p n => (made i).node n = (made i).nodes p.sentences)
      (w.inside (.spaced ',') offset).params params) :
    (made i).nodes params = (made i).nodes w.interior := by
  rw [← (composed_made i).skipsBlanks.nodes_interior (fun _ _ => rfl) w offset]
  generalize (w.inside (.spaced ',') offset).params = ps at h
  induction h with
  | nil => rfl
  | cons hn _ ih => rw [nodes_cons, List.flatMap_cons, hn, ih]

end Reading

open Reading (turns)

/-- The names that have come up in a buffer, in the order of work. -/
def Node.toldNames (ss : List Node) : List Text :=
  Kind.all.flatMap fun k => (made k).nodes ss

theorem Node.toldNames_eq (k : Kind) (ss : List Node) :
    toldNames ss =
      (k.earlier.flatMap fun j => (made j).nodes ss) ++ (made k).nodes ss ++ k.later.flatMap fun j => (made j).nodes ss := by
  rw [toldNames, Kind.all_eq k, List.flatMap_append, List.flatMap_cons, List.append_assoc]

/-- What is still to be done in a buffer comes behind what has been done. -/
structure Waiting (ss : List Node) : Prop where
  later : ∀ {j k : Kind}, j.rank < k.rank → j.closer ∈ marks.nodes ss → (made k).nodes ss = []
  sorted : ∀ k : Kind, ((turns k).nodes ss).Pairwise fun a b => a = none → b = none
  outside : loose.nodes ss = []

/-- A part of a buffer waits as well. -/
theorem Waiting.part {ss ss' : List Node} (h : Waiting ss) (hturns : ∀ k, ((turns k).nodes ss').Sublist ((turns k).nodes ss))
    (hloose : (loose.nodes ss').Sublist (loose.nodes ss)) : Waiting ss' where
  later {j k} hjk hj := by
    have hmem := Reading.none_mem_turns.1 ((hturns j).subset (Reading.none_mem_turns.2 hj))
    refine List.eq_nil_iff_forall_not_mem.2 fun name hname => ?_
    have hname' := Reading.some_mem_turns.1 ((hturns k).subset (Reading.some_mem_turns.2 hname))
    rw [h.later hjk hmem] at hname'
    cases hname'
  sorted k := (h.sorted k).sublist (hturns k)
  outside := List.sublist_nil.1 (h.outside ▸ hloose)

/-- Cutting leaves keeps a buffer waiting. -/
theorem Waiting.lexed {ss lexed : List Node} (h : Waiting ss) {offset : Int}
    (hl : (lexStage .default offset ss).result = .ok lexed) : Waiting lexed := by
  refine h.part (fun k => ?_) ?_
  · rw [Reading.nodes_lexStage (Reading.readsLeaves_turns k _) hl]
  · rw [Reading.nodes_lexStage (composed_loose.readsLeaves _) hl]

/-- Raw text waits. -/
theorem waiting_raws (t : Text) : Waiting (Node.raws t) where
  later {j k} _ _ := (made k).nodes_raws t
  sorted k := by
    refine List.pairwise_of_forall_mem_list fun a _ b hb _ => ?_
    rw [(turns k).nodes_raws, Reading.turns_raw, List.mem_map] at hb
    obtain ⟨_, -, rfl⟩ := hb
    rfl
  outside := loose.nodes_raws t

/-! ## Windows -/

namespace Window

/-- The window of the buffer is the next one, of the kind `k`. -/
structure IsDue (k : Kind) (ss : List Node) (w : Window) : Prop where
  next : nextGroup Grammar.defaultBrackets ss = .window w
  opener : w.opener = [k.opener]
  closer : w.closer = [k.closer]
  front : k.closer ∉ marks.nodes (w.before ++ w.interior)
  earlier : ∀ j : Kind, j.rank < k.rank → j.closer ∉ marks.nodes ss

/-- **A window** is due: no closing bracket of its kind stands in it or before it, and none of an earlier kind anywhere. -/
theorem exists_isDue {ss : List Node} {w : Window} (h : nextGroup Grammar.defaultBrackets ss = .window w) :
    ∃ k, w.IsDue k ss := by
  obtain ⟨earlier, later, a, b, p, q, hbr, hab, hfree, hp, hq, rfl⟩ := nextGroup_window_cases distinctBrackets_default h
  obtain ⟨k, rfl, rfl, hrank⟩ := Reading.kind_of_defaultBrackets hbr
  have hfront : k.closer ∉ marks.nodes (p.before ++ Node.raws p.head) := Reading.not_mem_of_firstPlace (isMark_closer k) hp
  rw [marks.nodes_lastPlace hq] at hfront
  refine ⟨k, h, rfl, rfl, fun hmem => hfront ?_, fun j hj => ?_⟩
  · simp only [between, Reading.nodes_append, Reading.nodes_raws, List.mem_append] at hmem ⊢
    tauto
  · exact (Reading.firstPlace?_eq_none_iff (isMark_closer j)).1 (hfree _ (hrank j hj))

namespace IsDue

variable {k : Kind} {ss : List Node} {w : Window} (hw : w.IsDue k ss)

include hw

/-- The window divides every reading of the buffer. -/
theorem nodes_eq {α : Type} (φ : Reading α) :
    φ.nodes ss = φ.nodes w.before ++ (φ.node (.raw w.opener) ++ φ.nodes w.interior ++ φ.node (.raw w.closer)) ++
      φ.nodes w.after :=
  φ.nodes_window distinctBrackets_default hw.next

theorem made_eq (j : Kind) :
    (made j).nodes ss = (made j).nodes w.before ++ (made j).nodes w.interior ++ (made j).nodes w.after := by
  rw [hw.nodes_eq (made j), Reading.made_raw, Reading.made_raw, List.nil_append, List.append_nil]

/-- The buffer has a closing bracket of the kind. -/
theorem closer_mem : k.closer ∈ marks.nodes ss := by
  rw [hw.nodes_eq marks, hw.closer]
  simp [Reading.marks_raw, isMark_closer]

theorem rank_le {j : Kind} (hj : j.closer ∈ marks.nodes ss) : k.rank ≤ j.rank :=
  Nat.le_of_not_lt fun hlt => hw.earlier j hlt hj

/-- Up to the end of the window no closing bracket of its kind or of an earlier one is left. -/
theorem closer_not_mem_front {j : Kind} (hj : j.rank ≤ k.rank) : j.closer ∉ marks.nodes (w.before ++ w.interior) := by
  rcases Nat.lt_or_eq_of_le hj with hlt | heq
  · intro hmem
    refine hw.earlier j hlt ?_
    rw [hw.nodes_eq marks]
    rw [Reading.nodes_append, List.mem_append] at hmem
    rcases hmem with hmem | hmem <;> simp [hmem]
  · obtain rfl := rank_injective heq
    exact hw.front

/-- No name has come up in groups of later kinds. -/
theorem made_of_later (hwait : Waiting ss) {j : Kind} (hj : k.rank < j.rank) : (made j).nodes ss = [] :=
  hwait.later hj hw.closer_mem

/-- Those that have come up in groups of the kind stand before the end of the window. -/
theorem made_after (hwait : Waiting ss) : (made k).nodes w.after = [] := by
  have hsorted := hwait.sorted k
  rw [hw.nodes_eq (turns k), List.pairwise_append] at hsorted
  have hcloser : none ∈ (turns k).node (.raw w.closer) := by
    rw [hw.closer, Reading.turns_raw, Reading.marks_raw]
    cases k <;> decide
  refine List.eq_nil_iff_forall_not_mem.2 fun name hname => ?_
  have hnone := hsorted.2.2 none (List.mem_append_right _ (List.mem_append_right _ hcloser)) _
    (Reading.some_mem_turns.2 hname) rfl
  cases hnone

theorem kind_group (i : Interior) (params : List Node) : ∃ b, w.group i params = .group b params ∧ b.kind? = some k := by
  refine ⟨_, rfl, ?_⟩
  rw [Brackets.kind?, hw.opener]
  exact opening?_opener k

/-! ### Parameters -/

theorem sublist_param {α : Type} {φ : Reading α} (hφ : φ.SkipsBlanks)
    (hs : ∀ s, s.filter isMark = [','] → φ.node (.raw s) = []) {offset : Int} {p : Param}
    (hp : p ∈ (w.inside (.spaced ',') offset).params) :
    (φ.nodes p.sentences).Sublist (φ.nodes w.interior) ∧ (φ.nodes w.interior).Sublist (φ.nodes ss) := by
  constructor
  · rw [← hφ.nodes_interior hs w offset]
    exact List.sublist_flatten_of_mem (List.mem_map_of_mem hp)
  · rw [hw.nodes_eq φ, List.append_assoc, List.append_assoc, List.append_assoc]
    exact (List.sublist_append_left _ _).trans
      ((List.sublist_append_right _ _).trans (List.sublist_append_right _ _))

/-- The sentences of a parameter wait. No closing bracket of the kind or of an earlier one is left in them, and no name has
come up in groups of later kinds. -/
theorem waiting_param (hwait : Waiting ss) {offset : Int} {p : Param} (hp : p ∈ (w.inside (.spaced ',') offset).params)
    {lexed : List Node} (hl : (lexStage .default p.offset p.sentences).result = .ok lexed) :
    Waiting lexed ∧ (∀ j : Kind, j.rank ≤ k.rank → j.closer ∉ marks.nodes lexed) ∧
      ∀ j : Kind, k.rank < j.rank → (made j).nodes lexed = [] := by
  have hturns (j : Kind) := hw.sublist_param (Reading.skipsBlanks_turns j) (fun _ => Reading.turns_of_comma) hp
  have hmade (j : Kind) := hw.sublist_param (composed_made j).skipsBlanks (fun _ _ => rfl) hp
  have hloose := hw.sublist_param composed_loose.skipsBlanks (fun _ _ => rfl) hp
  have hsentences : Waiting p.sentences := hwait.part (fun j => (hturns j).1.trans (hturns j).2) (hloose.1.trans hloose.2)
  refine ⟨hsentences.lexed hl, fun j hj hmem => ?_, fun j hj => ?_⟩
  · rw [← Reading.none_mem_turns, Reading.nodes_lexStage (Reading.readsLeaves_turns j _) hl] at hmem
    have hinterior := Reading.none_mem_turns.1 ((hturns j).1.subset hmem)
    exact hw.closer_not_mem_front hj (by simp [hinterior])
  · rw [Reading.nodes_lexStage ((composed_made j).readsLeaves _) hl, ← List.sublist_nil, ← hw.made_of_later hwait hj]
    exact (hmade j).1.trans (hmade j).2

/-! ### Collapses -/

variable {l : Language} {offset : Int} {params : List Node}

/-- What the names in groups are after a collapse: those of the parameters by themselves come behind the others. -/
theorem made_collapse (hwait : Waiting ss)
    (hparams : ∀ i : Kind, i.rank ≤ k.rank → (made i).nodes params = (made i).nodes w.interior) (i : Kind) :
    (made i).nodes (w.collapse l offset params) =
      (made i).nodes ss ++ if i = k then params.flatMap (Node.workOrder k.later) else [] := by
  obtain ⟨b, hgroup, hb⟩ := hw.kind_group (w.inside l.grammar.separator offset) params
  rw [collapse, hgroup, Reading.nodes_append, Reading.nodes_cons]
  rcases Nat.lt_trichotomy i.rank k.rank with hlt | heq | hlt
  · have hnode : (made i).node (.group b params) = (made i).nodes w.interior :=
      (Node.namesIn_group_of_later hb hlt params).trans (hparams i hlt.le)
    rw [hnode, if_neg (Kind.ne_of_rank_lt hlt), List.append_nil, hw.made_eq i, List.append_assoc]
  · obtain rfl := rank_injective heq
    have hnode : (made i).node (.group b params) = (made i).nodes w.interior ++ params.flatMap (Node.workOrder i.later) :=
      (Node.namesIn_group hb params).trans (congrArg (· ++ _) (hparams i le_rfl))
    rw [hnode, if_pos rfl, hw.made_eq i, hw.made_after hwait, List.append_nil, List.append_nil, List.append_assoc]
  · have hnode : (made i).node (.group b params) = [] := Node.namesIn_group_of_earlier hb hlt params
    have hnone := hw.made_of_later hwait hlt
    rw [hw.made_eq i, List.append_eq_nil_iff, List.append_eq_nil_iff] at hnone
    rw [hnode, hnone.1.1, hnone.2, hw.made_of_later hwait hlt, if_neg (Kind.ne_of_rank_lt hlt).symm]
    rfl

/-- A collapse tells the names of the parameters behind all others. -/
theorem toldNames_collapse (hwait : Waiting ss)
    (hparams : ∀ i : Kind, i.rank ≤ k.rank → (made i).nodes params = (made i).nodes w.interior) :
    Node.toldNames (w.collapse l offset params) = Node.toldNames ss ++ params.flatMap (Node.workOrder k.later) := by
  have hmade (i : Kind) : (made i).nodes (w.collapse l offset params) =
      (made i).nodes ss ++ if i = k then params.flatMap (Node.workOrder k.later) else [] :=
    hw.made_collapse hwait hparams i
  have hearlier : (k.earlier.flatMap fun j => (made j).nodes (w.collapse l offset params)) =
      k.earlier.flatMap fun j => (made j).nodes ss := by
    refine List.flatMap_congr fun j hj => ?_
    rw [hmade, if_neg (Kind.ne_of_rank_lt (Kind.mem_earlier.1 hj)), List.append_nil]
  have hlater : (k.later.flatMap fun j => (made j).nodes ss) = [] :=
    List.flatMap_eq_nil_iff.2 fun j hj => hw.made_of_later hwait (Kind.mem_later.1 hj)
  have hlater' : (k.later.flatMap fun j => (made j).nodes (w.collapse l offset params)) = [] := by
    refine List.flatMap_eq_nil_iff.2 fun j hj => ?_
    rw [hmade, if_neg (Kind.ne_of_rank_lt (Kind.mem_later.1 hj)).symm, List.append_nil]
    exact hw.made_of_later hwait (Kind.mem_later.1 hj)
  rw [Node.toldNames_eq k, Node.toldNames_eq k, hearlier, hlater, hlater', hmade, if_pos rfl]
  simp only [List.append_nil, List.append_assoc]

/-- The closing brackets that a collapse leaves. -/
theorem marks_collapse_subset : marks.nodes (w.collapse l offset params) ⊆ marks.nodes ss := by
  rw [collapse, Reading.nodes_append, Reading.nodes_cons, hw.nodes_eq marks, Reading.marks_of_not_isRaw rfl]
  intro c hc
  simp only [List.mem_append, List.not_mem_nil, false_or] at hc ⊢
  tauto

/-- **A collapse** leaves a buffer that waits. -/
theorem waiting_collapse (hwait : Waiting ss)
    (hparams : ∀ i : Kind, i.rank ≤ k.rank → (made i).nodes params = (made i).nodes w.interior) :
    Waiting (w.collapse l offset params) where
  later {i j} hij hi := by
    have hi' := hw.marks_collapse_subset hi
    have hlt : k.rank < j.rank := Nat.lt_of_le_of_lt (hw.rank_le hi') hij
    rw [hw.made_collapse hwait hparams, hw.made_of_later hwait hlt, if_neg (Kind.ne_of_rank_lt hlt).symm]
    rfl
  sorted i := by
    obtain ⟨b, hgroup, hb⟩ := hw.kind_group (w.inside l.grammar.separator offset) params
    rw [collapse, hgroup, Reading.nodes_append, Reading.nodes_cons]
    rcases Nat.lt_or_ge k.rank i.rank with hlt | hle
    · have hnode : (turns i).node (.group b params) = [] :=
        congrArg (List.map some) (Node.namesIn_group_of_earlier hb hlt params)
      refine (hwait.sorted i).sublist ?_
      rw [hnode, hw.nodes_eq (turns i)]
      exact (List.sublist_append_left _ _).append (List.Sublist.refl _)
    · -- no closing bracket of the kind is left up to the end of the group
      have hfront : ∀ a ∈ (turns i).nodes w.before ++ (turns i).node (.group b params), a ≠ none := by
        rintro a ha rfl
        rcases List.mem_append.1 ha with ha | ha
        · have hbefore := Reading.none_mem_turns.1 ha
          exact hw.closer_not_mem_front hle (by simp [hbefore])
        · simp [Reading.turns_node, Reading.marks_of_not_isRaw (n := .group b params) rfl] at ha
      have hafter : ((turns i).nodes w.after).Pairwise fun a b => a = none → b = none := by
        refine (hwait.sorted i).sublist ?_
        rw [hw.nodes_eq (turns i)]
        exact List.sublist_append_right _ _
      rw [← List.append_assoc, List.pairwise_append]
      exact ⟨List.pairwise_of_forall_mem_list fun a ha _ _ hnone => absurd hnone (hfront a ha), hafter,
        fun a ha _ _ hnone => absurd hnone (hfront a ha)⟩
  outside := by
    have hnone := hwait.outside
    rw [hw.nodes_eq loose] at hnone
    simp only [List.append_eq_nil_iff] at hnone
    rw [collapse, Reading.nodes_append, Reading.nodes_cons, hnone.1.1, hnone.2]
    rfl

end IsDue

end Window

/-! ## The group stage -/

/-- What a group stage tells about the names it meets. -/
structure Tells (ss out : List Node) (names : List Text) : Prop where
  told : Node.toldNames out = Node.toldNames ss ++ names
  outside : loose.nodes out = []
  /-- The names in groups of kinds that have been made before. -/
  kept : ∀ i : Kind, (∀ j : Kind, j.rank ≤ i.rank → j.closer ∉ marks.nodes ss) → (made i).nodes out = (made i).nodes ss

/-- The names of a parameter by itself: those that its group stage meets, and the variables outside of groups. -/
theorem Tells.workOrder {k : Kind} {lexed grouped folded : List Node} {names : List Text} (h : Tells lexed grouped names)
    (hclosers : ∀ j : Kind, j.rank ≤ k.rank → j.closer ∉ marks.nodes lexed)
    (hnone : ∀ j : Kind, k.rank < j.rank → (made j).nodes lexed = [])
    (hfolded : ∀ i, (made i).nodes folded = (made i).nodes grouped) (offset : Int) :
    (Node.equation .none folded offset).workOrder k.later = names ++ loose.nodes folded := by
  have hkept {i : Kind} (hi : i.rank ≤ k.rank) : (made i).nodes grouped = (made i).nodes lexed :=
    h.kept i fun j hj => hclosers j (hj.trans hi)
  have hearlier : (k.earlier.flatMap fun j => (made j).nodes grouped) = k.earlier.flatMap fun j => (made j).nodes lexed :=
    List.flatMap_congr fun j hj => hkept (Kind.mem_earlier.1 hj).le
  have hlater : (k.later.flatMap fun j => (made j).nodes lexed) = [] :=
    List.flatMap_eq_nil_iff.2 fun j hj => hnone j (Kind.mem_later.1 hj)
  have hnames : (k.later.flatMap fun j => (made j).nodes grouped) = names := by
    have htold := h.told
    rw [Node.toldNames_eq k, Node.toldNames_eq k, hearlier, hkept le_rfl, hlater, List.append_nil] at htold
    exact List.append_cancel_left htold
  rw [Node.workOrder_later, ← hnames, Node.looseNames, Node.looseNamesAll_eq_flatMap]
  refine congrArg (· ++ _) (List.flatMap_congr fun j _ => ?_)
  rw [← hfolded]
  exact Reading.made_equation j .none folded offset

/-- **The group stage** puts the names that it meets behind those that the buffer tells. -/
theorem meets_groupStage (resolve : Text → Option Function) (offset : Int) {ss : List Node} (hwait : Waiting ss) :
    (groupStage ⟨.default, resolve⟩ offset ss).Meets (Tells ss) := by
  induction hn : rawLength ss using Nat.strong_induction_on generalizing offset ss with
  | _ n ih =>
    rw [groupStage_eq]
    split
    · split
      · exact Traced.meets_fail _
      · rintro out ⟨⟩
        exact ⟨(List.append_nil _).symm, hwait.outside, fun _ _ => rfl⟩
    · exact Traced.meets_fail _
    · rename_i w hw
      obtain ⟨k, hdue⟩ := Window.exists_isDue hw
      refine Traced.Meets.emit rfl ?_
      refine Traced.Meets.bind ((Traced.meets_onEach (Node.workOrder k.later)
        (P := fun p n => ∀ i : Kind, i.rank ≤ k.rank → (made i).node n = (made i).nodes p.sentences)
        fun p hp => ?_).mapError _) ?_
      · unfold paramStage
        split
        · exact fun _ h => by cases h
        · rename_i lexed hl
          obtain ⟨hwait', hclosers, hnone⟩ := hdue.waiting_param hwait hp hl
          have hlexed : (⟨.ok (), .entered p.field :: (lexStage .default p.offset p.sentences).events⟩ :
              Traced Failure Unit).Meets fun _ names => names = [] :=
            fun _ _ => metVariables_lexStage .default p.offset p.sentences
          refine hlexed.bind ?_
          rintro _ _ rfl
          refine (ih _ (hn ▸ rawLength_param_lt hw hp hl) p.offset hwait' rfl).bind ?_
          rintro grouped names htells
          refine (meets_foldStage resolve p.offset htells.outside).bind ?_
          rintro folded _ ⟨rfl, hfolded⟩
          refine Traced.Meets.emit rfl (Traced.meets_pure ⟨?_, fun i hi => ?_⟩)
          · rw [htells.workOrder hclosers hnone hfolded, List.append_nil, List.nil_append]
          · rw [Reading.made_equation, hfolded, htells.kept i fun j hj => hclosers j (hj.trans hi),
              Reading.nodes_lexStage ((composed_made i).readsLeaves _) hl]
      · rintro params _ ⟨rfl, hparams⟩
        have hmade (i : Kind) (hi : i.rank ≤ k.rank) : (made i).nodes params = (made i).nodes w.interior :=
          Reading.made_params (hparams.imp fun p n h => h i hi)
        refine Traced.Meets.emit rfl ?_
        refine (ih _ (hn ▸ rawLength_collapse_lt hw) offset (hdue.waiting_collapse hwait hmade) rfl).imp ?_
        intro out names htells
        refine ⟨?_, htells.outside, fun i hi => ?_⟩
        · rw [htells.told, hdue.toldNames_collapse hwait hmade, List.append_assoc]
        · have hne : i ≠ k := by
            rintro rfl
            exact hi i le_rfl hdue.closer_mem
          have hkept := htells.kept i fun j hj hmem => hi j hj (hdue.marks_collapse_subset hmem)
          rw [hkept, hdue.made_collapse hwait hmade, if_neg hne, List.append_nil]

/-! ## The parse -/

/-- **The variables that a parse meets** come in the order of work on the tree. -/
theorem metVariables_parseText (resolve : Text → Option Function) {t : Text} {out : List Node}
    (h : (parseText ⟨.default, resolve⟩ t).result = .ok out) :
    metVariables (parseText ⟨.default, resolve⟩ t).events = (Node.equation .none out 0).workOrder Kind.all := by
  have hmeets : (parseText ⟨.default, resolve⟩ t).Meets fun out names =>
      names = (Node.equation .none out 0).workOrder Kind.all := by
    have hlexed : (lexStage .default 0 (Node.raws t)).Meets fun lexed names =>
        names = [] ∧ Waiting lexed ∧ Node.toldNames lexed = [] := by
      refine fun lexed hl => ⟨metVariables_lexStage .default 0 _, (waiting_raws t).lexed hl, ?_⟩
      refine List.flatMap_eq_nil_iff.2 fun k _ => ?_
      rw [Reading.nodes_lexStage ((composed_made k).readsLeaves _) hl, Reading.nodes_raws, Reading.made_raw]
    refine hlexed.bind ?_
    rintro lexed _ ⟨rfl, hwait, hnone⟩
    refine (meets_groupStage resolve 0 hwait).bind ?_
    rintro grouped names htells
    refine (meets_foldStage resolve 0 htells.outside).imp ?_
    rintro folded _ ⟨rfl, hfolded⟩
    have hnames : (Kind.all.flatMap fun k => (made k).nodes folded) = names := by
      have htold := htells.told
      rw [hnone, List.nil_append] at htold
      rw [← htold]
      exact List.flatMap_congr fun k _ => hfolded k
    rw [Node.workOrder_all, List.nil_append, ← hnames, Node.looseNames, Node.looseNamesAll_eq_flatMap]
    exact congrArg (· ++ _) (List.flatMap_congr fun k _ => (Reading.made_equation k .none folded 0).symm)
  exact hmeets out h

end FormulaLang
