import FormulaLang.Proofs.Literal.RoundTrip
import FormulaLang.Proofs.Parse.Lexemes
import FormulaLang.Proofs.Spacing.Grouping
import FormulaLang.Proofs.Spacing.Whole

/-!
# White space between tokens

White space is put among the atoms of a text, next to leaves, brackets, commas, white space and the ends, and so never within
the symbol of an operator (`Spaced`). When the new text has the same leaves, it is lexed to the atoms among which the white
space was put (`Spaced.eq_atoms`). Squeezing takes this white space away (`Spaced.squeezed_eq`), so that the visible sentences
are the same (`Spaced.visible_eq`), and the new text has the literal and the values of the old one (`Formula.parse_spaced`).
-/

namespace FormulaLang

open Nesting (isMark)
open Node (bare visible sourceTexts)
open Reading (atoms)

/-! ## Insertions -/

/-- White space beside the atom parts no operator: it is a node, a bracket, a comma or white space. -/
def Node.isLoose : Node → Bool
  | raw [c] => isMark c || Text.isBlank c
  | raw _ => false
  | _ => true

/-- The second list holds the atoms of the first and, between them, characters of white space that are put next to a loose atom
or to an end of the list. Whether such an atom, or the start of all, stands in front of the lists is given by `free`. -/
inductive Spaced : (free : Bool) → List Node → List Node → Prop
  | nil {free : Bool} : Spaced free [] []
  | keep {free : Bool} (n : Node) {ws xs : List Node} (h : Spaced n.isLoose ws xs) : Spaced free (n :: ws) (n :: xs)
  | blank {free : Bool} {c : Char} (hc : Text.isBlank c = true) {ws xs : List Node}
      (hplace : free = true ∨ ∀ n ∈ ws.head?, n.isLoose = true) (h : Spaced free ws xs) : Spaced free ws (.raw [c] :: xs)

namespace Spaced

variable {free : Bool} {ws xs : List Node}

/-- The nodes stay as they are. -/
theorem filter_eq (h : Spaced free ws xs) : (xs.filter fun n => !n.isRaw) = ws.filter fun n => !n.isRaw := by
  induction h with
  | nil => rfl
  | keep n _ ih => rw [List.filter_cons, List.filter_cons, ih]
  | blank hc _ _ ih => exact ih

theorem mem_cases (h : Spaced free ws xs) : ∀ n ∈ xs, n ∈ ws ∨ ∃ c, n = .raw [c] ∧ Text.isBlank c = true := by
  induction h with
  | nil => simp
  | keep n _ ih =>
    rw [List.forall_mem_cons]
    exact ⟨.inl List.mem_cons_self, fun m hm => (ih m hm).imp_left (List.mem_cons_of_mem n)⟩
  | blank hc _ _ ih => exact List.forall_mem_cons.2 ⟨.inr ⟨_, rfl, hc⟩, ih⟩

end Spaced

/-! ## Squeezed atoms -/

/-- The atoms of a buffer without white space that does not count, behind what stands in front of it. -/
def Node.squeezed : Text.Front → List Node → List Node
  | _, [] => []
  | f, raw t :: ss => (Text.squeezeFrom f t).map (fun c => raw [c]) ++ squeezed (t.foldl Text.Front.next f) ss
  | _, n :: ss => n.bare :: squeezed .free ss

namespace Node

variable {f : Text.Front} {ss : List Node}

theorem squeezed_cons_node {n : Node} (h : n.isRaw = false) : squeezed f (n :: ss) = n.bare :: squeezed .free ss := by
  cases n with
  | raw t => cases h
  | _ => rfl

theorem squeezed_of_head (h : ∀ n ∈ ss.head?, n.isRaw = false) : squeezed f ss = squeezed .free ss := by
  cases ss with
  | nil => rfl
  | cons n ss => rw [squeezed_cons_node (h n rfl), squeezed_cons_node (h n rfl)]

theorem squeezed_map_raw (t : Text) :
    squeezed f ((t.map fun c => raw [c]) ++ ss) =
      (Text.squeezeFrom f t).map (fun c => raw [c]) ++ squeezed (t.foldl Text.Front.next f) ss := by
  induction t generalizing f with
  | nil => rfl
  | cons c t ih =>
    rw [List.map_cons, List.cons_append, squeezed, List.foldl_cons, List.foldl_nil, ih, List.foldl_cons, Text.squeezeFrom,
      Text.squeezeFrom, Text.squeezeFrom, List.append_nil, List.map_append, List.append_assoc]

/-- The atoms of a buffer are squeezed as the buffer is. -/
theorem squeezed_atoms (ss : List Node) : squeezed f (Reading.atoms.nodes ss) = squeezed f ss := by
  induction ss generalizing f with
  | nil => rfl
  | cons n ss ih =>
    rw [Reading.nodes_cons]
    rcases n.raw_or_not with ⟨t, rfl⟩ | hn
    · rw [Reading.atoms_raw, squeezed_map_raw, ih, squeezed]
    · rw [Reading.atoms_of_not_isRaw hn, List.singleton_append, squeezed_cons_node hn, squeezed_cons_node hn, ih]

end Node

namespace Fused

variable {ss : List Node}

/-- The front of the buffer behind raw text does not matter, because a node follows. -/
theorem squeezed_behind_raw {t : Text} (h : Fused (.raw t :: ss)) (f : Text.Front) :
    Node.squeezed f ss = Node.squeezed .free ss :=
  Node.squeezed_of_head fun n hn => ((cons_iff.1 h).2.2 n hn).resolve_left (by simp [Node.isRaw])

/-- The squeezed atoms of a fused buffer are the atoms of its visible sentences. -/
theorem squeezed_eq (h : Fused ss) : Node.squeezed .free ss = atoms.nodes (visible ss) := by
  induction ss with
  | nil => rfl
  | cons n ss ih =>
    have hss : Fused ss := (cons_iff.1 h).2.1
    rcases n.raw_or_not with ⟨t, rfl⟩ | hn
    · rw [Node.squeezed, h.squeezed_behind_raw, ih hss, Node.visible_cons_raw, Reading.nodes_append, Reading.nodes_raws,
        Reading.atoms_raw, Text.squeeze]
    · rw [Node.squeezed_cons_node hn, ih hss, Node.visible_cons_node hn, Reading.nodes_cons,
        Reading.atoms_of_not_isRaw (n.isRaw_bare.trans hn), List.singleton_append]

theorem visible (h : Fused ss) : Fused (Node.visible ss) := by
  induction ss with
  | nil => exact nil
  | cons n ss ih =>
    obtain ⟨-, hss, hhead⟩ := cons_iff.1 h
    rcases n.raw_or_not with ⟨t, rfl⟩ | hn
    · rw [Node.visible_cons_raw]
      refine append_iff.2 ⟨.raws _, ih hss, fun m _ k hk => .inr ?_⟩
      cases ss with
      | nil => cases hk
      | cons n ss =>
        have hn : n.isRaw = false := (hhead n rfl).resolve_left (by simp [Node.isRaw])
        rw [Node.visible_cons_node hn] at hk
        cases hk
        exact n.isRaw_bare.trans hn
    · rw [Node.visible_cons_node hn]
      exact cons_node (n.isRaw_bare.trans hn) (ih hss)

end Fused

namespace Spaced

variable {free : Bool} {ws xs : List Node}

/-- Behind loose raw text stands no character of an operator. -/
theorem foldl_ne_joined {t : Text} (h : (Node.raw t).isLoose = true) (f : Text.Front) :
    t.foldl Text.Front.next f ≠ .joined := by
  obtain _ | ⟨c, _ | ⟨d, t⟩⟩ := t
  · cases h
  · rw [List.foldl_cons, List.foldl_nil]
    rcases Bool.or_eq_true_iff.1 h with hmark | hblank
    · rw [Text.Front.next_of_isMark hmark]
      simp
    · exact Text.Front.next_ne_joined_of_isBlank hblank
  · cases h

/-- White space in front of a loose atom, or of nothing, makes no difference. -/
theorem squeezed_blank {c : Char} (hc : Text.isBlank c = true) (h : ∀ n ∈ ws.head?, n.isLoose = true) (f : Text.Front) :
    Node.squeezed (f.next c) ws = Node.squeezed f ws := by
  cases ws with
  | nil => rfl
  | cons n ws =>
    have hn : n.isLoose = true := h n rfl
    unfold Node.isLoose at hn
    split at hn
    · rename_i d
      have htext (f : Text.Front) : Text.squeezeFrom f [d] = if isMark d then [d] else [] := by
        rw [Text.squeezeFrom, Text.squeezeFrom, List.append_nil]
        split
        · exact Text.Front.text_of_isMark ‹_›
        · exact Text.Front.text_of_isBlank (by simp_all)
      rw [Node.squeezed, Node.squeezed, htext, htext, List.foldl_cons, List.foldl_nil, List.foldl_cons, List.foldl_nil,
        Text.Front.next_next_of_isBlank hc]
    · cases hn
    · have hraw : n.isRaw = false := by
        cases n with
        | raw t => simp_all
        | _ => rfl
      rw [Node.squeezed_cons_node hraw, Node.squeezed_cons_node hraw]

/-- **White space** that is put among atoms is squeezed away. -/
theorem squeezed_eq (h : Spaced free ws xs) {f : Text.Front} (hf : free = true → f ≠ .joined) :
    Node.squeezed f xs = Node.squeezed f ws := by
  -- where white space may be put behind what stands in front, no operator is under way
  induction h generalizing f with
  | nil => rfl
  | keep n _ ih =>
    rcases n.raw_or_not with ⟨t, rfl⟩ | hn
    · rw [Node.squeezed, Node.squeezed, ih fun hloose => foldl_ne_joined hloose f]
    · rw [Node.squeezed_cons_node hn, Node.squeezed_cons_node hn, ih (by simp)]
  | blank hc hplace _ ih =>
    rw [Node.squeezed, Text.squeezeFrom, Text.squeezeFrom, Text.Front.text_of_isBlank hc, List.foldl_cons, List.foldl_nil,
      ih fun _ => Text.Front.next_ne_joined_of_isBlank hc]
    rcases hplace with hfree | hhead
    · rw [Text.Front.next_of_isBlank (hf hfree) hc]
      rfl
    · exact squeezed_blank hc hhead f

/-! ## Lexed texts -/

variable {t : Text} {ts us : List Node}

/-- **A text with white space put in** is lexed to the atoms with the white space, when the leaves are the same. -/
theorem eq_atoms (ht : lexText Grammar.defaultLeaves t = .ok ts) (h : Spaced true (atoms.nodes ts) ws)
    (hu : lexText Grammar.defaultLeaves (sourceTexts ws) = .ok us)
    (hleaves : (us.filter fun n => !n.isRaw) = ts.filter fun n => !n.isRaw) : ws = atoms.nodes us := by
  have hlexemes : ∀ n ∈ ws, n.IsLexeme := by
    intro n hn
    rcases h.mem_cases n hn with hmem | ⟨c, rfl, hc⟩
    · exact Reading.isLexeme_of_lexText ht n hmem
    · exact .char (Pattern.isLeafStart_of_isBlank hc)
  refine Node.eq_of_sourceTexts hlexemes (Reading.isLexeme_of_lexText hu) ?_ ?_
  · rw [h.filter_eq, Reading.filter_atoms, Reading.filter_atoms, hleaves]
  · rw [Reading.sourceTexts_atoms, sourceTexts_lexText hu]

/-- **The visible sentences** are those of the text itself. -/
theorem visible_eq (ht : lexText Grammar.defaultLeaves t = .ok ts) (h : Spaced true (atoms.nodes ts) ws)
    (hu : lexText Grammar.defaultLeaves (sourceTexts ws) = .ok us)
    (hleaves : (us.filter fun n => !n.isRaw) = ts.filter fun n => !n.isRaw) : visible us = visible ts := by
  have hts := fused_lexText ht
  have hus := fused_lexText hu
  refine hus.visible.eq_of_atoms hts.visible ?_
  rw [← hus.squeezed_eq, ← hts.squeezed_eq, ← Node.squeezed_atoms us, ← h.eq_atoms ht hu hleaves,
    h.squeezed_eq (by simp), Node.squeezed_atoms]

end Spaced

/-! ## Parsing -/

/-- **Texts with the same visible sentences** are parsed to the same bare tree. -/
theorem parseText_visible {l : Language} (hl : l.grammar = .default) {t u : Text} {ts us : List Node}
    (ht : lexText Grammar.defaultLeaves t = .ok ts) (hu : lexText Grammar.defaultLeaves u = .ok us)
    (hvisible : visible us = visible ts) {n : Node} (hn : (parseText l t).result = .ok [n]) (hraw : n.isRaw = false) :
    ∃ n', (parseText l u).result = .ok [n'] ∧ n'.bare = n.bare := by
  have hleaves : l.grammar.leaves = Grammar.defaultLeaves := congrArg Grammar.leaves hl
  obtain ⟨lexed, grouped, hlexed, hgroup, hfold⟩ := parseBuffer_ok_iff_stages.1 hn
  cases ht.symm.trans (hleaves ▸ lexStage_raws_ok_iff.1 hlexed)
  have hne : visible grouped ≠ [] := by
    rw [foldStage_ok_iff, hl] at hfold
    exact visible_ne_nil_of_foldTiers hfold (List.mem_singleton_self n) hraw
  obtain ⟨grouped', out', hgroup', hfold', hbare⟩ := stages_visible hl (fused_lexText ht) (lexed_lexText ht) (fused_lexText hu)
    (lexed_lexText hu) hvisible hgroup (groupStage_visible hl hgroup) hne hfold 0
  obtain ⟨n', rfl, hn'⟩ := List.map_eq_singleton_iff.1 hbare
  have hlexed' : (lexStage l.grammar 0 (Node.raws u)).result = .ok us := lexStage_raws_ok_iff.2 (hleaves ▸ hu)
  exact ⟨n', parseBuffer_ok_iff_stages.2 ⟨us, grouped', hlexed', hgroup', hfold'⟩, hn'⟩

namespace Formula

/-- **White space between tokens** changes neither the literal of a formula nor its values, when every equation of its tree
holds one sentence, a node. -/
theorem parse_spaced (resolve : Text → Option Function) {t : Text} (hparse : (parse ⟨.default, resolve⟩ t).failure = none)
    (hwhole : ∀ n ∈ (parse ⟨.default, resolve⟩ t).formula.root.walk, n.isWhole = true) {ts us ws : List Node}
    (ht : lexText Grammar.defaultLeaves t = .ok ts) (hspaced : Spaced true (atoms.nodes ts) ws)
    (hu : lexText Grammar.defaultLeaves (sourceTexts ws) = .ok us)
    (hleaves : (us.filter fun n => !n.isRaw) = ts.filter fun n => !n.isRaw) :
    (parse ⟨.default, resolve⟩ (sourceTexts ws)).failure = none ∧
      (parse ⟨.default, resolve⟩ (sourceTexts ws)).formula.literal = (parse ⟨.default, resolve⟩ t).formula.literal ∧
      (∀ name, name ∈ (parse ⟨.default, resolve⟩ (sourceTexts ws)).formula.slots.map (·.name) ↔
        name ∈ (parse ⟨.default, resolve⟩ t).formula.slots.map (·.name)) ∧
      ∀ {σ : Type} (host : Host σ) (bindings : List (Text × Value)),
        ((parse ⟨.default, resolve⟩ (sourceTexts ws)).formula.bindEach bindings).value host =
          ((parse ⟨.default, resolve⟩ t).formula.bindEach bindings).value host := by
  obtain ⟨out, hout⟩ := parse_failure_eq_none_iff.1 hparse
  rw [root_parse_of_ok hout] at hwhole
  obtain ⟨n, rfl, hraw⟩ := Node.sentence_of_isWhole (hwhole _ (Node.mem_walk_self rfl))
  obtain ⟨n', hout', hbare⟩ := parseText_visible rfl ht hu (hspaced.visible_eq ht hu hleaves) hout hraw
  have hroots : (Node.equation .none [n'] 0).bare = (Node.equation .none [n] 0).bare := by
    rw [bare, bare, Node.bareAll, Node.bareAll, Node.bareAll, Node.bareAll, hbare]
  obtain ⟨hliteral, halike⟩ := Node.alike_of_bare (parsed_parseText rfl hout) (parsed_parseText rfl hout') hwhole hroots
  refine ⟨parse_failure_eq_none_iff.2 ⟨_, hout'⟩, ?_, parse_alike distinctBrackets_default hout hout' halike⟩
  rw [literal, literal, root_parse_of_ok hout, root_parse_of_ok hout', hliteral]

theorem parse_spaced_call :
    (parse .default " - max( x ,\ty)\n".toList).failure = none ∧
      (parse .default " - max( x ,\ty)\n".toList).formula.literal = (parse .default "-max(x,y)".toList).formula.literal ∧
      (∀ name, name ∈ (parse .default " - max( x ,\ty)\n".toList).formula.slots.map (·.name) ↔
        name ∈ (parse .default "-max(x,y)".toList).formula.slots.map (·.name)) ∧
      ∀ {σ : Type} (host : Host σ) (bindings : List (Text × Value)),
        ((parse .default " - max( x ,\ty)\n".toList).formula.bindEach bindings).value host =
          ((parse .default "-max(x,y)".toList).formula.bindEach bindings).value host := by
  have hmax : Pattern.IsName ['m', 'a', 'x'] := ⟨⟨_, _, rfl, by decide, List.all_eq_true.1 rfl⟩, rfl, rfl⟩
  have hx : Pattern.IsName ['x'] := ⟨⟨_, _, rfl, by decide, List.all_eq_true.1 rfl⟩, rfl, rfl⟩
  have hy : Pattern.IsName ['y'] := ⟨⟨_, _, rfl, by decide, List.all_eq_true.1 rfl⟩, rfl, rfl⟩
  generalize ht : "-max(x,y)".toList = t
  generalize hu : " - max( x ,\ty)\n".toList = u
  have hparse : (parse .default t).failure = none := by
    subst ht
    exact Option.isNone_iff_eq_none.1 (by decide +kernel)
  have hwhole : (parse .default t).formula.root.walk.all (·.isWhole) = true := by
    subst ht
    decide +kernel
  -- the atoms of the two texts
  obtain ⟨ts, hts, hatoms⟩ : Lexes t [.raw ['-'], .identifier .none ['m', 'a', 'x'], .raw ['('], .identifier .none ['x'],
      .raw [','], .identifier .none ['y'], .raw [')']] := by
    have htext : t = '-' :: (['m', 'a', 'x'] ++ '(' :: (['x'] ++ ',' :: (['y'] ++ [')']))) := by
      subst ht
      decide +kernel
    rw [htext]
    refine .cons (by decide) (.name hmax (Pattern.stopsWord_cons (by decide) _) (.cons (by decide) ?_))
    refine .name hx (Pattern.stopsWord_cons (by decide) _) (.cons (by decide) ?_)
    exact .name hy (Pattern.stopsWord_cons (by decide) _) (.cons (by decide) .nil)
  obtain ⟨us, hus, hatoms'⟩ : Lexes u [.raw [' '], .raw ['-'], .raw [' '], .identifier .none ['m', 'a', 'x'], .raw ['('],
      .raw [' '], .identifier .none ['x'], .raw [' '], .raw [','], .raw ['\t'], .identifier .none ['y'], .raw [')'],
      .raw ['\n']] := by
    have htext : u = ' ' :: '-' :: ' ' :: (['m', 'a', 'x'] ++ '(' :: ' ' :: (['x'] ++ ' ' :: ',' :: '\t' ::
        (['y'] ++ [')', '\n']))) := by
      subst hu
      decide +kernel
    rw [htext]
    refine .cons (by decide) (.cons (by decide) (.cons (by decide) (.name hmax (Pattern.stopsWord_cons (by decide) _) ?_)))
    refine .cons (by decide) (.cons (by decide) (.name hx (Pattern.stopsWord_cons (by decide) _) ?_))
    refine .cons (by decide) (.cons (by decide) (.cons (by decide) (.name hy (Pattern.stopsWord_cons (by decide) _) ?_)))
    exact .cons (by decide) (.cons (by decide) .nil)
  have hspaced : Spaced true (atoms.nodes ts) (atoms.nodes us) := by
    rw [hatoms, hatoms']
    refine .blank (by decide) (.inl rfl) (.keep _ (.blank (by decide) (.inr (by simp [Node.isLoose])) (.keep _ (.keep _ ?_))))
    refine .blank (by decide) (.inl rfl) (.keep _ (.blank (by decide) (.inl rfl) (.keep _ ?_)))
    exact .blank (by decide) (.inl rfl) (.keep _ (.keep _ (.blank (by decide) (.inl rfl) .nil)))
  have hleaves : (us.filter fun n => !n.isRaw) = ts.filter fun n => !n.isRaw := by
    rw [← Reading.filter_atoms us, ← Reading.filter_atoms ts, hatoms, hatoms']
    rfl
  have htext : sourceTexts (atoms.nodes us) = u := by
    rw [Reading.sourceTexts_atoms, sourceTexts_lexText hus]
  rw [← htext] at hus ⊢
  exact parse_spaced Registry.initial.resolve? hparse (List.all_eq_true.1 hwhole) hts hspaced hus hleaves

end Formula

end FormulaLang
