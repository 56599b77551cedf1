import FormulaLang.Proofs.List.Marked
import FormulaLang.Proofs.Nesting.Fields

/-!
# Commas within brackets

A nested text leaves every stack of open brackets as it was (`Nested.foldlM_advance`). A text is sealed when it is nested
and each of its commas stands within brackets of its own (`Sealed`). The text of sentences is sealed when the texts of their
nodes are, their marks are nested and no comma is left in their raw text (`sealed_sourceTexts`).
-/

namespace FormulaLang

open Node (sourceTexts)
open Reading (marks)

namespace Nesting

variable {S S' : List Kind} {s t : Text} {k : Kind} {c : Char}

/-! ## Nested texts -/

theorem advance_comma (S : List Kind) : advance S ',' = some S := by
  simp [advance, opening?_comma, closing?_comma]

theorem advance_of_not_isMark (h : isMark c = false) (S : List Kind) : advance S c = some S := by
  have hcomma : c ≠ ',' := by
    rintro rfl
    cases h
  rw [← check_of_not_isMark h S, check, if_neg hcomma]

/-- Only brackets and commas count. -/
theorem foldlM_advance_filter (S : List Kind) (t : Text) : (t.filter isMark).foldlM advance S = t.foldlM advance S := by
  induction t generalizing S with
  | nil => rfl
  | cons c t ih =>
    cases h : isMark c with
    | true =>
      rw [List.filter_cons_of_pos h, List.foldlM_cons, List.foldlM_cons]
      exact bind_congr fun S' => ih S'
    | false =>
      rw [List.filter_cons_of_neg (by simp [h]), List.foldlM_cons, advance_of_not_isMark h]
      exact ih S

theorem advance_append_stack (h : advance S c = some S') (U : List Kind) : advance (S ++ U) c = some (S' ++ U) := by
  unfold advance at h ⊢
  split at h
  · cases h
    rfl
  · split at h
    · cases S with
      | nil => cases h
      | cons j outer =>
        simp only [List.cons_append] at h ⊢
        split at h
        · rename_i hjk
          cases h
          rw [if_pos hjk]
        · cases h
    · cases h
      rfl

/-- What lies deeper on the stack does not matter. -/
theorem foldlM_advance_append_stack (h : t.foldlM advance S = some S') (U : List Kind) :
    t.foldlM advance (S ++ U) = some (S' ++ U) := by
  induction t generalizing S with
  | nil =>
    cases h
    rfl
  | cons c t ih =>
    rw [List.foldlM_cons] at h ⊢
    obtain ⟨S₁, hc, ht⟩ := Option.bind_eq_some_iff.1 h
    rw [advance_append_stack hc]
    exact ih ht

/-- A nested text leaves the open brackets around it as they are. -/
theorem Nested.foldlM_advance (h : Nested t) (S : List Kind) : t.foldlM advance S = some S :=
  foldlM_advance_append_stack h S

theorem openAfter_append (s t : Text) : openAfter (s ++ t) = (openAfter s).bind fun S => t.foldlM advance S :=
  List.foldlM_append

theorem Nested.append (hs : Nested s) (ht : Nested t) : Nested (s ++ t) := by
  rw [Nested, openAfter_append, hs]
  exact ht

theorem nested_comma : Nested [','] := by
  rw [Nested, openAfter, List.foldlM_cons, advance_comma]
  rfl

theorem Nested.pair (h : Nested t) (k : Kind) : Nested (k.opener :: t ++ [k.closer]) := by
  have hopen : advance [] k.opener = some [k] := by simp [advance]
  have hclose : advance [k] k.closer = some [] := by simp [advance]
  rw [Nested, openAfter_append, openAfter, List.foldlM_cons, hopen]
  show ((t.foldlM advance [k]).bind fun S => [k.closer].foldlM advance S) = some []
  rw [h.foldlM_advance, Option.bind_some, List.foldlM_cons, hclose]
  rfl

/-- What comes first in a nested text leaves some brackets open. -/
theorem Nested.openAfter_isSome (h : Nested (s ++ t)) : ∃ S, openAfter s = some S := by
  rw [Nested, openAfter_append] at h
  obtain ⟨S, hS, -⟩ := Option.bind_eq_some_iff.1 h
  exact ⟨S, hS⟩

/-! ## Sealed texts -/

/-- The text is nested, and no comma of it stands outside of its brackets. -/
structure Sealed (t : Text) : Prop where
  nested : Nested t
  guarded : ∀ x y, t = x ++ ',' :: y → openAfter x ≠ some []

theorem sealed_of_not_isMark (h : ∀ c ∈ t, isMark c = false) : Sealed t where
  nested := by
    have hnone : t.filter isMark = [] := List.filter_eq_nil_iff.2 fun c hc => by simp [h c hc]
    rw [Nested, openAfter, ← foldlM_advance_filter, hnone]
    rfl
  guarded := by
    rintro x y rfl
    have hcomma := h ',' (by simp)
    cases hcomma

/-- **A pair of brackets** around a nested text seals it. -/
theorem Nested.sealed_pair (h : Nested t) (k : Kind) : Sealed (k.opener :: t ++ [k.closer]) where
  nested := h.pair k
  guarded := by
    intro x y hxy hopen
    cases x with
    | nil => exact opener_ne_comma k (List.cons.inj hxy).1
    | cons c x =>
      rw [List.cons_append, List.cons_append, List.cons.injEq] at hxy
      obtain ⟨rfl, hxy⟩ := hxy
      obtain ⟨-, hcomma, -⟩ | ⟨m, -, hm⟩ | ⟨m, rfl, -⟩ := append_cons_eq_cases hxy
      · exact closer_ne_comma k hcomma
      · simp at hm
      · obtain ⟨U, hU⟩ := h.openAfter_isSome
        have hadvance : advance [] k.opener = some [k] := by simp [advance]
        rw [openAfter, List.foldlM_cons, hadvance] at hopen
        have hbelow : some (U ++ [k]) = some [] := (foldlM_advance_append_stack hU [k]).symm.trans hopen
        simp at hbelow

end Nesting

open Nesting

/-! ## Sealed nodes -/

/-- The text of a node is sealed. Raw text may be anything. -/
def Node.IsSealed (n : Node) : Prop :=
  n.isRaw = false → Sealed n.sourceText

/-- The brackets of sealed nodes do not count. -/
theorem foldlM_advance_sourceTexts {ss : List Node} (h : ∀ n ∈ ss, n.IsSealed) (S : List Kind) :
    (sourceTexts ss).foldlM advance S = (marks.nodes ss).foldlM advance S := by
  induction ss generalizing S with
  | nil => rfl
  | cons n ss ih =>
    rw [List.forall_mem_cons] at h
    have hn : n.sourceText.foldlM advance S = (marks.node n).foldlM advance S := by
      cases hraw : n.isRaw with
      | true =>
        cases n with
        | raw t => exact (foldlM_advance_filter S t).symm
        | _ => cases hraw
      | false =>
        rw [Reading.marks_of_not_isRaw hraw, (h.1 hraw).nested.foldlM_advance]
        rfl
    rw [sourceTexts, Reading.nodes_cons, List.foldlM_append, List.foldlM_append, hn]
    exact bind_congr fun S' => ih h.2 S'

theorem nested_sourceTexts_iff {ss : List Node} (h : ∀ n ∈ ss, n.IsSealed) :
    Nested (sourceTexts ss) ↔ Nested (marks.nodes ss) := by
  rw [Nested, Nested, openAfter, openAfter, foldlM_advance_sourceTexts h]

/-- A comma that is not in raw text is within a node. -/
theorem comma_in_node {ss : List Node} (hcomma : ',' ∉ marks.nodes ss) {x y : Text} (h : sourceTexts ss = x ++ ',' :: y) :
    ∃ front n u v, n ∈ ss ∧ n.isRaw = false ∧ n.sourceText = u ++ ',' :: v ∧ x = sourceTexts front ++ u := by
  induction ss generalizing x with
  | nil => simp [sourceTexts] at h
  | cons n ss ih =>
    rw [Reading.nodes_cons, List.mem_append, not_or] at hcomma
    have hbehind {m : Text} (hx : x = n.sourceText ++ m) (hm : sourceTexts ss = m ++ ',' :: y) :
        ∃ front k u v, k ∈ n :: ss ∧ k.isRaw = false ∧ k.sourceText = u ++ ',' :: v ∧ x = sourceTexts front ++ u := by
      obtain ⟨front, k, u, v, hk, hraw, htext, rfl⟩ := ih hcomma.2 hm
      exact ⟨n :: front, k, u, v, List.mem_cons_of_mem n hk, hraw, htext, by rw [hx, sourceTexts, List.append_assoc]⟩
    rw [sourceTexts] at h
    rcases List.append_eq_append_iff.1 h with ⟨m, hx, hm⟩ | ⟨m, hn, hm⟩
    · exact hbehind hx hm
    · cases m with
      | nil =>
        rw [List.append_nil] at hn
        exact hbehind (m := []) (by rw [hn, List.append_nil]) hm.symm
      | cons c m =>
        obtain ⟨rfl, -⟩ := List.cons.inj hm
        refine ⟨[], n, x, m, List.mem_cons_self, ?_, hn, rfl⟩
        rcases hraw : n.isRaw with _ | _
        · rfl
        · cases n with
          | raw t =>
            rw [Node.sourceText] at hn
            refine absurd ?_ hcomma.1
            rw [Reading.marks_raw, hn]
            simp [isMark]
          | _ => cases hraw

/-- **Sentences** are sealed when their nodes are, their marks are nested, and no comma is left between the nodes. -/
theorem sealed_sourceTexts {ss : List Node} (h : ∀ n ∈ ss, n.IsSealed) (hmarks : Nested (marks.nodes ss))
    (hcomma : ',' ∉ marks.nodes ss) : Sealed (sourceTexts ss) where
  nested := (nested_sourceTexts_iff h).2 hmarks
  guarded := by
    intro x y hxy hopen
    obtain ⟨front, n, u, v, hn, hraw, htext, rfl⟩ := comma_in_node hcomma hxy
    have hsealed := h n hn hraw
    -- the brackets of the node that are open at the comma are open at the end of the whole text before it
    obtain ⟨U, hU⟩ := (htext ▸ hsealed.nested).openAfter_isSome
    rw [openAfter_append] at hopen
    obtain ⟨S, -, hu⟩ := Option.bind_eq_some_iff.1 hopen
    have hsame := (foldlM_advance_append_stack hU S).symm.trans hu
    rw [Option.some.injEq] at hsame
    exact hsealed.guarded u v htext (hU.trans (congrArg some (List.append_eq_nil_iff.1 hsame).1))

/-- The marks of an interior are nested when those of its fields are. -/
theorem nested_joinFields {f : Text} {fs : List Text} (h : ∀ g ∈ f :: fs, Nested g) : Nested (joinFields f fs) := by
  rw [List.forall_mem_cons] at h
  rw [joinFields]
  refine h.1.append ?_
  induction fs with
  | nil => rfl
  | cons g fs ih =>
    rw [List.forall_mem_cons] at h
    rw [List.flatMap_cons, ← List.singleton_append, List.append_assoc]
    exact nested_comma.append (h.2.1.append (ih ⟨h.1, h.2.2⟩))

end FormulaLang
