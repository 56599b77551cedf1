import FormulaLang.Parse.Bracket

/-!
# The next group of a buffer

What the search for the next group has found (`nextGroup_window_cases`): with brackets of single, different characters the
window is cut out at the first closing bracket and the last opening one before it, and no kind of bracket that comes earlier
in the list has a closing bracket left.
-/

namespace FormulaLang

/-- Every bracket is a single character, and the two of a pair differ. -/
def DistinctBrackets (brackets : List (Text × Text)) : Prop :=
  ∀ p ∈ brackets, ∃ a b : Char, a ≠ b ∧ p = ([a], [b])

theorem Text.splitLast_of_ne {a b : Char} (h : a ≠ b) : Text.splitLast [a] [b] = none := by
  rw [Text.splitLast_singleton, Text.breakLast_eq_none]
  simpa using h

/-! ## What the search finds -/

/-- The window between the last opening bracket at `q` and the first closing bracket at `p`. -/
def Window.between (opener closer : Text) (q p : Place) : Window :=
  ⟨q.before ++ Node.raws q.head, opener, Node.raws q.tail ++ q.after, closer, Node.raws p.tail ++ p.after, false⟩

/-- The search for one kind of brackets. -/
theorem nextGroupOf_eq {a b : Char} (hab : a ≠ b) (ss : List Node) :
    nextGroupOf [a] [b] ss =
      match firstPlace? [b] ss with
      | none => .absent
      | some p =>
        match lastPlace? [a] (p.before ++ Node.raws p.head) with
        | none => .unmatched [b] (p.before ++ Node.raws p.head ++ .raw [b] :: (Node.raws p.tail ++ p.after))
            (p.before ++ Node.raws p.head).length
        | some q => .window (.between [a] [b] q p) := by
  unfold nextGroupOf
  cases firstPlace? [b] ss with
  | none => rfl
  | some p =>
    simp only [Text.splitLast_of_ne hab]
    rfl

theorem nextGroupOf_absent_iff {a b : Char} (hab : a ≠ b) {ss : List Node} :
    nextGroupOf [a] [b] ss = .absent ↔ firstPlace? [b] ss = none := by
  rw [nextGroupOf_eq hab]
  cases firstPlace? [b] ss with
  | none => simp
  | some p => cases hq : lastPlace? [a] (p.before ++ Node.raws p.head) <;> simp [hq]

/-- No closing bracket of any kind is left. -/
theorem nextGroup_absent_iff {brackets : List (Text × Text)} (hb : DistinctBrackets brackets) {ss : List Node} :
    nextGroup brackets ss = .absent ↔ ∀ p ∈ brackets, firstPlace? p.2 ss = none := by
  induction brackets with
  | nil => simp [nextGroup]
  | cons p rest ih =>
    obtain ⟨a, b, hab, rfl⟩ := hb p (by simp)
    have ih := ih fun p hp => hb p (by simp [hp])
    rw [nextGroup, List.forall_mem_cons, ← nextGroupOf_absent_iff hab, ← ih]
    cases nextGroupOf [a] [b] ss <;> simp

/-- What is found is found for the first kind of brackets that has a closing bracket left. -/
theorem nextGroup_found {brackets : List (Text × Text)} (hb : DistinctBrackets brackets) {ss : List Node}
    {found : NextGroup} (h : nextGroup brackets ss = found) (hne : found ≠ .absent) :
    ∃ (earlier later : List (Text × Text)) (a b : Char), brackets = earlier ++ ([a], [b]) :: later ∧ a ≠ b ∧
      (∀ p ∈ earlier, firstPlace? p.2 ss = none) ∧ nextGroupOf [a] [b] ss = found := by
  induction brackets with
  | nil => exact absurd h.symm hne
  | cons p rest ih =>
    obtain ⟨a, b, hab, rfl⟩ := hb p (by simp)
    rw [nextGroup] at h
    split at h
    · rename_i habsent
      obtain ⟨earlier, later, c, d, rfl, hcd, hfree, hfound⟩ := ih (fun p hp => hb p (by simp [hp])) h
      refine ⟨([a], [b]) :: earlier, later, c, d, rfl, hcd, ?_, hfound⟩
      simpa [(nextGroupOf_absent_iff hab).1 habsent] using hfree
    · exact ⟨[], rest, a, b, rfl, hab, by simp, h⟩

/-- **A window** lies between the first closing bracket of its kind and the last opening one before it, and the kinds that
come earlier in the list have no closing bracket left. -/
theorem nextGroup_window_cases {brackets : List (Text × Text)} (hb : DistinctBrackets brackets) {ss : List Node}
    {w : Window} (h : nextGroup brackets ss = .window w) :
    ∃ (earlier later : List (Text × Text)) (a b : Char) (p q : Place), brackets = earlier ++ ([a], [b]) :: later ∧
      a ≠ b ∧ (∀ p ∈ earlier, firstPlace? p.2 ss = none) ∧ firstPlace? [b] ss = some p ∧
      lastPlace? [a] (p.before ++ Node.raws p.head) = some q ∧ w = .between [a] [b] q p := by
  obtain ⟨earlier, later, a, b, hbr, hab, hfree, hfound⟩ := nextGroup_found hb h (by simp)
  rw [nextGroupOf_eq hab] at hfound
  split at hfound
  · cases hfound
  · rename_i p hp
    split at hfound
    · cases hfound
    · rename_i q hq
      cases hfound
      exact ⟨earlier, later, a, b, p, q, hbr, hab, hfree, hp, hq, rfl⟩

/-- A closing bracket without an opening one before it, of the first kind that has a closing bracket left. -/
theorem nextGroup_unmatched_cases {brackets : List (Text × Text)} (hb : DistinctBrackets brackets) {ss : List Node}
    {closer : Text} {buffer : List Node} {index : Nat} (h : nextGroup brackets ss = .unmatched closer buffer index) :
    ∃ (earlier later : List (Text × Text)) (a b : Char) (p : Place), brackets = earlier ++ ([a], [b]) :: later ∧
      a ≠ b ∧ (∀ p ∈ earlier, firstPlace? p.2 ss = none) ∧ firstPlace? [b] ss = some p ∧
      lastPlace? [a] (p.before ++ Node.raws p.head) = none ∧ closer = [b] ∧
      buffer = p.before ++ Node.raws p.head ++ .raw [b] :: (Node.raws p.tail ++ p.after) ∧
      index = (p.before ++ Node.raws p.head).length := by
  obtain ⟨earlier, later, a, b, hbr, hab, hfree, hfound⟩ := nextGroup_found hb h (by simp)
  rw [nextGroupOf_eq hab] at hfound
  split at hfound
  · cases hfound
  · rename_i p hp
    split at hfound
    · rename_i hq
      cases hfound
      exact ⟨earlier, later, a, b, p, hbr, hab, hfree, hp, hq, rfl, rfl, rfl⟩
    · cases hfound

end FormulaLang
