import FormulaLang.Leaf.Rule
import FormulaLang.Node.Source

/-!
# Lexing

Raw text is cut into leaves. The first rule that matches anywhere in a fragment takes its first match out of it, and what
remains on either side is cut in the same way until no rule matches (`lexText`). Every cut shortens the fragments
(`LeafCut.length_lt`). A literal that cannot be read stops the work, and the buffer stays as far as it was cut.
-/

namespace FormulaLang

/-- A leaf taken out of a fragment. -/
structure LeafCut where
  before : Text
  matched : Text
  after : Text
  kind : LeafKind

/-- The cut of the first rule that matches anywhere in a fragment. -/
def leafCut? (rules : List LeafRule) (t : Text) : Option LeafCut :=
  rules.findSome? fun r => (r.pattern.search? t).map fun f => ⟨f.before, f.matched, f.after, r.kind⟩

theorem leafCut?_eq_some {rules : List LeafRule} {t : Text} {c : LeafCut} (h : leafCut? rules t = some c) :
    c.before ++ c.matched ++ c.after = t ∧ c.matched ≠ [] := by
  obtain ⟨r, -, hr⟩ := List.exists_of_findSome?_eq_some h
  obtain ⟨f, hf, rfl⟩ := Option.map_eq_some_iff.1 hr
  exact Pattern.search?_eq_some hf

/-- Both remaining fragments are shorter, even together. -/
theorem LeafCut.length_lt {rules : List LeafRule} {t : Text} {c : LeafCut} (h : leafCut? rules t = some c) :
    c.before.length + c.after.length < t.length := by
  obtain ⟨rfl, hne⟩ := leafCut?_eq_some h
  have := List.length_pos_iff.2 hne
  simp only [List.length_append]
  omega

/-- A literal that could not be read, in the fragment `text` from the place `start`. The sentences beside the fragment are
cut as far as the work had come. -/
structure BadLiteral where
  before : List Node
  text : Text
  after : List Node
  literal : Text
  start : Nat

/-- The sentences into which a fragment is cut. -/
def lexText (rules : List LeafRule) (t : Text) : Except BadLiteral (List Node) :=
  match _h : leafCut? rules t with
  | none => .ok (Node.raws t)
  | some c =>
    match c.kind.leaf c.matched with
    | .error _ => .error ⟨[], t, [], c.matched, c.before.length⟩
    | .ok leaf =>
      match lexText rules c.before with
      | .error e => .error { e with after := e.after ++ leaf :: Node.raws c.after }
      | .ok left =>
        match lexText rules c.after with
        | .error e => .error { e with before := left ++ leaf :: e.before }
        | .ok right => .ok (left ++ leaf :: right)
termination_by t.length
decreasing_by all_goals have := LeafCut.length_lt _h; omega

/-- The sentences into which a sentence is cut; only raw text is. -/
def lexSentence (rules : List LeafRule) : Node → Except BadLiteral (List Node)
  | .raw t => lexText rules t
  | n => .ok [n]

/-- What each sentence of a buffer is cut into, one sentence after another. -/
def lexEach (rules : List LeafRule) : List Node → Except BadLiteral (List (List Node))
  | [] => .ok []
  | n :: rest =>
    match lexSentence rules n with
    | .error e => .error { e with after := e.after ++ rest }
    | .ok pieces =>
      match lexEach rules rest with
      | .error e => .error { e with before := pieces ++ e.before }
      | .ok others => .ok (pieces :: others)

/-! ## The raw text of a buffer -/

/-- The length of the text that is still raw. -/
def rawLength : List Node → Nat
  | [] => 0
  | n :: ss => (n.rawText?.getD []).length + rawLength ss

@[simp] theorem rawLength_nil : rawLength [] = 0 := rfl

@[simp] theorem rawLength_cons (n : Node) (ss : List Node) :
    rawLength (n :: ss) = (n.rawText?.getD []).length + rawLength ss := rfl

@[simp] theorem rawLength_append (xs ys : List Node) : rawLength (xs ++ ys) = rawLength xs + rawLength ys := by
  induction xs with
  | nil => simp
  | cons n xs ih => simp [ih, Nat.add_assoc]

@[simp] theorem rawLength_raws (t : Text) : rawLength (Node.raws t) = t.length := by
  unfold Node.raws
  split <;> simp_all [Node.rawText?]

theorem rawText?_leaf {k : LeafKind} {t : Text} {n : Node} (h : k.leaf t = .ok n) : n.rawText? = none := by
  unfold LeafKind.leaf at h
  cases k with
  | hex => cases h' : Number.readInt 16 (LeafKind.hexDigitsOf t) <;> simp_all [bind, Except.bind, pure, Except.pure]; subst h; rfl
  | binary => cases h' : Number.readInt 2 (t.drop 2) <;> simp_all [bind, Except.bind, pure, Except.pure]; subst h; rfl
  | identifier => cases h; rfl
  | decimal => cases h' : LeafKind.readDecimal t <;> simp_all [bind, Except.bind, pure, Except.pure]; subst h; rfl

/-- Cutting leaves no more raw text than there was. -/
theorem rawLength_lexText_le {rules : List LeafRule} {t : Text} {out : List Node} (h : lexText rules t = .ok out) :
    rawLength out ≤ t.length := by
  fun_induction lexText rules t generalizing out with
  | case1 t hc => cases h; simp
  | case2 => cases h
  | case3 => cases h
  | case4 => cases h
  | case5 t c hc leaf hleaf left hleft right hright ih₁ ih₂ =>
    cases h
    have h₁ := ih₁ hleft
    have h₂ := ih₂ hright
    have := LeafCut.length_lt hc
    simp [rawText?_leaf hleaf]
    omega

theorem rawLength_lexSentence_le {rules : List LeafRule} {n : Node} {out : List Node}
    (h : lexSentence rules n = .ok out) : rawLength out ≤ (n.rawText?.getD []).length := by
  unfold lexSentence at h
  split at h
  · simpa [Node.rawText?] using rawLength_lexText_le h
  · cases h; simp

/-- Lexing leaves no more raw text than there was. -/
theorem rawLength_lexEach_le {rules : List LeafRule} {ss : List Node} {out : List (List Node)}
    (h : lexEach rules ss = .ok out) : rawLength out.flatten ≤ rawLength ss := by
  induction ss generalizing out with
  | nil => cases h; simp
  | cons n rest ih =>
    rw [lexEach] at h
    split at h
    · cases h
    · rename_i pieces hpieces
      split at h
      · cases h
      · rename_i others hothers
        cases h
        have := rawLength_lexSentence_le hpieces
        have := ih hothers
        simp
        omega

end FormulaLang
