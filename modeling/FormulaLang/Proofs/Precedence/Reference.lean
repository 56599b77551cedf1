import FormulaLang.Grammar.Default

/-!
# A reference precedence parser

The operators of the default grammar in a table with their levels, level 0 binding tightest, and a parser that reads a
chain of operands and operators once from the left to the right. It keeps a stack of the operators that wait for their
right operand: an operator first completes those on the stack that bind at least as tightly (`reduce`), which makes every
level left associative, and the end of the chain completes all of them (`climb`).

A `Chain` carries the facts that make it well formed: its operands are values, and its written operators stand in the table.
The tree of a chain does not change when the operators of its tightest level are joined first (`Chain.tree_join`,
`Chain.tree_apply`).
-/

namespace FormulaLang.Precedence

/-! ## Operators -/

/-- An operator and how tightly it binds. -/
structure Operator where
  symbol : Text
  operation : Operation
  level : Nat
  deriving DecidableEq, Repr

/-- The written operators between two operands. -/
def binaryOperators : List Operator :=
  [⟨['^'], .pow, 0⟩,
    ⟨['*'], .mul, 1⟩, ⟨['/'], .div, 1⟩, ⟨['%'], .rem, 1⟩,
    ⟨['+'], .add, 2⟩, ⟨['-'], .sub, 2⟩,
    ⟨['<', '<'], .shiftLeft, 4⟩, ⟨['>', '>'], .shiftRight, 4⟩,
    ⟨['<'], .less, 5⟩, ⟨['>'], .greater, 5⟩, ⟨['<', '='], .atMost, 5⟩, ⟨['>', '='], .atLeast, 5⟩,
    ⟨['='], .equal, 6⟩, ⟨['=', '='], .equal, 6⟩, ⟨['!', '='], .unequal, 6⟩,
    ⟨['&'], .bitAnd, 8⟩, ⟨['^', '^'], .bitXor, 9⟩, ⟨['|'], .bitOr, 10⟩,
    ⟨['&', '&'], .and, 11⟩, ⟨['|', '|'], .or, 12⟩]

/-- The operators before an operand. -/
def prefixOperators : List Operator :=
  [⟨['+'], .pos, 3⟩, ⟨['-'], .neg, 3⟩, ⟨['!'], .not, 7⟩]

/-- Multiplication that is not written. -/
def adjacency : Operator :=
  ⟨[], .mul, 1⟩

/-- An operator of a table with white space around it. -/
structure Fragment (table : List Operator) where
  operator : Operator
  known : operator ∈ table
  pad : Pad
  blank : Text.allBlank pad.before = true ∧ Text.allBlank pad.after = true

/-- The text of a fragment. -/
def Fragment.text {table : List Operator} (f : Fragment table) : Text :=
  f.pad.wrap f.operator.symbol

/-! ## Chains -/

/-- A node that can be an operand. -/
abbrev Operand := { n : Node // n.isValue = true }

/-- What stands between two operands. -/
inductive Link where
  | adjacent
  | written (fragment : Fragment binaryOperators)

/-- The operator of a link. -/
def Link.operator : Link → Operator
  | adjacent => adjacency
  | written f => f.operator

/-- The level of a link. -/
def Link.level (l : Link) : Nat :=
  l.operator.level

/-- The sentences of a link. -/
def Link.sentences : Link → List Node
  | adjacent => []
  | written f => [.raw f.text]

/-- The text of a link. -/
def Link.text : Link → Text
  | adjacent => []
  | written f => f.text

/-- The operation of a link on two operands. -/
def Link.join (l : Link) (v w : Operand) : Operand :=
  ⟨.binary .none v (.raw l.text) (some l.operator.operation) w, rfl⟩

/-- The operation of a sign on an operand. -/
def Fragment.apply (f : Fragment prefixOperators) (v : Operand) : Operand :=
  ⟨.unary .none (.raw f.text) (some f.operator.operation) v, rfl⟩

/-- Operands behind their links. -/
abbrev Tail := List (Link × Operand)

/-- The sentences of a tail. -/
def Tail.sentences (rest : Tail) : List Node :=
  rest.flatMap fun (l, v) => l.sentences ++ [v.val]

/-- Operands with links between them, and perhaps a sign before the first one. -/
structure Chain where
  sign : Option (Fragment prefixOperators)
  first : Operand
  rest : Tail

/-- The sentences of the sign. -/
def Chain.signSentences (c : Chain) : List Node :=
  c.sign.toList.map fun f => .raw f.text

/-- The sentences of a chain. -/
def Chain.sentences (c : Chain) : List Node :=
  c.signSentences ++ c.first.val :: Tail.sentences c.rest

/-! ## The parser -/

/-- An operator that waits for its right operand. -/
inductive Pending where
  | unary (sign : Fragment prefixOperators)
  | binary (left : Operand) (link : Link)

/-- The level of a waiting operator. -/
def Pending.level : Pending → Nat
  | unary f => f.operator.level
  | binary _ l => l.level

/-- A waiting operator with its right operand. -/
def Pending.complete : Pending → Operand → Operand
  | unary f, v => f.apply v
  | binary v l, w => l.join v w

/-- The operators on top of the stack that bind at least as tightly as a level are completed. -/
def reduce (level : Nat) : List Pending → Operand → List Pending × Operand
  | [], v => ([], v)
  | p :: stack, v => if p.level ≤ level then reduce level stack (p.complete v) else (p :: stack, v)

/-- The parser in front of the remaining links: the stack, the top first, and the operand that was read last. -/
def climb (stack : List Pending) (v : Operand) : Tail → Operand
  | [] => stack.foldl (fun v p => p.complete v) v
  | (l, w) :: rest => climb (.binary (reduce l.level stack v).2 l :: (reduce l.level stack v).1) w rest

/-- The tree of a chain. -/
def Chain.tree (c : Chain) : Operand :=
  climb (c.sign.toList.map .unary) c.first c.rest

/-! ## Joining one level -/

/-- The links of one level are joined from the left to the right. -/
def joinTail (k : Nat) (v : Operand) : Tail → Operand × Tail
  | [] => (v, [])
  | (l, w) :: rest =>
    if l.level = k then joinTail k (l.join v w) rest
    else (v, (l, (joinTail k w rest).1) :: (joinTail k w rest).2)

/-- A chain with the links of one level joined. -/
def Chain.join (k : Nat) (c : Chain) : Chain :=
  ⟨c.sign, (joinTail k c.first c.rest).1, (joinTail k c.first c.rest).2⟩

/-- A chain with a sign of one level applied. -/
def Chain.apply (k : Nat) (c : Chain) : Chain :=
  match c.sign with
  | some f => if f.operator.level = k then ⟨none, f.apply c.first, c.rest⟩ else c
  | none => c

/-- No operator of the chain binds tighter than a level. -/
structure Chain.AtLeast (k : Nat) (c : Chain) : Prop where
  sign : ∀ f ∈ c.sign, k ≤ f.operator.level
  rest : ∀ p ∈ c.rest, k ≤ p.1.level

/-- An operator that binds less tightly leaves the stack as it is. -/
theorem reduce_of_lt {level : Nat} {stack : List Pending} {v : Operand} (h : ∀ p ∈ stack, level < p.level) :
    reduce level stack v = (stack, v) := by
  cases stack with
  | nil => rfl
  | cons p stack =>
    have hp : ¬p.level ≤ level := by
      have := h p (by simp)
      omega
    rw [reduce, if_neg hp]

theorem mem_of_mem_reduce {level : Nat} {stack : List Pending} {v : Operand} {p : Pending}
    (h : p ∈ (reduce level stack v).1) : p ∈ stack := by
  induction stack generalizing v with
  | nil => exact h
  | cons q stack ih =>
    rw [reduce] at h
    split at h
    · exact List.mem_cons_of_mem _ (ih h)
    · exact h

/-- The top of the stack may be completed at once when nothing that follows binds tighter. -/
theorem climb_complete {p : Pending} {stack : List Pending} {v : Operand} {rest : Tail}
    (h : ∀ q ∈ rest, p.level ≤ q.1.level) : climb (p :: stack) v rest = climb stack (p.complete v) rest := by
  cases rest with
  | nil => rfl
  | cons q rest =>
    obtain ⟨l, w⟩ := q
    have hp : p.level ≤ l.level := h (l, w) (by simp)
    have hr : reduce l.level (p :: stack) v = reduce l.level stack (p.complete v) := by rw [reduce, if_pos hp]
    rw [climb, climb, hr]

/-- Joining the tightest level first makes no difference. -/
theorem climb_joinTail {k : Nat} {stack : List Pending} {v : Operand} {rest : Tail}
    (hs : ∀ p ∈ stack, k < p.level) (hr : ∀ q ∈ rest, k ≤ q.1.level) :
    climb stack (joinTail k v rest).1 (joinTail k v rest).2 = climb stack v rest := by
  induction rest generalizing stack v with
  | nil => rfl
  | cons q rest ih =>
    obtain ⟨l, w⟩ := q
    have hl : k ≤ l.level := hr (l, w) (by simp)
    have hrest : ∀ q ∈ rest, k ≤ q.1.level := fun q hq => hr q (by simp [hq])
    rw [joinTail]
    by_cases hk : l.level = k
    · rw [if_pos hk, ih hs hrest, climb, reduce_of_lt (by rwa [hk])]
      refine (climb_complete (p := .binary v l) ?_).symm
      intro q hq
      show l.level ≤ q.1.level
      rw [hk]
      exact hrest q hq
    · rw [if_neg hk, climb, climb]
      refine ih ?_ hrest
      intro p hp
      rcases List.mem_cons.1 hp with rfl | hp
      · show k < l.level
        omega
      · exact hs p (mem_of_mem_reduce hp)

theorem level_of_mem_joinTail {k : Nat} {v : Operand} {rest : Tail} {q : Link × Operand}
    (h : q ∈ (joinTail k v rest).2) : q.1.level ≠ k ∧ ∃ q' ∈ rest, q'.1 = q.1 := by
  induction rest generalizing v with
  | nil => cases h
  | cons q' rest ih =>
    obtain ⟨l, w⟩ := q'
    rw [joinTail] at h
    split at h
    · obtain ⟨hk, q', hq', he⟩ := ih h
      exact ⟨hk, q', List.mem_cons_of_mem _ hq', he⟩
    · rename_i hk
      rcases List.mem_cons.1 h with rfl | h
      · exact ⟨hk, (l, w), by simp, rfl⟩
      · obtain ⟨hk', q', hq', he⟩ := ih h
        exact ⟨hk', q', List.mem_cons_of_mem _ hq', he⟩

namespace Chain

variable {c : Chain} {k : Nat}

/-- **The tree of a chain** does not change when its tightest links are joined. -/
theorem tree_join (hc : c.AtLeast k) (hs : ∀ f ∈ c.sign, f.operator.level ≠ k) : (c.join k).tree = c.tree := by
  refine climb_joinTail ?_ hc.rest
  intro p hp
  obtain ⟨f, hf, rfl⟩ := List.mem_map.1 hp
  have hf : f ∈ c.sign := Option.mem_toList.1 hf
  exact Nat.lt_of_le_of_ne (hc.sign f hf) fun h => hs f hf h.symm

/-- Nor does it when a sign is applied that binds tighter than the links. -/
theorem tree_apply (hc : c.AtLeast k) : (c.apply k).tree = c.tree := by
  unfold Chain.apply
  split
  · rename_i f hf
    split
    · rename_i hk
      show climb [] (f.apply c.first) c.rest = climb (c.sign.toList.map .unary) c.first c.rest
      rw [hf]
      refine (climb_complete (p := .unary f) ?_).symm
      intro q hq
      show f.operator.level ≤ q.1.level
      rw [hk]
      exact hc.rest q hq
    · rfl
  · rfl

/-- Joined links are gone. -/
theorem atLeast_join (hc : c.AtLeast k) (hs : ∀ f ∈ c.sign, f.operator.level ≠ k) : (c.join k).AtLeast (k + 1) := by
  refine ⟨fun f hf => ?_, fun q hq => ?_⟩
  · exact Nat.lt_of_le_of_ne (hc.sign f hf) fun h => hs f hf h.symm
  · obtain ⟨hk, q', hq', he⟩ := level_of_mem_joinTail hq
    exact Nat.lt_of_le_of_ne (he ▸ hc.rest q' hq') fun h => hk h.symm

/-- An applied sign is gone. -/
theorem atLeast_apply (hc : c.AtLeast k) (hr : ∀ q ∈ c.rest, q.1.level ≠ k) : (c.apply k).AtLeast (k + 1) := by
  have hrest : ∀ q ∈ c.rest, k + 1 ≤ q.1.level := fun q hq => Nat.lt_of_le_of_ne (hc.rest q hq) fun h => hr q hq h.symm
  unfold Chain.apply
  split
  · rename_i f hf
    split
    · exact ⟨by simp, hrest⟩
    · rename_i hk
      refine ⟨fun g hg => ?_, hrest⟩
      obtain rfl : f = g := by simpa [hf] using hg
      exact Nat.lt_of_le_of_ne (hc.sign f hf) fun h => hk h.symm
  · rename_i hf
    exact ⟨by simp [hf], hrest⟩

end Chain

end FormulaLang.Precedence
