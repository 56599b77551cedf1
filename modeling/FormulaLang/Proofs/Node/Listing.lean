import FormulaLang.Proofs.Node.Walk

/-!
# Lists of what is in a tree

A listing says what is noted about the variables and the calls of a tree, in the order of the walk (`Node.Listing.list`). A note
about a call does not depend on its arguments. The list of a tree is made of the lists of its parts, one equation for each kind
of node, and a literal adds nothing to it.

`Node.Listing.places` finds the same notes from the source text, each at the position of its name there. When what is noted are
names, they stand in the text at these positions, one behind the other (`Text.InOrder`).
-/

namespace FormulaLang

/-- What is noted about the variables and calls of a tree. -/
structure Node.Listing (β : Type) where
  /-- About a variable. -/
  var : Pad → Reference → Text → Option β
  /-- About a call, by its callee and its function. -/
  call : Pad → Node → Option Function → Option β

namespace Node.Listing

variable {β γ : Type} (L : Listing β)

/-- What is noted about one node. -/
def note? : Node → Option β
  | .var p r t => L.var p r t
  | .call p c f _ => L.call p c f
  | _ => none

/-- What is noted about a tree, in the order of the walk. -/
def list (n : Node) : List β :=
  n.walk.filterMap L.note?

/-- Something else made of every note. -/
def map (g : β → γ) : Listing γ :=
  ⟨fun p r t => (L.var p r t).map g, fun p c f => (L.call p c f).map g⟩

theorem list_map (g : β → γ) (n : Node) : (L.map g).list n = (L.list n).map g := by
  rw [list, list, List.map_filterMap]
  congr
  funext m
  cases m <;> rfl

section List

variable (p : Pad) (t : Text)

@[simp] theorem list_raw : L.list (raw t) = [] := rfl

@[simp] theorem list_number (v : Scalar) : L.list (number p v t) = [] := rfl

@[simp] theorem list_identifier : L.list (identifier p t) = [] := rfl

@[simp] theorem list_token (k : TokenKind) : L.list (token p k t) = [] := rfl

@[simp] theorem list_var (r : Reference) : L.list (Node.var p r t) = (L.var p r t).toList := by
  cases h : L.var p r t <;> simp [list, note?, h]

theorem filterMap_walkAll (ns : List Node) : (walkAll ns).filterMap L.note? = ns.flatMap L.list := by
  induction ns with
  | nil => rfl
  | cons n ns ih => rw [walkAll, List.filterMap_append, ih, List.flatMap_cons, list]

theorem filterMap_walkParams (ps : List Node) (separators : List Text) :
    (walkParams ps separators).filterMap L.note? = ps.flatMap L.list := by
  induction ps generalizing separators with
  | nil =>
    rw [walkParams, List.flatMap_nil, List.filterMap_map, List.filterMap_eq_nil_iff]
    exact fun _ _ => rfl
  | cons q ps ih =>
    cases separators with
    | nil => rw [walkParams, List.filterMap_append, ih, List.flatMap_cons, list]
    | cons s separators =>
      rw [walkParams, List.filterMap_append, List.filterMap_cons_none (show L.note? (separatorToken s) = none from rfl), ih,
        List.flatMap_cons, list]

@[simp] theorem list_group (b : Brackets) (ps : List Node) : L.list (group b ps) = ps.flatMap L.list := by
  rw [list, walk_group, List.filterMap_cons_none rfl, List.filterMap_cons_none rfl, List.filterMap_append,
    filterMap_walkParams]
  simp [note?, delimiterToken]

@[simp] theorem list_call (c a : Node) (f : Option Function) :
    L.list (Node.call p c f a) = (L.call p c f).toList ++ (L.list c ++ L.list a) := by
  cases h : L.call p c f <;> simp [list, note?, h]

@[simp] theorem list_unary (s : Text) (o : Option Operation) (x : Node) : L.list (unary p (raw s) o x) = L.list x := by
  rw [list, walk_unary, List.filterMap_cons_none rfl, List.filterMap_cons_none rfl, list]

@[simp] theorem list_binary (x y : Node) (s : Text) (o : Option Operation) :
    L.list (binary p x (raw s) o y) = L.list x ++ L.list y := by
  rw [list, walk_binary, List.filterMap_cons_none rfl, List.filterMap_append, List.filterMap_cons_none rfl, list, list]

@[simp] theorem list_equation (ss : List Node) (o : Int) : L.list (equation p ss o) = ss.flatMap L.list := by
  rw [list, walk_equation, List.filterMap_cons_none rfl, filterMap_walkAll]

end List

theorem list_of_isNumber {n : Node} (h : n.isNumber = true) : L.list n = [] := by
  cases n with
  | number => rfl
  | _ => cases h

theorem flatMap_list_of_isNumber {ns : List Node} (h : ns.all isNumber = true) : ns.flatMap L.list = [] :=
  List.flatMap_eq_nil_iff.2 fun n hn => L.list_of_isNumber (List.all_eq_true.1 h n hn)

/-! ## Places -/

mutual
/-- What is noted about a tree whose text starts at a position, with the positions of the names of variables and callees. -/
def places (o : Nat) : Node → List (Nat × β)
  | .var p r t => (L.var p r t).toList.map (o + p.before.length, ·)
  | .group b ps => placesParams (o + b.pad.before.length + b.opener.length) ps b.separators
  | .call p c f a =>
    (L.call p c f).toList.map (o + p.before.length + c.pad.before.length, ·) ++
      (places (o + p.before.length) c ++ places (o + p.before.length + c.sourceText.length) a)
  | .unary p s _ x => places (o + p.before.length + s.sourceText.length) x
  | .binary p x s _ y =>
    places (o + p.before.length) x ++ places (o + p.before.length + x.sourceText.length + s.sourceText.length) y
  | .equation p ss _ => placesAll (o + p.before.length) ss
  | _ => []

/-- The same of trees that stand side by side. -/
def placesAll (o : Nat) : List Node → List (Nat × β)
  | [] => []
  | n :: rest => places o n ++ placesAll (o + n.sourceText.length) rest

/-- The same of parameters with separators between and after them. -/
def placesParams (o : Nat) : List Node → List Text → List (Nat × β)
  | [], _ => []
  | q :: ps, [] => places o q ++ placesParams (o + q.sourceText.length) ps []
  | q :: ps, s :: separators => places o q ++ placesParams (o + q.sourceText.length + s.length) ps separators
end

end Node.Listing

/-! ## Texts in order -/

/-- The texts stand at their positions in `t`, a text that starts at the position `o`, one behind the other. -/
def Text.InOrder : Nat → Text → List (Nat × Text) → Prop
  | _, _, [] => True
  | o, t, (k, s) :: rest => ∃ x y, t = x ++ s ++ y ∧ k = o + x.length ∧ InOrder (k + s.length) y rest

namespace Text.InOrder

variable {o : Nat} {t u : Text} {ps qs : List (Nat × Text)}

/-- More text in front. -/
theorem behind (h : InOrder (o + u.length) t ps) : InOrder o (u ++ t) ps := by
  cases ps with
  | nil => trivial
  | cons p ps =>
    obtain ⟨x, y, rfl, hk, hrest⟩ := h
    exact ⟨u ++ x, y, by simp, by rw [hk, List.length_append, Nat.add_assoc], hrest⟩

theorem append (h : InOrder o t ps) (h' : InOrder (o + t.length) u qs) : InOrder o (t ++ u) (ps ++ qs) := by
  induction ps generalizing o t with
  | nil => exact h'.behind
  | cons p ps ih =>
    obtain ⟨x, y, rfl, hk, hrest⟩ := h
    refine ⟨x, y ++ u, by simp, hk, ih hrest ?_⟩
    have hlen : p.1 + p.2.length + y.length = o + (x ++ p.2 ++ y).length := by
      simp only [hk, List.length_append]
      omega
    rwa [hlen]

theorem before (h : InOrder o t ps) (u : Text) : InOrder o (t ++ u) ps := by
  have happend : InOrder o (t ++ u) (ps ++ []) := h.append trivial
  rwa [List.append_nil] at happend

theorem singleton (o : Nat) (t : Text) : InOrder o t [(o, t)] :=
  ⟨[], [], by simp, rfl, trivial⟩

theorem wrap {p : Pad} (h : InOrder (o + p.before.length) t ps) : InOrder o (p.wrap t) ps :=
  h.behind.before p.after

end Text.InOrder

end FormulaLang
