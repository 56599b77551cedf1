import FormulaLang.Leaf.Lexing
import FormulaLang.Text.Break

/-!
# Brackets in a buffer

The next group of a buffer is found from its end: the first kind of bracket that has a closing one is taken, its first
closing bracket, and the last opening bracket of that kind before it. The two stand alone in the window that the group will
replace. Every such replacement leaves less raw text (`rawLength_window`).
-/

namespace FormulaLang

/-- A text in a raw fragment of a buffer, between the text of the fragment before and after it. -/
structure Place where
  before : List Node
  head : Text
  tail : Text
  after : List Node

/-- The first place at which a text stands in raw text. -/
def firstPlace? (mark : Text) : List Node → Option Place
  | [] => none
  | n :: rest =>
    match n.rawText?.bind (Text.splitFirst mark) with
    | some (head, tail) => some ⟨[], head, tail, rest⟩
    | none => (firstPlace? mark rest).map fun p => { p with before := n :: p.before }

/-- The last place at which a text stands in raw text. -/
def lastPlace? (mark : Text) : List Node → Option Place
  | [] => none
  | n :: rest =>
    match lastPlace? mark rest with
    | some p => some { p with before := n :: p.before }
    | none => (n.rawText?.bind (Text.splitLast mark)).map fun (head, tail) => ⟨[], head, tail, rest⟩

/-- The sentences from an opening to a closing bracket, and those beside them. -/
structure Window where
  before : List Node
  opener : Text
  interior : List Node
  closer : Text
  after : List Node
  /-- Opening and closing bracket are one and the same piece of the text. -/
  shared : Bool

/-- The sentences that a group replaces. -/
def Window.sentences (w : Window) : List Node :=
  if w.shared then [.raw w.closer] else .raw w.opener :: w.interior ++ [.raw w.closer]

/-- What the search for the next group finds. -/
inductive NextGroup where
  /-- No closing bracket. -/
  | absent
  /-- A closing bracket without an opening one, as the sentence `index` of the buffer. -/
  | unmatched (closer : Text) (buffer : List Node) (index : Nat)
  | window (w : Window)

/-- The next group of one kind of brackets. An opening bracket that stands within the closing one is the last one before
its end. -/
def nextGroupOf (opener closer : Text) (ss : List Node) : NextGroup :=
  match firstPlace? closer ss with
  | none => .absent
  | some p =>
    let front := p.before ++ Node.raws p.head
    let back := Node.raws p.tail ++ p.after
    match Text.splitLast opener closer with
    | some (head, tail) =>
      .window ⟨front ++ Node.raws head, opener, [], if tail.isEmpty then opener else tail, back, tail.isEmpty⟩
    | none =>
      match lastPlace? opener front with
      | none => .unmatched closer (front ++ .raw closer :: back) front.length
      | some q => .window ⟨q.before ++ Node.raws q.head, opener, Node.raws q.tail ++ q.after, closer, back, false⟩

/-- The next group of a buffer, the kinds of brackets being tried in turn. -/
def nextGroup (brackets : List (Text × Text)) (ss : List Node) : NextGroup :=
  match brackets with
  | [] => .absent
  | (opener, closer) :: rest =>
    match nextGroupOf opener closer ss with
    | .absent => nextGroup rest ss
    | found => found

/-- The first opening bracket that is left, with its place. -/
def strayOpener? (brackets : List (Text × Text)) (ss : List Node) : Option (Text × Place) :=
  brackets.findSome? fun (opener, _) => (firstPlace? opener ss).map fun p => (opener, p)

/-! ## Less raw text -/

theorem rawLength_place {p : Place} {mark : Text} {ss : List Node} (h : firstPlace? mark ss = some p) :
    rawLength ss = rawLength p.before + p.head.length + mark.length + p.tail.length + rawLength p.after ∧ mark ≠ [] := by
  induction ss generalizing p with
  | nil => simp [firstPlace?] at h
  | cons n rest ih =>
    rw [firstPlace?] at h
    split at h
    · rename_i head tail hb
      cases h
      obtain ⟨t, ht, hb⟩ := Option.bind_eq_some_iff.1 hb
      obtain ⟨rfl, hne⟩ := Text.splitFirst_eq_some hb
      simp [ht, hne, Nat.add_assoc]
    · obtain ⟨q, hq, rfl⟩ := Option.map_eq_some_iff.1 h
      have := ih hq
      simp only [rawLength_cons]
      exact ⟨by omega, this.2⟩

theorem rawLength_lastPlace {p : Place} {mark : Text} {ss : List Node} (h : lastPlace? mark ss = some p) :
    rawLength ss = rawLength p.before + p.head.length + mark.length + p.tail.length + rawLength p.after := by
  induction ss generalizing p with
  | nil => simp [lastPlace?] at h
  | cons n rest ih =>
    rw [lastPlace?] at h
    split at h
    · rename_i q hq
      cases h
      have := ih hq
      simp only [rawLength_cons]
      omega
    · obtain ⟨⟨head, tail⟩, hb, rfl⟩ := Option.map_eq_some_iff.1 h
      obtain ⟨t, ht, hb⟩ := Option.bind_eq_some_iff.1 hb
      obtain ⟨rfl, -⟩ := Text.splitLast_eq_some hb
      simp [ht, Nat.add_assoc]

theorem rawLength_window {opener closer : Text} {ss : List Node} {w : Window}
    (h : nextGroupOf opener closer ss = .window w) :
    rawLength w.before + rawLength w.interior + rawLength w.after < rawLength ss := by
  unfold nextGroupOf at h
  split at h
  · cases h
  · rename_i p hp
    obtain ⟨h₁, hne⟩ := rawLength_place hp
    have := List.length_pos_iff.2 hne
    dsimp only at h
    split at h
    · rename_i head tail hs
      obtain ⟨hc, hne'⟩ := Text.splitLast_eq_some hs
      have h₂ := congrArg List.length hc
      have := List.length_pos_iff.2 hne'
      simp only [List.length_append] at h₂
      cases h
      simp
      omega
    · split at h
      · cases h
      · rename_i q hq
        have h₂ := rawLength_lastPlace hq
        cases h
        simp at h₂ ⊢
        omega

theorem nextGroup_eq_window {brackets : List (Text × Text)} {ss : List Node} {w : Window}
    (h : nextGroup brackets ss = .window w) :
    rawLength w.before + rawLength w.interior + rawLength w.after < rawLength ss := by
  induction brackets with
  | nil => cases h
  | cons b rest ih =>
    rw [nextGroup] at h
    split at h
    · exact ih h
    · exact rawLength_window h

end FormulaLang
