import FormulaLang.Parse.Failure
import FormulaLang.Parse.Traced

/-!
# What a failed parse leaves

The parameters of a group are parsed as buffers of their own, but their sentences still stand in the buffer around the group
until the group takes their place. When a parameter fails, no group is made. The buffer then holds the text between the
brackets as it was, and its nodes with the white space that they have taken up as sentences of the parameters.

The trace tells which white space that is. The nodes of the outermost interior are numbered, and `Sharing` follows their
marks through the parameters and the groups inside them: a node keeps its mark as long as it is a sentence of the buffer
under work, and loses it when it becomes a part of another node. What is left of the buffer in which the parse began is
`Failure.left`.
-/

namespace FormulaLang

/-- The number of nodes among sentences, raw fragments aside. -/
def nodeCount (ss : List Node) : Nat :=
  ss.countP fun n => !n.isRaw

/-- The marks of the nodes of a buffer in their order. A node that has come up since then has none. -/
abbrev Marks := List (Option Nat)

namespace Marks

/-- The marks of the nodes of an interior. -/
def numbered (interior : List Node) : Marks :=
  (List.range (nodeCount interior)).map some

/-- The marks of a buffer whose raw text has been cut into leaves. -/
def cut : List (Node × List Node) → Marks → Marks
  | [], _ => []
  | (n, pieces) :: rest, marks =>
    if n.isRaw then List.replicate (nodeCount pieces) none ++ cut rest marks
    else marks.head?.join :: cut rest marks.tail

/-- The marks of a buffer in which a new node has taken the place of the sentences `window` behind `before`. -/
def replace (before window : List Node) (marks : Marks) : Marks :=
  marks.take (nodeCount before) ++ none :: marks.drop (nodeCount before + nodeCount window)

end Marks

/-- The marked nodes in the buffers under work. -/
structure Sharing where
  /-- The marks of the buffers, the innermost first. Between two buffers stands what is still to be parsed of the interior
  around the inner one. -/
  frames : List Marks
  /-- The white space that marked nodes have taken up, the latest first. -/
  taken : List (Nat × Pad)

namespace Sharing

/-- Before a parse. -/
def start : Sharing := ⟨[], []⟩

/-- After one more event. -/
def step (s : Sharing) (e : Event) : Sharing :=
  match e, s.frames with
  | .opened _ interior, [] => ⟨[Marks.numbered interior], []⟩
  | .opened before interior, frame :: frames =>
    { s with frames := (frame.drop (nodeCount before)).take (nodeCount interior) :: frame :: frames }
  | .entered field, frame :: frames =>
    { s with frames := frame.take (nodeCount field) :: frame.drop (nodeCount field) :: frames }
  | .left, _ :: frames => { s with frames := frames }
  | .collapsed before window _, _ :: frame :: frames => { s with frames := Marks.replace before window frame :: frames }
  | .collapsed _ _ _, [_] => { s with frames := [] }
  | .lexed cuts, frame :: frames => { s with frames := Marks.cut cuts frame :: frames }
  | .replaced before _ n true, frame :: _ =>
    match frame[nodeCount before]?.join with
    | some mark => { s with taken := (mark, n.pad) :: s.taken }
    | none => s
  | .replaced before window _ false, frame :: frames =>
    { s with frames := Marks.replace before window frame :: frames }
  | _, _ => s

/-- After the events of a parse. -/
def ofEvents (events : List Event) : Sharing :=
  events.foldl step start

/-- The sentences of an interior with the white space that its nodes have taken up; the next node has the mark `mark`. -/
def withTaken (s : Sharing) (mark : Nat) : List Node → List Node
  | [] => []
  | n :: rest =>
    if n.isRaw then n :: s.withTaken mark rest
    else (s.taken.lookup mark).elim n (n.withPad ·) :: s.withTaken (mark + 1) rest

end Sharing

/-- What a failed parse leaves of the buffer in which it began. -/
def Failure.left (f : Failure) (events : List Event) : List Node :=
  match f.around with
  | none => f.equation
  | some w =>
    w.before ++ .raw w.opener :: (Sharing.ofEvents events).withTaken 0 w.interior ++ .raw w.closer :: w.after

end FormulaLang
