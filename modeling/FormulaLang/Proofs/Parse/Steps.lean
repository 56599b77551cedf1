import FormulaLang.Proofs.Parse.Lossless

/-!
# The steps of a parse

A parse as a machine that makes one replacement at a time, in the buffer of one equation at a time. The work on an equation
passes through three loops: leaves are cut, groups are collapsed, matches are replaced. When the brackets of a group have
been found they are set apart, and the work turns to its parameters as equations of their own before the group takes their
place (`ParseState`, `ParseState.Step`). There is one way to go on at most (`ParseState.Step.det`).

No loop has a measure that serves for the others: cutting a leaf lengthens the buffer, a name that becomes a variable leaves
its length, and white space that goes to a node leaves the nodes. What each kind of move makes smaller is `Move.Lowers`, and
every step of the machine does (`ParseState.Step.lowers`), whatever state it starts from.
-/

namespace FormulaLang

open Node (sourceTexts sourceTexts_append)

/-! ## States -/

/-- A group that is being made: the brackets that have been found in a buffer, and the parameters parsed so far. -/
structure OpenGroup (l : Language) where
  offset : Int
  buffer : List Node
  window : Window
  found : nextGroup l.grammar.brackets buffer = .window window
  parsed : List Node

/-- Where the work on an equation stands. -/
inductive Phase where
  /-- Leaves are being cut; the sentences `done` hold none any more. -/
  | cutting (done rest : List Node)
  | grouping (buffer : List Node)
  | folding (tiers : List Tier) (buffer : List Node)

/-- Where a parse stands. -/
inductive ParseState (l : Language) where
  /-- An equation is under work. It is the next parameter of the first of the groups `around`, and the buffer of every group
  is the next parameter of the group behind it. -/
  | equation (around : List (OpenGroup l)) (offset : Int) (phase : Phase)
  /-- A group is being made, between two parameters. -/
  | group (around : List (OpenGroup l)) (g : OpenGroup l)
  | ended (result : Except Failure (List Node))

variable {l : Language}

namespace OpenGroup

variable (g : OpenGroup l)

/-- The parameters of the group. -/
def params : List Param :=
  (g.window.inside l.grammar.separator g.offset).params

/-- The parameter that is parsed next. -/
def next? : Option Param :=
  g.params[g.parsed.length]?

/-- The group with one more parameter. -/
def add (n : Node) : OpenGroup l :=
  { g with parsed := g.parsed ++ [n] }

/-- The buffer with the two brackets as sentences of their own. -/
def isolated : List Node :=
  g.window.before ++ g.window.sentences ++ g.window.after

/-- The buffer with the group in its place. -/
def collapsed : List Node :=
  g.window.collapse l g.offset g.parsed

end OpenGroup

/-- The sentences of the equation. -/
def Phase.buffer : Phase → List Node
  | cutting done rest => done ++ rest
  | grouping ss => ss
  | folding _ ss => ss

/-- The buffer of the equation under work. -/
def ParseState.buffer : ParseState l → List Node
  | equation _ _ phase => phase.buffer
  | group _ g => g.isolated
  | ended (.ok ss) => ss
  | ended (.error f) => f.equation

/-- A failure within parameters of groups, seen from the outermost one. -/
def Failure.through (around : List (OpenGroup l)) (f : Failure) : Failure :=
  around.foldl (fun f g => f.within g.window) f

/-! ## Steps -/

/-- The kinds of steps. -/
inductive Move where
  /-- A leaf is taken out of a fragment. -/
  | cut
  /-- The brackets of the next group are set apart. -/
  | isolate
  /-- The next parameter of a group becomes the equation under work. -/
  | enter
  /-- A group takes the place of its window. -/
  | collapse
  /-- A node takes the place of a match. -/
  | replace
  /-- No buffer changes: the work passes on to the next sentence, loop or tier, back to the group around, or to its end. -/
  | pass

namespace ParseState

/-- One step of a parse. -/
inductive Step (l : Language) : Move → ParseState l → ParseState l → Prop
  | cut {around : List (OpenGroup l)} {o : Int} {done rest : List Node} {t : Text} {c : LeafCut} {leaf : Node}
      (hc : leafCut? l.grammar.leaves t = some c) (hleaf : c.kind.leaf c.matched = .ok leaf) :
      Step l .cut (equation around o (.cutting done (.raw t :: rest)))
        (equation around o (.cutting done (Node.raws c.before ++ leaf :: (Node.raws c.after ++ rest))))
  | misread {around : List (OpenGroup l)} {o : Int} {done rest : List Node} {t : Text} {c : LeafCut} {e : Fault}
      (hc : leafCut? l.grammar.leaves t = some c) (hleaf : c.kind.leaf c.matched = .error e) :
      Step l .pass (equation around o (.cutting done (.raw t :: rest)))
        (ended (.error ((Failure.ofBadLiteral o ⟨done, t, rest, c.matched, c.before.length⟩).through around)))
  | keep {around : List (OpenGroup l)} {o : Int} {done rest : List Node} {n : Node}
      (hn : n.rawText?.bind (leafCut? l.grammar.leaves) = none) :
      Step l .pass (equation around o (.cutting done (n :: rest))) (equation around o (.cutting (done ++ [n]) rest))
  | lexed {around : List (OpenGroup l)} {o : Int} {ss : List Node} :
      Step l .pass (equation around o (.cutting ss [])) (equation around o (.grouping ss))
  | isolate {around : List (OpenGroup l)} {o : Int} {ss : List Node} {w : Window}
      (hw : nextGroup l.grammar.brackets ss = .window w) :
      Step l .isolate (equation around o (.grouping ss)) (group around ⟨o, ss, w, hw, []⟩)
  | unmatched {around : List (OpenGroup l)} {o : Int} {ss buffer : List Node} {closer : Text} {index : Nat}
      (hw : nextGroup l.grammar.brackets ss = .unmatched closer buffer index) :
      Step l .pass (equation around o (.grouping ss))
        (ended (.error ((Failure.ofCloser o closer buffer index).through around)))
  | stray {around : List (OpenGroup l)} {o : Int} {ss : List Node} {opener : Text} {p : Place}
      (hw : nextGroup l.grammar.brackets ss = .absent) (hs : strayOpener? l.grammar.brackets ss = some (opener, p)) :
      Step l .pass (equation around o (.grouping ss)) (ended (.error ((Failure.ofOpener o opener ss p).through around)))
  | grouped {around : List (OpenGroup l)} {o : Int} {ss : List Node} (hw : nextGroup l.grammar.brackets ss = .absent)
      (hs : strayOpener? l.grammar.brackets ss = none) :
      Step l .pass (equation around o (.grouping ss)) (equation around o (.folding l.grammar.tiers ss))
  | enter {around : List (OpenGroup l)} {g : OpenGroup l} {p : Param} (hp : g.next? = some p) :
      Step l .enter (group around g) (equation (g :: around) p.offset (.cutting [] p.sentences))
  | leave {around : List (OpenGroup l)} {g : OpenGroup l} {o : Int} {ss : List Node} :
      Step l .pass (equation (g :: around) o (.folding [] ss)) (group around (g.add (.equation .none ss o)))
  | collapse {around : List (OpenGroup l)} {g : OpenGroup l} (hp : g.next? = none) :
      Step l .collapse (group around g) (equation around g.offset (.grouping g.collapsed))
  | replace {around : List (OpenGroup l)} {o : Int} {t : Tier} {ts : List Tier} {ss : List Node} {m : Match} {n : Node}
      (hm : t.match? ss = some m) (hn : m.rule.build l.resolve m.window = .ok n) :
      Step l .replace (equation around o (.folding (t :: ts) ss))
        (equation around o (.folding (t :: ts) (m.before ++ n :: m.after)))
  | stuck {around : List (OpenGroup l)} {o : Int} {t : Tier} {ts : List Tier} {ss : List Node} {m : Match} {d : Defect}
      (hm : t.match? ss = some m) (hd : m.rule.build l.resolve m.window = .error d) :
      Step l .pass (equation around o (.folding (t :: ts) ss)) (ended (.error ((Failure.ofRule o d ss).through around)))
  | next {around : List (OpenGroup l)} {o : Int} {t : Tier} {ts : List Tier} {ss : List Node} (hm : t.match? ss = none) :
      Step l .pass (equation around o (.folding (t :: ts) ss)) (equation around o (.folding ts ss))
  | finish {o : Int} {ss : List Node} : Step l .pass (equation [] o (.folding [] ss)) (ended (.ok ss))

variable {move move' : Move} {a b c : ParseState l}

/-- There is one way to go on at most. -/
theorem Step.det (hb : Step l move a b) (hc : Step l move' a c) : b = c := by
  cases hb with
  | isolate hw =>
    cases hc with
    | isolate hw' =>
      cases hw.symm.trans hw'
      rfl
    | unmatched hw' | stray hw' | grouped hw' => cases hw.symm.trans hw'
  -- any other two steps from one state ask the same question about it
  | _ => cases hc <;> simp_all [Node.rawText?]

end ParseState

/-! ## What the steps make smaller -/

/-- The closing brackets that are still raw. -/
def Reading.closers (brackets : List (Text × Text)) : Reading Char where
  node n := (n.rawText?.getD []).filter fun c => brackets.any fun pair => pair.2 == [c]
  raw_append _ _ := List.filter_append ..

/-- The number of closing brackets in the raw fragments of a buffer. -/
def closerCount (brackets : List (Text × Text)) (ss : List Node) : Nat :=
  ((Reading.closers brackets).nodes ss).length

/-- The names of a buffer that are not yet resolved. -/
def identifiers (ss : List Node) : List Text :=
  (ss.filter Node.isIdentifier).map Node.name

/-- What a step of each kind makes smaller in the buffer under work. Setting brackets apart is to change no closing bracket,
so that the group can be compared with either buffer; a parameter is compared with the buffer around its group. -/
def Move.Lowers (brackets : List (Text × Text)) : Move → List Node → List Node → Prop
  | cut, ss, ss' => rawLength ss' < rawLength ss
  | isolate, ss, ss' => closerCount brackets ss' = closerCount brackets ss
  | enter, ss, ss' => (sourceTexts ss').length < (sourceTexts ss).length
  | collapse, ss, ss' => closerCount brackets ss' < closerCount brackets ss
  | replace, ss, ss' => weight ss' < weight ss ∧ (identifiers ss').Sublist (identifiers ss)
  | pass, _, _ => True

theorem Node.name_withPad (p : Pad) (n : Node) : (n.withPad p).name = n.name := by
  cases n <;> simp [Node.withPad, Node.name, Node.name?]

theorem identifiers_append (xs ys : List Node) : identifiers (xs ++ ys) = identifiers xs ++ identifiers ys := by
  simp [identifiers]

/-- A rule adds no name to those that are not yet resolved. -/
theorem Rule.Builds.identifiers_sublist {r : Rule} {resolve : Text → Option Function} {matched : List Node} {n : Node}
    (h : r.Builds resolve matched n) : (identifiers [n]).Sublist (identifiers matched) := by
  cases h with
  | @spaceBefore t n | @spaceAfter t n =>
    have hname := n.name_withPad
    simp only [identifiers, List.filter_cons, Node.isIdentifier_withPad]
    cases hn : n.isIdentifier <;> simp [Node.isIdentifier, hname]
  | functionCall | variableUse | binary | implicit | unary => exact List.nil_sublist _

namespace OpenGroup

variable (hb : DistinctBrackets l.grammar.brackets) (g : OpenGroup l)

include hb

theorem isolated_eq :
    g.isolated =
      g.window.before ++ (.raw g.window.opener :: g.window.interior ++ [.raw g.window.closer]) ++ g.window.after := by
  obtain ⟨-, -, a, b, p, q, -, -, -, -, -, hw⟩ := nextGroup_window_cases hb g.found
  rw [isolated, Window.sentences, hw]
  rfl

theorem nodes_isolated {α : Type} (φ : Reading α) : φ.nodes g.isolated = φ.nodes g.buffer := by
  rw [isolated_eq hb, φ.nodes_window hb g.found]
  simp

theorem sourceTexts_isolated : sourceTexts g.isolated = sourceTexts g.buffer := by
  rw [← Reading.nodes_source, ← Reading.nodes_source, nodes_isolated hb]

theorem closerCount_isolated : closerCount l.grammar.brackets g.isolated = closerCount l.grammar.brackets g.buffer :=
  congrArg List.length (nodes_isolated hb g _)

theorem closer_mem : ∃ c, g.window.closer = [c] ∧ l.grammar.brackets.any (fun pair => pair.2 == [c]) = true := by
  obtain ⟨earlier, later, a, b, p, q, hbrackets, -, -, -, -, hw⟩ := nextGroup_window_cases hb g.found
  refine ⟨b, by rw [hw]; rfl, ?_⟩
  rw [hbrackets]
  simp

theorem closerCount_collapsed_lt :
    closerCount l.grammar.brackets g.collapsed < closerCount l.grammar.brackets g.isolated := by
  obtain ⟨c, hcloser, hmem⟩ := g.closer_mem hb
  have hone : (Reading.closers l.grammar.brackets).node (.raw g.window.closer) = [c] := by
    rw [hcloser]
    simp only [Reading.closers, Node.rawText?, Option.getD_some, List.filter_singleton, hmem]
    rfl
  have hnone : (Reading.closers l.grammar.brackets).node
      (g.window.group (g.window.inside l.grammar.separator g.offset) g.parsed) = [] := rfl
  simp only [closerCount, collapsed, Window.collapse, isolated_eq hb, Reading.nodes_append, Reading.nodes_cons,
    Reading.nodes_nil, List.cons_append, hone, hnone, List.length_append, List.length_cons, List.length_nil]
  omega

theorem length_param_lt {p : Param} (hp : p ∈ g.params) :
    (sourceTexts p.sentences).length < (sourceTexts g.isolated).length := by
  obtain ⟨x, y, hinterior, -⟩ := Interior.slice_ofSentences hp
  obtain ⟨c, hcloser, -⟩ := g.closer_mem hb
  rw [isolated_eq hb, hcloser]
  simp only [sourceTexts_append, Node.sourceTexts, hinterior, Node.sourceText, List.length_append, List.cons_append,
    List.length_cons, List.length_nil]
  omega

end OpenGroup

/-- **Every step** makes smaller what its kind is to make smaller. -/
theorem ParseState.Step.lowers (hb : DistinctBrackets l.grammar.brackets) {move : Move} {a b : ParseState l}
    (h : Step l move a b) : move.Lowers l.grammar.brackets a.buffer b.buffer := by
  cases h with
  | @cut around o done rest t c leaf hc hleaf =>
    have hlt := LeafCut.length_lt hc
    have hraw : rawLength (.raw t :: rest) = t.length + rawLength rest := rfl
    simp only [Move.Lowers, buffer, Phase.buffer, rawLength_append, hraw]
    simp only [rawLength_cons, rawLength_append, rawLength_raws, rawText?_leaf hleaf, Option.getD_none, List.length_nil]
    omega
  | isolate hw => exact OpenGroup.closerCount_isolated hb _
  | @enter around g p hp => exact g.length_param_lt hb (List.mem_of_getElem? hp)
  | @collapse around g hp => exact g.closerCount_collapsed_lt hb
  | @replace around o t ts ss m n hm hn =>
    refine ⟨Tier.weight_replace_lt hm hn, ?_⟩
    have hnames := (Rule.builds_of_build hn).identifiers_sublist
    show (identifiers (m.before ++ n :: m.after)).Sublist (identifiers ss)
    rw [← Tier.match?_eq_some hm, show m.before ++ n :: m.after = m.before ++ [n] ++ m.after by simp]
    simp only [identifiers_append]
    exact (hnames.append_left _).append_right _
  | misread | keep | lexed | unmatched | stray | grouped | leave | stuck | next | finish => exact True.intro

end FormulaLang
