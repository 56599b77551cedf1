import FormulaLang.Grammar.Basic
import FormulaLang.Parse.Bracket
import FormulaLang.Parse.Failure
import FormulaLang.Parse.Fold
import FormulaLang.Parse.Interior

/-!
# Parsing

A buffer is parsed in three stages: its raw text is cut into leaves, its brackets are collapsed into groups, and its
sentences are folded by the tiers of the grammar. The parameters of a group are buffers of their own and pass through the
same stages. A group is built from less raw text than the buffer around it holds, and leaves less behind, so the work ends.
-/

namespace FormulaLang

/-- What a parse is given: the grammar, and the functions that names stand for. -/
structure Language where
  grammar : Grammar
  resolve : Text → Option Function

/-- The lex stage of the buffer at a position. -/
def lexStage (g : Grammar) (offset : Int) (ss : List Node) : Traced Failure (List Node) :=
  match lexEach g.leaves ss with
  | .error e => .fail (.ofBadLiteral offset e)
  | .ok pieces => ⟨.ok pieces.flatten, [.lexed (ss.zip pieces)]⟩

/-- The fold stage of the buffer at a position. -/
def foldStage (l : Language) (offset : Int) (ss : List Node) : Traced Failure (List Node) :=
  (fold l.grammar.tiers l.resolve ss).mapError fun e => .ofRule offset e.defect e.buffer

/-- The interior of a window in the buffer at a position. -/
def Window.inside (w : Window) (separator : Separator) (offset : Int) : Interior :=
  .ofSentences separator (offset + (Node.sourceTexts w.before).length + w.opener.length) w.interior

/-- The group of a window with its parsed parameters. -/
def Window.group (w : Window) (i : Interior) (params : List Node) : Node :=
  .group ⟨.none, w.opener, i.separators, i.blank ++ w.closer⟩ params

theorem rawLength_lexStage_le {g : Grammar} {offset : Int} {ss out : List Node}
    (h : (lexStage g offset ss).result = .ok out) : rawLength out ≤ rawLength ss := by
  unfold lexStage at h
  split at h
  · cases h
  · rename_i pieces hl
    cases h
    exact rawLength_lexEach_le hl

/-- The group stage of the buffer at a position. -/
def groupStage (l : Language) (offset : Int) (ss : List Node) : Traced Failure (List Node) :=
  match _hw : nextGroup l.grammar.brackets ss with
  | .absent =>
    match strayOpener? l.grammar.brackets ss with
    | some (opener, p) => .fail (.ofOpener offset opener ss p)
    | none => ⟨.ok ss, [.grouped ss]⟩
  | .unmatched closer buffer index => .fail (.ofCloser offset closer buffer index)
  | .window w =>
    let inside := w.inside l.grammar.separator offset
    let params : Traced Failure (List Node) :=
      .onEach inside.params fun p _hp =>
        let lexed := lexStage l.grammar p.offset p.sentences
        match _hl : lexed.result with
        | .error e => ⟨.error e, .entered p.field :: lexed.events⟩
        | .ok ss => do
          (⟨.ok (), .entered p.field :: lexed.events⟩ : Traced Failure Unit)
          let grouped ← groupStage l p.offset ss
          let folded ← foldStage l p.offset grouped
          .emit .left
          return .equation .none folded p.offset
    do
      .emit (.opened w.before w.interior)
      let params ← params.mapError (.within w)
      let node := w.group inside params
      .emit (.collapsed w.before w.sentences node)
      groupStage l offset (w.before ++ node :: w.after)
termination_by rawLength ss
decreasing_by
  · have h₁ := nextGroup_eq_window _hw
    have h₂ := Interior.rawLength_param_le _hp
    have h₃ := rawLength_lexStage_le _hl
    omega
  · have h₁ := nextGroup_eq_window _hw
    simp only [rawLength_append, rawLength_cons, Window.group, Node.rawText?, Option.getD_none, List.length_nil]
    omega

/-- All stages of the buffer at a position. -/
def parseBuffer (l : Language) (offset : Int) (ss : List Node) : Traced Failure (List Node) := do
  let lexed ← lexStage l.grammar offset ss
  let grouped ← groupStage l offset lexed
  foldStage l offset grouped

/-- The sentences of a text. -/
def parseText (l : Language) (t : Text) : Traced Failure (List Node) :=
  parseBuffer l 0 (Node.raws t)

end FormulaLang
