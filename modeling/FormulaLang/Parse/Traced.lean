import FormulaLang.Node.Source

/-!
# Traced computations

A computation that may fail and that leaves a trace of what it did, also when it fails. The trace is what the log shows and
what the variable table of a formula is made of; results do not depend on it (`Traced.result_bind`).
-/

namespace FormulaLang

theorem mapError_eq_ok_iff {ε ε' α : Type} {r : Except ε α} {f : ε → ε'} {a : α} : r.mapError f = .ok a ↔ r = .ok a := by
  constructor
  · intro h
    cases r with
    | error e => cases h
    | ok b =>
      cases h
      rfl
  · rintro rfl
    rfl

/-- A step of a parse. -/
inductive Event where
  /-- The leaves of a buffer have been found: each sentence, and what it was cut into. -/
  | lexed (cuts : List (Node × List Node))
  /-- The groups of a buffer have been found. -/
  | grouped (buffer : List Node)
  /-- The operators of a buffer have been applied. -/
  | folded (buffer : List Node)
  /-- The interior of a group, behind the sentences `before`, is going to be parsed. -/
  | opened (before interior : List Node)
  /-- The sentences of a field are going to be parsed as a parameter. -/
  | entered (field : List Node)
  /-- The parameter has been parsed. -/
  | left
  /-- A group has taken the place of the sentences between its brackets and of the brackets. -/
  | collapsed (before window : List Node) (group : Node)
  /-- A node has taken the place of neighbouring sentences. It is `kept` when it is one of them, with more white space. -/
  | replaced (before window : List Node) (node : Node) (kept : Bool)
  /-- A called function is not known. -/
  | unknownFunction (name : Text)
  /-- A variable has been met. -/
  | variableMet (name : Text)

/-- A computation with a trace. -/
structure Traced (ε α : Type) where
  result : Except ε α
  events : List Event

namespace Traced

variable {ε ε' α β : Type}

/-- A failure. -/
def fail (e : ε) : Traced ε α :=
  ⟨.error e, []⟩

/-- One event. -/
def emit (e : Event) : Traced ε Unit :=
  ⟨.ok (), [e]⟩

/-- One computation after another; a failure ends the work. -/
def bind (x : Traced ε α) (f : α → Traced ε β) : Traced ε β :=
  match x.result with
  | .error e => ⟨.error e, x.events⟩
  | .ok a =>
    let y := f a
    ⟨y.result, x.events ++ y.events⟩

instance : Monad (Traced ε) where
  pure a := ⟨.ok a, []⟩
  bind := bind

/-- A computation with another kind of failure. -/
def mapError (f : ε → ε') (x : Traced ε α) : Traced ε' α :=
  ⟨x.result.mapError f, x.events⟩

@[simp] theorem result_pure (a : α) : (pure a : Traced ε α).result = .ok a := rfl

@[simp] theorem result_fail (e : ε) : (fail e : Traced ε α).result = .error e := rfl

@[simp] theorem result_emit (e : Event) : (emit e : Traced ε Unit).result = .ok () := rfl

@[simp] theorem result_mapError (f : ε → ε') (x : Traced ε α) : (x.mapError f).result = x.result.mapError f := rfl

theorem bind_of_ok {x : Traced ε α} {f : α → Traced ε β} {a : α} (h : x.result = .ok a) :
    x >>= f = ⟨(f a).result, x.events ++ (f a).events⟩ := by
  show Traced.bind x f = _
  simp only [Traced.bind, h]

theorem bind_of_error {x : Traced ε α} {f : α → Traced ε β} {e : ε} (h : x.result = .error e) :
    x >>= f = ⟨.error e, x.events⟩ := by
  show Traced.bind x f = _
  simp only [Traced.bind, h]

/-- Results are combined as if there were no trace. -/
theorem result_bind (x : Traced ε α) (f : α → Traced ε β) : (x >>= f).result = x.result.bind fun a => (f a).result := by
  cases h : x.result with
  | error e => rw [bind_of_error h, Except.bind]
  | ok a => rw [bind_of_ok h, Except.bind]

/-- The work on the members of a list in turn. -/
def onEach (xs : List α) (f : (x : α) → x ∈ xs → Traced ε β) : Traced ε (List β) :=
  match xs with
  | [] => pure []
  | x :: rest => do
    let y ← f x (by simp)
    let ys ← onEach rest fun z hz => f z (by simp [hz])
    return y :: ys

end Traced

end FormulaLang
