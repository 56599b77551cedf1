import FormulaLang.Node.Literal

/-!
# Evaluation

The value of a tree under a binding of its variables is a finite number or, where a name is unbound or an operation has no
finite result, a symbolic text in which the values of the operands stand. A calculation fault of an operation is no fault of
the evaluation; what is left are the faults of custom functions, integers too long to be written, and nodes that are not
well formed.
-/

namespace FormulaLang

/-- What a formula comes to. -/
inductive Result where
  | number (s : Scalar)
  | symbolic (t : Text)

namespace Result

/-- The text of a result. -/
def text : Result → Except Fault Text
  | number s => s.text
  | symbolic t => .ok t

/-- The number of a result that is one. -/
def toNumber? : Result → Option Scalar
  | number s => some s
  | symbolic _ => none

/-- A result as the value of a function. -/
def toValue : Result → Value
  | number s => .scalar s
  | symbolic t => .symbolic t

end Result

/-- The number that the value of an operation stands for; a truth value counts as 0 or 1. -/
def Value.toNumber? : Value → Option Scalar
  | .scalar s => if s.widen.isNumber then some s.widen else Option.none
  | _ => Option.none

variable {σ : Type}

namespace Evaluation

/-- A computation whose calculation faults count as the lack of a result. -/
def attempt (x : Action σ Value) : Action σ (Option Scalar) :=
  ExceptT.mk do
    match ← x.run with
    | .ok v => pure (.ok v.toNumber?)
    | .error e => pure (if e.isCalculation then .ok none else .error e)

/-- The texts of results with commas between them. -/
def commaTexts (vs : List Result) : Except Fault Text := do
  return Text.joinWith [','] (← vs.mapM Result.text)

/-- The value of an operation, symbolic unless its operands are numbers and it has a result. -/
def applyBinary (symbol : Except Fault Text) (operation : Option Operation) (a b : Result) : Except Fault Result := do
  let symbolic : Except Fault Result := do
    let left ← a.text
    let symbol ← symbol
    return .symbolic ('(' :: left ++ symbol ++ (← b.text) ++ [')'])
  match a, b with
  | .number x, .number y =>
    match operation.bind fun op => ((op.binary (.scalar x) (.scalar y)).toOption.bind Value.toNumber?) with
    | some r => return .number r
    | none => symbolic
  | _, _ => symbolic

/-- The value of an operation with one operand. -/
def applyUnary (symbol : Except Fault Text) (operation : Option Operation) (v : Result) : Except Fault Result := do
  let symbolic : Except Fault Result := do return .symbolic ('(' :: (← symbol) ++ (← v.text) ++ [')'])
  match v with
  | .number x =>
    match operation.bind fun op => ((op.unary (.scalar x)).toOption.bind Value.toNumber?) with
    | some r => return .number r
    | none => symbolic
  | .symbolic _ => symbolic

/-- The numbers of results that all are numbers. -/
def numbers? (vs : List Result) : Option (List Scalar) :=
  vs.mapM Result.toNumber?

/-- The value of a call, symbolic unless the function is known, its arguments are numbers and it has a result. -/
def applyFunction (host : Host σ) (name : Text) (f : Option Function) (vs : List Result) : Action σ Result := do
  let symbolic : Action σ Result :=
    Action.ofExcept do return .symbolic (name ++ '(' :: (← commaTexts vs) ++ [')'])
  match f, numbers? vs with
  | some f, some args =>
    match ← attempt (f.call host (args.map .scalar)) with
    | some r => return .number r
    | none => symbolic
  | _, _ => symbolic

end Evaluation

open Evaluation

mutual
/-- The value of a tree. `lookup` gives the number that a variable is bound to. -/
def evaluate (host : Host σ) (lookup : Reference → Option Scalar) : Node → Action σ Result
  | .raw _ => throw (.valueless (Value.text []).kindName)
  | .number _ v t => return if v.isNumber then .number v else .symbolic t
  | .identifier _ t => return .symbolic t
  | .var _ r _ => return match lookup r with
    | some v => .number v
    | none => .symbolic r.name
  | .token _ _ t => return .symbolic (Text.trim t)
  | .group b ps =>
    match ps with
    | [p] => evaluate host lookup p
    | ps => Action.ofExcept do return .symbolic (← Node.groupLiteral b ps)
  | .call _ c f a => do
    let vs ← evaluateArguments host lookup a
    applyFunction host c.name f vs
  | .unary _ s o x => do
    let v ← evaluate host lookup x
    Action.ofExcept (applyUnary s.symbol o v)
  | .binary _ l s o r => do
    let a ← evaluate host lookup l
    let b ← evaluate host lookup r
    Action.ofExcept (applyBinary s.symbol o a b)
  | .equation _ ss _ =>
    if ss.all Node.isBlankRaw then return .number (.int 0)
    else
      match ss with
      | [s] =>
        match s.rawText? with
        | some t => return .symbolic t
        | none => evaluate host lookup s
      | ss => do return .symbolic (← evaluateTexts host lookup ss)

/-- The values of several trees. -/
def evaluateAll (host : Host σ) (lookup : Reference → Option Scalar) : List Node → Action σ (List Result)
  | [] => return []
  | n :: rest => do
    let v ← evaluate host lookup n
    return v :: (← evaluateAll host lookup rest)

/-- The values of the parameters of a call. -/
def evaluateArguments (host : Host σ) (lookup : Reference → Option Scalar) : Node → Action σ (List Result)
  | .group _ ps => evaluateAll host lookup ps
  | _ => throw (.malformed .part)

/-- The texts of the values of the sentences of a buffer, one after another; raw text stands for itself. -/
def evaluateTexts (host : Host σ) (lookup : Reference → Option Scalar) : List Node → Action σ Text
  | [] => return []
  | n :: rest => do
    let t ←
      match n.rawText? with
      | some t => pure t
      | none => do
        let v ← evaluate host lookup n
        Action.ofExcept v.text
    return t ++ (← evaluateTexts host lookup rest)
end

end FormulaLang
