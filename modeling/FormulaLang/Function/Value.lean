import FormulaLang.Number.Arithmetic

/-!
# Values

What a function may take and give: nothing, a scalar, a plain text, a symbolic text that stands for a formula without a
number, or a list.
-/

namespace FormulaLang

/-- A value that a function takes or gives. -/
inductive Value where
  | none
  | scalar (s : Scalar)
  | text (t : Text)
  | symbolic (t : Text)
  | list (items : List Value)
  deriving Inhabited

namespace Value

/-- A truth value. -/
abbrev bool (b : Bool) : Value := scalar (.bool b)

/-- An integer. -/
abbrev int (n : Int) : Value := scalar (.int n)

/-- A double. -/
abbrev float (x : Float) : Value := scalar (.float x)

/-- A condition as the integer 1 or 0. -/
def flag (b : Bool) : Value := int (if b then 1 else 0)

/-- An integer or a finite double. -/
def isNumber : Value → Bool
  | scalar s => s.isNumber
  | _ => false

/-- The scalar of a value that has one. -/
def toScalar : Value → Except Fault Scalar
  | scalar s => .ok s
  | _ => .error .argument

/-- The double of a scalar value. -/
def toFloat (v : Value) : Except Fault Float := do
  (← v.toScalar).toFloat

/-- The integer of a value that is one. -/
def toInt : Value → Except Fault Int
  | scalar (.int n) => .ok n
  | scalar (.bool b) => .ok (if b then 1 else 0)
  | _ => .error .argument

/-- Whether a value counts as true. -/
def truthy : Value → Bool
  | none => false
  | scalar s => s.truthy
  | text t => !t.isEmpty
  | symbolic t => !t.isEmpty
  | list items => !items.isEmpty

mutual
/-- Equal values; a plain and a symbolic text are equal when they read the same. -/
def same : Value → Value → Bool
  | none, none => true
  | scalar a, scalar b => a.same b
  | text s, text t => s == t
  | text s, symbolic t => s == t
  | symbolic s, text t => s == t
  | symbolic s, symbolic t => s == t
  | list xs, list ys => sameAll xs ys
  | _, _ => false

/-- Lists of equal values. -/
def sameAll : List Value → List Value → Bool
  | [], [] => true
  | x :: xs, y :: ys => same x y && sameAll xs ys
  | _, _ => false
end

/-- The name of the kind of a value. -/
def kindName : Value → Text
  | none => "NoneType".toList
  | scalar (.bool _) => "bool".toList
  | scalar (.int _) => "int".toList
  | scalar (.float _) => "float".toList
  | text _ => "str".toList
  | symbolic _ => "Partial".toList
  | list _ => "list".toList

mutual
/-- The exact text of a value, texts between quotes. -/
def exactText : Value → Except Fault Text
  | none => .ok "None".toList
  | scalar s => s.exactText
  | text t => .ok (Text.quoted t)
  | symbolic t => .ok ("Partial(".toList ++ Text.quoted t ++ [')'])
  | list items => do return '[' :: (← exactTexts items) ++ [']']

/-- The exact texts of values with commas between them. -/
def exactTexts : List Value → Except Fault Text
  | [] => .ok []
  | [v] => exactText v
  | v :: rest => do return (← exactText v) ++ ", ".toList ++ (← exactTexts rest)
end

end Value

end FormulaLang
