import FormulaLang.Grammar.Default
import FormulaLang.Text.Lines

/-!
# Grammars from settings

A grammar can be written as a table of settings with the members `leaves`, `brackets`, `tiers` and `separator`. They are
read in this order, and the first member that is missing or has an unknown name is the error. A table may also start from
the default grammar, replace some of its members, drop tiers and put them into another order; this is done before any
member is read.
-/

namespace FormulaLang

/-- A settings value. -/
inductive Setting where
  | text (t : Text)
  | list (items : List Setting)
  | table (entries : List (Text × Setting))
  /-- Any other value, as it is shown. It is `given` unless it stands for nothing, such as a zero. -/
  | atom (shown : Text) (given : Bool)
  deriving Inhabited

/-- Why settings are no grammar. -/
inductive SettingError where
  /-- A key that is missing, or a name that is not known, as it is shown. -/
  | missing (shown : Text)
  /-- A pair of brackets that is no pair, as it is shown. -/
  | brackets (shown : Text)
  /-- A value of the wrong kind. -/
  | kind
  deriving DecidableEq, Repr

/-- The wording of an error. -/
def SettingError.message : SettingError → Text
  | missing shown => shown
  | brackets shown => "Bracket pair must be two characters, got ".toList ++ shown
  | kind => "Wrong kind of value".toList

namespace Setting

mutual
/-- A value as it is shown in an error. -/
def display : Setting → Text
  | text t => Text.quoted t
  | list xs => '[' :: Text.joinWith ", ".toList (displays xs) ++ [']']
  | table es => '\x7b' :: Text.joinWith ", ".toList (entryDisplays es) ++ ['\x7d']
  | atom shown _ => shown

/-- Several values as they are shown. -/
def displays : List Setting → List Text
  | [] => []
  | x :: xs => display x :: displays xs

/-- The entries of a table as they are shown. -/
def entryDisplays : List (Text × Setting) → List Text
  | [] => []
  | (key, v) :: es => (Text.quoted key ++ ": ".toList ++ display v) :: entryDisplays es
end

/-- A member of a table. -/
def get? (s : Setting) (key : String) : Option Setting :=
  match s with
  | table entries => entries.lookup key.toList
  | _ => none

/-- A member that has to be there. -/
def get (s : Setting) (key : String) : Except SettingError Setting :=
  match s with
  | table entries =>
    match entries.lookup key.toList with
    | some v => .ok v
    | none => .error (.missing (Text.quoted key.toList))
  | _ => .error .kind

/-- The items of a list, the characters of a text, or the keys of a table. -/
def items : Setting → Except SettingError (List Setting)
  | list xs => .ok xs
  | text t => .ok (t.map fun c => text [c])
  | table es => .ok (es.map fun e => text e.1)
  | atom _ _ => .error .kind

/-- A text. -/
def toText : Setting → Except SettingError Text
  | text t => .ok t
  | _ => .error .kind

/-- A value is given: it holds something and does not stand for nothing. -/
def isGiven : Setting → Bool
  | text t => !t.isEmpty
  | list xs => !xs.isEmpty
  | table es => !es.isEmpty
  | atom _ given => given

/-- What a name stands for. -/
def named {α : Type} (find? : Text → Option α) (name : Setting) : Except SettingError α :=
  match name with
  | text t =>
    match find? t with
    | some a => .ok a
    | none => .error (.missing (Text.quoted t))
  | atom shown _ => .error (.missing shown)
  | _ => .error .kind

/-- Reads a leaf rule. -/
def toLeafRule (s : Setting) : Except SettingError LeafRule := do
  let kind ← s.get "kind"
  let pattern ← (← s.get "pattern").toText
  return ⟨← named LeafKind.ofName? kind, Pattern.ofSource pattern⟩

/-- Reads a pair of brackets. -/
def toBrackets (s : Setting) : Except SettingError (Text × Text) := do
  match ← s.items with
  | [opener, closer] => return (← opener.toText, ← closer.toText)
  | _ => throw (.brackets s.display)

/-- Reads the shape of a sentence. -/
def toElement : Setting → Except SettingError Element
  | text t => .ok (.ofText t)
  | atom shown _ => .ok (.symbol shown)
  | _ => .error .kind

/-- Reads a fold rule. -/
def toRule (s : Setting) : Except SettingError Rule := do
  let pattern ← (← (← s.get "pattern").items).mapM toElement
  let builder ← named Builder.ofName? (← s.get "build")
  match (s.get? "operation").filter isGiven with
  | some operation => return ⟨pattern, builder, some (← named Operation.ofName? operation)⟩
  | none => return ⟨pattern, builder, none⟩

/-- Reads a tier. -/
def toTier (s : Setting) : Except SettingError Tier := do
  let rules ← (← (← s.get "rules").items).mapM toRule
  return ⟨← (← s.get "name").toText, rules⟩

/-- Reads a grammar. -/
def toGrammar (s : Setting) : Except SettingError Grammar := do
  let leaves ← (← (← s.get "leaves").items).mapM toLeafRule
  let brackets ← (← (← s.get "brackets").items).mapM toBrackets
  let tiers ← (← (← s.get "tiers").items).mapM toTier
  return ⟨leaves, brackets, Separator.ofSource (← (← s.get "separator").toText), tiers⟩

/-! ## Settings that start from the default grammar -/

/-- The word for a shape in a rule. -/
def ofElement : Element → Setting
  | .space => text "space".toList
  | .node => text "node".toList
  | .value => text "value".toList
  | .identifier => text "identifier".toList
  | .group => text "group".toList
  | .symbol s => text s

/-- A rule as settings. -/
def ofRule (r : Rule) : Setting :=
  table (("pattern".toList, list (r.pattern.map ofElement)) :: ("build".toList, text r.builder.name) ::
    (r.operation.map fun op => ("operation".toList, text op.name)).toList)

/-- The members of a grammar as settings. -/
def ofGrammar (g : Grammar) : List (Text × Setting) :=
  [("leaves".toList,
      list (g.leaves.map fun r => table [("kind".toList, text r.kind.name), ("pattern".toList, text r.pattern.source)])),
    ("brackets".toList, list (g.brackets.map fun (opener, closer) => list [text opener, text closer])),
    ("separator".toList, text g.separator.source),
    ("tiers".toList,
      list (g.tiers.map fun t =>
        table [("name".toList, text t.name), ("rules".toList, list (t.rules.map ofRule))]))]

/-- The name of a tier. -/
def tierName (s : Setting) : Except SettingError Text := do
  (← s.get "name").toText

/-- The tiers whose names are not among the dropped ones. -/
def dropTiers (dropped : List Setting) (tiers : List Setting) : Except SettingError (List Setting) := do
  let names ← dropped.mapM toText
  tiers.filterM fun t => do return !names.contains (← t.tierName)

/-- The tiers of given names in the order of the names. Of several tiers with one name the last counts. -/
def pickTiers (names : List Setting) (tiers : List Setting) : Except SettingError (List Setting) := do
  let entries ← tiers.mapM fun t => do return (← t.tierName, t)
  names.mapM (named fun name => entries.reverse.lookup name)

/-- The members of a table, completed from the default grammar if the table is based on it. -/
def members (own : List (Text × Setting)) : List (Text × Setting) :=
  match own.lookup "base".toList with
  | some (text base) =>
    if base == "default".toList then own ++ (ofGrammar .default).filter fun (key, _) => (own.lookup key).isNone
    else own
  | _ => own

/-- Settings with what they take from the default grammar, and with their tiers dropped and put in order. -/
def complete (s : Setting) : Except SettingError Setting := do
  match s with
  | table own =>
    let completed := table (members own)
    match s.get? "drop", s.get? "order" with
    | none, none => return completed
    | drop, order =>
      let tiers ← (← completed.get "tiers").items
      let tiers ← match drop with
        | some names => do dropTiers (← names.items) tiers
        | none => pure tiers
      let tiers ← match order with
        | some names => do pickTiers (← names.items) tiers
        | none => pure tiers
      return table (("tiers".toList, list tiers) :: members own)
  | s => return s

end Setting

/-- The grammar that settings describe; no settings stand for the default grammar. -/
def Grammar.ofSettings (s : Setting) : Except SettingError Grammar :=
  match s with
  | .table [] => .ok .default
  | s => do (← s.complete).toGrammar

end FormulaLang
