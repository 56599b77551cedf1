import FormulaLang.Proofs.Evaluation.Safety
import FormulaLang.Proofs.Parse.Variables

/-!
# The variable table

A formula has a slot for every variable that its parse has met, and no other, so a parsed formula has slots for the names in
its tree (`slot?_parse`). Bindings look at the names of slots alone: formulas with the same slots have the same slots after the
same bindings, and variables look up the same numbers in them (`lookup_bindEach`).
-/

namespace FormulaLang.Formula

variable {f g : Formula} {l : Language}

/-! ## Slots -/

theorem mem_slots_iff (f : Formula) (name : Text) : name ∈ f.slots.map (·.name) ↔ (f.slot? name).isSome = true := by
  simp [slot?, List.find?_isSome]

/-- A new slot comes behind the others and has no value. -/
theorem slot?_intern (f : Formula) (name x : Text) :
    (f.intern name).slot? x = (f.slot? x).or (if name = x then some ⟨name, .none⟩ else none) := by
  unfold intern
  split
  · rename_i h
    split
    · rename_i heq
      obtain ⟨s, hs⟩ := Option.isSome_iff_exists.1 h
      rw [← heq, hs, Option.some_or]
    · rw [Option.or_none]
  · rw [slot?, List.find?_append, List.find?_singleton]
    simp [slot?]

theorem slot?_foldl_intern (f : Formula) (names : List Text) (x : Text) :
    (names.foldl intern f).slot? x = (f.slot? x).or (if x ∈ names then some ⟨x, .none⟩ else none) := by
  induction names generalizing f with
  | nil => simp
  | cons name names ih =>
    rw [List.foldl_cons, ih, slot?_intern, Option.or_assoc]
    by_cases heq : name = x
    · simp [heq]
    · simp [heq, Ne.symm heq]

/-- **The slots of a parsed text** are those of the variables in its tree. -/
theorem slot?_parse (hb : DistinctBrackets l.grammar.brackets) {t : Text} {out : List Node}
    (h : (parseText l t).result = .ok out) (x : Text) :
    (parse l t).formula.slot? x = if x ∈ (Node.equation .none out 0).varNames then some ⟨x, .none⟩ else none := by
  have hslot : (parse l t).formula.slot? x = ((metVariables (parseText l t).events).foldl intern (new t)).slot? x := by
    simp only [parse, settle, h]
    rfl
  rw [hslot, slot?_foldl_intern]
  simp [mem_metVariables_iff hb h, new, slot?]

/-! ## Bindings -/

/-- A binding changes the value of a slot, whatever the other slots are. -/
theorem slot?_bind (f : Formula) (name : Text) (v : Value) (x : Text) :
    (f.bind name v).slot? x = (f.slot? x).map fun s => if s.name == name then { s with value := v } else s := by
  unfold bind slot?
  induction f.slots with
  | nil => rfl
  | cons s slots ih =>
    -- the name of a slot stays, bound or not
    have hname : (if s.name == name then { s with value := v } else s).name = s.name := by split <;> rfl
    rw [List.map_cons, List.find?_cons, List.find?_cons, hname, ih]
    split <;> rfl

/-- **Formulas with the same slots** look up the same numbers after the same bindings. -/
theorem lookup_bindEach (h : ∀ x, f.slot? x = g.slot? x) (bindings : List (Text × Value)) :
    (f.bindEach bindings).lookup = (g.bindEach bindings).lookup := by
  induction bindings generalizing f g with
  | nil =>
    funext r
    cases r <;> simp [bindEach, lookup, h]
  | cons b bindings ih => exact ih fun x => by rw [slot?_bind, slot?_bind, h]

end FormulaLang.Formula
