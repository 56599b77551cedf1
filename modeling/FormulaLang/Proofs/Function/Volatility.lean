import FormulaLang.Proofs.Simplification.Variables
import Mathlib.Data.List.Nodup

/-!
# Volatile functions

What a registry says after any changes follows from the changes themselves: a name, in any letter case, stands for the function
of the latest change of that name (`Registry.standing?`), and a function is volatile as long as it was registered as volatile and
no name of it was removed later (`Registry.Asked`). A removal does not look at the other names of its function, so one of two
names can take away what the other one has asked for (`Registry.volatile_after_shared`). The function that draws random numbers
is volatile whatever happens, and a simplification keeps all calls of volatile functions (`Registry.volatile_after`).
-/

namespace FormulaLang

/-! ## Tables -/

section Tables

variable {α β : Type} [BEq α] [LawfulBEq α] (k key : α) (table : List (α × β))

theorem lookup_filter_ne : (table.filter (·.1 != key)).lookup k = if k == key then none else table.lookup k := by
  induction table with
  | nil => simp
  | cons entry table ih =>
    obtain ⟨a, b⟩ := entry
    by_cases ha : a = key
    · subst ha
      rw [List.filter_cons_of_neg (by simp), ih]
      cases hk : k == a <;> simp [List.lookup_cons, hk]
    · rw [List.filter_cons_of_pos (by simpa using ha)]
      cases hk : k == a with
      | false => simp only [List.lookup_cons, hk, ih]
      | true =>
        obtain rfl := eq_of_beq hk
        simp [ha]

end Tables

namespace Registry

/-! ## Changes -/

/-- A change of the registry. -/
inductive Change where
  | register (name : Text) (f : Function) (isVolatile : Bool)
  | unregister (name : Text)
  deriving DecidableEq

namespace Change

/-- The name that is changed. -/
def name : Change → Text
  | register name _ _ => name
  | unregister name => name

/-- The function that the name stands for afterwards, and whether it was registered as volatile. -/
def entry? : Change → Option (Function × Bool)
  | register _ f isVolatile => some (f, isVolatile)
  | unregister _ => none

/-- Both change the same name, whatever its letter case. -/
def concerns (c : Change) (name : Text) : Bool :=
  Text.lower name == Text.lower c.name

end Change

/-- Carries out a change. -/
def change (r : Registry) : Change → Registry
  | .register name f isVolatile => r.register name f isVolatile
  | .unregister name => r.unregister name

/-- The registry after changes, one after another. -/
def after (cs : List Change) : Registry :=
  cs.foldl change initial

/-- What the latest change of a name says of it; nothing when the name is not registered. -/
def standing? (cs : List Change) (name : Text) : Option (Function × Bool) :=
  (cs.reverse.find? (·.concerns name)).bind Change.entry?

/-- After the changes, this one removes a name that stands for the function. -/
def Removes (cs : List Change) (f : Function) (c : Change) : Prop :=
  ∃ name isVolatile, c = .unregister name ∧ standing? cs name = some (f, isVolatile)

/-- The function was registered as volatile, and no name of it was removed later. -/
def Asked (cs : List Change) (f : Function) : Prop :=
  ∃ front name back, cs = front ++ .register name f true :: back ∧
    ∀ mid c rest, back = mid ++ c :: rest → ¬Removes (front ++ .register name f true :: mid) f c

variable {cs : List Change} {c : Change} {f : Function}

theorem removes_unregister_iff {name : Text} :
    Removes cs f (.unregister name) ↔ ∃ isVolatile, standing? cs name = some (f, isVolatile) := by
  simp [Removes]

theorem contains_alwaysVolatile (f : Function) : alwaysVolatile.contains f = decide (f = .random) := by
  simp [alwaysVolatile]

theorem after_concat (cs : List Change) (c : Change) : after (cs ++ [c]) = (after cs).change c := by
  rw [after, List.foldl_append]
  rfl

theorem standing?_concat (cs : List Change) (c : Change) (name : Text) :
    standing? (cs ++ [c]) name = if c.concerns name then c.entry? else standing? cs name := by
  rw [standing?, List.reverse_append, List.reverse_singleton, List.singleton_append, List.find?_cons]
  cases c.concerns name <;> rfl

/-- A function is asked for by the latest change, or as before when the latest change does not remove a name of it. -/
theorem asked_concat_iff :
    Asked (cs ++ [c]) f ↔ (∃ name, c = .register name f true) ∨ Asked cs f ∧ ¬Removes cs f c := by
  constructor
  · rintro ⟨front, name, back, heq, hback⟩
    obtain rfl | ⟨back, d, rfl⟩ := List.eq_nil_or_concat back
    · exact .inl ⟨name, (List.append_inj' heq rfl).2 |> List.singleton_inj.1⟩
    · rw [List.concat_eq_append, ← List.cons_append, ← List.append_assoc] at heq
      obtain ⟨rfl, hd⟩ := List.append_inj' heq rfl
      obtain rfl := List.singleton_inj.1 hd
      refine .inr ⟨⟨front, name, back, rfl, fun mid e rest he => ?_⟩, hback back c [] (by simp)⟩
      exact hback mid e (rest ++ [c]) (by simp [he])
  · rintro (⟨name, rfl⟩ | ⟨⟨front, name, back, rfl, hback⟩, hc⟩)
    · exact ⟨cs, name, [], rfl, fun mid c rest h => by simp at h⟩
    · refine ⟨front, name, back ++ [c], by simp, fun mid e rest he => ?_⟩
      obtain rfl | ⟨rest, d, rfl⟩ := List.eq_nil_or_concat rest
      · obtain ⟨rfl, hd⟩ := List.append_inj' he rfl
        obtain rfl := List.singleton_inj.1 hd
        exact hc
      · rw [List.concat_eq_append, ← List.cons_append, ← List.append_assoc] at he
        exact hback mid e rest (List.append_inj' he rfl).1

/-! ## What a registry says -/

/-- The registry says what the changes say. -/
structure Tracks (cs : List Change) (r : Registry) : Prop where
  lookup : ∀ name, r.custom.lookup (Text.lower name) = (standing? cs name).map Prod.fst
  volatile : ∀ f, f ∈ r.volatile ↔ f = .random ∨ Asked cs f
  nodup : r.volatile.Nodup

namespace Tracks

variable {r : Registry}

theorem initial : Tracks [] Registry.initial where
  lookup name := rfl
  volatile f := by
    have hnever : ¬Asked [] f := by
      rintro ⟨front, name, back, h, -⟩
      simp at h
    simp [Registry.initial, alwaysVolatile, Function.random, hnever]
  nodup := List.nodup_singleton _

theorem register (h : Tracks cs r) (name : Text) (f : Function) (isVolatile : Bool) :
    Tracks (cs ++ [.register name f isVolatile]) (r.register name f isVolatile) where
  lookup other := by
    have htable : (r.register name f isVolatile).custom.lookup (Text.lower other) =
        if Text.lower other == Text.lower name then some f else r.custom.lookup (Text.lower other) := by
      rw [Registry.register, List.lookup_cons, lookup_filter_ne]
      cases Text.lower other == Text.lower name <;> rfl
    rw [htable, h.lookup, standing?_concat, apply_ite (Option.map Prod.fst)]
    rfl
  volatile g := by
    have hnot : ¬Removes cs g (.register name f isVolatile) := by
      rintro ⟨other, v, hc, -⟩
      cases hc
    have hlist : g ∈ (r.register name f isVolatile).volatile ↔ g ∈ r.volatile ∨ isVolatile = true ∧ g = f := by
      rw [Registry.register]
      by_cases hf : f ∈ r.volatile
      · cases isVolatile <;> simp [hf]
        rintro rfl
        exact hf
      · cases isVolatile <;> simp [hf]
    have hname : (∃ other, Change.register name f isVolatile = .register other g true) ↔ isVolatile = true ∧ g = f := by
      simp [eq_comm, and_comm]
    rw [hlist, h.volatile, asked_concat_iff, hname]
    simp only [hnot, not_false_eq_true, and_true]
    tauto
  nodup := by
    rw [Registry.register]
    dsimp only
    split
    · rename_i hf
      simp only [Bool.and_eq_true, Bool.not_eq_true', List.contains_eq_mem, decide_eq_false_iff_not] at hf
      exact h.nodup.append (List.nodup_singleton f) (by simpa using hf.2)
    · exact h.nodup

theorem unregister (h : Tracks cs r) (name : Text) : Tracks (cs ++ [.unregister name]) (r.unregister name) where
  lookup other := by
    rw [Registry.unregister, lookup_filter_ne, h.lookup, standing?_concat, apply_ite (Option.map Prod.fst)]
    rfl
  volatile g := by
    have hname : ¬∃ other, Change.unregister name = .register other g true := nofun
    rw [asked_concat_iff, removes_unregister_iff, Registry.unregister]
    simp only [hname, false_or, h.lookup]
    rcases standing? cs name with - | ⟨f, v⟩
    · simpa using h.volatile g
    · have hremoves : (∃ isVolatile, some (f, v) = some (g, isVolatile)) ↔ f = g := by simp
      rw [hremoves]
      by_cases hf : f = .random
      · simp only [Option.map_some, hf, contains_alwaysVolatile, decide_true, if_true, h.volatile]
        grind
      · simp only [Option.map_some, contains_alwaysVolatile, hf, decide_false, Bool.false_eq_true, if_false,
          h.nodup.mem_erase_iff, h.volatile]
        grind
  nodup := by
    rw [Registry.unregister]
    dsimp only
    split
    · split
      · exact h.nodup
      · exact h.nodup.erase _
    · exact h.nodup

end Tracks

/-- **Every registry** says what the changes say that made it. -/
theorem tracks_after (cs : List Change) : Tracks cs (after cs) := by
  induction cs using List.reverseRecOn with
  | nil => exact .initial
  | append_singleton cs c ih =>
    rw [after_concat]
    cases c with
    | register name f isVolatile => exact ih.register name f isVolatile
    | unregister name => exact ih.unregister name

/-! ## Calls -/

/-- The names and functions of calls of functions of a kind. -/
def called (kind : Function → Bool) : Node.Listing (Text × Function) :=
  ⟨fun _ _ _ => none, fun _ c f => (f.filter kind).map fun f => (c.name, f)⟩

/-- Calls of volatile functions are not folded. -/
theorem lasting_called (isVolatile : Function → Bool) : (called isVolatile).Lasting isVolatile := by
  intro p c f hf
  obtain ⟨g, rfl, hg⟩ := (Option.any_eq_true _ _).1 hf
  rw [Bool.not_eq_true'] at hg
  simp [called, hg]

/-- **Volatile functions** after any changes of the registry. Drawing a random number always is volatile. A name whose latest
registration asked for it stands for a function that is volatile exactly as long as that function, under whatever name, was
registered as volatile and no name of it was removed since; and a simplification keeps every call of a volatile function,
whatever the functions of the formula were bound to when it was parsed. -/
theorem volatile_after (cs : List Change) :
    (after cs).isVolatile .random = true ∧
      (∀ name f, standing? cs name = some (f, true) → (after cs).resolve? name = some f ∧
        ((after cs).isVolatile f = true ↔ f = .random ∨ Asked cs f)) ∧
      ∀ {σ : Type} (host : Host σ) (resolve : Text → Option Function) (t : Text) (g : Formula) (st st' : σ),
        (Formula.parse ⟨.default, resolve⟩ t).failure = none →
        (Formula.parse ⟨.default, resolve⟩ t).formula.simplify host (after cs).isVolatile st = (.ok g, st') →
        (called (after cs).isVolatile).list g.root =
          (called (after cs).isVolatile).list (Formula.parse ⟨.default, resolve⟩ t).formula.root := by
  have htracks : Tracks cs (after cs) := tracks_after cs
  have hvolatile : ∀ f, (after cs).isVolatile f = true ↔ f = .random ∨ Asked cs f := fun f => by
    rw [isVolatile, List.contains_iff_mem, htracks.volatile]
  refine ⟨(hvolatile _).2 (.inl rfl), fun name f hname => ⟨?_, hvolatile f⟩, ?_⟩
  · rw [resolve?, htracks.lookup, hname]
    rfl
  · intro σ host resolve t g st st' hparse hs
    obtain ⟨n, mid, hn, hg⟩ := Action.run_bind_ok hs
    cases hg
    have hinterned : (Formula.parse ⟨.default, resolve⟩ t).formula.root.Interned :=
      (Formula.tabled_parse resolve hparse).interned
    exact (hinterned.keeps (lasting_called _) hn).list

/-- Two functions that were registered as volatile, the second of which is removed again. -/
def clockOnly : List Change :=
  [.register "tick".toList (.custom ['c']) true, .register "twice".toList (.custom ['d']) true, .unregister "TWICE".toList]

theorem volatile_after_clock :
    let r := after clockOnly
    let t := "Tick()+2*3+twice()".toList
    (r.resolve? "Tick".toList = some (.custom ['c']) ∧ r.isVolatile (.custom ['c']) = true) ∧
      ∃ g, (Formula.parse ⟨.default, r.resolve?⟩ t).formula.simplify Formula.quietHost r.isVolatile () = (.ok g, ()) ∧
        (called r.isVolatile).list g.root = [("Tick".toList, .custom ['c'])] := by
  intro r t
  have hstanding : standing? clockOnly "Tick".toList = some (.custom ['c'], true) := by decide +kernel
  have hasked : Asked clockOnly (.custom ['c']) :=
    ((tracks_after clockOnly).volatile _).1 (by decide +kernel : _ ∈ r.volatile) |>.resolve_left (by decide)
  obtain ⟨-, hnames, hcalls⟩ := volatile_after clockOnly
  obtain ⟨hresolve, hiff⟩ := hnames _ _ hstanding
  refine ⟨⟨hresolve, hiff.2 (.inr hasked)⟩, ?_⟩
  have hparse : (Formula.parse ⟨.default, r.resolve?⟩ t).failure = none := Option.isNone_iff_eq_none.1 (by decide +kernel)
  have hok : ((Formula.parse ⟨.default, r.resolve?⟩ t).formula.simplify Formula.quietHost r.isVolatile ()).1.toOption.isSome =
      true := by
    decide +kernel
  have hlist : (called r.isVolatile).list (Formula.parse ⟨.default, r.resolve?⟩ t).formula.root =
      [("Tick".toList, .custom ['c'])] := by
    decide +kernel
  rcases hs : (Formula.parse ⟨.default, r.resolve?⟩ t).formula.simplify Formula.quietHost r.isVolatile () with ⟨e | g, st⟩
  · rw [hs] at hok
    cases hok
  · exact ⟨g, rfl, (hcalls _ _ _ _ _ _ hparse hs).trans hlist⟩

/-- Two names of one function: removing the first takes away what the registration of the second has asked for. -/
theorem volatile_after_shared :
    let cs := [.register ['a'] (.custom ['c']) true, .register ['b'] (.custom ['c']) true, .unregister ['a']]
    standing? cs ['b'] = some (.custom ['c'], true) ∧ (after cs).resolve? ['b'] = some (.custom ['c']) ∧
      (after cs).isVolatile (.custom ['c']) = false := by
  decide +kernel

end Registry

end FormulaLang
