import FormulaLang.Proofs.Simplification.Source

/-!
# Simplification keeps the warnings

A literal never stands for a variable, for a call of an unknown function, or for a call that draws a random number, so a
simplified formula reports the names that the formula reports, in the same order, and warns about the same things
(`Formula.warnings_simplify`). The order is that of the source: in an interned tree the name of a variable is its text, and the
name of a call is the text of its callee, and the walk meets them from left to right (`Node.Interned.inOrder_places`).
-/

namespace FormulaLang

open Formula (WarningCode)

variable {σ β : Type} {host : Host σ} {isVolatile : Function → Bool}

namespace Node

/-! ## Names in the source -/

section Places

variable {ns : List Node}

theorem Listing.map_placesAll {L : Listing β} (h : ∀ n ∈ ns, ∀ o, (L.places o n).map Prod.snd = L.list n) (o : Nat) :
    (L.placesAll o ns).map Prod.snd = ns.flatMap L.list := by
  induction ns generalizing o with
  | nil => rfl
  | cons n ns ih =>
    rw [placesAll, List.map_append, h n List.mem_cons_self, ih fun m hm => h m (List.mem_cons_of_mem _ hm),
      List.flatMap_cons]

theorem Listing.map_placesParams {L : Listing β} (h : ∀ n ∈ ns, ∀ o, (L.places o n).map Prod.snd = L.list n) (o : Nat)
    (separators : List Text) : (L.placesParams o ns separators).map Prod.snd = ns.flatMap L.list := by
  induction ns generalizing o separators with
  | nil => rfl
  | cons n ns ih =>
    have hns := ih fun m hm => h m (List.mem_cons_of_mem _ hm)
    cases separators <;> rw [placesParams, List.map_append, h n List.mem_cons_self, hns, List.flatMap_cons]

/-- The places are those of the notes, one after another. -/
theorem Interned.map_places {L : Listing β} {n : Node} (h : n.Interned) (o : Nat) :
    (L.places o n).map Prod.snd = L.list n := by
  induction h generalizing o with
  | raw | number | identifier => rfl
  | var => simp [Listing.places, Function.comp_def]
  | group b _ ih => rw [Listing.places, Listing.map_placesParams ih, Listing.list_group]
  | call p q t f b _ ih =>
    simp [Listing.places, Listing.map_placesParams ih, Function.comp_def]
  | unary p s _ _ ih => rw [Listing.places, ih, Listing.list_unary]
  | binary p s _ _ _ ihx ihy => rw [Listing.places, List.map_append, ihx, ihy, Listing.list_binary]
  | equation p _ _ ih => rw [Listing.places, Listing.map_placesAll ih, Listing.list_equation]

end Places

/-- The listing notes names as they are written. -/
structure Listing.NotesNames (L : Listing Text) : Prop where
  var : ∀ p t, ∀ s ∈ L.var p (.table t) t, s = t
  call : ∀ p q t f, ∀ s ∈ L.call p (.identifier q t) f, s = t

section Order

open Text (InOrder)

variable {L : Listing Text} {ns : List Node}

theorem Listing.inOrder_placesAll (h : ∀ n ∈ ns, ∀ o, InOrder o n.sourceText (L.places o n)) (o : Nat) :
    InOrder o (sourceTexts ns) (L.placesAll o ns) := by
  induction ns generalizing o with
  | nil => trivial
  | cons n ns ih => exact (h n List.mem_cons_self o).append (ih (fun m hm => h m (List.mem_cons_of_mem _ hm)) _)

theorem Listing.inOrder_placesParams (h : ∀ n ∈ ns, ∀ o, InOrder o n.sourceText (L.places o n)) (o : Nat)
    (separators : List Text) : InOrder o (paramsText ns separators) (L.placesParams o ns separators) := by
  induction ns generalizing o separators with
  | nil => trivial
  | cons n ns ih =>
    have hns := ih fun m hm => h m (List.mem_cons_of_mem _ hm)
    cases separators with
    | nil => exact (h n List.mem_cons_self o).append (hns _ [])
    | cons s separators =>
      refine ((h n List.mem_cons_self o).before s).append ?_
      rw [List.length_append, ← Nat.add_assoc]
      exact hns _ separators

/-- A name that is noted stands where it is written. -/
theorem inOrder_note {x : Option Text} {t : Text} (h : ∀ s ∈ x, s = t) (o : Nat) :
    InOrder o t (x.toList.map (o, ·)) := by
  cases x with
  | none => trivial
  | some s =>
    obtain rfl := h s rfl
    exact .singleton o s

/-- **The names** that are noted stand in the source text at their places, one behind the other. -/
theorem Interned.inOrder_places (hL : L.NotesNames) {n : Node} (h : n.Interned) (o : Nat) :
    InOrder o n.sourceText (L.places o n) := by
  induction h generalizing o with
  | raw | number | identifier => trivial
  | var p name => exact (inOrder_note (hL.var p name) _).wrap
  | @group b ps _ ih =>
    rw [sourceText, Listing.places]
    exact ((Listing.inOrder_placesParams ih _ _).behind.before _).wrap
  | @call p q t f b ps _ ih =>
    have hname : InOrder (o + p.before.length) (q.wrap t)
        ((L.call p (.identifier q t) f).toList.map (o + p.before.length + q.before.length, ·)) :=
      (inOrder_note (hL.call p q t f) _).wrap
    have hargument : ∀ o, InOrder o (Node.group b ps).sourceText (L.places o (.group b ps)) := fun o =>
      ((Listing.inOrder_placesParams ih _ _).behind.before _).wrap
    exact (hname.append (hargument _)).wrap
  | @unary p s op x _ ih =>
    rw [sourceText, Listing.places]
    exact (ih _).behind.wrap
  | @binary p x s op y _ _ ihx ihy =>
    rw [sourceText, Listing.places]
    refine (((ihx _).before s).append ?_).wrap
    rw [List.length_append, ← Nat.add_assoc]
    exact ihy _
  | @equation p ss _ i ih =>
    rw [sourceText, Listing.places]
    exact (Listing.inOrder_placesAll ih _).wrap

end Order

/-! ## What is reported -/

namespace Listing

/-- The names of variables, and of calls of functions that are unknown or of a kind. -/
def reported (kind : Function → Bool) : Listing Text :=
  ⟨fun _ r _ => some r.name, fun _ c f => if f.all kind then some c.name else none⟩

/-- The codes and names of warnings. -/
def warned (allowed : Option (List Text)) : Listing (WarningCode × Text) where
  var _ r _ :=
    match allowed with
    | some names => if names.contains r.name then none else some (.unexpectedVariable, r.name)
    | none => none
  call _ c f := if f.isNone then some (.unknownFunction, c.name) else none

/-- Calls of functions that are not folded are reported for good. -/
theorem lasting_reported {kind : Function → Bool} (h : ∀ f, kind f = true → isVolatile f = true) :
    (reported kind).Lasting isVolatile := by
  intro p c f hf
  obtain ⟨g, rfl, hg⟩ := (Option.any_eq_true _ _).1 hf
  have hkind : kind g = false := Bool.eq_false_iff.2 fun hkind => by simp [h g hkind] at hg
  simp [reported, hkind]

theorem lasting_warned (allowed : Option (List Text)) : (warned allowed).Lasting isVolatile := by
  intro p c f hf
  obtain ⟨g, rfl, -⟩ := (Option.any_eq_true _ _).1 hf
  rfl

theorem notesNames_reported (kind : Function → Bool) : (reported kind).NotesNames where
  var p t s hs := by
    cases hs
    rfl
  call p q t f s hs := by
    simp only [reported, Option.mem_def] at hs
    split at hs <;> cases hs
    rfl

theorem notesNames_warned (allowed : Option (List Text)) : ((warned allowed).map Prod.snd).NotesNames where
  var p t s hs := by
    obtain ⟨b, hb, rfl⟩ := Option.map_eq_some_iff.1 hs
    simp only [warned] at hb
    split at hb
    · split at hb <;> cases hb
      rfl
    · cases hb
  call p q t f s hs := by
    obtain ⟨b, hb, rfl⟩ := Option.map_eq_some_iff.1 hs
    simp only [warned] at hb
    split at hb <;> cases hb
    rfl

end Listing

end Node

namespace Formula

open Node (Listing)
open Node.Listing (reported warned)

theorem list_warned (f : Formula) (allowed : Option (List Text)) :
    (warned allowed).list f.root = (f.warnings allowed).map fun w => (w.code, w.name) := by
  rw [Listing.list, warnings, List.map_filterMap]
  congr
  funext n
  cases n with
  | var p r t =>
    cases allowed with
    | none => rfl
    | some names =>
      simp only [Listing.note?, warned, warningOf?]
      split <;> rfl
  | call p c f a => cases f <;> rfl
  | _ => rfl

variable {g : Formula} {st st' : σ}

/-- **Simplification drops no variable and no warning**: the names of variables and of calls that are unknown or draw random
numbers are the same before and after, and so are the warnings. In the source text they stand one behind the other. -/
theorem warnings_simplify (resolve : Text → Option Function) {t : Text} (h : (parse ⟨.default, resolve⟩ t).failure = none)
    (hrandom : isVolatile .random = true)
    (hs : (parse ⟨.default, resolve⟩ t).formula.simplify host isVolatile st = (.ok g, st')) :
    let f := (parse ⟨.default, resolve⟩ t).formula
    let names := reported (· == .random)
    names.list g.root = names.list f.root ∧
      (∀ allowed, (g.warnings allowed).map (fun w => (w.code, w.name)) =
        (f.warnings allowed).map fun w => (w.code, w.name)) ∧
      ((names.places 0 f.root).map Prod.snd = names.list f.root ∧ t.InOrder 0 (names.places 0 f.root)) ∧
      ∀ allowed, (((warned allowed).map Prod.snd).places 0 f.root).map Prod.snd = (f.warnings allowed).map (·.name) ∧
        t.InOrder 0 (((warned allowed).map Prod.snd).places 0 f.root) := by
  intro f names
  obtain ⟨n, mid, hn, hg⟩ := Action.run_bind_ok hs
  cases hg
  have hinterned : f.root.Interned := (tabled_parse resolve h).interned
  have htext : f.root.sourceText = t := (hasSource_parse resolve h).text
  have hkind : ∀ c, (c == Function.random) = true → isVolatile c = true := fun c hc => by rwa [eq_of_beq hc]
  refine ⟨(hinterned.keeps (Listing.lasting_reported hkind) hn).list, fun allowed => ?_, ⟨hinterned.map_places 0, ?_⟩,
    fun allowed => ⟨?_, ?_⟩⟩
  · rw [← list_warned, ← list_warned]
    exact (hinterned.keeps (Listing.lasting_warned allowed) hn).list
  · have hnames : Text.InOrder 0 f.root.sourceText (names.places 0 f.root) :=
      hinterned.inOrder_places (Listing.notesNames_reported _) 0
    rwa [htext] at hnames
  · rw [hinterned.map_places, Listing.list_map, list_warned, List.map_map]
    rfl
  · have hwarned : Text.InOrder 0 f.root.sourceText (((warned allowed).map Prod.snd).places 0 f.root) :=
      hinterned.inOrder_places (Listing.notesNames_warned allowed) 0
    rwa [htext] at hwarned

/-- A product that is folded, an unknown function and a random number among the arguments of a call. -/
theorem warnings_simplify_max :
    ∃ g, (parse .default "max(2*3, f(x), random()) + y".toList).formula.simplify quietHost Registry.initial.isVolatile () =
        (.ok g, ()) ∧
      (reported (· == .random)).list g.root = ["f".toList, "x".toList, "random".toList, "y".toList] := by
  generalize ht : "max(2*3, f(x), random()) + y".toList = t
  have h : (parse .default t).failure = none := by
    subst ht
    exact Option.isNone_iff_eq_none.1 (by decide +kernel)
  have hok : ((parse .default t).formula.simplify quietHost Registry.initial.isVolatile ()).1.toOption.isSome = true := by
    subst ht
    decide +kernel
  have hnames : (reported (· == .random)).list (parse .default t).formula.root =
      ["f".toList, "x".toList, "random".toList, "y".toList] := by
    subst ht
    decide +kernel
  rcases hs : (parse .default t).formula.simplify quietHost Registry.initial.isVolatile () with ⟨e | g, st⟩
  · rw [hs] at hok
    cases hok
  · exact ⟨g, rfl, (warnings_simplify _ h rfl hs).1.trans hnames⟩

end Formula

end FormulaLang
