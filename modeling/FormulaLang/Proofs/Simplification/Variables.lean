import FormulaLang.Proofs.Evaluation.Slots
import FormulaLang.Proofs.Literal.Parsed
import FormulaLang.Proofs.Node.Listing
import FormulaLang.Proofs.Simplification.Edits

/-!
# The variable table of a tree

In a parsed tree every variable reads the slot of its own name, and nothing else is a variable: the operators are raw text, and
the names of calls are names (`Node.Interned`). A simplification folds literals alone, so that whatever is noted about
variables, and about calls that it may not fold, is noted about the simplified tree as well (`Node.Interned.keeps`). No variable
is folded away then (`Node.Interned.simplify`), and a binding changes no name of a slot: the table has the variables of the
tree, each of them once, and stays so whatever is bound and simplified (`Formula.slots_edited`).
-/

namespace FormulaLang

variable {σ β : Type} {host : Host σ} {isVolatile : Function → Bool} {l : Language}

namespace Node

/-! ## The variables of a tree -/

/-- A variable. -/
def isVariable : Node → Bool
  | var _ _ _ => true
  | _ => false

/-- The variables in a tree, in the order of the source. -/
def vars (n : Node) : List Node :=
  n.walk.filter isVariable

/-- The listing of the variables themselves. -/
def variableListing : Listing Node :=
  ⟨fun p r t => some (.var p r t), fun _ _ _ => none⟩

theorem vars_eq_list : vars = variableListing.list := by
  have hnote : variableListing.note? = Option.guard isVariable := by
    funext m
    cases m <;> rfl
  funext n
  rw [vars, Listing.list, hnote, List.filterMap_eq_filter]

section Variables

variable (p : Pad) (t : Text)

@[simp] theorem vars_raw : (raw t).vars = [] := rfl

@[simp] theorem vars_number (v : Scalar) : (number p v t).vars = [] := rfl

@[simp] theorem vars_identifier : (identifier p t).vars = [] := rfl

@[simp] theorem vars_var (r : Reference) : (var p r t).vars = [var p r t] := rfl

@[simp] theorem vars_token (k : TokenKind) : (token p k t).vars = [] := rfl

@[simp] theorem vars_group (b : Brackets) (ps : List Node) : (group b ps).vars = ps.flatMap vars := by
  rw [vars_eq_list, Listing.list_group]

@[simp] theorem vars_call (c a : Node) (f : Option Function) :
    (call p c f a).vars = c.vars ++ a.vars := by
  rw [vars_eq_list, Listing.list_call]
  rfl

@[simp] theorem vars_unary (s : Text) (o : Option Operation) (x : Node) :
    (unary p (raw s) o x).vars = x.vars := by
  rw [vars_eq_list, Listing.list_unary]

@[simp] theorem vars_binary (x y : Node) (s : Text) (o : Option Operation) :
    (binary p x (raw s) o y).vars = x.vars ++ y.vars := by
  rw [vars_eq_list, Listing.list_binary]

@[simp] theorem vars_equation (ss : List Node) (o : Int) :
    (equation p ss o).vars = ss.flatMap vars := by
  rw [vars_eq_list, Listing.list_equation]

end Variables

/-! ## Interned trees -/

/-- Every variable of the tree reads the slot of its own name, and nothing else in the tree is a variable: operators are raw
text, and calls have names. -/
inductive Interned : Node → Prop
  | raw (t : Text) : Interned (.raw t)
  | number (p : Pad) (v : Scalar) (t : Text) : Interned (.number p v t)
  | identifier (p : Pad) (t : Text) : Interned (.identifier p t)
  | var (p : Pad) (name : Text) : Interned (.var p (.table name) name)
  | group (b : Brackets) {ps : List Node} (hps : ∀ q ∈ ps, Interned q) : Interned (.group b ps)
  | call (p q : Pad) (t : Text) (f : Option Function) (b : Brackets) {ps : List Node} (hps : ∀ x ∈ ps, Interned x) :
      Interned (.call p (.identifier q t) f (.group b ps))
  | unary (p : Pad) (s : Text) (o : Option Operation) {x : Node} (hx : Interned x) : Interned (.unary p (.raw s) o x)
  | binary (p : Pad) {x : Node} (s : Text) (o : Option Operation) {y : Node} (hx : Interned x) (hy : Interned y) :
      Interned (.binary p x (.raw s) o y)
  | equation (p : Pad) {ss : List Node} (hss : ∀ s ∈ ss, Interned s) (o : Int) : Interned (.equation p ss o)

/-- The trees of the default grammar. -/
theorem Parsed.interned {n : Node} (h : n.Parsed l) : n.Interned := by
  induction h with
  | number p v t => exact .number p v t
  | var p => exact .var p _
  | group b _ ih => exact .group b ih
  | call p q _ b _ ih => exact .call p q _ _ b ih
  | unary p _ _ _ ih => exact .unary p _ _ ih
  | binary p _ _ _ _ ihx ihy => exact .binary p _ _ ihx ihy
  | implicit p _ _ _ _ ihx ihy => exact .binary p _ _ ihx ihy
  | equation p _ o ih =>
    refine .equation p (fun s hs => ?_) o
    cases s with
    | raw t => exact .raw t
    | identifier q t => exact .identifier q t
    | _ => exact ih _ hs rfl rfl

namespace Interned

variable {n : Node}

/-- The variables read slots of their own names. -/
theorem reference (h : n.Interned) : ∀ m ∈ n.vars, ∃ p name, m = .var p (.table name) name := by
  induction h with
  | raw | number | identifier => exact fun m hm => nomatch hm
  | var p name => exact fun m hm => ⟨p, name, List.mem_singleton.1 hm⟩
  | group b _ ih | equation p _ o ih =>
    intro m hm
    simp only [vars_group, vars_equation, List.mem_flatMap] at hm
    obtain ⟨q, hq, hm⟩ := hm
    exact ih q hq m hm
  | call p q t f b _ ih =>
    intro m hm
    simp only [vars_call, vars_identifier, vars_group, List.nil_append, List.mem_flatMap] at hm
    obtain ⟨x, hx, hm⟩ := hm
    exact ih x hx m hm
  | unary p s o _ ih => simpa using ih
  | binary p s o _ _ ihx ihy =>
    intro m hm
    rw [vars_binary, List.mem_append] at hm
    exact hm.elim (ihx m) (ihy m)

/-- The names of variables are those of the variables that the walk meets. -/
theorem varNames_eq (h : n.Interned) : n.varNames = n.vars.map Node.name := by
  induction h with
  | raw | number | identifier | var => rfl
  | group b _ ih | equation p _ o ih =>
    simp only [varNames, varNamesAll_eq_flatMap, vars_group, vars_equation, List.map_flatMap]
    exact List.flatMap_congr ih
  | call p q t f b _ ih =>
    simp only [varNames, varNamesAll_eq_flatMap, vars_call, vars_identifier, vars_group, List.nil_append,
      List.map_flatMap]
    exact List.flatMap_congr ih
  | unary p s o _ ih => simpa [varNames] using ih
  | binary p s o _ _ ihx ihy => simp [varNames, ihx, ihy]

end Interned

/-! ## Simplification -/

/-- Nothing is noted about a call that a simplification may fold. -/
def Listing.Lasting (L : Listing β) (isVolatile : Function → Bool) : Prop :=
  ∀ p c f, (f.any fun f => !isVolatile f) = true → L.call p c f = none

/-- The tree `n'` is interned and has the list of the tree `n`. -/
structure Listing.Keeps (L : Listing β) (n n' : Node) : Prop where
  interned : n'.Interned
  list : L.list n' = L.list n

namespace Listing.Keeps

variable {L : Listing β} {n n' m : Node} {ns ns' : List Node}

theorem flatMap_list (h : List.Forall₂ L.Keeps ns ns') : ns'.flatMap L.list = ns.flatMap L.list := by
  induction h with
  | nil => rfl
  | cons hn _ ih => rw [List.flatMap_cons, List.flatMap_cons, hn.list, ih]

theorem forall_interned (h : List.Forall₂ L.Keeps ns ns') : ∀ n' ∈ ns', n'.Interned := by
  intro n' hn'
  obtain ⟨n, -, hkeeps⟩ := exists_of_forall₂ h n' hn'
  exact hkeeps.interned

/-- A node is folded only when nothing is noted about it. -/
theorem foldIf (h : L.Keeps n m) {literals : Bool} (hliterals : literals = true → L.list m = []) {st st' : σ}
    (hfold : FormulaLang.foldIf host literals m st = (.ok n', st')) : L.Keeps n n' := by
  obtain rfl | ⟨hlit, v, -, rfl⟩ := foldIf_ok hfold
  · exact h
  · exact ⟨.number _ _ _, by rw [list_number, ← h.list, hliterals hlit]⟩

end Listing.Keeps

/-- **A simplification** keeps everything that is noted about variables and about calls that it may not fold. -/
theorem Interned.keeps {L : Listing β} (hL : L.Lasting isVolatile) {n n' : Node} (h : n.Interned) {st st' : σ}
    (hs : FormulaLang.simplify host isVolatile n st = (.ok n', st')) : L.Keeps n n' := by
  induction h generalizing n' st st' with
  | raw t =>
    cases hs
    exact ⟨.raw t, rfl⟩
  | number p v t =>
    cases hs
    exact ⟨.number p v t, rfl⟩
  | identifier p t =>
    cases hs
    exact ⟨.identifier p t, rfl⟩
  | var p name =>
    cases hs
    exact ⟨.var p name, rfl⟩
  | @group b ps _ ih =>
    obtain ⟨ps', mid, hall, hfold⟩ := simplify_group_ok hs
    have hps : List.Forall₂ L.Keeps ps ps' := forall₂_simplifyAll hall fun q hq => ih q hq
    have hgroup : L.Keeps (.group b ps) (.group b ps') :=
      ⟨.group b (Listing.Keeps.forall_interned hps), by
        rw [Listing.list_group, Listing.list_group, Listing.Keeps.flatMap_list hps]⟩
    refine hgroup.foldIf (fun hlit => ?_) hfold
    rw [Bool.and_eq_true] at hlit
    rw [Listing.list_group, L.flatMap_list_of_isNumber hlit.2]
  | @call p q t f b ps _ ih =>
    obtain ⟨b', ps₁, ps', mid, heq, hall, hfold⟩ := simplify_call_ok hs
    cases heq
    have hps : List.Forall₂ L.Keeps ps ps' := forall₂_simplifyAll hall fun q hq => ih q hq
    have hcall : L.Keeps (.call p (.identifier q t) f (.group b ps)) (.call p (.identifier q t) f (.group b ps')) :=
      ⟨.call p q t f b (Listing.Keeps.forall_interned hps), by simp [Listing.Keeps.flatMap_list hps]⟩
    refine hcall.foldIf (fun hlit => ?_) hfold
    rw [Bool.and_eq_true] at hlit
    rw [Listing.list_call, hL _ _ _ hlit.1, Listing.list_identifier, Listing.list_group, L.flatMap_list_of_isNumber hlit.2]
    rfl
  | @unary p s o x _ ih =>
    obtain ⟨x', mid, hx, hfold⟩ := simplify_unary_ok hs
    have hkeeps : L.Keeps x x' := ih hx
    have hunary : L.Keeps (.unary p (.raw s) o x) (.unary p (.raw s) o x') :=
      ⟨.unary p s o hkeeps.interned, by rw [Listing.list_unary, Listing.list_unary, hkeeps.list]⟩
    exact hunary.foldIf (fun hlit => by rw [Listing.list_unary, L.list_of_isNumber hlit]) hfold
  | @binary p x s o y _ _ ihx ihy =>
    obtain ⟨x', mid, y', mid', hx, hy, hfold⟩ := simplify_binary_ok hs
    have hkeepsx : L.Keeps x x' := ihx hx
    have hkeepsy : L.Keeps y y' := ihy hy
    have hbinary : L.Keeps (.binary p x (.raw s) o y) (.binary p x' (.raw s) o y') :=
      ⟨.binary p s o hkeepsx.interned hkeepsy.interned, by
        rw [Listing.list_binary, Listing.list_binary, hkeepsx.list, hkeepsy.list]⟩
    refine hbinary.foldIf (fun hlit => ?_) hfold
    rw [Bool.and_eq_true] at hlit
    rw [Listing.list_binary, L.list_of_isNumber hlit.1, L.list_of_isNumber hlit.2, List.append_nil]
  | @equation p ss _ o ih =>
    obtain ⟨ss', mid, hall, hn⟩ := simplify_equation_ok hs
    have hss : List.Forall₂ L.Keeps ss ss' := forall₂_simplifyAll hall fun s hs => ih s hs
    have hlist : ss'.flatMap L.list = ss.flatMap L.list := Listing.Keeps.flatMap_list hss
    rcases hn with ⟨rfl, -⟩ | ⟨rfl, -⟩
    · exact ⟨.equation p (Listing.Keeps.forall_interned hss) o, by
        rw [Listing.list_equation, Listing.list_equation, hlist]⟩
    · exact ⟨Listing.Keeps.forall_interned hss _ List.mem_cons_self, by
        rw [Listing.list_equation, ← hlist, List.flatMap_singleton]⟩

/-- The tree `n'` is interned and has the variables of the tree `n`. -/
structure KeepsVars (n n' : Node) : Prop where
  interned : n'.Interned
  vars : n'.vars = n.vars

/-- **A simplification** keeps the variables. -/
theorem Interned.simplify {n n' : Node} (h : n.Interned) {st st' : σ}
    (hs : FormulaLang.simplify host isVolatile n st = (.ok n', st')) : KeepsVars n n' := by
  have hlasting : variableListing.Lasting isVolatile := fun _ _ _ _ => rfl
  have hkeeps : variableListing.Keeps n n' := h.keeps hlasting hs
  exact ⟨hkeeps.interned, by rw [vars_eq_list, hkeeps.list]⟩

end Node

namespace Formula

/-! ## The table -/

variable {f g : Formula}

theorem nodup_intern (h : (f.slots.map (·.name)).Nodup) (name : Text) : ((f.intern name).slots.map (·.name)).Nodup := by
  unfold intern
  split
  · exact h
  · rename_i hnew
    rw [← mem_slots_iff] at hnew
    rw [List.map_append, List.nodup_append]
    refine ⟨h, List.pairwise_singleton _ _, fun x hx y hy hxy => hnew ?_⟩
    rwa [hxy, List.mem_singleton.1 hy] at hx

theorem nodup_foldl_intern (h : (f.slots.map (·.name)).Nodup) (names : List Text) :
    ((names.foldl intern f).slots.map (·.name)).Nodup := by
  induction names generalizing f with
  | nil => exact h
  | cons name names ih => exact ih (nodup_intern h name)

theorem nodup_slots_parse (l : Language) (t : Text) : ((parse l t).formula.slots.map (·.name)).Nodup := by
  have hslots : (parse l t).formula.slots = ((metVariables (parseText l t).events).foldl intern (new t)).slots := by
    unfold parse settle
    split <;> rfl
  have hnew : ((new t).slots.map (·.name)).Nodup := List.nodup_nil
  rw [hslots]
  exact nodup_foldl_intern hnew _

/-- A binding leaves the names of the slots. -/
theorem names_bind (f : Formula) (name : Text) (v : Value) :
    (f.bind name v).slots.map (·.name) = f.slots.map (·.name) := by
  rw [bind, List.map_map]
  refine List.map_congr_left fun s _ => ?_
  simp only [Function.comp_apply]
  split <;> rfl

/-- What bindings and simplifications make of a formula, in any order. Each simplification may have a host of its own; one that
fails leaves the formula as it is. -/
inductive Edited (f : Formula) : Formula → Prop
  | self : Edited f f
  | bind {g : Formula} (h : Edited f g) (name : Text) (v : Value) : Edited f (g.bind name v)
  | simplify {σ : Type} {g g' : Formula} (h : Edited f g) (host : Host σ) (isVolatile : Function → Bool) {st st' : σ}
      (hs : g.simplify host isVolatile st = (.ok g', st')) : Edited f g'

/-- The table of a formula has one slot for each name of a variable in its tree, which reads that slot. -/
structure Tabled (f : Formula) : Prop where
  interned : f.root.Interned
  nodup : (f.slots.map (·.name)).Nodup
  names : ∀ name, name ∈ f.slots.map (·.name) ↔ name ∈ f.root.vars.map Node.name

theorem tabled_parse (resolve : Text → Option Function) {t : Text} (h : (parse ⟨.default, resolve⟩ t).failure = none) :
    Tabled (parse ⟨.default, resolve⟩ t).formula := by
  obtain ⟨out, hout⟩ := parse_failure_eq_none_iff.1 h
  have hinterned : (Node.equation .none out 0).Interned := (parsed_parseText rfl hout).interned
  have hroot := root_parse_of_ok hout
  refine ⟨hroot ▸ hinterned, nodup_slots_parse _ t, fun name => ?_⟩
  rw [mem_slots_iff, slot?_parse distinctBrackets_default hout, hroot, hinterned.varNames_eq]
  split
  · rename_i hmem
    exact iff_of_true rfl hmem
  · rename_i hmem
    exact iff_of_false Bool.false_ne_true hmem

namespace Tabled

theorem bind (h : Tabled f) (name : Text) (v : Value) : Tabled (f.bind name v) where
  interned := h.interned
  nodup := by rw [names_bind]; exact h.nodup
  names x := by rw [names_bind]; exact h.names x

theorem simplify (h : Tabled f) {st st' : σ} (hs : f.simplify host isVolatile st = (.ok g, st')) : Tabled g := by
  obtain ⟨n, mid, hn, hg⟩ := Action.run_bind_ok hs
  cases hg
  have hkeeps : Node.KeepsVars f.root n := h.interned.simplify hn
  exact ⟨hkeeps.interned, h.nodup, fun x => by rw [hkeeps.vars]; exact h.names x⟩

/-- The invariant holds after every edit. -/
theorem edited (h : Tabled f) (hg : Edited f g) : Tabled g := by
  induction hg with
  | self => exact h
  | bind _ name v ih => exact ih.bind name v
  | simplify _ host isVolatile hs ih => exact ih.simplify hs

theorem name_mem_iff (h : Tabled f) (name : Text) :
    name ∈ f.slots.map (·.name) ↔ ∃ p r, .var p r name ∈ f.root.walk := by
  rw [h.names, List.mem_map]
  constructor
  · rintro ⟨m, hm, rfl⟩
    obtain ⟨p, x, rfl⟩ := h.interned.reference m hm
    exact ⟨p, _, List.mem_of_mem_filter hm⟩
  · rintro ⟨p, r, hm⟩
    have hvar : .var p r name ∈ f.root.vars := List.mem_filter.2 ⟨hm, rfl⟩
    obtain ⟨p', x, heq⟩ := h.interned.reference _ hvar
    cases heq
    exact ⟨_, hvar, rfl⟩

/-- A variable reads the slot of its name. -/
theorem slot_of_var (h : Tabled f) {p : Pad} {r : Reference} {name : Text} (hm : .var p r name ∈ f.root.walk) :
    r = .table name ∧ ∃ s ∈ f.slots, f.slot? name = some s ∧ s.name = name := by
  obtain ⟨p', x, heq⟩ := h.interned.reference _ (List.mem_filter.2 ⟨hm, rfl⟩)
  cases heq
  have hslot := (mem_slots_iff f name).1 ((h.name_mem_iff name).2 ⟨p, _, hm⟩)
  obtain ⟨s, hs⟩ := Option.isSome_iff_exists.1 hslot
  exact ⟨rfl, s, List.mem_of_find?_eq_some hs, hs, by simpa using List.find?_some hs⟩

end Tabled

/-- **The variable table** of a parsed formula is exactly that of the variables in its tree, whatever is bound and simplified:
no two slots have one name; the names are those of the variables; every variable reads the slot of its own name, so that two
of them share a slot exactly when their names are equal; and no other name has a slot. -/
theorem slots_edited (resolve : Text → Option Function) {t : Text} (h : (parse ⟨.default, resolve⟩ t).failure = none)
    {f : Formula} (hf : Edited (parse ⟨.default, resolve⟩ t).formula f) :
    (f.slots.map (·.name)).Nodup ∧
      (∀ name, name ∈ f.slots.map (·.name) ↔ ∃ p r, .var p r name ∈ f.root.walk) ∧
      (∀ p r name, .var p r name ∈ f.root.walk →
        r = .table name ∧ ∃ s ∈ f.slots, f.slot? name = some s ∧ s.name = name) ∧
      (∀ p r name p' r' name', .var p r name ∈ f.root.walk → .var p' r' name' ∈ f.root.walk →
        (f.slot? r.name = f.slot? r'.name ↔ name = name')) ∧
      ∀ name, (∀ p r, .var p r name ∉ f.root.walk) → f.slot? name = none := by
  have htabled : Tabled f := (tabled_parse resolve h).edited hf
  refine ⟨htabled.nodup, htabled.name_mem_iff, fun p r name => htabled.slot_of_var, ?_, fun name hname => ?_⟩
  · intro p r name p' r' name' hm hm'
    obtain ⟨rfl, s, -, hs, hsname⟩ := htabled.slot_of_var hm
    obtain ⟨rfl, s', -, hs', hsname'⟩ := htabled.slot_of_var hm'
    rw [Reference.name, Reference.name, hs, hs', Option.some.injEq]
    constructor
    · rintro rfl
      exact hsname.symm.trans hsname'
    · rintro rfl
      exact Option.some.inj (hs.symm.trans hs')
  · rw [← Option.not_isSome_iff_eq_none, ← mem_slots_iff, htabled.name_mem_iff]
    rintro ⟨p, r, hm⟩
    exact hname p r hm

/-- The name of a call that is a variable elsewhere, a product that is folded, and bindings of a variable and of a name that is
none. -/
theorem slots_edited_sum :
    ∃ f, Edited (parse .default "f(2*3) + f y y".toList).formula f ∧
      (parse .default "f(2*3) + f y y".toList).failure = none ∧ (f.slots.map (·.name)).Nodup ∧
      f.slot? ['z'] = none := by
  generalize ht : "f(2*3) + f y y".toList = t
  have h : (parse .default t).failure = none := by
    subst ht
    exact Option.isNone_iff_eq_none.1 (by decide +kernel)
  have hok : (((parse .default t).formula.bind ['y'] (.int 1)).simplify quietHost Registry.initial.isVolatile ()).1.toOption.any
      (fun f => f.root.walk.all fun n => n.name != ['z']) = true := by
    subst ht
    decide +kernel
  rcases hs : ((parse .default t).formula.bind ['y'] (.int 1)).simplify quietHost Registry.initial.isVolatile () with
    ⟨e | f, st⟩
  · rw [hs] at hok
    cases hok
  · rw [hs] at hok
    have hf : Edited (parse .default t).formula (f.bind ['z'] (.int 2)) :=
      ((Edited.self.bind ['y'] (.int 1)).simplify quietHost _ hs).bind ['z'] (.int 2)
    obtain ⟨hnodup, -, hreference, -, hnone⟩ := slots_edited _ h hf
    refine ⟨_, hf, h, hnodup, hnone ['z'] fun p r hm => ?_⟩
    have hname : ((Node.var p r ['z']).name != ['z']) = true := List.all_eq_true.1 hok _ hm
    obtain ⟨rfl, -⟩ := hreference p r ['z'] hm
    simp [Node.name, Node.name?, Reference.name] at hname

end Formula

end FormulaLang
