import FormulaLang.Node.Literal
import FormulaLang.Proofs.Parse.Lexed

/-!
# Factors side by side

A product whose operator is left out is printed as its two factors, one behind the other. The factors run together
(`Node.runTogether`) when the leaf at the end of the first takes up what follows: a name takes up anything, and digits take up
more digits, an exponent, or the mark of another base. A name that does not go on with the digits in front of it is lexed by
itself (`Lexes.digits_name`), and a bracket keeps the texts on either side of it apart (`Lexes.append_break`). So factors that do
not run together are lexed one after the other (`Node.IsFactor.lexes_append`).
-/

namespace FormulaLang

open Pattern (IsName LeafChar)
open Reading (atoms)
open Shortest (naturalDigits)

/-! ## Names behind digits -/

namespace Pattern

/-- The name goes on with the literal of the digits `u`: it starts with an exponent, or behind a zero with the mark of another
base. -/
def goesOn (u name : Text) : Bool :=
  (exponent? name).isSome || (u.getLast? == some '0' && ((hex? ('0' :: name)).isSome || (binary? ('0' :: name)).isSome))

variable {u x : Text}

theorem goesOn_eq_false_iff : goesOn u x = false ↔
    exponent? x = none ∧ (u.getLast? = some '0' → hex? ('0' :: x) = none ∧ binary? ('0' :: x) = none) := by
  simp [goesOn, Bool.or_eq_false_iff]

/-- From a digit on, something is read only from a zero with a mark behind it. -/
def AsksMark (read? : Text → Option (Text × Text)) : Prop :=
  ∀ d t, d.isDigit = true → read? (d :: t) ≠ none → d = '0' ∧ ∃ e s, t = e :: s ∧ e.isDigit = false

theorem asksMark_hex? : AsksMark hex? := by
  intro d t hd h
  unfold hex? at h
  split at h
  · rename_i heq
    cases heq
    cases hd
  · rename_i heq
    cases heq
    exact ⟨rfl, _, _, rfl, by decide⟩
  · rename_i heq
    cases heq
    exact ⟨rfl, _, _, rfl, by decide⟩
  · exact absurd rfl h

theorem asksMark_binary? : AsksMark binary? := by
  intro d t hd h
  unfold binary? at h
  split at h
  · rename_i heq
    cases heq
    exact ⟨rfl, _, _, rfl, by decide⟩
  · rename_i heq
    cases heq
    exact ⟨rfl, _, _, rfl, by decide⟩
  · exact absurd rfl h

/-- A literal of another base is found in the digits and the text behind them only where they meet, or in that text. -/
theorem search?_digits_append {p : Pattern} {read? : Text → Option (Text × Text)}
    (hp : ∀ before t, p.matchAt? before t = read? t) (hread : AsksMark read?) (hu : ∀ d ∈ u, d.isDigit = true)
    (hlast : u.getLast? = some '0' → read? ('0' :: x) = none) (hx : p.search? x = none) : p.search? (u ++ x) = none := by
  have hnone : ∀ before, p.searchFrom? before (u ++ x) = none := by
    induction u with
    | nil =>
      intro before
      cases x with
      | nil => rfl
      | cons c x =>
        have hx := searchFrom?_cons_eq_none_iff.1 hx
        rw [hp] at hx
        exact searchFrom?_cons_eq_none_iff.2 ⟨(hp before _).trans hx.1, hx.2⟩
    | cons d u ih =>
      intro before
      rw [List.forall_mem_cons] at hu
      have hhere : read? (d :: (u ++ x)) = none := by
        refine Decidable.not_not.1 fun hne => ?_
        obtain ⟨rfl, e, s, hes, he⟩ := hread d _ hu.1 hne
        cases u with
        | nil => exact hne (hlast rfl)
        | cons e' u =>
          cases hes
          rw [hu.2 e List.mem_cons_self] at he
          cases he
      refine searchFrom?_cons_eq_none_iff.2 ⟨(hp before _).trans hhere, ih hu.2 (fun h => hlast ?_) (some d)⟩
      rw [List.getLast?_cons, h, Option.getD_some]
  exact hnone none

end Pattern

/-- **A name behind digits** is cut out as it is, unless it goes on with them. -/
theorem leafCut?_digits_name {u x : Text} (hu : ∀ d ∈ u, d.isDigit = true) (hx : IsName x) (h : Pattern.goesOn u x = false) :
    leafCut? Grammar.defaultLeaves (u ++ x) = some ⟨u, x, [], .identifier⟩ := by
  obtain ⟨hexponent, hbase⟩ := Pattern.goesOn_eq_false_iff.1 h
  have hhex : Pattern.hexLiteral.search? (u ++ x) = none :=
    Pattern.search?_digits_append (fun _ _ => rfl) Pattern.asksMark_hex? hu (fun hlast => (hbase hlast).1) hx.hex
  have hbinary : Pattern.binaryLiteral.search? (u ++ x) = none :=
    Pattern.search?_digits_append (fun _ _ => rfl) Pattern.asksMark_binary? hu (fun hlast => (hbase hlast).2) hx.binary
  have hname : Pattern.name.search? (u ++ x) = some ⟨u, x, []⟩ := by
    have hhere : Pattern.name.matchAt? u.getLast? x = some (x, []) := by
      have hwhole := Pattern.nameHere?_append hx Pattern.stopsWord_nil
      rw [List.append_nil] at hwhole
      show Pattern.name? u.getLast? x = some (x, [])
      simp [Pattern.name?, hexponent, hwhole]
    obtain ⟨c, rest, rfl, -⟩ := hx.shape
    rw [Pattern.search?, Pattern.searchFrom?_skip Pattern.name_matchAt?_eq_none
      (fun d hd => Pattern.not_nameStart_of_isDecimal (Text.isDecimal_of_isDigit (hu d hd))), Option.or_none, Pattern.searchFrom?, hhere]
    simp
  simp [leafCut?, Grammar.defaultLeaves, hhex, hbinary, hname]

/-! ## Atoms of texts side by side -/

namespace Lexes

variable {c : Char} {u t : Text} {ws zs : List Node}

theorem eq (h : Lexes t ws) (h' : Lexes t zs) : ws = zs := by
  obtain ⟨out, hout, rfl⟩ := h
  obtain ⟨out', hout', rfl⟩ := h'
  cases hout.symm.trans hout'
  rfl

theorem exists_lexes (t : Text) : ∃ ws, Lexes t ws := by
  obtain ⟨out, hout⟩ := lexText_ok readable_default t
  exact ⟨_, out, hout, rfl⟩

/-- Texts on either side of a break are lexed by themselves. -/
theorem append_break (hc : ¬LeafChar c) (hu : Lexes u ws) (ht : Lexes t zs) : Lexes (u ++ c :: t) (ws ++ .raw [c] :: zs) := by
  obtain ⟨left, hleft, rfl⟩ := hu
  obtain ⟨right, hright, rfl⟩ := ht
  obtain ⟨out, hout⟩ := lexText_ok readable_default (u ++ c :: t)
  obtain ⟨left', right', hleft', hright', hatoms⟩ := atoms_lexText_break hc hout
  cases hleft.symm.trans hleft'
  cases hright.symm.trans hright'
  exact ⟨out, hout, hatoms⟩

theorem cons_break (hc : ¬LeafChar c) (ht : Lexes t zs) : Lexes (c :: t) (.raw [c] :: zs) :=
  append_break hc nil ht

/-- A text that ends with a break may be followed by any text. -/
theorem append_of_break (hc : ¬LeafChar c) (hu : Lexes (u ++ [c]) ws) (ht : Lexes t zs) : Lexes (u ++ [c] ++ t) (ws ++ zs) := by
  obtain ⟨vs, hvs⟩ := exists_lexes u
  rw [hu.eq (hvs.append_break hc nil), List.append_assoc, List.append_assoc]
  exact hvs.append_break hc ht

/-- **A name behind digits** is an atom of its own. -/
theorem digits_name {k : Nat} (hk : k < Scalar.digitBound) {x : Text} (hx : IsName x)
    (h : Pattern.goesOn (naturalDigits k) x = false) :
    Lexes (naturalDigits k ++ x) [.number .none (.int k) (naturalDigits k), .identifier .none x] := by
  have hempty := lexText_of_none (leafCut?_nil Grammar.defaultLeaves)
  have hnumber : lexText Grammar.defaultLeaves (naturalDigits k) = .ok [.number .none (.int k) (naturalDigits k)] :=
    lexText_of_cut (LeafKind.isToken_of_writes_ten (Number.writes_naturalDigits k)).leafCut?_eq
      (LeafKind.leaf_naturalDigits hk) hempty hempty
  refine ⟨_, lexText_of_cut (leafCut?_digits_name (fun d => isDigit_of_mem_naturalDigits) hx h) rfl hnumber hempty, ?_⟩
  rfl

end Lexes

/-! ## Factors -/

/-- Behind the digits of the number, the name goes on with them. -/
def Scalar.takesUp (v : Scalar) (name : Text) : Bool :=
  match v.text with
  | .ok u => Pattern.goesOn u name
  | .error _ => false

namespace Node

/-- Written side by side, the two factors run together. -/
def runTogether : Node → Node → Bool
  | var _ _ _, _ => true
  | number _ _ _, number _ _ _ => true
  | number _ v _, var _ r _ => v.takesUp r.name
  | number _ v _, call _ c _ _ => v.takesUp c.name
  | _, _ => false

/-- The text of a factor: digits, a name, or a text in brackets, alone or behind the name of a call. -/
inductive IsFactor : Node → Text → Prop
  | number (p : Pad) {k : Nat} (hk : k < Scalar.digitBound) (t : Text) : IsFactor (.number p (.int k) t) (naturalDigits k)
  | var (p : Pad) {name : Text} (hname : IsName name) (t : Text) : IsFactor (.var p (.table name) t) name
  | bracketed (n : Node) (w : Text) : IsFactor n ('(' :: w ++ [')'])
  | call (p q : Pad) {name : Text} (hname : IsName name) (f : Option Function) (a : Node) (w : Text) :
      IsFactor (.call p (.identifier q name) f a) (name ++ ('(' :: w ++ [')']))

namespace IsFactor

variable {x y : Node} {u v : Text} {ws vs : List Node}

theorem not_leafChar : ¬LeafChar '(' ∧ ¬LeafChar ')' := by
  decide

/-- A number in front of a factor that does not run together with it. -/
theorem lexes_digits (hy : IsFactor y v) {k : Nat} (hk : k < Scalar.digitBound) {p : Pad} {t : Text}
    (h : (Node.number p (.int k) t).runTogether y = false) (hvs : Lexes v vs) :
    Lexes (naturalDigits k ++ v) (.number .none (.int k) (naturalDigits k) :: vs) := by
  have hname {name : Text} (hname : IsName name) (hk' : (Scalar.int k).takesUp name = false) :
      Lexes name [.identifier .none name] ∧
        Lexes (naturalDigits k ++ name) [.number .none (.int k) (naturalDigits k), .identifier .none name] := by
    rw [Scalar.takesUp, Scalar.text_natural hk] at hk'
    exact ⟨by simpa using Lexes.name hname Pattern.stopsWord_nil .nil, Lexes.digits_name hk hname hk'⟩
  cases hy with
  | number q hj t' => cases h
  | var q hx t' =>
    obtain ⟨halone, hbehind⟩ := hname hx h
    rwa [hvs.eq halone]
  | bracketed n w =>
    exact Lexes.numeral hk (Pattern.stopsWord_cons (by decide) _) hvs
  | call q q' hx f a w =>
    obtain ⟨halone, hbehind⟩ := hname hx h
    obtain ⟨zs, hzs⟩ := Lexes.exists_lexes (w ++ [')'])
    rw [List.cons_append] at hvs ⊢
    rw [hvs.eq (halone.append_break not_leafChar.1 hzs), ← List.append_assoc]
    exact hbehind.append_break not_leafChar.1 hzs

/-- **Factors** that do not run together are lexed one after the other, and no name stands at the end of the first one. -/
theorem lexes_append (hx : IsFactor x u) (hy : IsFactor y v) (h : x.runTogether y = false) (hws : Lexes u ws)
    (hvs : Lexes v vs) : Lexes (u ++ v) (ws ++ vs) ∧ ∀ w ∈ ws.getLast?, w.isIdentifier = false := by
  -- behind a closing bracket anything may follow
  have hclosed {u : Text} (hws : Lexes (u ++ [')']) ws) :
      Lexes (u ++ [')'] ++ v) (ws ++ vs) ∧ ∀ w ∈ ws.getLast?, w.isIdentifier = false := by
    refine ⟨hws.append_of_break not_leafChar.2 hvs, fun w hw => ?_⟩
    obtain ⟨zs, hzs⟩ := Lexes.exists_lexes u
    rw [hws.eq (hzs.append_break not_leafChar.2 .nil), List.getLast?_concat] at hw
    cases Option.mem_some_iff.1 hw
    rfl
  cases hx with
  | @number p k hk t =>
    have hnumber : Lexes (naturalDigits k) [.number .none (.int k) (naturalDigits k)] := by
      simpa using Lexes.numeral hk Pattern.stopsWord_nil .nil
    obtain rfl := hws.eq hnumber
    refine ⟨hy.lexes_digits hk h hvs, fun w hw => ?_⟩
    cases Option.mem_some_iff.1 hw
    rfl
  | var p hname t => cases h
  | bracketed n w => exact hclosed hws
  | call p q hname f a w =>
    rw [← List.append_assoc] at hws ⊢
    exact hclosed hws

end IsFactor

end Node

end FormulaLang
