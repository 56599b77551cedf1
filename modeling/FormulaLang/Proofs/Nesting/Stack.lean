import FormulaLang.Text.CharSet

/-!
# Nested brackets

The stack discipline of the three kinds of brackets. `openAfter` reads a text from the left to the right and keeps the kinds
of the brackets that are open, the innermost first; a text is `Nested` when none is left at its end. A comma fits when no
bracket around it is of an earlier kind than the innermost one (`CommasFit`). `scan` checks both in one pass
(`scan_nil_iff`).

* `scan_fields_iff`: between two brackets, each of the fields that the commas cut has to be nested by itself.
* `scan_window_iff`: so a pair of brackets may be taken out of the text, with the fields between them.
-/

namespace FormulaLang.Nesting

/-- The kinds of brackets. -/
inductive Kind where
  | round
  | square
  | curly
  deriving DecidableEq, Repr

/-- The kinds in the order in which the default grammar lists its brackets (`defaultBrackets_eq`). -/
def Kind.all : List Kind := [round, square, curly]

def Kind.opener : Kind → Char
  | round => '('
  | square => '['
  | curly => '{'

def Kind.closer : Kind → Char
  | round => ')'
  | square => ']'
  | curly => '}'

/-- The place of a kind in this list. -/
def Kind.rank (k : Kind) : Nat :=
  Kind.all.idxOf k

/-- The kind that a character opens. -/
def opening? (c : Char) : Option Kind :=
  Kind.all.find? fun k => k.opener == c

/-- The kind that a character closes. -/
def closing? (c : Char) : Option Kind :=
  Kind.all.find? fun k => k.closer == c

/-- The open brackets after one more character; a closing bracket has to match the innermost open one. -/
def advance (stack : List Kind) (c : Char) : Option (List Kind) :=
  match opening? c with
  | some k => some (k :: stack)
  | none =>
    match closing? c with
    | some k =>
      match stack with
      | j :: outer => if j = k then some outer else none
      | [] => none
    | none => some stack

/-- The brackets that are open after a text, the innermost first. -/
def openAfter (t : Text) : Option (List Kind) :=
  t.foldlM advance []

/-- Every closing bracket matches the innermost open one, and no bracket is left open. -/
def Nested (t : Text) : Prop :=
  openAfter t = some []

/-- No bracket around a comma is of an earlier kind than the innermost one around it. -/
def CommasFit (t : Text) : Prop :=
  ∀ before after, t = before ++ ',' :: after → ∀ k outer, openAfter before = some (k :: outer) →
    ∀ j ∈ outer, ¬j.rank < k.rank

/-! ## One pass -/

/-- A comma fits among these open brackets. -/
def fits : List Kind → Bool
  | [] => true
  | k :: outer => outer.all fun j => k.rank ≤ j.rank

/-- One more character, a comma only where it fits. -/
def check (stack : List Kind) (c : Char) : Option (List Kind) :=
  if c = ',' then if fits stack then some stack else none else advance stack c

/-- The open brackets after a text in which all commas fit. -/
def scan (stack : List Kind) (t : Text) : Option (List Kind) :=
  t.foldlM check stack

/-- Brackets and commas. -/
def isMark (c : Char) : Bool :=
  c == ',' || (opening? c).isSome || (closing? c).isSome

variable {S S' U : List Kind} {k : Kind} {s t : Text} {c : Char}

@[simp] theorem scan_nil (S : List Kind) : scan S [] = some S := rfl

@[simp] theorem scan_cons (S : List Kind) (c : Char) (t : Text) : scan S (c :: t) = (check S c).bind fun S' => scan S' t :=
  List.foldlM_cons

theorem scan_append (S : List Kind) (s t : Text) : scan S (s ++ t) = (scan S s).bind fun S' => scan S' t :=
  List.foldlM_append

@[simp] theorem opening?_opener (k : Kind) : opening? k.opener = some k := by
  cases k <;> decide

@[simp] theorem opening?_closer (k : Kind) : opening? k.closer = none := by
  cases k <;> decide

@[simp] theorem closing?_closer (k : Kind) : closing? k.closer = some k := by
  cases k <;> decide

theorem opening?_comma : opening? ',' = none := by
  decide

theorem closing?_comma : closing? ',' = none := by
  decide

theorem opener_of_opening? (h : opening? c = some k) : k.opener = c := by
  simpa using List.find?_some h

theorem closer_of_closing? (h : closing? c = some k) : k.closer = c := by
  simpa using List.find?_some h

theorem opener_ne_comma (k : Kind) : k.opener ≠ ',' := by
  cases k <;> decide

theorem closer_ne_comma (k : Kind) : k.closer ≠ ',' := by
  cases k <;> decide

theorem rank_injective {j k : Kind} (h : j.rank = k.rank) : j = k := by
  cases j <;> cases k <;> first | rfl | cases h

theorem check_opener (S : List Kind) (k : Kind) : check S k.opener = some (k :: S) := by
  simp [check, opener_ne_comma, advance]

theorem check_closer (S : List Kind) (k : Kind) : check (k :: S) k.closer = some S := by
  simp [check, closer_ne_comma, advance]

theorem check_of_not_isMark (h : isMark c = false) (S : List Kind) : check S c = some S := by
  simp only [isMark, Bool.or_eq_false_iff, Option.isSome_eq_false_iff, Option.isNone_iff_eq_none, beq_eq_false_iff_ne] at h
  simp [check, advance, h]

/-- Only brackets and commas count. -/
theorem scan_filter (S : List Kind) (t : Text) : scan S (t.filter isMark) = scan S t := by
  induction t generalizing S with
  | nil => rfl
  | cons c t ih =>
    cases h : isMark c with
    | true =>
      rw [List.filter_cons_of_pos h, scan_cons, scan_cons]
      congr 1
      funext S'
      exact ih S'
    | false =>
      rw [List.filter_cons_of_neg (by simp [h]), scan_cons, check_of_not_isMark h]
      exact ih S

/-- The commas of a text fit behind open brackets. -/
def FitsFrom (S : List Kind) (t : Text) : Prop :=
  ∀ before after, t = before ++ ',' :: after → ∀ S', before.foldlM advance S = some S' → fits S' = true

theorem fitsFrom_cons : FitsFrom S (c :: t) ↔
    (c = ',' → fits S = true) ∧ ∀ S', advance S c = some S' → FitsFrom S' t := by
  refine ⟨fun h => ⟨?_, ?_⟩, ?_⟩
  · rintro rfl
    exact h [] t rfl S rfl
  · intro S' hS' before after ht S₁ hS₁
    refine h (c :: before) after (by rw [ht]; rfl) S₁ ?_
    rw [List.foldlM_cons, hS']
    exact hS₁
  · rintro ⟨hc, ht⟩ before after he S₁ hS₁
    cases before with
    | nil =>
      obtain ⟨rfl, -⟩ := List.cons.inj he
      cases hS₁
      exact hc rfl
    | cons d before =>
      obtain ⟨rfl, htail⟩ := List.cons.inj he
      rw [List.foldlM_cons] at hS₁
      obtain ⟨S', hS', hS₁⟩ := Option.bind_eq_some_iff.1 hS₁
      exact ht S' hS' before after htail S₁ hS₁

/-- A pass checks the brackets and the commas. -/
theorem scan_eq_some_iff : scan S t = some S' ↔ t.foldlM advance S = some S' ∧ FitsFrom S t := by
  induction t generalizing S with
  | nil => simp [FitsFrom]
  | cons c t ih =>
    rw [scan_cons, List.foldlM_cons, fitsFrom_cons, check]
    by_cases hc : c = ','
    · subst hc
      have hadv : advance S ',' = some S := by simp [advance, opening?_comma, closing?_comma]
      cases hf : fits S <;> simp [hadv, ih]
    · cases hadv : advance S c <;> simp [hc, ih]

theorem fitsFrom_nil_iff : FitsFrom [] t ↔ CommasFit t := by
  refine ⟨fun h before after he k outer ho j hj => ?_, fun h before after he S₁ hS₁ => ?_⟩
  · have hfit : outer.all (fun j => k.rank ≤ j.rank) = true := h before after he _ ho
    rw [List.all_eq_true] at hfit
    have := of_decide_eq_true (hfit j hj)
    omega
  · cases S₁ with
    | nil => rfl
    | cons k outer =>
      refine List.all_eq_true.2 fun j hj => decide_eq_true ?_
      have := h before after he k outer hS₁ j hj
      omega

/-- **One pass** decides whether a text is nested and its commas fit. -/
theorem scan_nil_iff : scan [] t = some [] ↔ Nested t ∧ CommasFit t := by
  rw [scan_eq_some_iff, fitsFrom_nil_iff]
  rfl

instance (t : Text) : Decidable (Nested t ∧ CommasFit t) :=
  decidable_of_iff _ scan_nil_iff

/-! ## Brackets that stay open -/

/-- What one character can do. -/
theorem check_cases (h : check S c = some S') :
    (c = ',' ∧ fits S = true ∧ S' = S) ∨ (∃ k : Kind, c = k.opener ∧ S' = k :: S) ∨
      (∃ k : Kind, c = k.closer ∧ S = k :: S') ∨ (isMark c = false ∧ S' = S) := by
  unfold check at h
  split at h
  · rename_i hc
    split at h
    · rename_i hf
      cases h
      exact .inl ⟨hc, hf, rfl⟩
    · cases h
  · rename_i hc
    unfold advance at h
    split at h
    · rename_i k hk
      cases h
      exact .inr (.inl ⟨k, (opener_of_opening? hk).symm, rfl⟩)
    · rename_i ho
      split at h
      · rename_i k hk
        split at h
        · split at h
          · rename_i hjk
            cases h
            exact .inr (.inr (.inl ⟨k, (closer_of_closing? hk).symm, by rw [hjk]⟩))
          · cases h
        · cases h
      · rename_i hcl
        cases h
        exact .inr (.inr (.inr ⟨by simp [isMark, hc, ho, hcl], rfl⟩))

theorem check_comma (h : check S ',' = some S') : fits S = true ∧ S' = S := by
  rw [check, if_pos rfl] at h
  split at h
  · rename_i hf
    cases h
    exact ⟨hf, rfl⟩
  · cases h

theorem check_closer_eq_some (h : check S k.closer = some S') : S = k :: S' := by
  rw [check, if_neg (closer_ne_comma k), advance, opening?_closer, closing?_closer] at h
  cases S with
  | nil => cases h
  | cons j S =>
    simp only at h
    split at h
    · rename_i hjk
      cases h
      rw [hjk]
    · cases h

/-- Without a closing bracket of its kind, an open bracket stays open. -/
theorem mem_scan_of_mem (ht : k.closer ∉ t) (h : scan S t = some S') (hk : k ∈ S) : k ∈ S' := by
  induction t generalizing S with
  | nil =>
    cases h
    exact hk
  | cons c t ih =>
    rw [scan_cons] at h
    obtain ⟨S₁, hc, h⟩ := Option.bind_eq_some_iff.1 h
    rw [List.mem_cons, not_or] at ht
    refine ih ht.2 h ?_
    rcases check_cases hc with ⟨-, -, rfl⟩ | ⟨j, -, rfl⟩ | ⟨j, rfl, rfl⟩ | ⟨-, rfl⟩
    · exact hk
    · exact List.mem_cons_of_mem _ hk
    · rcases List.mem_cons.1 hk with rfl | hk
      · exact absurd rfl ht.1
      · exact hk
    · exact hk

/-- An open bracket was open before or has been opened. -/
theorem mem_or_opener_mem_of_scan (h : scan S t = some S') (hk : k ∈ S') : k ∈ S ∨ k.opener ∈ t := by
  induction t generalizing S with
  | nil =>
    cases h
    exact .inl hk
  | cons c t ih =>
    rw [scan_cons] at h
    obtain ⟨S₁, hc, h⟩ := Option.bind_eq_some_iff.1 h
    rcases ih h with hk | hk
    · rcases check_cases hc with ⟨-, -, rfl⟩ | ⟨j, rfl, rfl⟩ | ⟨j, -, rfl⟩ | ⟨-, rfl⟩
      · exact .inl hk
      · rcases List.mem_cons.1 hk with rfl | hk
        · exact .inr List.mem_cons_self
        · exact .inl hk
      · exact .inl (List.mem_cons_of_mem _ hk)
      · exact .inl hk
    · exact .inr (List.mem_cons_of_mem _ hk)

/-- An opening bracket without a closing one of its kind in the text. -/
theorem scan_ne_nil_of_opener (ho : k.opener ∈ t) (hc : k.closer ∉ t) : scan [] t ≠ some [] := by
  intro h
  obtain ⟨x, y, rfl⟩ := List.append_of_mem ho
  rw [scan_append] at h
  obtain ⟨S, -, h⟩ := Option.bind_eq_some_iff.1 h
  rw [scan_cons, check_opener, Option.bind_some] at h
  simp only [List.mem_append, List.mem_cons, not_or] at hc
  cases mem_scan_of_mem hc.2.2 h List.mem_cons_self

/-- A closing bracket without an opening one of its kind in front of it. -/
theorem scan_ne_nil_of_closer (ho : k.opener ∉ s) : scan [] (s ++ k.closer :: t) ≠ some [] := by
  intro h
  rw [scan_append] at h
  obtain ⟨S, hS, h⟩ := Option.bind_eq_some_iff.1 h
  rw [scan_cons] at h
  obtain ⟨S₁, hstep, -⟩ := Option.bind_eq_some_iff.1 h
  rw [check_closer_eq_some hstep] at hS
  rcases mem_or_opener_mem_of_scan hS List.mem_cons_self with hk | hk
  · cases hk
  · exact ho hk

/-- Commas fit where nothing is open. -/
theorem scan_commas (h : ∀ c ∈ t, c = ',') : scan [] t = some [] := by
  induction t with
  | nil => rfl
  | cons c t ih =>
    rw [List.forall_mem_cons] at h
    rw [scan_cons, h.1]
    exact ih h.2

/-- A text that has no bracket of a kind leaves an open bracket of this kind where it is. -/
theorem scan_shape (ho : k.opener ∉ t) (hc : k.closer ∉ t) (hU : k ∉ U) (h : scan (U ++ k :: S) t = some S') :
    ∃ U', S' = U' ++ k :: S ∧ k ∉ U' := by
  induction t generalizing U with
  | nil =>
    cases h
    exact ⟨U, rfl, hU⟩
  | cons c t ih =>
    rw [scan_cons] at h
    obtain ⟨S₁, hstep, h⟩ := Option.bind_eq_some_iff.1 h
    rw [List.mem_cons, not_or] at ho hc
    rcases check_cases hstep with ⟨-, -, rfl⟩ | ⟨j, rfl, rfl⟩ | ⟨j, rfl, hj⟩ | ⟨-, rfl⟩
    · exact ih ho.2 hc.2 hU h
    · refine ih (U := j :: U) ho.2 hc.2 ?_ h
      rintro (_ | ⟨_, hk⟩)
      · exact ho.1 rfl
      · exact hU hk
    · cases U with
      | nil =>
        cases hj
        exact absurd rfl hc.1
      | cons i U =>
        cases hj
        exact ih ho.2 hc.2 (fun hk => hU (List.mem_cons_of_mem _ hk)) h
    · exact ih ho.2 hc.2 hU h

/-- Without commas a text reads the same on top of an open bracket that it does not close. -/
theorem scan_append_stack (hcomma : ',' ∉ t) (hc : k.closer ∉ t) (U S : List Kind) :
    scan (U ++ k :: S) t = (scan U t).map (· ++ k :: S) := by
  induction t generalizing U with
  | nil => rfl
  | cons c t ih =>
    rw [List.mem_cons, not_or] at hcomma hc
    have hne : c ≠ ',' := fun h => hcomma.1 h.symm
    have hstep : check (U ++ k :: S) c = (check U c).map (· ++ k :: S) := by
      rw [check, check, if_neg hne, if_neg hne]
      unfold advance
      cases opening? c with
      | some j => rfl
      | none =>
        cases hj : closing? c with
        | none => rfl
        | some j =>
          cases U with
          | nil =>
            have hkj : k ≠ j := by
              rintro rfl
              exact hc.1 (closer_of_closing? hj)
            simp [hkj]
          | cons i U => by_cases hij : i = j <;> simp [hij]
    rw [scan_cons, scan_cons, hstep]
    cases check U c with
    | none => rfl
    | some U₁ => exact ih hcomma.2 hc.2 U₁

/-! ## A pair of brackets -/

/-- Fields with commas between them. -/
def joinFields (f : Text) (fs : List Text) : Text :=
  f ++ fs.flatMap fun g => ',' :: g

/-- The text of a field between brackets of a kind, behind which no kind up to this one is closed. -/
structure IsField (k : Kind) (f : Text) : Prop where
  comma : ',' ∉ f
  opener : k.opener ∉ f
  closer : ∀ j : Kind, j.rank ≤ k.rank → j.closer ∉ f

theorem not_mem_joinFields {f : Text} {fs : List Text} (hc : c ≠ ',') (h : ∀ g ∈ f :: fs, c ∉ g) :
    c ∉ joinFields f fs := by
  rw [joinFields, List.mem_append, List.mem_flatMap]
  rintro (hf | ⟨g, hg, hmem⟩)
  · exact h f List.mem_cons_self hf
  · rcases List.mem_cons.1 hmem with rfl | hmem
    · exact hc rfl
    · exact h g (List.mem_cons_of_mem _ hg) hmem

/-- **Fields**: between two brackets that may hold commas, each field has to be nested by itself. -/
theorem scan_fields_iff {f : Text} {fs : List Text} (hfs : ∀ g ∈ f :: fs, IsField k g)
    (hS : ∀ j ∈ S, k.rank ≤ j.rank) :
    scan (k :: S) (joinFields f fs) = some (k :: S) ↔ ∀ g ∈ f :: fs, scan [] g = some [] := by
  induction fs generalizing f with
  | nil =>
    have hf : IsField k f := hfs f List.mem_cons_self
    have hloc := scan_append_stack hf.comma (hf.closer k (Nat.le_refl _)) [] S
    rw [List.nil_append] at hloc
    rw [joinFields, List.flatMap_nil, List.append_nil, hloc, List.forall_mem_singleton]
    cases scan [] f with
    | none => simp
    | some U => simp
  | cons g fs ih =>
    have hf : IsField k f := hfs f List.mem_cons_self
    have hrest : ∀ g' ∈ g :: fs, IsField k g' := fun g' hg' => hfs g' (List.mem_cons_of_mem _ hg')
    have hloc := scan_append_stack hf.comma (hf.closer k (Nat.le_refl _)) [] S
    rw [List.nil_append] at hloc
    have hjoin : joinFields f (g :: fs) = f ++ ',' :: joinFields g fs := by simp [joinFields]
    have hfits : fits (k :: S) = true := List.all_eq_true.2 fun j hj => decide_eq_true (hS j hj)
    rw [hjoin, scan_append, hloc, List.forall_mem_cons, ← ih hrest]
    cases hU : scan [] f with
    | none => simp
    | some U =>
      cases U with
      | nil => simp [check, hfits]
      | cons u U =>
        refine iff_of_false (fun h => ?_) (by simp)
        -- the bracket `u` was opened in the field; the comma fits only if its kind is earlier, and then it stays open
        have h : scan (u :: U ++ k :: S) (',' :: joinFields g fs) = some (k :: S) := h
        rw [scan_cons, Option.bind_eq_some_iff] at h
        obtain ⟨S₁, hcomma, h⟩ := h
        obtain ⟨hfit, rfl⟩ := check_comma hcomma
        have hopened : u.opener ∈ f := by
          rcases mem_or_opener_mem_of_scan hU List.mem_cons_self with hu | hu
          · cases hu
          · exact hu
        have hne : u ≠ k := by
          rintro rfl
          exact hf.opener hopened
        have hle : u.rank ≤ k.rank := of_decide_eq_true (List.all_eq_true.1 hfit k (by simp))
        have hopen : u ∈ k :: S := by
          refine mem_scan_of_mem ?_ h List.mem_cons_self
          exact not_mem_joinFields (closer_ne_comma u) fun g' hg' => (hrest g' hg').closer u hle
        rcases List.mem_cons.1 hopen with hu | hu
        · exact hne hu
        · exact hne (rank_injective (Nat.le_antisymm hle (hS u hu)))

/-- **A pair of brackets** may be taken out of a text together with the fields between them, if each of these is nested by
itself and no kind up to that of the pair is closed in them, nor an earlier kind behind the pair. -/
theorem scan_window_iff {x y f : Text} {fs : List Text} (hfs : ∀ g ∈ f :: fs, IsField k g)
    (hy : ∀ j : Kind, j.rank < k.rank → j.closer ∉ y) :
    scan [] (x ++ k.opener :: joinFields f fs ++ k.closer :: y) = some [] ↔
      (∀ g ∈ f :: fs, scan [] g = some []) ∧ scan [] (x ++ y) = some [] := by
  rw [scan_append, scan_append, scan_append]
  cases scan [] x with
  | none => simp
  | some S =>
    have hopen : scan S (k.opener :: joinFields f fs) = scan (k :: S) (joinFields f fs) := by
      rw [scan_cons, check_opener]
      rfl
    have hclose : ((scan (k :: S) (joinFields f fs)).bind fun S' => scan S' (k.closer :: y)) = some [] ↔
        scan (k :: S) (joinFields f fs) = some (k :: S) ∧ scan S y = some [] := by
      have hend : scan (k :: S) (k.closer :: y) = scan S y := by
        rw [scan_cons, check_closer]
        rfl
      refine ⟨fun h => ?_, fun h => by rw [h.1, ← h.2, ← hend]; rfl⟩
      obtain ⟨S', hS', h⟩ := Option.bind_eq_some_iff.1 h
      have ho : k.opener ∉ joinFields f fs := not_mem_joinFields (opener_ne_comma k) fun g hg => (hfs g hg).opener
      have hc : k.closer ∉ joinFields f fs :=
        not_mem_joinFields (closer_ne_comma k) fun g hg => (hfs g hg).closer k (Nat.le_refl _)
      obtain ⟨U, rfl, hU⟩ := scan_shape (U := []) ho hc (by simp) hS'
      cases U with
      | nil => exact ⟨hS', hend ▸ h⟩
      | cons u U =>
        rw [scan_cons, Option.bind_eq_some_iff] at h
        obtain ⟨S₁, hstep, -⟩ := h
        cases check_closer_eq_some hstep
        exact absurd List.mem_cons_self hU
    rw [Option.bind_some, Option.bind_some, hopen, hclose]
    refine and_congr_left fun hS => scan_fields_iff hfs ?_
    -- an earlier kind that is open in front of the pair would stay open
    intro j hj
    refine Nat.le_of_not_lt fun hlt => ?_
    cases mem_scan_of_mem (hy j hlt) hS hj

end FormulaLang.Nesting
