import FormulaLang.Parse.Sharing
import FormulaLang.Proofs.Fold.Spaces
import FormulaLang.Proofs.Parse.Starts

/-!
# White space that a fold takes down

Working through the events of a computation, `Sharing` takes down marks of nodes that take up white space (`Records`,
`Traced.Records`). In the fold stage the tiers of spaces alone do that: a blank fragment goes to the node behind it, and at
the end of the buffer to the node before it (`BesideBlank`). So the marks of exactly these nodes are taken down
(`records_foldStage`).
-/

namespace FormulaLang

/-! ## What is taken down -/

/-- White space is taken down for the mark. -/
def Taken (taken : List (Nat × Pad)) (mark : Nat) : Prop :=
  ∃ p, (mark, p) ∈ taken

theorem isSome_lookup_iff {taken : List (Nat × Pad)} {mark : Nat} :
    (taken.lookup mark).isSome = true ↔ Taken taken mark := by
  rw [List.lookup_isSome_iff]
  constructor
  · rintro ⟨⟨k, p⟩, hmem, heq⟩
    exact ⟨p, eq_of_beq heq ▸ hmem⟩
  · rintro ⟨p, hmem⟩
    exact ⟨_, hmem, beq_self_eq_true mark⟩

/-- The events lead from the frames `F` to the frames `F'`, and the marks with the property `P` are taken down. -/
def Records (events : List Event) (F F' : List Marks) (P : Nat → Prop) : Prop :=
  ∀ taken, ∃ taken', events.foldl Sharing.step ⟨F, taken⟩ = ⟨F', taken'⟩ ∧
    ∀ mark, Taken taken' mark ↔ Taken taken mark ∨ P mark

namespace Records

variable {xs ys : List Event} {F F' F'' : List Marks} {P Q : Nat → Prop}

theorem congr (h : Records xs F F' P) (hPQ : ∀ mark, P mark ↔ Q mark) : Records xs F F' Q := by
  intro taken
  obtain ⟨taken', hrun, hmarks⟩ := h taken
  exact ⟨taken', hrun, fun mark => (hmarks mark).trans (or_congr_right (hPQ mark))⟩

theorem append (hx : Records xs F F' P) (hy : Records ys F' F'' Q) :
    Records (xs ++ ys) F F'' fun mark => P mark ∨ Q mark := by
  intro taken
  obtain ⟨mid, hmid, hmarks⟩ := hx taken
  obtain ⟨taken', hrun, hmarks'⟩ := hy mid
  refine ⟨taken', ?_, fun mark => ?_⟩
  · rw [List.foldl_append, hmid, hrun]
  · rw [hmarks' mark, hmarks mark, or_assoc]

/-- Events that take nothing down. -/
theorem of_run (h : ∀ taken, xs.foldl Sharing.step ⟨F, taken⟩ = ⟨F', taken⟩) : Records xs F F' fun _ => False :=
  fun taken => ⟨taken, h taken, fun _ => (or_false _).symm.to_iff⟩

/-- Events that matter to no node. -/
theorem of_ignored (h : ∀ e ∈ xs, ∀ s : Sharing, s.step e = s) : Records xs F F fun _ => False := by
  refine of_run fun taken => ?_
  induction xs with
  | nil => rfl
  | cons e xs ih =>
    rw [List.forall_mem_cons] at h
    rw [List.foldl_cons, h.1, ih h.2]

/-- A node that keeps its place. -/
theorem kept (before window : List Node) (n : Node) (M : Marks) :
    Records [.replaced before window n true] (M :: F) (M :: F) fun mark => M[nodeCount before]? = some (some mark) := by
  intro taken
  cases hmark : M[nodeCount before]?.join with
  | none =>
    refine ⟨taken, ?_, fun mark => ?_⟩
    · simp only [List.foldl_cons, List.foldl_nil, Sharing.step, hmark]
    · have hne : M[nodeCount before]? ≠ some (some mark) := by
        intro heq
        rw [heq] at hmark
        cases hmark
      simp [hne]
  | some k =>
    refine ⟨(k, n.pad) :: taken, ?_, fun mark => ?_⟩
    · simp only [List.foldl_cons, List.foldl_nil, Sharing.step, hmark]
    · rw [Option.join_eq_some_iff.1 hmark]
      simp only [Taken, List.mem_cons, Prod.mk.injEq, Option.some.injEq]
      constructor
      · rintro ⟨p, ⟨rfl, -⟩ | hmem⟩
        · exact .inr rfl
        · exact .inl ⟨p, hmem⟩
      · rintro (⟨p, hmem⟩ | rfl)
        · exact ⟨p, .inr hmem⟩
        · exact ⟨n.pad, .inl ⟨rfl, rfl⟩⟩

end Records

/-- The computation leads from the frames `F` to frames that are in the relation with its result, if there is one, and the
marks with the property `P` are taken down. -/
def Traced.Records {ε α : Type} (x : Traced ε α) (F : List Marks) (R : α → List Marks → Prop) (P : Nat → Prop) : Prop :=
  ∃ F', FormulaLang.Records x.events F F' P ∧ ∀ a, x.result = .ok a → R a F'

namespace Traced

variable {ε ε' α β : Type} {x : Traced ε α} {f : α → Traced ε β} {F : List Marks} {R : α → List Marks → Prop}
  {S : β → List Marks → Prop} {P P' : Nat → Prop} {Q : α → Nat → Prop}

theorem Records.congr (h : x.Records F R P) (hP : ∀ mark, P mark ↔ P' mark) : x.Records F R P' := by
  obtain ⟨F', hrecords, hresult⟩ := h
  exact ⟨F', hrecords.congr hP, hresult⟩

theorem records_pure {a : α} (h : R a F) : (pure a : Traced ε α).Records F R fun _ => False := by
  refine ⟨F, .of_run fun _ => rfl, ?_⟩
  rintro b ⟨⟩
  exact h

theorem records_fail (e : ε) : (fail e : Traced ε α).Records F R fun _ => False :=
  ⟨F, .of_run fun _ => rfl, fun _ h => by cases h⟩

theorem records_emit {e : Event} {F' : List Marks} (h : FormulaLang.Records [e] F F' P) :
    (emit e : Traced ε Unit).Records F (fun _ G => G = F') P :=
  ⟨F', h, fun _ _ => rfl⟩

theorem Records.mapError (h : x.Records F R P) (g : ε → ε') : (x.mapError g).Records F R P := by
  obtain ⟨F', hrecords, hresult⟩ := h
  refine ⟨F', hrecords, fun a ha => hresult a ?_⟩
  rwa [result_mapError, mapError_eq_ok_iff] at ha

/-- One computation after another. -/
theorem Records.bind (h : x.Records F R P) (hf : ∀ a F', x.result = .ok a → R a F' → (f a).Records F' S (Q a)) :
    (x >>= f).Records F S fun mark => P mark ∨ ∃ a, x.result = .ok a ∧ Q a mark := by
  obtain ⟨F', hrecords, hresult⟩ := h
  cases ha : x.result with
  | error e =>
    rw [bind_of_error ha]
    exact ⟨F', hrecords.congr fun mark => by simp, fun _ hb => by cases hb⟩
  | ok a =>
    obtain ⟨F'', hrecords', hresult'⟩ := hf a F' ha (hresult a ha)
    rw [bind_of_ok ha]
    exact ⟨F'', (hrecords.append hrecords').congr fun mark => by simp, hresult'⟩

theorem Records.bind_of_ok {a : α} {P' : Nat → Prop} (h : x.Records F R P) (ha : x.result = .ok a)
    (hf : ∀ F', R a F' → (f a).Records F' S P') : (x >>= f).Records F S fun mark => P mark ∨ P' mark := by
  refine (h.bind (Q := fun _ => P') fun b F' hb hR => ?_).congr fun mark => by simp [ha]
  cases ha.symm.trans hb
  exact hf F' hR

/-- Behind a computation that takes nothing down. -/
theorem Records.before {a : α} {P : Nat → Prop} (h : x.Records F R fun _ => False) (ha : x.result = .ok a)
    (hf : ∀ F', R a F' → (f a).Records F' S P) : (x >>= f).Records F S P :=
  (h.bind_of_ok ha hf).congr fun mark => by rw [false_or]

/-- In front of a computation that takes nothing down. -/
theorem Records.behind (h : x.Records F R P)
    (hf : ∀ a F', x.result = .ok a → R a F' → (f a).Records F' S fun _ => False) : (x >>= f).Records F S P :=
  (h.bind hf).congr fun mark => by simp

end Traced

/-! ## Tiers -/

section Tiers

variable {resolve : Text → Option Function}

theorem Rule.step_lookups (r : Rule) (resolve : Text → Option Function) (matched : List Node) :
    ∀ e ∈ r.lookups resolve matched, ∀ s : Sharing, s.step e = s := by
  have hunknown : ∀ (name : Text) (s : Sharing), s.step (.unknownFunction name) = s := by
    intro name s
    unfold Sharing.step
    split <;> first | rfl | simp_all
  have hvariable : ∀ (name : Text) (s : Sharing), s.step (.variableMet name) = s := by
    intro name s
    unfold Sharing.step
    split <;> first | rfl | simp_all
  unfold Rule.lookups
  split
  · split
    · split <;> simp [hunknown]
    · simp
  · simp [hvariable]
  · simp

/-- **A tier** takes down what its replacements take down one after another. The buffers and the frames on the way have the
property `C`, and `P` tells what is taken down from then on. -/
theorem Tier.records_fold {t : Tier} (ht : ∀ r ∈ t.rules, r.suits = true) (resolve : Text → Option Function)
    {C : List Node → List Marks → Prop} {P : List Node → Nat → Prop}
    (done : ∀ ss F, C ss F → t.match? ss = none → ∀ mark, ¬P ss mark)
    (replace : ∀ ss F m n, C ss F → t.match? ss = some m → m.rule.build resolve m.window = .ok n →
      ∃ F' Q, Records [.replaced m.before m.window n m.rule.keepsNode] F F' Q ∧ C (m.before ++ n :: m.after) F' ∧
        ∀ mark, Q mark ∨ P (m.before ++ n :: m.after) mark ↔ P ss mark)
    (ss : List Node) {F : List Marks} (h : C ss F) :
    (t.fold resolve ss).Records F (fun out F' => C out F' ∧ t.match? out = none) (P ss) := by
  induction hk : weight ss using Nat.strong_induction_on generalizing ss F with
  | _ k ih =>
    rw [Tier.fold]
    split
    · rename_i hm
      exact (Traced.records_pure ⟨h, hm⟩).congr fun mark => iff_of_false id (done ss F h hm mark)
    · rename_i m hm
      obtain ⟨hr, hfits⟩ := Tier.forall₂_fits_of_match? (fun r hr => Rule.pattern_ne_nil_of_suits (ht r hr)) hm
      split
      · rename_i d hd
        have hbuild : ∃ n, m.rule.build resolve m.window = .ok n := Rule.build_ok_of_suits (ht _ hr) hfits
        obtain ⟨n, hn⟩ := hbuild
        cases hd.symm.trans hn
      · rename_i n hn
        obtain ⟨F', Q, hevent, hC, hP⟩ := replace ss F m n h hm hn
        have hlookups : Records (m.rule.lookups resolve m.window) F F fun _ => False :=
          .of_ignored (m.rule.step_lookups resolve m.window)
        have hfirst : (⟨.ok (), m.rule.lookups resolve m.window ++ [.replaced m.before m.window n m.rule.keepsNode]⟩ :
            Traced Stuck Unit).Records F (fun _ G => G = F') fun mark => False ∨ Q mark :=
          ⟨F', hlookups.append hevent, fun _ _ => rfl⟩
        refine (hfirst.bind_of_ok rfl fun G hG => ?_).congr fun mark => by rw [false_or, hP mark]
        exact hG ▸ ih _ (hk ▸ Tier.weight_replace_lt hm hn) _ hC rfl

end Tiers

/-! ## White space beside nodes -/

/-- Between the sentences `xs` and `ys` a node takes up white space: what stands before it, or behind it at the end of the
buffer. -/
def BesideBlank (xs ys : List Node) : Prop :=
  (∃ s ∈ xs.getLast?, Element.space.fits s = true) ∨ ∃ s, ys = [s] ∧ Element.space.fits s = true

/-- White space stands at the end of the buffer; `blank` tells it of an empty one. -/
def endsBlank (blank : Bool) : List Node → Bool
  | [] => blank
  | n :: ss => endsBlank (Element.space.fits n) ss

/-- For each node of the buffer, raw fragments aside, whether white space stands before it; `blank` tells it of the first
sentence. -/
def behindBlank (blank : Bool) : List Node → List Bool
  | [] => []
  | n :: ss =>
    if n.isRaw then behindBlank (Element.space.fits n) ss else blank :: behindBlank (Element.space.fits n) ss

section Blanks

variable {blank c : Bool} {n : Node} {ss xs ys : List Node} {i : Nat}

theorem endsBlank_append (blank : Bool) (xs ys : List Node) :
    endsBlank blank (xs ++ ys) = endsBlank (endsBlank blank xs) ys := by
  induction xs generalizing blank with
  | nil => rfl
  | cons n xs ih => exact ih _

theorem endsBlank_concat (blank : Bool) (xs : List Node) (n : Node) :
    endsBlank blank (xs ++ [n]) = Element.space.fits n := by
  rw [endsBlank_append, endsBlank, endsBlank]

theorem endsBlank_false_iff : endsBlank false xs = true ↔ ∃ s ∈ xs.getLast?, Element.space.fits s = true := by
  rcases List.eq_nil_or_concat' xs with rfl | ⟨ys, n, rfl⟩
  · simp [endsBlank]
  · simp [endsBlank_concat]

theorem fits_space_of_node (h : n.isRaw = false) : Element.space.fits n = false := by
  cases n with
  | raw t => cases h
  | _ => rfl

theorem behindBlank_append (blank : Bool) (xs ys : List Node) :
    behindBlank blank (xs ++ ys) = behindBlank blank xs ++ behindBlank (endsBlank blank xs) ys := by
  induction xs generalizing blank with
  | nil => rfl
  | cons n xs ih =>
    rw [List.cons_append, behindBlank, behindBlank, ih]
    cases n.isRaw <;> rfl

theorem behindBlank_cons_node (h : n.isRaw = false) :
    behindBlank blank (n :: ss) = blank :: behindBlank false ss := by
  rw [behindBlank, if_neg (by simp [h]), fits_space_of_node h]

theorem length_behindBlank (blank : Bool) (ss : List Node) : (behindBlank blank ss).length = nodeCount ss := by
  induction ss generalizing blank with
  | nil => rfl
  | cons n ss ih =>
    cases hn : n.isRaw with
    | true => rw [behindBlank, if_pos hn, ih, nodeCount_cons_raw hn]
    | false => rw [behindBlank_cons_node hn, List.length_cons, ih, nodeCount_cons_node hn]

theorem getElem?_behindBlank_iff :
    (behindBlank blank ss)[i]? = some c ↔
      ∃ xs n ys, ss = xs ++ n :: ys ∧ n.isRaw = false ∧ nodeCount xs = i ∧ endsBlank blank xs = c := by
  constructor
  · intro h
    induction ss generalizing blank i with
    | nil => cases h
    | cons n ss ih =>
      cases hn : n.isRaw with
      | true =>
        rw [behindBlank, if_pos hn] at h
        obtain ⟨xs, m, ys, rfl, hm, rfl, hc⟩ := ih h
        exact ⟨n :: xs, m, ys, rfl, hm, nodeCount_cons_raw hn xs, hc⟩
      | false =>
        rw [behindBlank_cons_node hn] at h
        cases i with
        | zero =>
          cases h
          exact ⟨[], n, ss, rfl, hn, rfl, rfl⟩
        | succ i =>
          obtain ⟨xs, m, ys, rfl, hm, rfl, hc⟩ := ih h
          refine ⟨n :: xs, m, ys, rfl, hm, nodeCount_cons_node hn xs, ?_⟩
          rwa [endsBlank, fits_space_of_node hn]
  · rintro ⟨xs, n, ys, rfl, hn, rfl, rfl⟩
    rw [behindBlank_append, ← length_behindBlank blank xs, List.getElem?_append_right (Nat.le_refl _), Nat.sub_self,
      behindBlank_cons_node hn, List.getElem?_cons_zero]

/-- The nodes beside white space, by their numbers. -/
theorem besideBlank_iff (hs : Fused ss) :
    ((behindBlank false ss)[i]? = some true ∨ endsBlank false ss = true ∧ nodeCount ss = i + 1) ↔
      ∃ xs n ys, ss = xs ++ n :: ys ∧ n.isRaw = false ∧ nodeCount xs = i ∧ BesideBlank xs ys := by
  rw [getElem?_behindBlank_iff]
  constructor
  · rintro (⟨xs, n, ys, rfl, hn, hi, hblank⟩ | ⟨hblank, hcount⟩)
    · exact ⟨xs, n, ys, rfl, hn, hi, .inl (endsBlank_false_iff.1 hblank)⟩
    · obtain ⟨s, hlast, hspace⟩ := endsBlank_false_iff.1 hblank
      obtain ⟨zs, rfl⟩ := List.getLast?_eq_some_iff.1 hlast
      have hraw := Element.isRaw_of_fits_space hspace
      have hzs : nodeCount zs = i + 1 := by
        rwa [nodeCount_append, nodeCount_cons_raw hraw] at hcount
      rcases List.eq_nil_or_concat' zs with rfl | ⟨xs, n, rfl⟩
      · cases hzs
      · rw [List.append_assoc, List.singleton_append] at hs
        have hn : n.isRaw = false := by
          have happart := (List.isChain_cons_cons.1 (List.isChain_append.1 hs.apart).2.1).1
          exact happart.resolve_right (by simp [hraw])
        refine ⟨xs, n, [s], by simp, hn, ?_, .inr ⟨s, rfl, hspace⟩⟩
        rw [nodeCount_append, nodeCount_cons_node hn] at hzs
        exact Nat.succ_injective hzs
  · rintro ⟨xs, n, ys, rfl, hn, rfl, hblank | ⟨s, rfl, hspace⟩⟩
    · exact .inl ⟨xs, n, ys, rfl, hn, rfl, endsBlank_false_iff.2 hblank⟩
    · have hraw := Element.isRaw_of_fits_space hspace
      refine .inr ⟨endsBlank_false_iff.2 ⟨s, by simp, hspace⟩, ?_⟩
      simp [nodeCount, hn, hraw]

end Blanks

/-! ## The fold stage -/

section Fold

variable {resolve : Text → Option Function} {M : Marks} {F : List Marks}

/-- The white space before nodes goes one by one. -/
theorem getElem?_append_true_iff {xs ys : List Bool} {i : Nat} :
    (xs ++ true :: ys)[i]? = some true ↔ i = xs.length ∨ (xs ++ false :: ys)[i]? = some true := by
  have hset : xs ++ true :: ys = (xs ++ false :: ys).set xs.length true := by simp
  rw [hset, List.getElem?_set]
  by_cases hi : xs.length = i
  · simp [← hi]
  · simp [hi, Ne.symm hi]

/-- In a fused buffer what stands before white space does not end with any. -/
theorem Fused.endsBlank_eq {xs ys : List Node} {s : Node} (h : Fused (xs ++ s :: ys)) (hs : Element.space.fits s = true) :
    endsBlank false xs = false := by
  rcases List.eq_nil_or_concat' xs with rfl | ⟨xs, n, rfl⟩
  · rfl
  · rw [List.append_assoc, List.singleton_append] at h
    have happart := (List.isChain_cons_cons.1 (List.isChain_append.1 h.apart).2.1).1
    rw [endsBlank_concat]
    exact fits_space_of_node (happart.resolve_right (by simp [Element.isRaw_of_fits_space hs]))

theorem BlanksLast.not_behindBlank {ss : List Node} (h : BlanksLast ss) (i : Nat) :
    (behindBlank false ss)[i]? ≠ some true := by
  intro hi
  obtain ⟨xs, n, ys, rfl, -, -, hblank⟩ := getElem?_behindBlank_iff.1 hi
  obtain ⟨s, hlast, hspace⟩ := endsBlank_false_iff.1 hblank
  have hfalse := h s (by
    rw [List.dropLast_append_of_ne_nil (List.cons_ne_nil n ys)]
    exact List.mem_append_left _ (List.mem_of_getLast? hlast))
  rw [hspace] at hfalse
  cases hfalse

/-- The first tier of spaces takes down the white space before nodes. -/
theorem records_spaceBeforeTier {ss : List Node} (hs : Fused ss) :
    (spaceBeforeTier.fold resolve ss).Records (M :: F)
      (fun out G => G = M :: F ∧ Fused out ∧ BlanksLast out ∧ endsBlank false out = endsBlank false ss ∧
        nodeCount out = nodeCount ss)
      fun mark => ∃ i : Nat, (behindBlank false ss)[i]? = some true ∧ M[i]? = some (some mark) := by
  have hfold := Tier.records_fold (t := spaceBeforeTier) (F := M :: F) (by decide) resolve
    (C := fun out G => G = M :: F ∧ Fused out ∧ endsBlank false out = endsBlank false ss ∧ nodeCount out = nodeCount ss)
    (P := fun out mark => ∃ i : Nat, (behindBlank false out)[i]? = some true ∧ M[i]? = some (some mark)) ?_ ?_
    ss ⟨rfl, hs, rfl, rfl⟩
  · obtain ⟨G, hrecords, hresult⟩ := hfold
    refine ⟨G, hrecords, fun out hout => ?_⟩
    obtain ⟨⟨hG, hfused, hends, hcount⟩, hnone⟩ := hresult out hout
    exact ⟨hG, hfused, blanksLast_of_match? hfused hnone, hends, hcount⟩
  · rintro out G ⟨-, hfused, -⟩ hnone mark ⟨i, hi, -⟩
    exact (blanksLast_of_match? hfused hnone).not_behindBlank i hi
  · rintro out G m n ⟨rfl, hfused, hends, hcount⟩ hm hn
    obtain ⟨s, k, p, hwindow, hspace, hk, rfl⟩ := spaceBeforeTier_replaces hm hn
    have hkeeps : m.rule.keepsNode = true := by
      have hr := (Tier.forall₂_fits_of_match? (t := spaceBeforeTier) (by decide) hm).1
      rw [List.mem_singleton.1 hr]
      rfl
    have hk' : (k.withPad p).isRaw = false := by rwa [Node.isRaw_withPad]
    have hraw := Element.isRaw_of_fits_space hspace
    have hout := Tier.match?_eq_some hm
    rw [hwindow, List.append_assoc] at hout
    subst hout
    have hfront : endsBlank false m.before = false := hfused.endsBlank_eq hspace
    rw [hkeeps]
    refine ⟨M :: F, _, .kept m.before m.window (k.withPad p) M, ⟨rfl, ?_, ?_, ?_⟩, fun mark => ?_⟩
    · rw [← List.append_assoc] at hfused
      exact hfused.replace hk'
    · rw [← hends, endsBlank_append, endsBlank_append]
      simp [endsBlank, fits_space_of_node hk, fits_space_of_node hk']
    · rw [← hcount, nodeCount_append, nodeCount_append]
      simp [nodeCount, hk, hk', hraw]
    · have hbefore : behindBlank false (m.before ++ ([s, k] ++ m.after)) =
          behindBlank false m.before ++ true :: behindBlank false m.after := by
        rw [behindBlank_append, List.cons_append, behindBlank, if_pos hraw, hspace, List.singleton_append,
          behindBlank_cons_node hk]
      have hbehind : behindBlank false (m.before ++ k.withPad p :: m.after) =
          behindBlank false m.before ++ false :: behindBlank false m.after := by
        rw [behindBlank_append, hfront, behindBlank_cons_node hk']
      simp only [hbefore, hbehind, getElem?_append_true_iff, length_behindBlank, or_and_right, exists_or, exists_eq_left]

/-- The second tier of spaces takes down the white space at the end of the buffer. -/
theorem records_spaceAfterTier {ss : List Node} (hs : Fused ss) (hlast : BlanksLast ss) :
    (spaceAfterTier.fold resolve ss).Records (M :: F) (fun _ G => G = M :: F)
      fun mark => endsBlank false ss = true ∧ ∃ i : Nat, nodeCount ss = i + 1 ∧ M[i]? = some (some mark) := by
  have hfold := Tier.records_fold (t := spaceAfterTier) (F := M :: F) (by decide) resolve
    (C := fun out G => G = M :: F ∧ Fused out ∧ BlanksLast out)
    (P := fun out mark => endsBlank false out = true ∧ ∃ i : Nat, nodeCount out = i + 1 ∧ M[i]? = some (some mark)) ?_ ?_
    ss ⟨rfl, hs, hlast⟩
  · obtain ⟨G, hrecords, hresult⟩ := hfold
    exact ⟨G, hrecords, fun out hout => (hresult out hout).1.1⟩
  · rintro out G ⟨-, hfused, hblanks⟩ hnone mark ⟨hends, i, hcount, -⟩
    obtain ⟨s, hmem, hspace⟩ := endsBlank_false_iff.1 hends
    rw [blanksAlone_of_match? hfused hblanks hnone s (List.mem_of_getLast? hmem) hspace] at hcount
    simp [nodeCount, Element.isRaw_of_fits_space hspace] at hcount
  · rintro out G m n ⟨rfl, hfused, hblanks⟩ hm hn
    obtain ⟨k, s, p, hwindow, hspace, hk, rfl⟩ := spaceAfterTier_replaces hm hn
    have hkeeps : m.rule.keepsNode = true := by
      have hr := (Tier.forall₂_fits_of_match? (t := spaceAfterTier) (by decide) hm).1
      rw [List.mem_singleton.1 hr]
      rfl
    have hk' : (k.withPad p).isRaw = false := by rwa [Node.isRaw_withPad]
    have hout := Tier.match?_eq_some hm
    rw [hwindow] at hout
    subst hout
    -- the white space was the last sentence, so the node is now
    have hafter : m.after = [] := by
      refine Decidable.not_not.1 fun hne => ?_
      have hfalse := hblanks s (by rw [List.dropLast_append_of_ne_nil hne]; simp)
      rw [hspace] at hfalse
      cases hfalse
    rw [hkeeps]
    refine ⟨M :: F, _, .kept m.before m.window (k.withPad p) M, ⟨rfl, hfused.replace hk', fun s' hs' => ?_⟩, fun mark => ?_⟩
    · rw [hafter, List.dropLast_concat] at hs'
      exact hblanks s' (by simp [hafter, List.dropLast_append_of_ne_nil, hs'])
    · have hcount : nodeCount (m.before ++ [k, s] ++ []) = nodeCount m.before + 1 := by
        simp [nodeCount, hk, Element.isRaw_of_fits_space hspace]
      have hends : endsBlank false (m.before ++ [k, s] ++ []) = true := by
        rw [endsBlank_append, endsBlank_append]
        exact hspace
      rw [hafter, hcount, hends]
      simp [endsBlank_concat, fits_space_of_node hk']

/-- No other tier takes anything down. -/
theorem records_foldTiers {ts : List Tier} (hts : ∀ t ∈ ts, ∀ r ∈ t.rules, r.suits = true ∧ r.keepsNode = false)
    {ss : List Node} :
    (foldTiers ts resolve ss).Records (M :: F) (fun _ G => ∃ M', G = M' :: F) fun _ => False := by
  induction ts generalizing ss M with
  | nil => exact Traced.records_pure ⟨M, rfl⟩
  | cons t ts ih =>
    rw [List.forall_mem_cons] at hts
    have hfold := Tier.records_fold (t := t) (F := M :: F) (fun r hr => (hts.1 r hr).1) resolve
      (C := fun _ G => ∃ M', G = M' :: F) (P := fun _ _ => False) (fun _ _ _ _ _ => id) ?_ ss ⟨M, rfl⟩
    · refine hfold.behind fun mid G _ hG => ?_
      obtain ⟨⟨M', rfl⟩, -⟩ := hG
      exact ih hts.2
    · rintro out G m n ⟨M', rfl⟩ hm hn
      have hr := (Tier.forall₂_fits_of_match? (fun r hr => Rule.pattern_ne_nil_of_suits (hts.1 r hr).1) hm).1
      rw [(hts.1 _ hr).2]
      exact ⟨_, _, .of_run fun _ => rfl, ⟨_, rfl⟩, fun mark => by simp⟩

theorem keepsNode_default : ∀ t ∈ Grammar.nameTiers ++ Grammar.operatorTiers, ∀ r ∈ t.rules,
    r.suits = true ∧ r.keepsNode = false := by
  decide

/-- All tiers: those of spaces take down what stands beside white space. -/
theorem records_foldTiers_default {ss : List Node} (hs : Fused ss) :
    (foldTiers Grammar.default.tiers resolve ss).Records (M :: F) (fun _ G => ∃ M', G = M' :: F) fun mark =>
      ∃ xs n ys, ss = xs ++ n :: ys ∧ n.isRaw = false ∧ M[nodeCount xs]? = some (some mark) ∧ BesideBlank xs ys := by
  obtain ⟨mid, hmid⟩ : ∃ mid, (spaceBeforeTier.fold resolve ss).result = .ok mid := Tier.fold_ok (by decide) ss
  have hrest (G : List Marks) (hG : G = M :: F ∧ Fused mid ∧ BlanksLast mid ∧ endsBlank false mid = endsBlank false ss ∧
      nodeCount mid = nodeCount ss) :
      (foldTiers (spaceAfterTier :: (Grammar.nameTiers ++ Grammar.operatorTiers)) resolve mid).Records G
        (fun _ G => ∃ M', G = M' :: F)
        fun mark => endsBlank false ss = true ∧ ∃ i : Nat, nodeCount ss = i + 1 ∧ M[i]? = some (some mark) := by
    obtain ⟨rfl, hfused, hblanks, hends, hcount⟩ := hG
    rw [← hends, ← hcount]
    exact (records_spaceAfterTier hfused hblanks).behind fun _ _ _ hG => hG ▸ records_foldTiers keepsNode_default
  refine ((records_spaceBeforeTier hs).bind_of_ok hmid hrest).congr fun mark => ?_
  constructor
  · rintro (⟨i, hi, hM⟩ | ⟨hends, i, hcount, hM⟩)
    · obtain ⟨xs, n, ys, hss, hn, rfl, hblank⟩ := (besideBlank_iff hs).1 (.inl hi)
      exact ⟨xs, n, ys, hss, hn, hM, hblank⟩
    · obtain ⟨xs, n, ys, hss, hn, rfl, hblank⟩ := (besideBlank_iff hs).1 (.inr ⟨hends, hcount⟩)
      exact ⟨xs, n, ys, hss, hn, hM, hblank⟩
  · rintro ⟨xs, n, ys, hss, hn, hM, hblank⟩
    rcases (besideBlank_iff hs).2 ⟨xs, n, ys, hss, hn, rfl, hblank⟩ with hi | ⟨hends, hcount⟩
    · exact .inl ⟨_, hi, hM⟩
    · exact .inr ⟨hends, _, hcount, hM⟩

/-- **The fold stage** takes down the marks of the nodes that take up white space. -/
theorem records_foldStage {l : Language} (hl : l.grammar = .default) (offset : Int) {ss : List Node} (hs : Fused ss) :
    (foldStage l offset ss).Records (M :: F) (fun _ G => ∃ M', G = M' :: F) fun mark =>
      ∃ xs n ys, ss = xs ++ n :: ys ∧ n.isRaw = false ∧ M[nodeCount xs]? = some (some mark) ∧ BesideBlank xs ys := by
  refine Traced.Records.mapError ?_ _
  rw [fold, hl]
  refine (records_foldTiers_default hs).behind fun out G _ hG => ?_
  obtain ⟨M', rfl⟩ := hG
  exact (Traced.records_emit (.of_run fun _ => rfl)).before rfl fun G hG => hG ▸ Traced.records_pure ⟨M', rfl⟩

end Fold

end FormulaLang
