import ClosureReady.Proofs.HelperReferences
import ClosureReady.Proofs.PassFlags

/-!
The exact effect of the last pass.  Which tokens are matched is told from left to right: a token with
a replacement is matched unless an earlier match takes it along into the call that it blanks out.
The pass resolves the matched tokens, blanks those that a match takes along, keeps all others and no
longer finds anything afterwards.
-/

set_option autoImplicit false
set_option relaxedAutoImplicit false

namespace ClosureReady

theorem helperAlias?_eq_some_iff {name : String} {a : HelperAlias} :
    helperAlias? name = some a ↔ a ∈ helperAliases ∧ name = a.name := by
  constructor
  · intro h
    have hname := List.find?_some h
    exact ⟨List.mem_of_find?_eq_some h, (eq_of_beq hname).symm⟩
  · rintro ⟨hmem, rfl⟩
    have hall : ∀ b ∈ helperAliases, helperAlias? b.name = some b := by decide
    exact hall a hmem

namespace HelperUses

theorem aliasOf?_eq_some_iff {t : Token} {a : HelperAlias} :
    aliasOf? t = some a ↔ t.kind = .identifier ∧ a ∈ helperAliases ∧ t.value = a.name := by
  rw [← helperAlias?_eq_some_iff]
  simp [aliasOf?]

/-! ### Matches -/

/-- The token at a place is matched with its replacement: it has one, it does not stand among the
first `blank` tokens, and no match before it takes it along. -/
def MatchedFrom (blank : Nat) (ts : List Token) (i : Nat) (a : HelperAlias) : Prop :=
  ts[i]?.bind aliasOf? = some a ∧ blank ≤ i ∧
    ∀ j b, j < i → MatchedFrom blank ts j b → j + b.eraseFollowing < i
termination_by i

/-- The token at a place stands among the first `blank` tokens, or an earlier match takes it along. -/
def BlankedFrom (blank : Nat) (ts : List Token) (i : Nat) : Prop :=
  i < blank ∨ ∃ j b, MatchedFrom blank ts j b ∧ j < i ∧ i ≤ j + b.eraseFollowing

/-- The token at a place is matched with its replacement. -/
def Matched (ts : List Token) : Nat → HelperAlias → Prop := MatchedFrom 0 ts

/-- The token at a place is one of those that an earlier match blanks out. -/
def Blanked (ts : List Token) (i : Nat) : Prop :=
  ∃ j b, Matched ts j b ∧ j < i ∧ i ≤ j + b.eraseFollowing

theorem matchedFrom_iff {blank : Nat} {ts : List Token} {i : Nat} {a : HelperAlias} :
    MatchedFrom blank ts i a ↔ ts[i]?.bind aliasOf? = some a ∧ ¬ BlankedFrom blank ts i := by
  rw [MatchedFrom]
  unfold BlankedFrom
  constructor
  · rintro ⟨halias, hblank, hclear⟩
    refine ⟨halias, ?_⟩
    rintro (hlt | ⟨j, b, hmatch, hj, hle⟩)
    · omega
    · have := hclear j b hj hmatch
      omega
  · rintro ⟨halias, hclear⟩
    refine ⟨halias, ?_, ?_⟩
    · by_contra hlt
      exact hclear (Or.inl (by omega))
    · intro j b hj hmatch
      by_contra hle
      exact hclear (Or.inr ⟨j, b, hmatch, hj, by omega⟩)

theorem blankedFrom_zero_iff {ts : List Token} {i : Nat} : BlankedFrom 0 ts i ↔ Blanked ts i := by
  simp [BlankedFrom, Blanked, Matched]

theorem matched_iff {ts : List Token} {i : Nat} {a : HelperAlias} :
    Matched ts i a ↔ ts[i]?.bind aliasOf? = some a ∧ ¬ Blanked ts i := by
  rw [Matched, matchedFrom_iff, blankedFrom_zero_iff]

/-- How many tokens are still to be blanked once the first of a list has been dealt with: the places
behind it that are free are those that neither `blank` nor a match of the first token reaches. -/
def LeavesBlank (blank : Nat) (ts : List Token) (next : Nat) : Prop :=
  ∀ i, next ≤ i ↔ blank ≤ i + 1 ∧ ∀ b, MatchedFrom blank ts 0 b → b.eraseFollowing ≤ i

section Tail

variable {blank next : Nat} {t : Token} {rest : List Token}

theorem LeavesBlank.matchedFrom_iff (h : LeavesBlank blank (t :: rest) next) (i : Nat)
    (a : HelperAlias) : MatchedFrom blank (t :: rest) (i + 1) a ↔ MatchedFrom next rest i a := by
  induction i using Nat.strong_induction_on generalizing a with
  | _ i ih =>
    rw [MatchedFrom, MatchedFrom, h i, List.getElem?_cons_succ]
    constructor
    · rintro ⟨halias, hblank, hclear⟩
      refine ⟨halias, ⟨hblank, ?_⟩, ?_⟩
      · intro b hb
        have := hclear 0 b (by omega) hb
        omega
      · intro j b hj hb
        have := hclear (j + 1) b (by omega) ((ih j hj b).mpr hb)
        omega
    · rintro ⟨halias, ⟨hblank, hfirst⟩, hclear⟩
      refine ⟨halias, hblank, ?_⟩
      intro j b hj hb
      cases j with
      | zero =>
        have := hfirst b hb
        omega
      | succ j =>
        have := hclear j b (by omega) ((ih j (by omega) b).mp hb)
        omega

theorem LeavesBlank.blankedFrom_iff (h : LeavesBlank blank (t :: rest) next) (i : Nat) :
    BlankedFrom blank (t :: rest) (i + 1) ↔ BlankedFrom next rest i := by
  unfold BlankedFrom
  rw [← Nat.not_le, ← Nat.not_le, h i]
  constructor
  · rintro (hblank | ⟨j, b, hmatch, hj, hle⟩)
    · exact Or.inl fun hfree => hblank hfree.1
    · cases j with
      | zero =>
        refine Or.inl fun hfree => ?_
        have := hfree.2 b hmatch
        omega
      | succ j => exact Or.inr ⟨j, b, (h.matchedFrom_iff j b).mp hmatch, by omega, by omega⟩
  · rintro (hreached | ⟨j, b, hmatch, hj, hle⟩)
    · by_cases hblank : blank ≤ i + 1
      · have hfirst : ∃ b, MatchedFrom blank (t :: rest) 0 b ∧ ¬ b.eraseFollowing ≤ i := by
          by_contra hnone
          refine hreached ⟨hblank, fun b hb => ?_⟩
          by_contra hle
          exact hnone ⟨b, hb, hle⟩
        obtain ⟨b, hmatch, hle⟩ := hfirst
        exact Or.inr ⟨0, b, hmatch, by omega, by omega⟩
      · exact Or.inl hblank
    · exact Or.inr ⟨j + 1, b, (h.matchedFrom_iff j b).mpr hmatch, by omega, by omega⟩

end Tail

/-! ### What becomes of the tokens -/

/-- What becomes of the token at a place. -/
inductive Becomes (blank : Nat) (ts : List Token) (i : Nat) (t : Token) : Token → Prop
  | replaced {a : HelperAlias} : MatchedFrom blank ts i a → Becomes blank ts i t (resolve t a)
  | blanked : BlankedFrom blank ts i → Becomes blank ts i t (t.withValue "")
  | kept : aliasOf? t = none → ¬ BlankedFrom blank ts i → Becomes blank ts i t t

theorem LeavesBlank.becomes {blank next : Nat} {first : Token} {rest : List Token}
    (h : LeavesBlank blank (first :: rest) next) {i : Nat} {t u : Token}
    (hu : Becomes next rest i t u) : Becomes blank (first :: rest) (i + 1) t u := by
  cases hu with
  | replaced hmatch => exact .replaced ((h.matchedFrom_iff i _).mpr hmatch)
  | blanked hblank => exact .blanked ((h.blankedFrom_iff i).mpr hblank)
  | kept hnone hfree => exact .kept hnone fun hblank => hfree ((h.blankedFrom_iff i).mp hblank)

/-- What the pass does with the first of its tokens, and with how many to blank it goes on. -/
theorem resolveFrom_cons (blank : Nat) (t : Token) (rest : List Token) :
    ∃ next u first, LeavesBlank blank (t :: rest) next ∧ Becomes blank (t :: rest) 0 t u ∧
      (∀ f, f ∈ first ↔ f.1 = t ∧ MatchedFrom blank (t :: rest) 0 f.2) ∧
      resolveFrom blank (t :: rest) =
        ⟨u :: (resolveFrom next rest).tokens, first ++ (resolveFrom next rest).found⟩ := by
  cases blank with
  | succ blank =>
    have hblanked : BlankedFrom (blank + 1) (t :: rest) 0 := Or.inl (Nat.succ_pos blank)
    have hnone : ∀ b, ¬ MatchedFrom (blank + 1) (t :: rest) 0 b :=
      fun b hb => (matchedFrom_iff.mp hb).2 hblanked
    refine ⟨blank, t.withValue "", [], ?_, .blanked hblanked, ?_, rfl⟩
    · intro i
      simp [hnone]
    · intro f
      simp [hnone]
  | zero =>
    have hfree : ¬ BlankedFrom 0 (t :: rest) 0 := by simp [BlankedFrom]
    have hfirst : ∀ b, MatchedFrom 0 (t :: rest) 0 b ↔ aliasOf? t = some b := by
      intro b
      rw [matchedFrom_iff]
      simp [hfree]
    cases ht : aliasOf? t with
    | none =>
      refine ⟨0, t, [], ?_, .kept ht hfree, ?_, ?_⟩
      · intro i
        simp [hfirst, ht]
      · intro f
        simp [hfirst, ht]
      · simp [resolveFrom, ht]
    | some a =>
      refine ⟨a.eraseFollowing, resolve t a, [(t, a)], ?_, .replaced ((hfirst a).mpr ht), ?_, ?_⟩
      · intro i
        simp [hfirst, ht]
      · rintro ⟨u, b⟩
        simp [hfirst, ht, eq_comm]
      · simp [resolveFrom, ht]

theorem resolveFrom_becomes {blank : Nat} {ts : List Token} {i : Nat} {t u : Token}
    (ht : ts[i]? = some t) (hu : (resolveFrom blank ts).tokens[i]? = some u) :
    Becomes blank ts i t u := by
  induction ts generalizing blank i with
  | nil => simp at ht
  | cons first rest ih =>
    obtain ⟨next, v, found, hleaves, hbecomes, -, hresolve⟩ := resolveFrom_cons blank first rest
    rw [hresolve] at hu
    cases i with
    | zero =>
      obtain rfl : first = t := by simpa using ht
      obtain rfl : v = u := by simpa using hu
      exact hbecomes
    | succ i => exact hleaves.becomes (ih (by simpa using ht) (by simpa using hu))

theorem mem_found_iff {blank : Nat} {ts : List Token} {f : Token × HelperAlias} :
    f ∈ (resolveFrom blank ts).found ↔
      ∃ i, ts[i]? = some f.1 ∧ MatchedFrom blank ts i f.2 := by
  induction ts generalizing blank with
  | nil => cases blank <;> simp [resolveFrom]
  | cons first rest ih =>
    obtain ⟨next, v, found, hleaves, -, hfound, hresolve⟩ := resolveFrom_cons blank first rest
    rw [hresolve]
    simp only [List.mem_append, hfound, ih]
    constructor
    · rintro (⟨heq, hmatch⟩ | ⟨i, hi, hmatch⟩)
      · exact ⟨0, by simp [heq], hmatch⟩
      · exact ⟨i + 1, by simpa using hi, (hleaves.matchedFrom_iff i _).mpr hmatch⟩
    · rintro ⟨i, hi, hmatch⟩
      cases i with
      | zero => exact Or.inl ⟨by simpa [eq_comm] using hi, hmatch⟩
      | succ i => exact Or.inr ⟨i, by simpa using hi, (hleaves.matchedFrom_iff i _).mp hmatch⟩

theorem Resolves.aliasOf?_eq_none {t u : Token} (h : Resolves t u) : aliasOf? u = none := by
  cases h with
  | kept hnone => exact hnone
  | blanked =>
    have hblank : helperAlias? "" = none := by decide
    simp [aliasOf?, Token.withValue, hblank]
  | replaced _ => simp [aliasOf?, resolve]

/-- No token that the pass answers has a replacement. -/
theorem aliasOf?_of_mem_tokens {blank : Nat} {ts : List Token} {u : Token}
    (h : u ∈ (resolveFrom blank ts).tokens) : aliasOf? u = none := by
  obtain ⟨i, hi, rfl⟩ := List.mem_iff_getElem.mp h
  obtain ⟨hlength, hget⟩ := List.forall₂_iff_get.mp (resolveFrom_resolves blank ts)
  exact (hget i (hlength ▸ hi) hi).aliasOf?_eq_none

theorem resolveFrom_places (blank : Nat) (ts : List Token) :
    (resolveFrom blank ts).tokens.map (fun t => (t.id, t.span, t.region)) =
      ts.map fun t => (t.id, t.span, t.region) := by
  have hplaces : List.Forall₂ (fun t u : Token =>
      (u.id, u.span, u.region) = (t.id, t.span, t.region)) ts (resolveFrom blank ts).tokens :=
    (resolveFrom_resolves blank ts).imp fun _ _ h => by cases h <;> rfl
  rw [← List.forall₂_eq_eq_eq, List.forall₂_map_left_iff, List.forall₂_map_right_iff]
  exact hplaces.flip

theorem exists_token (blank : Nat) {ts : List Token} {i : Nat} {t : Token} (h : ts[i]? = some t) :
    ∃ u, (resolveFrom blank ts).tokens[i]? = some u := by
  obtain ⟨hi, -⟩ := List.getElem?_eq_some_iff.mp h
  rw [(resolveFrom_resolves blank ts).length_eq] at hi
  exact ⟨_, List.getElem?_eq_getElem hi⟩

theorem found_ne_nil_iff {ts : List Token} :
    (resolveFrom 0 ts).found ≠ [] ↔ ∃ i a, Matched ts i a := by
  constructor
  · intro hfound
    obtain ⟨f, hmem⟩ := List.exists_mem_of_ne_nil _ hfound
    obtain ⟨i, -, hmatch⟩ := mem_found_iff.mp hmem
    exact ⟨i, f.2, hmatch⟩
  · rintro ⟨i, a, hmatch⟩
    obtain ⟨t, ht, -⟩ := Option.bind_eq_some_iff.mp (matched_iff.mp hmatch).1
    have hmem : (t, a) ∈ (resolveFrom 0 ts).found := mem_found_iff.mpr ⟨i, ht, hmatch⟩
    exact List.ne_nil_of_mem hmem

theorem resolve_kind_ne {t : Token} {a : HelperAlias} (h : aliasOf? t = some a) :
    (resolve t a).kind ≠ t.kind := by
  rw [(aliasOf?_eq_some_iff.mp h).1]
  exact TokenKind.noConfusion

theorem Becomes.matched_of_kind_ne {ts : List Token} {i : Nat} {t u : Token}
    (h : Becomes 0 ts i t u) (hkind : u.kind ≠ t.kind) :
    ∃ a, Matched ts i a ∧ u = resolve t a := by
  cases h with
  | replaced hmatch => exact ⟨_, hmatch, rfl⟩
  | blanked _ => exact absurd rfl hkind
  | kept _ _ => exact absurd rfl hkind

theorem Becomes.eq_resolve {ts : List Token} {i : Nat} {t u : Token} {a : HelperAlias}
    (h : Becomes 0 ts i t u) (ht : ts[i]? = some t) (hmatch : Matched ts i a) : u = resolve t a := by
  obtain ⟨halias, hfree⟩ := matched_iff.mp hmatch
  rw [ht, Option.bind_some] at halias
  cases h with
  | @replaced b hmatch' =>
    have halias' := (matchedFrom_iff.mp hmatch').1
    rw [ht, Option.bind_some, halias] at halias'
    rw [Option.some.inj halias']
  | blanked hblank => exact absurd (blankedFrom_zero_iff.mp hblank) hfree
  | kept hnone _ => exact absurd (halias.symm.trans hnone) (Option.some_ne_none a)

theorem Becomes.value_eq {ts : List Token} {i : Nat} {t u : Token} (h : Becomes 0 ts i t u)
    (ht : ts[i]? = some t) (hkind : u.kind = t.kind) :
    (Blanked ts i → u.value = "") ∧ (¬ Blanked ts i → u.value = t.value) := by
  cases h with
  | replaced hmatch =>
    have halias := (matchedFrom_iff.mp hmatch).1
    rw [ht, Option.bind_some] at halias
    exact absurd hkind (resolve_kind_ne halias)
  | blanked hblank =>
    exact ⟨fun _ => rfl, fun hfree => absurd (blankedFrom_zero_iff.mp hblank) hfree⟩
  | kept _ hfree =>
    exact ⟨fun hblank => absurd (blankedFrom_zero_iff.mpr hblank) hfree, fun _ => rfl⟩

theorem matched_iff_of_getElem? {ts : List Token} {i : Nat} {t : Token} {a : HelperAlias}
    (ht : ts[i]? = some t) : Matched ts i a ↔
      t.kind = .identifier ∧ (a ∈ helperAliases ∧ t.value = a.name) ∧ ¬ Blanked ts i := by
  rw [matched_iff, ht, Option.bind_some, aliasOf?_eq_some_iff]
  tauto

/-- The array library is needed for a match exactly when a token that was resolved now reads as one of
its functions: no two replacements are the same text. -/
theorem found_any_iff {ts : List Token} :
    ((resolveFrom 0 ts).found.any fun f => f.2.requiresArrayLibrary) = true ↔
      ∃ (i : Nat) (t u : Token) (a : HelperAlias), ts[i]? = some t ∧
        (resolveFrom 0 ts).tokens[i]? = some u ∧ t.kind ≠ .resolved ∧ u.kind = .resolved ∧
        a ∈ helperAliases ∧ u.value = a.replacement ∧ a.requiresArrayLibrary = true := by
  rw [List.any_eq_true]
  constructor
  · rintro ⟨⟨t, a⟩, hmem, hrequires⟩
    obtain ⟨i, ht, hmatch⟩ := mem_found_iff.mp hmem
    obtain ⟨u, hu⟩ := exists_token 0 ht
    obtain ⟨hident, ⟨ha, -⟩, -⟩ := (matched_iff_of_getElem? ht).mp hmatch
    obtain rfl := (resolveFrom_becomes ht hu).eq_resolve ht hmatch
    have hkind : t.kind ≠ .resolved := by
      rw [hident]
      exact TokenKind.noConfusion
    exact ⟨i, t, _, a, ht, hu, hkind, rfl, ha, rfl, hrequires⟩
  · rintro ⟨i, t, u, a, ht, hu, hbefore, hafter, ha, hvalue, hrequires⟩
    have hkind : u.kind ≠ t.kind := fun heq => hbefore (heq ▸ hafter)
    obtain ⟨b, hmatch, rfl⟩ := (resolveFrom_becomes ht hu).matched_of_kind_ne hkind
    obtain ⟨-, ⟨hb, -⟩, -⟩ := (matched_iff_of_getElem? ht).mp hmatch
    have hsame : ∀ x ∈ helperAliases, ∀ y ∈ helperAliases, x.replacement = y.replacement → x = y := by
      decide
    obtain rfl := hsame b hb a ha hvalue
    exact ⟨(t, b), mem_found_iff.mpr ⟨i, ht, hmatch⟩, hrequires⟩

end HelperUses

open HelperUses in
/-- The last pass moves no token and leaves no name with a replacement.  It resolves exactly the
tokens that have a replacement and are not taken along by an earlier match, blanks those that are and
keeps the text of all others; the array library is needed when a replacement of this run is part of
it, something has changed when something was matched, and a second run changes nothing. -/
theorem helper_uses_resolved (w : Workspace) :
    ∃ r : PassResult, (HelperUses.run w).outcome = .ok r ∧
      r.workspace = { w with
        stream := r.workspace.stream
        requiresArrayLibrary := r.workspace.requiresArrayLibrary } ∧
      r.workspace.stream.map (fun t => (t.id, t.span, t.region)) =
        w.stream.map (fun t => (t.id, t.span, t.region)) ∧
      (∀ u ∈ r.workspace.stream, u.kind = .identifier → ∀ a ∈ helperAliases, u.value ≠ a.name) ∧
      (∀ (i : Nat) (t u : Token), w.stream[i]? = some t → r.workspace.stream[i]? = some u →
        (u.kind ≠ t.kind ↔ t.kind = .identifier ∧ (∃ a ∈ helperAliases, t.value = a.name) ∧
          ¬ Blanked w.stream i) ∧
        (u.kind ≠ t.kind → u.kind = .resolved ∧
          ∃ a ∈ helperAliases, t.value = a.name ∧ u.value = a.replacement) ∧
        (u.kind = t.kind → (Blanked w.stream i → u.value = "") ∧
          (¬ Blanked w.stream i → u.value = t.value))) ∧
      (r.workspace.requiresArrayLibrary = true ↔ w.requiresArrayLibrary = true ∨
        ∃ (i : Nat) (t u : Token) (a : HelperAlias), w.stream[i]? = some t ∧
          r.workspace.stream[i]? = some u ∧ t.kind ≠ .resolved ∧ u.kind = .resolved ∧
          a ∈ helperAliases ∧ u.value = a.replacement ∧ a.requiresArrayLibrary = true) ∧
      (r.modified = true ↔ ∃ i a, Matched w.stream i a) ∧
      (HelperUses.run r.workspace).outcome = .ok ⟨r.workspace, false⟩ := by
  have hbecomes : ∀ {i : Nat} {t u : Token}, w.stream[i]? = some t →
      (resolveFrom 0 w.stream).tokens[i]? = some u → Becomes 0 w.stream i t u :=
    fun ht hu => resolveFrom_becomes ht hu
  refine ⟨_, rfl, rfl, resolveFrom_places 0 w.stream, ?_, ?_, ?_, ?_, ?_⟩
  · intro u hu hkind a ha hname
    have hnone := aliasOf?_of_mem_tokens hu
    rw [aliasOf?_eq_some_iff.mpr ⟨hkind, ha, hname⟩] at hnone
    exact Option.some_ne_none a hnone
  · intro i t u ht hu
    refine ⟨⟨?_, ?_⟩, ?_, (hbecomes ht hu).value_eq ht⟩
    · intro hkind
      obtain ⟨a, hmatch, -⟩ := (hbecomes ht hu).matched_of_kind_ne hkind
      obtain ⟨hident, hname, hfree⟩ := (matched_iff_of_getElem? ht).mp hmatch
      exact ⟨hident, ⟨a, hname⟩, hfree⟩
    · rintro ⟨hident, ⟨a, ha, hname⟩, hfree⟩
      rw [(hbecomes ht hu).eq_resolve ht
        ((matched_iff_of_getElem? ht).mpr ⟨hident, ⟨ha, hname⟩, hfree⟩)]
      exact resolve_kind_ne (aliasOf?_eq_some_iff.mpr ⟨hident, ha, hname⟩)
    · intro hkind
      obtain ⟨a, hmatch, rfl⟩ := (hbecomes ht hu).matched_of_kind_ne hkind
      obtain ⟨-, ⟨ha, hname⟩, -⟩ := (matched_iff_of_getElem? ht).mp hmatch
      exact ⟨rfl, a, ha, hname, rfl⟩
  · rw [Bool.or_eq_true, found_any_iff]
  · rw [← found_ne_nil_iff]
    simp
  · exact run_of_none fun u hu => aliasOf?_of_mem_tokens hu

open HelperUses in
/-- A helper right behind another one that takes its call along is blanked and not matched. -/
theorem helper_uses_resolved_cluster :
    ∃ (w : Workspace) (r : PassResult), w.requiresArrayLibrary = false ∧
      w.stream.map Token.value = ["__slice", "__bind", "call", "__extends"] ∧
      (HelperUses.run w).outcome = .ok r ∧
      r.workspace.stream.map Token.value = ["goog.array.slice", "", "", "goog.inherits"] ∧
      Blanked w.stream 1 ∧ (∃ i a, Matched w.stream i a) ∧
      (HelperUses.run r.workspace).outcome = .ok ⟨r.workspace, false⟩ := by
  obtain ⟨r, hrun, -, -, -, htokens, -, hmodified, hagain⟩ := helper_uses_resolved
    { (default : Workspace) with
      stream := ["__slice", "__bind", "call", "__extends"].map fun name =>
        ⟨0, .identifier, name, default, default⟩ }
  obtain rfl := Except.ok.inj hrun
  refine ⟨_, _, rfl, by decide, rfl, by decide, ?_, hmodified.mp (by decide), hagain⟩
  by_contra hfree
  have hturned := (htokens 1 _ _ rfl rfl).1.mpr ⟨rfl, by decide, hfree⟩
  exact hturned rfl

end ClosureReady
