import ClosureReady.Proofs.FixRun
import ClosureReady.Proofs.Imprint
import Mathlib.Data.List.Forall2

/-!
What the last pass makes of the uses of helpers.  It answers one token for each that it is given: the
same one when the name has no replacement, a blank one after a match that takes its call along, and
otherwise the replacement.  So no name with a replacement is left as an identifier; the one helper
without a replacement is left wherever a use of it was neither removed nor blanked.
-/

set_option autoImplicit false
set_option relaxedAutoImplicit false

namespace ClosureReady

namespace HelperUses

/-- What can become of a token. -/
inductive Resolves (t : Token) : Token → Prop
  | kept : aliasOf? t = none → Resolves t t
  | blanked : Resolves t (t.withValue "")
  | replaced {a : HelperAlias} : aliasOf? t = some a → Resolves t (resolve t a)

theorem resolveFrom_resolves (blank : Nat) (ts : List Token) :
    List.Forall₂ Resolves ts (resolveFrom blank ts).tokens := by
  induction ts generalizing blank with
  | nil => cases blank <;> exact .nil
  | cons t rest ih =>
    cases blank with
    | succ blank => exact .cons .blanked (ih blank)
    | zero =>
      unfold resolveFrom
      cases ht : aliasOf? t with
      | none => exact .cons (.kept ht) (ih 0)
      | some a => exact .cons (.replaced ht) (ih a.eraseFollowing)

theorem Resolves.identifier_iff {t u : Token} (h : Resolves t u) {name : String} (hname : name ≠ "") :
    u.isIdentifier name = true ↔
      t.isIdentifier name = true ∧ helperAlias? name = none ∧ u = t := by
  have hidentifier : ∀ v : Token, v.isIdentifier name = true ↔ v.kind = .identifier ∧ v.value = name := by
    intro v
    simp [Token.isIdentifier]
  rw [hidentifier, hidentifier]
  cases h with
  | kept hnone =>
    constructor
    · rintro ⟨hkind, rfl⟩
      exact ⟨⟨hkind, rfl⟩, by simpa [aliasOf?, hkind] using hnone, rfl⟩
    · exact fun h => h.1
  | blanked =>
    constructor
    · rintro ⟨-, hvalue⟩
      exact absurd hvalue.symm hname
    · rintro ⟨ht, -, heq⟩
      exact absurd ((congrArg Token.value heq).trans ht.2).symm hname
  | replaced hsome =>
    constructor
    · rintro ⟨hkind, -⟩
      simp [resolve] at hkind
    · rintro ⟨ht, hnone, -⟩
      simp [aliasOf?, ht.1, ht.2, hnone] at hsome

theorem run_ok {w : Workspace} {r : PassResult} (h : (run w).outcome = .ok r) :
    List.Forall₂ Resolves w.stream r.workspace.stream ∧ r.workspace.marked = w.marked := by
  obtain rfl := Except.ok.inj h
  exact ⟨resolveFrom_resolves 0 w.stream, rfl⟩

end HelperUses

theorem helperAlias?_eq_none_iff {name : String} (h : isInjectedHelper name = true) :
    helperAlias? name = none ↔ name = "__hasProp" := by
  have hmem : name ∈ injectedHelpers := by simpa [isInjectedHelper] using h
  have hall : ∀ n ∈ injectedHelpers, helperAlias? n = none ↔ n = "__hasProp" := by decide
  exact hall name hmem

/-- A removed helper is still named by the result exactly when it is the one without a replacement
and a use of it outlives the removal of lines and is not blanked; every use of another helper that
outlives the removal of lines has been replaced, or blanked with the call it stood in. -/
theorem removed_helper_named_iff {mode : Grammar.Mode} {source : String} (run : FixRun mode source)
    {name : String} (hname : isInjectedHelper name = true) :
    ((∃ u ∈ run.final.stream, u.isIdentifier name = true) ↔
      name = "__hasProp" ∧ ∃ (i : Nat) (t : Token), run.kept[i]? = some t ∧
        t.isIdentifier name = true ∧ run.final.stream[i]? = some t) ∧
    ∀ (i : Nat) (t : Token), run.kept[i]? = some t → t.isIdentifier name = true →
      name ≠ "__hasProp" → ∃ u, run.final.stream[i]? = some u ∧
        (u = t.withValue "" ∨
          ∃ a, helperAlias? name = some a ∧ u = HelperUses.resolve t a) := by
  have hne : name ≠ "" := by
    rintro rfl
    exact absurd hname (by decide)
  have hnone := helperAlias?_eq_none_iff hname
  obtain ⟨hpairs, -⟩ := HelperUses.run_ok run.uses_eq
  obtain ⟨hlength, hget⟩ := List.forall₂_iff_get.mp hpairs
  have place : ∀ {i : Nat} {t : Token}, run.kept[i]? = some t →
      ∃ u, run.final.stream[i]? = some u ∧ HelperUses.Resolves t u := by
    intro i t ht
    obtain ⟨hi, rfl⟩ := List.getElem?_eq_some_iff.mp ht
    exact ⟨_, List.getElem?_eq_getElem (hlength ▸ hi), hget i hi (hlength ▸ hi)⟩
  refine ⟨⟨?_, ?_⟩, ?_⟩
  · rintro ⟨u, hu, hident⟩
    obtain ⟨i, hi, rfl⟩ := List.mem_iff_getElem.mp hu
    have hi' : i < run.kept.length := hlength ▸ hi
    obtain ⟨ht, hfree, heq⟩ := ((hget i hi' hi).identifier_iff hne).mp hident
    refine ⟨hnone.mp hfree, i, _, List.getElem?_eq_getElem hi', ht, ?_⟩
    rw [List.getElem?_eq_getElem hi]
    exact congrArg some heq
  · rintro ⟨-, i, t, -, hident, hfinal⟩
    exact ⟨t, List.mem_of_getElem? hfinal, hident⟩
  · intro i t ht hident hother
    obtain ⟨u, hu, hres⟩ := place ht
    refine ⟨u, hu, ?_⟩
    have hvalue : t.kind = .identifier ∧ t.value = name := by
      simpa [Token.isIdentifier] using hident
    cases hres with
    | kept hfree =>
      have hfree' : helperAlias? name = none := by
        simpa [HelperUses.aliasOf?, hvalue.1, hvalue.2] using hfree
      exact absurd (hnone.mp hfree') hother
    | blanked => exact Or.inl rfl
    | replaced hsome =>
      exact Or.inr ⟨_, by simpa [HelperUses.aliasOf?, hvalue.1, hvalue.2] using hsome, rfl⟩

/-- The helper without a replacement outlives its own declaration: it was declared on a line that is
removed, and the result still names it. -/
theorem removed_helper_named_hasProp :
    ∃ run : FixRun .script "var __hasProp = \x7b\x7d.hasOwnProperty;\nx = __hasProp.call(a, b);\n",
      isInjectedHelper "__hasProp" = true ∧
      (run.parsed.tree.preorder.any fun n => n.declaredNames.contains "__hasProp") = true ∧
      ∃ u ∈ run.final.stream, u.isIdentifier "__hasProp" = true := by
  have hrun : ((FixRun.of? .script
      "var __hasProp = \x7b\x7d.hasOwnProperty;\nx = __hasProp.call(a, b);\n").any fun run =>
        (run.parsed.tree.preorder.any fun n => n.declaredNames.contains "__hasProp") &&
          (run.kept[2]?.any fun t =>
            t.isIdentifier "__hasProp" && decide (run.final.stream[2]? = some t))) = true := by
    decide +kernel
  obtain ⟨run, -, hrun⟩ := (Option.any_eq_true _ _).mp hrun
  obtain ⟨hdeclared, huse⟩ := Bool.and_eq_true_iff.mp hrun
  obtain ⟨t, ht, huse⟩ := (Option.any_eq_true _ _).mp huse
  obtain ⟨hident, hfinal⟩ := Bool.and_eq_true_iff.mp huse
  exact ⟨run, by decide, hdeclared, (removed_helper_named_iff run (by decide)).1.mpr
    ⟨rfl, 2, t, ht, hident, of_decide_eq_true hfinal⟩⟩

end ClosureReady
