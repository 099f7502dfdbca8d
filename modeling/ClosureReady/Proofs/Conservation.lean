import ClosureReady.Proofs.ClassUnwrapping
import ClosureReady.Proofs.DeclarationLines
import ClosureReady.Proofs.HelperReferences
import ClosureReady.Proofs.Numbering
import Mathlib.Data.List.Nodup

/-!
Tokens are conserved over a whole run.  Up to the order, the imprints of the prepared stream are those
of the stream after the classes together with those of the tokens cut out for some class; from there
on only marked lines are dropped.  Since no two tokens share a number, each token of the source can be
followed: it is gone exactly when its line is marked or it was cut out, and otherwise keeps its
number, its lines and its class, except that an identifier may have been resolved.
-/

set_option autoImplicit false
set_option relaxedAutoImplicit false

namespace ClosureReady

theorem HelperUses.Resolves.id_eq {t u : Token} (h : HelperUses.Resolves t u) : u.id = t.id := by
  cases h <;> rfl

theorem HelperUses.Resolves.ids_eq {ts us : List Token}
    (h : List.Forall₂ HelperUses.Resolves ts us) : us.map Token.id = ts.map Token.id := by
  induction h with
  | nil => rfl
  | cons h _ ih => rw [List.map_cons, List.map_cons, h.id_eq, ih]

theorem HelperUses.Resolves.lines_eq {t u : Token} (h : HelperUses.Resolves t u) :
    u.line = t.line ∧ u.region.stop.line = t.region.stop.line := by
  cases h <;> exact ⟨rfl, rfl⟩

theorem HelperUses.Resolves.kind_cases {t u : Token} (h : HelperUses.Resolves t u) :
    u.kind = t.kind ∨ (t.kind = .identifier ∧ u.kind = .resolved) := by
  cases h with
  | kept _ => exact Or.inl rfl
  | blanked => exact Or.inl rfl
  | replaced hsome =>
    refine Or.inr ⟨?_, rfl⟩
    by_contra hkind
    simp [HelperUses.aliasOf?, hkind] at hsome

namespace FixRun

variable {mode : Grammar.Mode} {source : String}

/-- The records of the classes unwrapped in a run, in order. -/
def classes (run : FixRun mode source) : List ClassWrapper.Unwrapping :=
  ClassWrapper.unwrappings run.declarationsMarked.workspace.stream
    run.declarationsMarked.workspace.marked
    (ClassWrapper.findConstructors run.declarationsMarked.workspace.stream)

def unwrapped (run : FixRun mode source) : TokenStream := run.classesUnwrapped.workspace.stream

theorem prepared_imprints (run : FixRun mode source) :
    run.prepared.imprints.Perm
      (run.unwrapped.imprints ++ TokenStream.imprints (ClassWrapper.cutTokens run.classes)) := by
  have hkept := (ClassWrapper.run_ok run.classes_eq).1
  rwa [(HelperDeclarations.run_ok run.declarations_eq).1] at hkept

theorem final_marked (run : FixRun mode source) :
    run.final.marked = run.classesUnwrapped.workspace.marked := by
  have huses := (HelperUses.run_ok run.uses_eq).2
  rw [MarkedLineRemoval.run_ok run.lines_eq] at huses
  exact huses

theorem kept_eq (run : FixRun mode source) :
    run.kept = MarkedLineRemoval.keep run.final.marked run.unwrapped := by
  rw [final_marked, kept, MarkedLineRemoval.run_ok run.lines_eq, unwrapped]

theorem kept_resolves (run : FixRun mode source) :
    List.Forall₂ HelperUses.Resolves run.kept run.final.stream :=
  (HelperUses.run_ok run.uses_eq).1

/-- The lines marked at the end are those of the helper declarations and those scheduled by the
records of the classes. -/
theorem final_marked_iff (run : FixRun mode source) (l : Nat) :
    run.final.marked.contains l = true ↔
      (∃ n ∈ run.parsed.tree.preorder, HelperDeclarations.Schedules run.prepared n l) ∨
        ∃ x ∈ run.classes, x.Schedules l := by
  rw [final_marked, (ClassWrapper.run_ok run.classes_eq).2,
    (HelperDeclarations.run_ok run.declarations_eq).2]
  simp only [Workspace.start, MarkedLines.contains_empty, Bool.false_eq_true, false_or]
  rfl

private theorem ids_eq_map_imprints (s : TokenStream) :
    s.map Token.id = s.imprints.map Imprint.id := by
  simp [TokenStream.imprints, Function.comp_def]

private theorem final_ids (run : FixRun mode source) :
    run.final.stream.map Token.id = run.kept.map Token.id :=
  HelperUses.Resolves.ids_eq run.kept_resolves

theorem unwrapped_ids_nodup (run : FixRun mode source) :
    (run.unwrapped.map Token.id ++ (ClassWrapper.cutTokens run.classes).map Token.id).Nodup := by
  have hperm := (run.prepared_imprints).map Imprint.id
  rw [List.map_append, ← ids_eq_map_imprints, ← ids_eq_map_imprints, ← ids_eq_map_imprints] at hperm
  exact hperm.nodup (ParsedSource.stream_ids_nodup run.parse_eq)

theorem final_ids_nodup (run : FixRun mode source) : (run.final.stream.map Token.id).Nodup := by
  rw [final_ids, kept_eq]
  have hleft := (List.nodup_append.mp run.unwrapped_ids_nodup).1
  exact hleft.sublist (List.filter_sublist.map Token.id)

theorem final_origin (run : FixRun mode source) {u : Token} (hu : u ∈ run.final.stream) :
    ∃ t ∈ run.prepared, u.id = t.id ∧ u.line = t.line ∧
      u.region.stop.line = t.region.stop.line ∧
      (u.kind = t.kind ∨ (t.kind = .identifier ∧ u.kind = .resolved)) := by
  obtain ⟨i, hi, rfl⟩ := List.mem_iff_getElem.mp hu
  obtain ⟨hlength, hget⟩ := List.forall₂_iff_get.mp run.kept_resolves
  have hi' : i < run.kept.length := hlength ▸ hi
  have hres : HelperUses.Resolves run.kept[i] run.final.stream[i] := hget i hi' hi
  have hkept : run.kept[i] ∈ run.unwrapped := by
    have hmem : run.kept[i] ∈ MarkedLineRemoval.keep run.final.marked run.unwrapped :=
      run.kept_eq ▸ List.getElem_mem hi'
    exact List.mem_of_mem_filter hmem
  have himprint : run.kept[i].imprint ∈ run.prepared.imprints :=
    run.prepared_imprints.mem_iff.mpr
      (List.mem_append_left _ (List.mem_map_of_mem hkept))
  obtain ⟨t, ht, heq⟩ := List.mem_map.mp himprint
  have hid : t.id = run.kept[i].id := congrArg Imprint.id heq
  have hkind : t.kind = run.kept[i].kind := congrArg Imprint.kind heq
  have hline : t.line = run.kept[i].line := congrArg Imprint.line heq
  have hstop : t.region.stop.line = run.kept[i].region.stop.line := congrArg Imprint.stopLine heq
  refine ⟨t, ht, hres.id_eq.trans hid.symm, hres.lines_eq.1.trans hline.symm,
    hres.lines_eq.2.trans hstop.symm, ?_⟩
  rw [hkind]
  exact hres.kind_cases

theorem missing_iff (run : FixRun mode source) {t : Token} (ht : t ∈ run.prepared) :
    (∀ u ∈ run.final.stream, u.id ≠ t.id) ↔
      run.final.marked.contains t.line = true ∨
        ∃ x ∈ run.classes, ∃ a ∈ x.cut, a.id = t.id := by
  have hcut : (∃ x ∈ run.classes, ∃ a ∈ x.cut, a.id = t.id) ↔
      t.id ∈ (ClassWrapper.cutTokens run.classes).map Token.id := by
    simp only [ClassWrapper.cutTokens, List.mem_map, List.mem_flatMap]
    constructor
    · rintro ⟨x, hx, a, ha, hid⟩
      exact ⟨a, ⟨x, hx, ha⟩, hid⟩
    · rintro ⟨a, ⟨x, hx, ha⟩, hid⟩
      exact ⟨x, hx, a, ha, hid⟩
  have hfinal : (∀ u ∈ run.final.stream, u.id ≠ t.id) ↔ t.id ∉ run.kept.map Token.id := by
    rw [← final_ids]
    simp only [List.mem_map, not_exists, not_and]
  have hkept : t.id ∈ run.kept.map Token.id ↔
      ∃ v ∈ run.unwrapped, run.final.marked.contains v.line = false ∧ v.id = t.id := by
    rw [kept_eq, MarkedLineRemoval.keep, List.mem_map]
    simp only [List.mem_filter, Bool.not_eq_true', and_assoc]
  have hdisjoint := (List.nodup_append.mp run.unwrapped_ids_nodup).2.2
  rw [hcut, hfinal, hkept]
  rcases List.mem_append.mp (run.prepared_imprints.mem_iff.mp (List.mem_map_of_mem ht)) with h | h
  · -- The token is still there after the classes, so its number is not among the cut ones.
    obtain ⟨v, hv, heq⟩ := List.mem_map.mp h
    have hid : v.id = t.id := congrArg Imprint.id heq
    have hline : v.line = t.line := congrArg Imprint.line heq
    have hnot : t.id ∉ (ClassWrapper.cutTokens run.classes).map Token.id := by
      intro hmem
      exact hdisjoint v.id (List.mem_map_of_mem hv) t.id hmem hid
    have honly : ∀ v' ∈ run.unwrapped, v'.id = t.id → v'.line = t.line := by
      intro v' hv' hid'
      have hsame : v' = v := by
        have hnodup := (List.nodup_append.mp run.unwrapped_ids_nodup).1
        exact List.inj_on_of_nodup_map hnodup hv' hv (hid'.trans hid.symm)
      rw [hsame, hline]
    constructor
    · intro hgone
      refine Or.inl ?_
      by_contra hmark
      exact hgone ⟨v, hv, by rw [hline]; simpa using hmark, hid⟩
    · rintro (hmark | hmem)
      · rintro ⟨v', hv', hfree, hid'⟩
        rw [honly v' hv' hid', hmark] at hfree
        simp at hfree
      · exact absurd hmem hnot
  · -- The token was cut out, so no other can have its number.
    obtain ⟨a, ha, heq⟩ := List.mem_map.mp h
    have hid : a.id = t.id := congrArg Imprint.id heq
    have hmem : t.id ∈ (ClassWrapper.cutTokens run.classes).map Token.id :=
      hid ▸ List.mem_map_of_mem ha
    refine ⟨fun _ => Or.inr hmem, fun _ => ?_⟩
    rintro ⟨v, hv, -, hv'⟩
    exact hdisjoint v.id (List.mem_map_of_mem hv) t.id hmem hv'

theorem classes_nodup (run : FixRun mode source) :
    (run.classes.map fun x => x.constructor.token).Nodup := by
  have hids : (run.declarationsMarked.workspace.stream.map Token.id).Nodup := by
    rw [ids_eq_map_imprints, (HelperDeclarations.run_ok run.declarations_eq).1,
      ← ids_eq_map_imprints]
    exact ParsedSource.stream_ids_nodup run.parse_eq
  have hconstructors := hids.sublist (ClassWrapper.findConstructors_sublist _)
  have hclasses := (ClassWrapper.unwrappings_sublist
    run.declarationsMarked.workspace.stream run.declarationsMarked.workspace.marked
    (ClassWrapper.findConstructors run.declarationsMarked.workspace.stream)).map
      ClassWrapper.Constructor.token
  rw [List.map_map] at hclasses
  exact hconstructors.sublist hclasses

/-- What a class cuts out is what one excision of two neighbours took out of the stream: the name of
the class and a punctuator. -/
theorem cut_excised (run : FixRun mode source) {x : ClassWrapper.Unwrapping} (hx : x ∈ run.classes) :
    x.cut = [] ∨ ∃ k a b s', x.cut = [a, b] ∧ x.stream.excise? k 2 = some s' ∧
      x.stream = x.stream.take k ++ a :: b :: x.stream.drop (k + 2) ∧
      ((a.kind = .punctuator ∧ b.isIdentifier x.constructor.className = true) ∨
        (a.isIdentifier x.constructor.className = true ∧ b.kind = .punctuator)) := by
  obtain ⟨hrecord, s', hs'⟩ := ClassWrapper.mem_unwrappings hx
  rcases ClassWrapper.cut_cases hrecord with hnil | ⟨a, b, hcut, hkinds⟩
  · exact Or.inl hnil
  · cases hremoval : x.removal with
    | none => simp [ClassWrapper.Unwrapping.cut, hremoval, ClassWrapper.cutBy] at hcut
    | some removal =>
      cases removal with
      | line l => simp [ClassWrapper.Unwrapping.cut, hremoval, ClassWrapper.cutBy] at hcut
      | pair k =>
        have hpair : (x.stream.drop k).take 2 = [a, b] := by
          simpa [ClassWrapper.Unwrapping.cut, hremoval, ClassWrapper.cutBy] using hcut
        have hexcise : x.stream.excise? k 2 = some s' := by
          simpa [hremoval, ClassWrapper.withoutDeclarator?] using hs'
        have hsplit : x.stream = x.stream.take k ++ a :: b :: x.stream.drop (k + 2) := by
          have hrest : x.stream.drop k = [a, b] ++ x.stream.drop (k + 2) := by
            rw [← hpair, ← List.drop_drop, List.take_append_drop]
          exact (List.take_append_drop k x.stream).symm.trans (congrArg _ hrest)
        refine Or.inr ⟨k, a, b, s', hcut, hexcise, hsplit, ?_⟩
        rcases hkinds with ⟨hcomma, hname⟩ | hkinds
        · refine Or.inl ⟨?_, hname⟩
          simp only [Token.isPunctuator, Bool.and_eq_true, beq_iff_eq] at hcomma
          exact hcomma.1
        · exact Or.inr hkinds

end FixRun

/-- Tokens are conserved.  The numbers at the end are distinct and come from the source, with their
lines and, up to resolving, their classes; a token is gone exactly when its line is marked or it was
cut out; and a class cuts out nothing or, in one excision, its name and a punctuator beside it, at
most once per constructor. -/
theorem tokens_conserved {mode : Grammar.Mode} {source : String} (run : FixRun mode source) :
    (run.final.stream.map Token.id).Nodup ∧
    (∀ u ∈ run.final.stream, ∃ t ∈ run.prepared, u.id = t.id ∧ u.line = t.line ∧
      u.region.stop.line = t.region.stop.line ∧
      (u.kind = t.kind ∨ (t.kind = .identifier ∧ u.kind = .resolved))) ∧
    (∀ t ∈ run.prepared, (∀ u ∈ run.final.stream, u.id ≠ t.id) ↔
      run.final.marked.contains t.line = true ∨
        ∃ x ∈ run.classes, ∃ a ∈ x.cut, a.id = t.id) ∧
    (∀ x ∈ run.classes, x.cut = [] ∨ ∃ k a b s', x.cut = [a, b] ∧
      x.stream.excise? k 2 = some s' ∧
      x.stream = x.stream.take k ++ a :: b :: x.stream.drop (k + 2) ∧
      ((a.kind = .punctuator ∧ b.isIdentifier x.constructor.className = true) ∨
        (a.isIdentifier x.constructor.className = true ∧ b.kind = .punctuator))) ∧
    (run.classes.map fun x => x.constructor.token).Nodup := by
  refine ⟨run.final_ids_nodup, fun u hu => run.final_origin hu, fun t ht => run.missing_iff ht,
    fun x hx => run.cut_excised hx, run.classes_nodup⟩

/-- A run that cuts the declarator of a class out of a statement it shares with another, and drops
the line that answers the class. -/
theorem tokens_conserved_shared_declarator :
    ∃ run : FixRun .script
        "var Bar, Foo;\nFoo = (function() \x7b\n  function Foo() \x7b\x7d\n\n  return Foo;\n\n\x7d)();\n",
      (∃ x ∈ run.classes, x.cut.map Token.value = [",", "Foo"]) ∧
      ∃ t ∈ run.prepared, t.value = "return" ∧ ∀ u ∈ run.final.stream, u.id ≠ t.id := by
  have hrun : ((FixRun.of? .script
      "var Bar, Foo;\nFoo = (function() \x7b\n  function Foo() \x7b\x7d\n\n  return Foo;\n\n\x7d)();\n").any
        fun run =>
          (run.classes.any fun x => decide (x.cut.map Token.value = [",", "Foo"])) &&
            run.prepared.any fun t =>
              decide (t.value = "return") && run.final.marked.contains t.line) = true := by
    decide +kernel
  obtain ⟨run, -, hrun⟩ := (Option.any_eq_true _ _).mp hrun
  obtain ⟨hcut, hgone⟩ := Bool.and_eq_true_iff.mp hrun
  obtain ⟨x, hx, hvalues⟩ := List.any_eq_true.mp hcut
  obtain ⟨t, ht, hgone⟩ := List.any_eq_true.mp hgone
  obtain ⟨hvalue, hmarked⟩ := Bool.and_eq_true_iff.mp hgone
  refine ⟨run, ⟨x, hx, of_decide_eq_true hvalues⟩, t, ht, of_decide_eq_true hvalue, ?_⟩
  exact ((tokens_conserved run).2.2.1 t ht).mpr (Or.inl hmarked)

end ClosureReady
