import ClosureReady.Proofs.ClassWords

/-!
References to the parent of a class.  Inside of a wrapper the parent goes by the name of the parameter,
and unwrapping the class writes the parent in its place, wherever between the ends of the wrapper it
stands.  So of the classes around a reference the one that is unwrapped first decides, which is the one
whose constructor comes first in the source; the innermost one is heard only if it comes first or has the
same parent as the one that does.
-/

set_option autoImplicit false
set_option relaxedAutoImplicit false

namespace ClosureReady

namespace ClassWrapper

/-- Whether a class has a parent that reads otherwise than the parameter. -/
def Unwrapping.HasParent (x : Unwrapping) : Prop :=
  x.wrapper.parent ≠ "" ∧ x.wrapper.parent ≠ parentParameter

instance (x : Unwrapping) : Decidable x.HasParent :=
  inferInstanceAs (Decidable (_ ∧ _))

/-- The first of some classes around a token that has a parent. -/
def renamer? (id : Nat) (xs : List Unwrapping) : Option Unwrapping :=
  xs.find? fun x => decide (x.Holds id ∧ x.HasParent)

/-- The text of a reference to the parent after some classes. -/
def referenceText (id : Nat) (xs : List Unwrapping) : String :=
  ((renamer? id xs).map fun x => x.wrapper.parent).getD parentParameter

/-- What keeps a reference to the parent a reference: no head is written over it, and the classes around
it are not named like the parameter, nor, where they get a path, like one of their parents. -/
structure PlainReference (id : Nat) (xs : List Unwrapping) : Prop where
  heads : ∀ x ∈ xs, id ∉ x.headTokens.map Token.id
  names : ∀ x ∈ xs, x.Holds id → x.constructor.className ≠ parentParameter
  parents : ∀ x ∈ xs, x.Holds id → x.wrapper.path ≠ "" →
    ∀ y ∈ xs, y.Holds id → y.wrapper.parent ≠ x.constructor.className

private theorem plainReference_iff {id : Nat} {xs : List Unwrapping} :
    PlainReference id xs ↔ (∀ x ∈ xs, id ∉ x.headTokens.map Token.id) ∧
      (∀ x ∈ xs, x.Holds id → x.constructor.className ≠ parentParameter) ∧
      ∀ x ∈ xs, x.Holds id → x.wrapper.path ≠ "" →
        ∀ y ∈ xs, y.Holds id → y.wrapper.parent ≠ x.constructor.className :=
  ⟨fun h => ⟨h.heads, h.names, h.parents⟩, fun ⟨a, b, c⟩ => ⟨a, b, c⟩⟩

instance (id : Nat) (xs : List Unwrapping) : Decidable (PlainReference id xs) :=
  decidable_of_iff _ plainReference_iff.symm

/-- A token that no head is written over keeps its text outside of the class and is adapted inside. -/
private theorem Unwrapping.Turns.plain {x : Unwrapping} {t u : Token} (h : x.Turns t u)
    (hhead : t.id ∉ x.headTokens.map Token.id) :
    (x.Holds t.id → ∃ before, u.value = (adaptToken x.wrapper x.constructor before t).value) ∧
      (¬ x.Holds t.id → u.value = t.value) := by
  obtain ⟨v, hv, hcases⟩ := h.value
  obtain rfl : v = t.value := hv.resolve_right fun hwritten => hhead hwritten.1
  rcases hcases with ⟨hholds, before, hbefore⟩ | ⟨hnot, hsame⟩
  · exact ⟨fun _ => ⟨before, hbefore⟩, fun hnot => absurd hholds hnot⟩
  · exact ⟨fun hholds => absurd hholds hnot, fun _ => hsame⟩

/-- A name that is neither the parameter nor that of a class with a path stays through all classes. -/
private theorem TurnsThrough.settled {xs : List Unwrapping} {t u : Token} (h : TurnsThrough xs t u)
    (hkind : t.kind = .identifier) (hparameter : t.value ≠ parentParameter)
    (hheads : ∀ x ∈ xs, t.id ∉ x.headTokens.map Token.id)
    (hnames : ∀ x ∈ xs, x.Holds t.id → x.wrapper.path = "" ∨ t.value ≠ x.constructor.className) :
    u.value = t.value := by
  induction h with
  | nil t => rfl
  | @cons x xs t v w hturns _ ih =>
    obtain ⟨hhead, hheads⟩ := List.forall_mem_cons.mp hheads
    obtain ⟨hname, hnames⟩ := List.forall_mem_cons.mp hnames
    obtain ⟨hinside, houtside⟩ := hturns.plain hhead
    have hvalue : v.value = t.value := by
      by_cases hholds : x.Holds t.id
      · obtain ⟨before, hbefore⟩ := hinside hholds
        rw [hbefore, adaptToken_value_of_name before hkind hparameter (hname hholds)]
      · exact houtside hholds
    rw [← hvalue] at hparameter hnames ⊢
    rw [← hturns.id_eq] at hheads hnames
    exact ih (hturns.kind_eq.trans hkind) hparameter hheads hnames

/-- A reference to the parent becomes the parent of the first class around it that has one. -/
theorem TurnsThrough.reference {xs : List Unwrapping} {t u : Token} (h : TurnsThrough xs t u)
    (ht : t.isIdentifier parentParameter = true) (hplain : PlainReference t.id xs) :
    u.value = referenceText t.id xs := by
  induction h with
  | nil t =>
    simp only [Token.isIdentifier, Bool.and_eq_true, beq_iff_eq] at ht
    exact ht.2
  | @cons x xs t v w hturns hlater ih =>
    obtain ⟨hhead, hheads⟩ := List.forall_mem_cons.mp hplain.heads
    obtain ⟨hinside, houtside⟩ := hturns.plain hhead
    have hrest : PlainReference t.id xs :=
      ⟨hheads, (List.forall_mem_cons.mp hplain.names).2, fun y hy hyt hpath z hz hzt =>
        hplain.parents y (List.mem_cons_of_mem x hy) hyt hpath z (List.mem_cons_of_mem x hz) hzt⟩
    have hkind : t.kind = .identifier := by
      simp only [Token.isIdentifier, Bool.and_eq_true, beq_iff_eq] at ht
      exact ht.1
    have hvalue : t.value = parentParameter := by
      simp only [Token.isIdentifier, Bool.and_eq_true, beq_iff_eq] at ht
      exact ht.2
    -- The class either writes its parent, which then stays, or leaves the reference as it was.
    by_cases hfirst : x.Holds t.id ∧ x.HasParent
    · obtain ⟨hholds, hparent⟩ := hfirst
      have hname := hplain.names x List.mem_cons_self hholds
      obtain ⟨before, hbefore⟩ := hinside hholds
      rw [adaptToken_value_of_parameter before ht hname, if_neg hparent.1] at hbefore
      have hstays : w.value = v.value := by
        refine hlater.settled (hturns.kind_eq.trans hkind) (hbefore ▸ hparent.2)
          (hturns.id_eq.symm ▸ hheads) fun y hy hyv => ?_
        rw [hturns.id_eq] at hyv
        by_cases hpath : y.wrapper.path = ""
        · exact Or.inl hpath
        · refine Or.inr (hbefore ▸ ?_)
          exact hplain.parents y (List.mem_cons_of_mem x hy) hyv hpath x List.mem_cons_self hholds
      rw [hstays, hbefore, referenceText, renamer?, List.find?_cons_of_pos (by simp [hholds, hparent])]
      rfl
    · have hsame : v.value = parentParameter := by
        by_cases hholds : x.Holds t.id
        · have hname := hplain.names x List.mem_cons_self hholds
          obtain ⟨before, hbefore⟩ := hinside hholds
          rw [adaptToken_value_of_parameter before ht hname] at hbefore
          rw [hbefore]
          split
          · rfl
          · rename_i hne
            by_contra hother
            exact hfirst ⟨hholds, hne, hother⟩
        · rw [houtside hholds, hvalue]
      have hv : v.isIdentifier parentParameter = true := by
        simp [Token.isIdentifier, hturns.kind_eq, hkind, hsame]
      rw [← hturns.id_eq] at hrest
      rw [ih hv hrest, hturns.id_eq, referenceText, referenceText, renamer?, renamer?,
        List.find?_cons_of_neg (by simpa using hfirst)]

end ClassWrapper

namespace FixRun

variable {mode : Grammar.Mode} {source : String}

/-- A name of the source is the same when the classes are reached. -/
private theorem declared_name (run : FixRun mode source) {t v : Token} (ht : t ∈ run.prepared)
    (hv : v ∈ run.declarationsMarked.workspace.stream) (hid : v.id = t.id)
    (hkind : t.kind = .identifier) : v.kind = t.kind ∧ v.value = t.value := by
  have hreading : HelperDeclarations.readingOf v ∈ run.prepared.map HelperDeclarations.readingOf := by
    have hsame := HelperDeclarations.run_reading run.declarations_eq
    exact hsame ▸ List.mem_map_of_mem hv
  obtain ⟨t', ht', heq⟩ := List.mem_map.mp hreading
  obtain ⟨himprint, hname⟩ := Prod.mk.inj heq
  have hid' : t'.id = t.id := (congrArg Imprint.id himprint).trans hid
  obtain rfl := List.inj_on_of_nodup_map (ParsedSource.stream_ids_nodup run.parse_eq) ht' ht hid'
  have hkind' : t'.kind = v.kind := congrArg Imprint.kind himprint
  rw [hkind, ← hkind', hkind] at hname
  exact ⟨hkind'.symm, by simpa using hname.symm⟩

/-- Classes are unwrapped in the order of their constructors. -/
private theorem classes_ordered (run : FixRun mode source) :
    (run.classes.map fun x => x.constructor.token).Sublist (run.prepared.map Token.id) := by
  have hclasses := (ClassWrapper.unwrappings_sublist
    run.declarationsMarked.workspace.stream run.declarationsMarked.workspace.marked
    (ClassWrapper.findConstructors run.declarationsMarked.workspace.stream)).map
      ClassWrapper.Constructor.token
  rw [List.map_map] at hclasses
  have hconstructors := ClassWrapper.findConstructors_sublist run.declarationsMarked.workspace.stream
  rw [ClassWrapper.ids_eq_of_imprints (HelperDeclarations.run_ok run.declarations_eq).1] at hconstructors
  exact hclasses.trans hconstructors

end FixRun

/-- A reference to the parent that outlives the classes reads as the parent of the first class around it
that has one, in the order of the constructors; so it has got the parent of a given class around it, be
it the innermost, exactly when that first class has the same. -/
theorem parent_reference_of_first_class {mode : Grammar.Mode} {source : String}
    (run : FixRun mode source) {t u : Token} (ht : t ∈ run.prepared)
    (hreference : t.isIdentifier ClassWrapper.parentParameter = true)
    (hplain : ClassWrapper.PlainReference t.id run.classes) (hu : u ∈ run.unwrapped)
    (hid : u.id = t.id) :
    (run.classes.map fun x => x.constructor.token).Sublist (run.prepared.map Token.id) ∧
    u.value = ClassWrapper.referenceText t.id run.classes ∧
    ∀ x ∈ run.classes, x.Holds t.id → x.HasParent → (u.value = x.wrapper.parent ↔
      ∃ y, ClassWrapper.renamer? t.id run.classes = some y ∧
        y.wrapper.parent = x.wrapper.parent) := by
  obtain ⟨v, hv, hturns⟩ := run.unwrapped_turns hu
  have hvid : v.id = t.id := hturns.id_eq.symm.trans hid
  have hkind : t.kind = .identifier := by
    simp only [Token.isIdentifier, Bool.and_eq_true, beq_iff_eq] at hreference
    exact hreference.1
  obtain ⟨hvkind, hvvalue⟩ := run.declared_name ht hv hvid hkind
  have hvalue : u.value = ClassWrapper.referenceText t.id run.classes := by
    rw [← hvid] at hplain ⊢
    refine hturns.reference ?_ hplain
    simpa [Token.isIdentifier, hvkind, hvvalue] using hreference
  refine ⟨run.classes_ordered, hvalue, fun x hx hholds hparent => ?_⟩
  obtain ⟨y, hy⟩ : ∃ y, ClassWrapper.renamer? t.id run.classes = some y := by
    refine Option.isSome_iff_exists.mp (List.find?_isSome.mpr ⟨x, hx, ?_⟩)
    simp [hholds, hparent]
  rw [hvalue, ClassWrapper.referenceText, hy]
  simp

/-- A class nested in another one, with a parent of its own: the reference inside of it gets the parent
of the outer class. -/
theorem parent_reference_of_outer_class :
    ∃ run : FixRun .script
        "Outer = (function(_super) \x7b\n  __extends(Outer, _super);\n\n  function Outer() \x7b\x7d\n\n  Outer.Inner = (function(_super) \x7b\n    __extends(Inner, _super);\n\n    function Inner() \x7b\x7d\n\n    return Inner;\n\n  \x7d)(B);\n\n  return Outer;\n\n\x7d)(A);\n",
      ∃ t ∈ run.prepared, ∃ u ∈ run.unwrapped, ∃ x ∈ run.classes,
        t.isIdentifier ClassWrapper.parentParameter = true ∧ u.id = t.id ∧ x.Holds t.id ∧
        (∀ y ∈ run.classes, y.Holds t.id → y.headLine ≤ x.headLine) ∧
        x.wrapper.parent = "B" ∧ u.value = "A" := by
  have hrun : ((FixRun.of? .script
      "Outer = (function(_super) \x7b\n  __extends(Outer, _super);\n\n  function Outer() \x7b\x7d\n\n  Outer.Inner = (function(_super) \x7b\n    __extends(Inner, _super);\n\n    function Inner() \x7b\x7d\n\n    return Inner;\n\n  \x7d)(B);\n\n  return Outer;\n\n\x7d)(A);\n").any
        fun run => run.classes.any fun x => run.unwrapped.any fun u => run.prepared.any fun t => decide
          ((t.isIdentifier ClassWrapper.parentParameter = true ∧ u.id = t.id ∧ x.Holds t.id ∧
            (∀ y ∈ run.classes, y.Holds t.id → y.headLine ≤ x.headLine) ∧ x.wrapper.parent = "B") ∧
          ClassWrapper.PlainReference t.id run.classes ∧
          ClassWrapper.referenceText t.id run.classes = "A")) = true := by
    decide +kernel
  obtain ⟨run, -, hrun⟩ := (Option.any_eq_true _ _).mp hrun
  obtain ⟨x, hx, hrun⟩ := List.any_eq_true.mp hrun
  obtain ⟨u, hu, hrun⟩ := List.any_eq_true.mp hrun
  obtain ⟨t, ht, hrun⟩ := List.any_eq_true.mp hrun
  obtain ⟨⟨hreference, hid, hholds, hinner, hparent⟩, hplain, htext⟩ := of_decide_eq_true hrun
  have hvalue := (parent_reference_of_first_class run ht hreference hplain hu hid).2.1
  exact ⟨run, t, ht, u, hu, x, hx, hreference, hid, hholds, hinner, hparent, hvalue.trans htext⟩

end ClosureReady
