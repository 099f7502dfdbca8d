import ClosureReady.Proofs.Conservation
import ClosureReady.Proofs.PreparedStream

/-!
What may be lost.  The boilerplate of a run is what its helper declarations and the wrappers of its
classes consist of; but lines are removed whole, and the lines above the end of a wrapper by their
number.  Nothing but boilerplate is lost exactly when those lines hold nothing else, and the head of a
constructor survives exactly when it is on none of them.
-/

set_option autoImplicit false
set_option relaxedAutoImplicit false

namespace ClosureReady

/-- Whether a place is the given one or stands before it. -/
def Position.UpTo (p q : Position) : Prop := p.line < q.line ∨ (p.line = q.line ∧ p.column ≤ q.column)

instance (p q : Position) : Decidable (p.UpTo q) :=
  inferInstanceAs (Decidable (_ ∨ _))

namespace ClassWrapper

/-- The last statement among some tokens that returns the given name, with its semicolon. -/
def answerIn (name : String) : List Token → List Token
  | a :: b :: rest =>
    match answerIn name (b :: rest) with
    | [] =>
      if a.isKeyword "return" && b.isIdentifier name then
        a :: b :: (rest.take 1).filter (·.isPunctuator ";")
      else []
    | found => found
  | _ => []

namespace Unwrapping

/-- The head of the wrapper: the tokens of its first line up to the brace that opens the body. -/
def head (x : Unwrapping) : List Token :=
  let onLine := (x.stream.drop x.wrapper.start).takeWhile fun t => t.line == x.headLine
  onLine.take (onLine.findIdx (·.isPunctuator "\x7b") + 1)

/-- The statement that returns the class from its wrapper. -/
def answer (x : Unwrapping) : List Token :=
  answerIn x.constructor.className ((x.stream.take x.wrapper.stop).drop x.wrapper.start)

/-- The declarator of the class with a separator, or the whole statement when it is the only one. -/
def declarator (x : Unwrapping) : List Token :=
  match x.site, x.removal with
  | some d, some (.line _) => (x.stream.drop d.varIndex).take 3
  | _, _ => x.cut

end Unwrapping

end ClassWrapper

namespace FixRun

variable {mode : Grammar.Mode} {source : String}

/-- Whether a token belongs to a helper declaration, or to the head, the answer, the closing line or
the declarator of an unwrapped class. -/
def IsBoilerplate (run : FixRun mode source) (t : Token) : Prop :=
  (∃ n ∈ run.parsed.tree.preorder, HelperDeclarations.declaresHelper n = true ∧
    n.region.start.UpTo t.region.start ∧ t.region.stop.UpTo n.region.stop) ∨
  ∃ x ∈ run.classes, t.line = x.closeLine ∨ ∃ a ∈ x.head ++ x.answer ++ x.declarator, a.id = t.id

instance (run : FixRun mode source) (t : Token) : Decidable (run.IsBoilerplate t) :=
  inferInstanceAs (Decidable (_ ∨ _))

/-- The removed lines hold boilerplate only. -/
structure MarksOnlyBoilerplate (run : FixRun mode source) : Prop where
  declarations : ∀ n ∈ run.parsed.tree.preorder, HelperDeclarations.declaresHelper n = true →
    ∀ t ∈ run.prepared, HelperDeclarations.firstLine run.prepared n ≤ t.line →
      t.line ≤ n.region.stop.line → run.IsBoilerplate t
  heads : ∀ x ∈ run.classes, ∀ t ∈ run.prepared, t.line = x.headLine → run.IsBoilerplate t
  closings : ∀ x ∈ run.classes, ∀ t ∈ run.prepared, x.closeLine ≤ t.line + 2 →
    t.line < x.closeLine → run.IsBoilerplate t
  declarators : ∀ x ∈ run.classes, ∀ t ∈ run.prepared, x.removal = some (.line t.line) →
    run.IsBoilerplate t

theorem line_pos (run : FixRun mode source) {t : Token} (ht : t ∈ run.prepared) : 0 < t.line :=
  (ParsedSource.stream_placed run.parse_eq).line_pos ht

theorem cut_subset_declarator (x : ClassWrapper.Unwrapping) : x.cut ⊆ x.declarator := by
  unfold ClassWrapper.Unwrapping.declarator
  split
  · rename_i l hremoval
    simp [ClassWrapper.Unwrapping.cut, hremoval, ClassWrapper.cutBy]
  · exact List.Subset.refl _

private theorem cut_imprint_mem (run : FixRun mode source) {x : ClassWrapper.Unwrapping}
    (hx : x ∈ run.classes) {a : Token} (ha : a ∈ x.cut) :
    a.imprint ∈ run.prepared.imprints := by
  refine run.prepared_imprints.mem_iff.mpr (List.mem_append_right _ ?_)
  exact List.mem_map_of_mem (List.mem_flatMap.mpr ⟨x, hx, ha⟩)

private theorem cut_kind (run : FixRun mode source) {x : ClassWrapper.Unwrapping}
    (hx : x ∈ run.classes) {a : Token} (ha : a ∈ x.cut) :
    a.kind = .identifier ∨ a.kind = .punctuator := by
  have hname : ∀ {b : Token}, b.isIdentifier x.constructor.className = true →
      b.kind = .identifier := by
    intro b hb
    simp only [Token.isIdentifier, Bool.and_eq_true, beq_iff_eq] at hb
    exact hb.1
  rcases run.cut_excised hx with hnil | ⟨k, b, c, s', hcut, -, -, hkinds⟩
  · simp [hnil] at ha
  · rw [hcut] at ha
    rcases hkinds with ⟨hb, hc⟩ | ⟨hb, hc⟩
    · rcases List.mem_pair.mp ha with rfl | rfl
      · exact Or.inr hb
      · exact Or.inl (hname hc)
    · rcases List.mem_pair.mp ha with rfl | rfl
      · exact Or.inl (hname hb)
      · exact Or.inr hc

theorem prepared_eq_of_id_eq (run : FixRun mode source) {t u : Token} (ht : t ∈ run.prepared)
    (hu : u ∈ run.prepared) (hid : t.id = u.id) : t = u :=
  List.inj_on_of_nodup_map (ParsedSource.stream_ids_nodup run.parse_eq) ht hu hid

theorem keyword_missing_iff (run : FixRun mode source) {t : Token} (ht : t ∈ run.prepared)
    (hkind : t.kind = .keyword) :
    (∀ u ∈ run.final.stream, u.id ≠ t.id) ↔ run.final.marked.contains t.line = true := by
  rw [run.missing_iff ht]
  refine ⟨fun h => ?_, Or.inl⟩
  rcases h with hmarked | ⟨x, hx, a, ha, hid⟩
  · exact hmarked
  · obtain ⟨u, hu, himprint⟩ := List.mem_map.mp (run.cut_imprint_mem hx ha)
    have hsame : u = t := run.prepared_eq_of_id_eq hu ht
      ((congrArg Imprint.id himprint).trans hid)
    have hcut : a.kind = .keyword := by
      rw [← hkind, ← hsame]
      exact (congrArg Imprint.kind himprint).symm
    rcases run.cut_kind hx ha with h | h
    · simp [hcut] at h
    · simp [hcut] at h

/-- The constructor of each unwrapped class is opened by a keyword of the prepared stream. -/
theorem constructor_prepared (run : FixRun mode source) {x : ClassWrapper.Unwrapping}
    (hx : x ∈ run.classes) :
    ∃ t ∈ run.prepared, t.id = x.constructor.token ∧ t.kind = .keyword := by
  have hmem : x.constructor ∈
      ClassWrapper.findConstructors run.declarationsMarked.workspace.stream :=
    (ClassWrapper.unwrappings_sublist _ _ _).mem (List.mem_map_of_mem hx)
  obtain ⟨u, hu, hid, hkind⟩ := ClassWrapper.findConstructors_keyword hmem
  have himprint : u.imprint ∈ run.prepared.imprints := by
    have hsame := (HelperDeclarations.run_ok run.declarations_eq).1
    exact hsame ▸ List.mem_map_of_mem hu
  obtain ⟨t, ht, heq⟩ := List.mem_map.mp himprint
  refine ⟨t, ht, ?_, ?_⟩
  · exact (congrArg Imprint.id heq).trans hid
  · exact (congrArg Imprint.kind heq).trans hkind

end FixRun

/-- Nothing but boilerplate is lost exactly when the removed lines hold nothing else, and the head of
the constructor of an unwrapped class survives exactly when no helper declaration and no class has its
line removed. -/
theorem only_boilerplate_lost_iff {mode : Grammar.Mode} {source : String}
    (run : FixRun mode source) :
    ((∀ t ∈ run.prepared, (∀ u ∈ run.final.stream, u.id ≠ t.id) → run.IsBoilerplate t) ↔
      run.MarksOnlyBoilerplate) ∧
    ∀ x ∈ run.classes, ∃ t ∈ run.prepared, t.id = x.constructor.token ∧
      ((∃ u ∈ run.final.stream, u.id = t.id) ↔
        (∀ n ∈ run.parsed.tree.preorder, ¬ HelperDeclarations.Schedules run.prepared n t.line) ∧
          ∀ y ∈ run.classes, ¬ y.Schedules t.line) := by
  constructor
  · constructor
    · intro honly
      have hmarked : ∀ t ∈ run.prepared, run.final.marked.contains t.line = true →
          run.IsBoilerplate t := by
        intro t ht hline
        exact honly t ht ((run.missing_iff ht).mpr (Or.inl hline))
      constructor
      · intro n hn hdeclares t ht hfirst hlast
        refine hmarked t ht ((run.final_marked_iff _).mpr (Or.inl ⟨n, hn, ?_⟩))
        exact ⟨hdeclares, run.line_pos ht, hfirst, hlast⟩
      · intro x hx t ht hline
        refine hmarked t ht ((run.final_marked_iff _).mpr (Or.inr ⟨x, hx, ?_⟩))
        exact ⟨run.line_pos ht, Or.inl hline⟩
      · intro x hx t ht hfirst hlast
        refine hmarked t ht ((run.final_marked_iff _).mpr (Or.inr ⟨x, hx, ?_⟩))
        exact ⟨run.line_pos ht, Or.inr (Or.inl ⟨by omega, by omega⟩)⟩
      · intro x hx t ht hline
        refine hmarked t ht ((run.final_marked_iff _).mpr (Or.inr ⟨x, hx, ?_⟩))
        exact ⟨run.line_pos ht, Or.inr (Or.inr hline)⟩
    · intro honly t ht hmissing
      rcases (run.missing_iff ht).mp hmissing with hmarked | ⟨x, hx, a, ha, hid⟩
      · rcases (run.final_marked_iff _).mp hmarked with
          ⟨n, hn, hdeclares, -, hfirst, hlast⟩ | ⟨x, hx, -, hhead | ⟨hfirst, hlast⟩ | hline⟩
        · exact honly.declarations n hn hdeclares t ht hfirst hlast
        · exact honly.heads x hx t ht hhead
        · rcases Nat.lt_or_eq_of_le hlast with hlt | heq
          · exact honly.closings x hx t ht (by omega) hlt
          · exact Or.inr ⟨x, hx, Or.inl heq⟩
        · exact honly.declarators x hx t ht hline
      · refine Or.inr ⟨x, hx, Or.inr ⟨a, ?_, hid⟩⟩
        exact List.mem_append_right _ (FixRun.cut_subset_declarator x ha)
  · intro x hx
    obtain ⟨t, ht, hid, hkind⟩ := run.constructor_prepared hx
    refine ⟨t, ht, hid, ?_⟩
    have hlost := (run.keyword_missing_iff ht hkind).trans (run.final_marked_iff t.line)
    have hkept : (∃ u ∈ run.final.stream, u.id = t.id) ↔ ¬ ∀ u ∈ run.final.stream, u.id ≠ t.id := by
      simp
    rw [hkept, hlost]
    simp only [not_or, not_exists, not_and]

/-- A class whose constructor stands right above its answer: the constructor is lost, and it is no
boilerplate. -/
theorem only_boilerplate_lost_not_constructor :
    ∃ run : FixRun .script
        "Foo = (function(_super) \x7b\n  __extends(Foo, _super);\n  function Foo() \x7b\x7d\n  return Foo;\n\x7d)(Bar);\n",
      ¬ run.MarksOnlyBoilerplate ∧
      ∃ x ∈ run.classes, ∃ t ∈ run.prepared, t.id = x.constructor.token ∧
        ¬ run.IsBoilerplate t ∧ ∀ u ∈ run.final.stream, u.id ≠ t.id := by
  have hrun : ((FixRun.of? .script
      "Foo = (function(_super) \x7b\n  __extends(Foo, _super);\n  function Foo() \x7b\x7d\n  return Foo;\n\x7d)(Bar);\n").any
        fun run => run.classes.any fun x => run.prepared.any fun t =>
          decide (t.id = x.constructor.token ∧ ¬ run.IsBoilerplate t ∧
            ∀ u ∈ run.final.stream, u.id ≠ t.id)) = true := by
    decide +kernel
  obtain ⟨run, -, hrun⟩ := (Option.any_eq_true _ _).mp hrun
  obtain ⟨x, hx, hclass⟩ := List.any_eq_true.mp hrun
  obtain ⟨t, ht, htoken⟩ := List.any_eq_true.mp hclass
  obtain ⟨hid, hother, hlost⟩ := of_decide_eq_true htoken
  refine ⟨run, fun honly => ?_, x, hx, t, ht, hid, hother, hlost⟩
  exact hother ((only_boilerplate_lost_iff run).1.mpr honly t ht hlost)

end ClosureReady
