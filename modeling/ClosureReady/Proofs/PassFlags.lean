import ClosureReady.Proofs.Conservation

/-!
When a pass reports a change.  The first pass does for each helper declaration, the second for each
class it unwraps, the third for each token it drops and the fourth for each use it resolves.  A pass that
reports none hands its workspace on as it was.
-/

set_option autoImplicit false
set_option relaxedAutoImplicit false

namespace ClosureReady

namespace HelperDeclarations

private theorem visit_of_not_declares {s : Sweep} {n : SyntaxNode} (h : declaresHelper n = false) :
    visit s n = .proceed s := by
  simp [visit, h]

private theorem through_of_none {s : Sweep} {ns : List SyntaxNode}
    (h : ∀ n ∈ ns, declaresHelper n = false) : Step.through visit s ns = .proceed s := by
  induction ns with
  | nil => rfl
  | cons n ns ih =>
    obtain ⟨hn, hns⟩ := List.forall_mem_cons.mp h
    rw [Step.through, visit_of_not_declares hn]
    exact ih hns

/-- Without a helper declaration the pass does nothing. -/
theorem run_of_none {w : Workspace} (h : ∀ n ∈ w.tree.preorder, declaresHelper n = false) :
    (run w).outcome = .ok ⟨w, false⟩ := by
  unfold run
  simp only [SyntaxNode.walk_eq_through, through_of_none h, Step.state]

private theorem through_modified {s : Sweep} {ns : List SyntaxNode}
    (h : (Step.through visit s ns).state.fault = none) :
    (Step.through visit s ns).state.modified = true ↔
      s.modified = true ∨ ∃ n ∈ ns, declaresHelper n = true := by
  induction ns generalizing s with
  | nil => simp [Step.through, Step.state]
  | cons n ns ih =>
    cases hn : declaresHelper n with
    | false =>
      rw [Step.through, visit_of_not_declares hn] at h ⊢
      rw [Step.andThen, ih h]
      simp [hn]
    | true =>
      cases hm : markDeclaration n s.stream s.marked with
      | error fault => simp [Step.through, visit, hn, hm, Step.andThen, Step.state] at h
      | ok m =>
        have hvisit : visit s n = .proceed ⟨m.stream, m.marked, true,
            s.notices ++ [.declarationMarked m.startLine m.stopLine], s.fault⟩ := by
          simp [visit, hn, hm]
        rw [Step.through, hvisit] at h ⊢
        rw [Step.andThen, ih h]
        simp [hn]

theorem run_modified_iff {w : Workspace} {r : PassResult} (h : (run w).outcome = .ok r) :
    r.modified = true ↔ ∃ n ∈ w.tree.preorder, declaresHelper n = true := by
  unfold run at h
  dsimp only at h
  rw [SyntaxNode.walk_eq_through] at h
  split at h
  · simp at h
  · rename_i hfault
    obtain rfl := Except.ok.inj h
    simpa using through_modified hfault

end HelperDeclarations

namespace ClassWrapper

private theorem unwrap_modified {s : TokenStream} {marked : MarkedLines} {c : Constructor}
    {u : Unwrapped} (h : (unwrap s marked c).outcome = .ok u) :
    (unwrapping? s c = none ∧ u = ⟨s, marked, false⟩) ∨
      (∃ x, unwrapping? s c = some x) ∧ u.modified = true := by
  rcases unwrap_ok h with hnone | ⟨x, hx, hmodified, -⟩
  · exact Or.inl hnone
  · exact Or.inr ⟨⟨x, hx⟩, hmodified⟩

private theorem unwrapAll_modified {u v : Unwrapped} {cs : List Constructor}
    (h : (unwrapAll u cs).outcome = .ok v) :
    (unwrappings u.stream u.marked cs = [] ∧ v = u) ∨
      unwrappings u.stream u.marked cs ≠ [] ∧ v.modified = true := by
  have hflag : ∀ {u v : Unwrapped} {cs : List Constructor}, (unwrapAll u cs).outcome = .ok v →
      u.modified = true → v.modified = true := by
    intro u v cs
    induction cs generalizing u with
    | nil =>
      intro h hu
      obtain rfl := Except.ok.inj h
      exact hu
    | cons c cs ih =>
      intro h hu
      obtain ⟨w, -, h⟩ := Traced.bind_outcome_eq_ok_iff.mp h
      exact ih h (by simp [hu])
  induction cs generalizing u with
  | nil =>
    obtain rfl := Except.ok.inj h
    exact Or.inl ⟨rfl, rfl⟩
  | cons c cs ih =>
    unfold unwrapAll at h
    obtain ⟨w, hw, h⟩ := Traced.bind_outcome_eq_ok_iff.mp h
    simp only [unwrappings, hw]
    rcases unwrap_modified hw with ⟨hnone, rfl⟩ | ⟨⟨x, hx⟩, hmodified⟩
    · simpa [hnone] using ih h
    · refine Or.inr ⟨by simp [hx], hflag h ?_⟩
      simp [hmodified]

/-- Without a constructor that has a wrapper the pass does nothing, and otherwise it reports a
change. -/
theorem run_modified {w : Workspace} {r : PassResult} (h : (run w).outcome = .ok r) :
    (unwrappings w.stream w.marked (findConstructors w.stream) = [] ∧ r = ⟨w, false⟩) ∨
      unwrappings w.stream w.marked (findConstructors w.stream) ≠ [] ∧ r.modified = true := by
  unfold run at h
  obtain ⟨u, hu, h⟩ := Traced.bind_outcome_eq_ok_iff.mp h
  obtain rfl := Except.ok.inj h
  rcases unwrapAll_modified hu with ⟨hnone, rfl⟩ | hsome
  · exact Or.inl ⟨hnone, rfl⟩
  · exact Or.inr hsome

theorem run_of_none {w : Workspace} (h : findConstructors w.stream = []) :
    (run w).outcome = .ok ⟨w, false⟩ := by
  unfold run
  rw [h]
  rfl

end ClassWrapper

namespace MarkedLineRemoval

theorem run_of_isEmpty {w : Workspace} (h : w.marked.isEmpty = true) :
    (run w).outcome = .ok ⟨w, false⟩ := by
  unfold run
  rw [if_pos h]
  rfl

/-- The pass reports a change exactly when it drops a token. -/
theorem run_modified_iff {w : Workspace} {r : PassResult} (h : (run w).outcome = .ok r) :
    r.modified = false ↔ r.workspace.stream = w.stream := by
  unfold run at h
  split at h
  · obtain rfl := Except.ok.inj h
    simp
  · obtain rfl := Except.ok.inj h
    have hle : (keep w.marked w.stream).length ≤ w.stream.length := List.length_filter_le _ _
    simp only [decide_eq_false_iff_not, Nat.not_lt, Nat.le_zero]
    constructor
    · intro hnone
      exact List.filter_sublist.eq_of_length (by unfold keep at hle hnone; omega)
    · intro hsame
      rw [hsame, Nat.sub_self]

end MarkedLineRemoval

namespace HelperUses

theorem resolveFrom_of_found_nil {ts : List Token} (h : (resolveFrom 0 ts).found = []) :
    (resolveFrom 0 ts).tokens = ts := by
  induction ts with
  | nil => rfl
  | cons t rest ih =>
    unfold resolveFrom at h ⊢
    cases ht : aliasOf? t with
    | none =>
      simp only [ht] at h ⊢
      rw [ih h]
    | some a => simp [ht] at h

theorem resolveFrom_of_none {ts : List Token} (h : ∀ t ∈ ts, aliasOf? t = none) :
    (resolveFrom 0 ts).found = [] := by
  induction ts with
  | nil => rfl
  | cons t rest ih =>
    obtain ⟨ht, hrest⟩ := List.forall_mem_cons.mp h
    unfold resolveFrom
    simp only [ht]
    exact ih hrest

/-- A pass that resolves nothing hands its workspace on as it was. -/
theorem run_of_not_modified {w : Workspace} {r : PassResult} (h : (run w).outcome = .ok r)
    (hr : r.modified = false) : r = ⟨w, false⟩ := by
  obtain rfl := Except.ok.inj h
  have hfound : (resolveFrom 0 w.stream).found = [] := by simpa using hr
  simp [hfound, resolveFrom_of_found_nil hfound]

private theorem resolveFrom_of_found {blank : Nat} {ts : List Token}
    (h : (resolveFrom blank ts).found ≠ []) :
    ∃ t ∈ ts, ∃ u ∈ (resolveFrom blank ts).tokens, u.id = t.id ∧ t.kind = .identifier ∧
      u.kind = .resolved := by
  induction ts generalizing blank with
  | nil => simp [resolveFrom] at h
  | cons t rest ih =>
    have descend : ∀ {blank : Nat} {v : Token}, (resolveFrom blank rest).found ≠ [] →
        ∃ t' ∈ t :: rest, ∃ u ∈ v :: (resolveFrom blank rest).tokens, u.id = t'.id ∧
          t'.kind = .identifier ∧ u.kind = .resolved := by
      intro blank v hfound
      obtain ⟨t', ht', u, hu, hfacts⟩ := ih hfound
      exact ⟨t', List.mem_cons_of_mem t ht', u, List.mem_cons_of_mem v hu, hfacts⟩
    cases blank with
    | succ blank => exact descend h
    | zero =>
      unfold resolveFrom at h ⊢
      cases ht : aliasOf? t with
      | none =>
        simp only [ht] at h ⊢
        exact descend h
      | some a =>
        refine ⟨t, List.mem_cons_self, resolve t a, by simp, rfl, ?_, rfl⟩
        by_contra hkind
        simp [aliasOf?, hkind] at ht

/-- A pass that resolves something makes a resolved token out of an identifier. -/
theorem run_of_modified {w : Workspace} {r : PassResult} (h : (run w).outcome = .ok r)
    (hr : r.modified = true) :
    ∃ t ∈ w.stream, ∃ u ∈ r.workspace.stream, u.id = t.id ∧ t.kind = .identifier ∧
      u.kind = .resolved := by
  obtain rfl := Except.ok.inj h
  exact resolveFrom_of_found (by simpa using hr)

theorem run_of_none {w : Workspace} (h : ∀ t ∈ w.stream, aliasOf? t = none) :
    (run w).outcome = .ok ⟨w, false⟩ := by
  have hfound := resolveFrom_of_none h
  unfold run
  simp [hfound, resolveFrom_of_found_nil hfound]

end HelperUses

end ClosureReady
