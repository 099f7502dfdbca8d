import ClosureReady.Pass.MarkedLineRemoval
import ClosureReady.Proofs.Imprint
import Mathlib.Tactic.Tauto

/-!
Marked lines as a set, and their removal.  Marking adds the positive lines asked for and nothing
else; removing the marked lines keeps exactly the imprints whose line is not marked.
-/

set_option autoImplicit false
set_option relaxedAutoImplicit false

namespace ClosureReady

namespace MarkedLines

private theorem mem_insertLine {line l : Nat} {ls : List Nat} :
    l ∈ insertLine line ls ↔ l = line ∨ l ∈ ls := by
  induction ls with
  | nil => simp [insertLine]
  | cons k ks ih =>
    unfold insertLine
    split
    · simp
    · split
      · rename_i heq
        simp [heq]
      · simp only [List.mem_cons, ih]
        tauto

@[simp] theorem contains_empty (l : Nat) : empty.contains l = false := rfl

theorem contains_mark {m : MarkedLines} {line l : Nat} :
    (m.mark line).contains l = true ↔ m.contains l = true ∨ (0 < l ∧ l = line) := by
  unfold mark
  split
  · rename_i hzero
    subst hzero
    constructor
    · exact Or.inl
    · rintro (h | ⟨hpos, rfl⟩)
      · exact h
      · omega
  · rename_i hpos
    simp only [contains, List.contains_iff_mem, mem_insertLine]
    constructor
    · rintro (rfl | h)
      · exact Or.inr ⟨Nat.pos_of_ne_zero hpos, rfl⟩
      · exact Or.inl h
    · rintro (h | ⟨-, rfl⟩)
      · exact Or.inr h
      · exact Or.inl rfl

private theorem contains_foldl_mark {m : MarkedLines} {ls : List Nat} {l : Nat} :
    (ls.foldl mark m).contains l = true ↔ m.contains l = true ∨ (0 < l ∧ l ∈ ls) := by
  induction ls generalizing m with
  | nil => simp
  | cons k ks ih =>
    rw [List.foldl_cons, ih, contains_mark, List.mem_cons]
    tauto

theorem contains_markRange {m : MarkedLines} {first last l : Nat} :
    (m.markRange first last).contains l = true ↔
      m.contains l = true ∨ (0 < l ∧ first ≤ l ∧ l ≤ last) := by
  unfold markRange
  rw [contains_foldl_mark, List.mem_range'_1]
  refine or_congr_right (and_congr_right fun _ => and_congr_right fun hfirst => ?_)
  omega

theorem contains_of_isEmpty {m : MarkedLines} (h : m.isEmpty = true) (l : Nat) :
    m.contains l = false := by
  have hnil : m.lines = [] := List.isEmpty_iff.mp h
  simp [contains, hnil]

end MarkedLines

namespace MarkedLineRemoval

/-- The pass keeps everything but the tokens on marked lines, whether or not a line is marked. -/
theorem run_ok {w : Workspace} {r : PassResult} (h : (run w).outcome = .ok r) :
    r.workspace = { w with stream := keep w.marked w.stream } := by
  unfold run at h
  split at h
  · rename_i hempty
    have hkeep : keep w.marked w.stream = w.stream := by
      apply List.filter_eq_self.mpr
      intro t _
      simp [MarkedLines.contains_of_isEmpty hempty]
    obtain rfl := Except.ok.inj h
    rw [hkeep]
  · obtain rfl := Except.ok.inj h
    rfl

theorem run_succeeds (w : Workspace) :
    ∃ r, (run w).outcome = .ok r ∧ r.workspace = { w with stream := keep w.marked w.stream } := by
  have hok : ∃ r, (run w).outcome = .ok r := by
    unfold run
    split
    · exact ⟨_, rfl⟩
    · exact ⟨_, rfl⟩
  obtain ⟨r, hr⟩ := hok
  exact ⟨r, hr, run_ok hr⟩

theorem keep_eq_nil {m : MarkedLines} {s : TokenStream}
    (h : ∀ t ∈ s, m.contains t.line = true) : keep m s = [] := by
  refine List.filter_eq_nil_iff.mpr fun t ht => ?_
  simp [h t ht]

theorem keep_congr {m m' : MarkedLines} {s : TokenStream}
    (h : ∀ t ∈ s, m.contains t.line = true ↔ m'.contains t.line = true) : keep m s = keep m' s := by
  refine List.filter_congr fun t ht => ?_
  rw [Bool.eq_iff_iff.mpr (h t ht)]

end MarkedLineRemoval

end ClosureReady
