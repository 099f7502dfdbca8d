import ClosureReady.Proofs.BrokenLayout
import ClosureReady.Proofs.HelperSweep
import ClosureReady.Proofs.Traversal

/-!
Line ranges are exact where they are used.  A prepared stream holds the code tokens and the comments by
ascending offsets, so by ascending lines.  The first pass writes over texts only; whatever it has come past,
the tokens still stand where they stood.  In a stream with ascending lines every line cuts the tokens of
earlier lines from the others at one index, and its own tokens follow from there.
-/

set_option autoImplicit false
set_option relaxedAutoImplicit false

namespace ClosureReady

/-! ### What each call keeps -/

namespace Step

variable {σ : Type}

/-- A visitor that also notes the states it leaves. -/
def tracing (visit : σ → SyntaxNode → Step σ) (s : σ × List σ) (n : SyntaxNode) : Step (σ × List σ) :=
  (visit s.1 n).map fun t => (t, s.2 ++ [t])

variable {visit : σ → SyntaxNode → Step σ} (keeps : σ → Prop)

theorem through_traced (hvisit : ∀ s n, keeps s → keeps (visit s n).state) {s : σ} {noted : List σ}
    (hs : keeps s) (hnoted : ∀ t ∈ noted, keeps t) (ns : List SyntaxNode) :
    ∀ t ∈ (through (tracing visit) (s, noted) ns).state.2, keeps t := by
  induction ns generalizing s noted with
  | nil => exact hnoted
  | cons n ns ih =>
    have hnext : ∀ t, (visit s n).state = t → keeps t ∧ ∀ u ∈ noted ++ [t], keeps u := by
      rintro t rfl
      refine ⟨hvisit s n hs, fun u hu => ?_⟩
      rcases List.mem_append.mp hu with hu | hu
      · exact hnoted u hu
      · exact List.mem_singleton.mp hu ▸ hvisit s n hs
    rw [through, tracing]
    -- A call that halts leaves a state as well, and it is the last one noted.
    cases hcall : visit s n with
    | proceed t =>
      obtain ⟨ht, hlater⟩ := hnext t (by rw [hcall, state])
      exact ih ht hlater
    | halt t => exact (hnext t (by rw [hcall, state])).2

/-- What holds at the start of a walk and is kept by each call holds of every state of the walk. -/
theorem walk_traced (hvisit : ∀ s n, keeps s → keeps (visit s n).state) {s : σ} (hs : keeps s)
    (tree : SyntaxNode) : ∀ t ∈ (tree.walk (tracing visit) (s, [])).state.2, keeps t := by
  rw [SyntaxNode.walk_eq_through]
  exact through_traced keeps hvisit hs (by simp) tree.preorder

end Step

/-! ### Where the tokens stand -/

namespace TokenStream

/-- The tokens follow each other by the offsets and by the lines they start at. -/
structure Ascends (s : TokenStream) : Prop where
  starts : s.Pairwise fun t u => t.span.start ≤ u.span.start
  lines : s.Pairwise fun t u => t.line ≤ u.line

theorem Ascends.of_blank {s s' : TokenStream} (hs : s.Ascends)
    (hsame : s'.map Token.blank = s.map Token.blank) : s'.Ascends :=
  ⟨pairwise_of_blank (fun _ _ => Iff.rfl) hsame hs.starts,
    pairwise_of_blank (fun _ _ => Iff.rfl) hsame hs.lines⟩

/-- A line cuts a stream at an index: the tokens before the index start on earlier lines, and the others
do not. -/
def CutBy (s : TokenStream) (line cut : Nat) : Prop :=
  cut ≤ s.length ∧ ∀ (i : Nat) (t : Token), s[i]? = some t → (i < cut ↔ t.line < line)

theorem CutBy.le {s : TokenStream} {line cut cut' : Nat} (h : s.CutBy line cut)
    (h' : s.CutBy line cut') : cut ≤ cut' := by
  by_contra hlt
  have hin : cut' < s.length := by
    have := h.1
    omega
  have hget := List.getElem?_eq_getElem hin
  have hearlier := (h.2 cut' _ hget).mp (by omega)
  exact absurd ((h'.2 cut' _ hget).mpr hearlier) (Nat.lt_irrefl cut')

/-- A range of a stream holds the indices of the tokens that start on a line, and no others. -/
structure Spans (s : TokenStream) (line : Nat) (r : IndexRange) : Prop where
  ordered : r.start ≤ r.stop
  inside : r.stop ≤ s.length
  holds : ∀ i, r.start ≤ i ∧ i < r.stop ↔ ∃ t, s[i]? = some t ∧ t.line = line

variable {s : TokenStream} (hs : s.Pairwise fun t u => t.line ≤ u.line) (line : Nat)

include hs

theorem cutBy_lineRange : s.CutBy line (s.lineRange line).start := by
  obtain ⟨-, hdrop⟩ := takeWhile_eq_filter (p := fun t => decide (t.line < line))
    (hs.imp fun hle hlt => by simp only [decide_eq_true_eq] at hlt ⊢; omega)
  have hparts := (List.takeWhile_append_dropWhile (p := fun t => decide (t.line < line)) (l := s)).symm
  unfold lineRange
  dsimp only
  refine ⟨(List.takeWhile_sublist _).length_le, ?_⟩
  intro i t ht
  constructor
  · intro hi
    rw [hparts, List.getElem?_append_left hi] at ht
    simpa using List.mem_takeWhile_imp (List.mem_of_getElem? ht)
  · intro hlt
    by_contra hi
    rw [hparts, List.getElem?_append_right (Nat.le_of_not_lt hi), hdrop] at ht
    have hlate := (List.mem_filter.mp (List.mem_of_getElem? ht)).2
    simp only [Bool.not_eq_true', decide_eq_false_iff_not] at hlate
    exact hlate hlt

/-- A line cuts a stream where its range starts and nowhere else, so every search for that cut ends
there. -/
theorem cutBy_iff (cut : Nat) : s.CutBy line cut ↔ cut = (s.lineRange line).start := by
  have hstart := cutBy_lineRange hs line
  constructor
  · intro h
    exact Nat.le_antisymm (h.le hstart) (hstart.le h)
  · rintro rfl
    exact hstart

theorem lineRange_spans : s.Spans line (s.lineRange line) := by
  obtain ⟨before, after, hparts, hother, hrange⟩ := exists_lineRange hs line
  have hon : ∀ t ∈ s.filter fun t => t.line == line, t.line = line := by
    intro t ht
    simpa using (List.mem_filter.mp ht).2
  rw [hrange]
  generalize (s.filter fun t => t.line == line) = on at hparts hon
  have hlength : s.length = before.length + (on.length + after.length) := by
    rw [hparts, List.length_append, List.length_append]
  refine ⟨Nat.le_add_right _ _, ?_, ?_⟩
  · show before.length + on.length ≤ s.length
    omega
  intro i
  dsimp only
  -- An index lies before the tokens of the line, among them or behind them.
  rcases Nat.lt_or_ge i before.length with hi | hi
  · refine iff_of_false (by omega) ?_
    rintro ⟨t, ht, hline⟩
    rw [hparts, List.getElem?_append_left hi] at ht
    exact hother t (List.mem_append_left _ (List.mem_of_getElem? ht)) hline
  · rw [hparts, List.getElem?_append_right hi]
    rcases Nat.lt_or_ge (i - before.length) on.length with hj | hj
    · refine iff_of_true ⟨hi, by omega⟩ ?_
      rw [List.getElem?_append_left hj, List.getElem?_eq_getElem hj]
      exact ⟨_, rfl, hon _ (List.getElem_mem hj)⟩
    · refine iff_of_false (by omega) ?_
      rintro ⟨t, ht, hline⟩
      rw [List.getElem?_append_right hj] at ht
      exact hother t (List.mem_append_right _ (List.mem_of_getElem? ht)) hline

end TokenStream

open HelperDeclarations in
/-- The stream of a source holds its code tokens and comments by ascending offsets and lines.  In every
state of the walk of the first pass, whatever lines were marked before, they stand as they stood, so the
offsets and lines ascend there too.  And in every stream with ascending lines the range of any line spans
the tokens that start on the line, and starts at the one index where the line cuts the stream. -/
theorem line_ranges_exact :
    (∀ (mode : Grammar.Mode) (source : String) (p : ParsedSource),
      ParsedSource.parse mode source = .ok p →
        p.stream.Perm (p.tokens ++ p.comments) ∧ p.stream.Ascends ∧
        ∀ marked, ∀ sweep ∈ (p.tree.walk (Step.tracing visit)
            (⟨p.stream, marked, false, [], none⟩, [])).state.2,
          sweep.stream.map Token.blank = p.stream.map Token.blank ∧ sweep.stream.Ascends) ∧
    ∀ s : TokenStream, (s.Pairwise fun t u => t.line ≤ u.line) → ∀ line : Nat,
      s.Spans line (s.lineRange line) ∧ ∀ cut, s.CutBy line cut ↔ cut = (s.lineRange line).start := by
  constructor
  · intro mode source p hp
    have hplaced := ParsedSource.stream_placed hp
    have hascends : p.stream.Ascends := ⟨hplaced.ordered, hplaced.lines_ordered⟩
    refine ⟨TokenStream.prepare_perm p.tokens p.comments, hascends, ?_⟩
    intro marked sweep hsweep
    have hblank : sweep.stream.map Token.blank = p.stream.map Token.blank := by
      apply Step.walk_traced (fun t => t.stream.map Token.blank = p.stream.map Token.blank) ?_ rfl
        p.tree sweep hsweep
      intro t n hkept
      rw [visit_blank, hkept]
    exact ⟨hblank, hascends.of_blank hblank⟩
  · intro s hs line
    exact ⟨TokenStream.lineRange_spans hs line, TokenStream.cutBy_iff hs line⟩

open HelperDeclarations in
/-- A first line that the pass has closed, with a comment on it, and an empty line further down. -/
theorem line_ranges_exact_closed_line :
    ∃ p sweep, ParsedSource.parse .script "var a, /* b */ c,\n  __slice = [].slice;\n\nx;\n" = .ok p ∧
      sweep ∈ (p.tree.walk (Step.tracing visit) (⟨p.stream, .empty, false, [], none⟩, [])).state.2 ∧
      p.stream.Perm (p.tokens ++ p.comments) ∧ sweep.stream ≠ p.stream ∧ sweep.stream.Ascends ∧
      sweep.stream.CutBy 3 13 ∧ (∀ i, i < 6 ↔ ∃ t, sweep.stream[i]? = some t ∧ t.line = 1) ∧
      ∀ t ∈ sweep.stream, t.line ≠ 3 := by
  have hrun : ((ParsedSource.parse .script
      "var a, /* b */ c,\n  __slice = [].slice;\n\nx;\n").toOption.any fun p =>
        (p.tree.walk (Step.tracing visit) (⟨p.stream, .empty, false, [], none⟩,
          [])).state.2.getLast?.any fun sweep =>
            decide (sweep.stream ≠ p.stream ∧ sweep.stream.lineRange 1 = ⟨0, 6⟩ ∧
              sweep.stream.lineRange 3 = ⟨13, 13⟩)) = true := by
    decide +kernel
  obtain ⟨p, hp, hp'⟩ := (Option.any_eq_true _ _).mp hrun
  obtain ⟨sweep, hlast, hfacts⟩ := (Option.any_eq_true _ _).mp hp'
  obtain ⟨hchanged, hfirst, hempty⟩ := of_decide_eq_true hfacts
  have hok := except_eq_ok_of_toOption hp
  have hsweep := List.mem_of_getLast? hlast
  obtain ⟨hperm, -, hsteps⟩ := line_ranges_exact.1 _ _ p hok
  obtain ⟨-, hascends⟩ := hsteps .empty sweep hsweep
  obtain ⟨hfirstLine, -⟩ := line_ranges_exact.2 sweep.stream hascends.lines 1
  obtain ⟨hemptyLine, hcut⟩ := line_ranges_exact.2 sweep.stream hascends.lines 3
  rw [hfirst] at hfirstLine
  rw [hempty] at hemptyLine hcut
  refine ⟨p, sweep, hok, hsweep, hperm, hchanged, hascends, (hcut 13).mpr rfl, ?_, ?_⟩
  · intro i
    rw [← hfirstLine.holds i]
    exact (and_iff_right (Nat.zero_le i)).symm
  · intro t ht hline
    obtain ⟨i, hi⟩ := List.mem_iff_getElem?.mp ht
    obtain ⟨hle, hlt⟩ := (hemptyLine.holds i).mpr ⟨t, hi, hline⟩
    exact Nat.not_lt.mpr hle hlt

end ClosureReady
