import ClosureReady.Pass.HelperDeclarations
import ClosureReady.Proofs.MarkedLines

/-!
The lines marked for helper declarations.  A walk through the tree is the early-exit fold over its
preorder listing; so a pass that ends without fault has dealt with every node.  Such a pass keeps all
imprints, and marks for each declaration of a helper the lines from its first removed line to its
end.  Which line that is can be read off the stream as it was before the pass, since the pass changes
no name.
-/

set_option autoImplicit false
set_option relaxedAutoImplicit false

namespace ClosureReady

/-- Takes one node after the other until a visit halts. -/
def Step.through {σ : Type} (visit : σ → SyntaxNode → Step σ) : σ → List SyntaxNode → Step σ
  | s, [] => .proceed s
  | s, n :: ns => (visit s n).andThen fun s => through visit s ns

namespace SyntaxNode

variable {σ : Type}

private theorem through_append (visit : σ → SyntaxNode → Step σ) (s : σ)
    (ns ms : List SyntaxNode) :
    Step.through visit s (ns ++ ms) =
      (Step.through visit s ns).andThen fun s => Step.through visit s ms := by
  induction ns generalizing s with
  | nil => rfl
  | cons n ns ih =>
    simp only [List.cons_append, Step.through]
    cases visit s n with
    | proceed t => exact ih t
    | halt t => rfl

mutual

theorem walk_eq_through (visit : σ → SyntaxNode → Step σ) (s : σ) :
    (n : SyntaxNode) → n.walk visit s = Step.through visit s n.preorder
  | .node kind region children => by
    simp only [walk, preorder, Step.through]
    cases visit s (.node kind region children) with
    | proceed t => exact walkAll_eq_through visit t children
    | halt t => rfl

theorem walkAll_eq_through (visit : σ → SyntaxNode → Step σ) (s : σ) :
    (ns : List SyntaxNode) → walkAll visit s ns = Step.through visit s (preorderAll ns)
  | [] => rfl
  | n :: ns => by
    simp only [walkAll, preorderAll]
    rw [through_append, walk_eq_through visit s n]
    cases Step.through visit s n.preorder with
    | proceed t => exact walkAll_eq_through visit t ns
    | halt t => rfl

end

end SyntaxNode

namespace HelperDeclarations

/-- What the pass reads of a token to decide whether a first line stays: its imprint, and its text
when it is a name. -/
def readingOf (t : Token) : Imprint × Option String :=
  (t.imprint, if t.kind = .identifier then some t.value else none)

private theorem namesHelper_eq (ts : List Token) :
    namesHelper ts = (ts.map readingOf).any fun p => p.2.any isInjectedHelper := by
  unfold namesHelper
  rw [List.any_map]
  congr 1
  funext t
  by_cases ht : t.kind = .identifier <;> simp [readingOf, ht]

private theorem lineRange_congr {s s' : TokenStream} (h : s.map readingOf = s'.map readingOf)
    (line : Nat) : s.lineRange line = s'.lineRange line := by
  have hlines : s.map Token.line = s'.map Token.line := by
    have := congrArg (List.map fun p : Imprint × Option String => p.1.line) h
    simpa [List.map_map, Function.comp_def, readingOf] using this
  have hbefore : ∀ p : Nat → Bool, ∀ t t' : TokenStream, t.map Token.line = t'.map Token.line →
      (t.takeWhile fun u => p u.line).length = (t'.takeWhile fun u => p u.line).length := by
    intro p t t' htt
    have := congrArg (fun ls => (ls.takeWhile p).length) htt
    simpa [List.takeWhile_map, Function.comp_def] using this
  unfold TokenStream.lineRange
  have hstart := hbefore (fun l => decide (l < line)) s s' hlines
  simp only [hstart]
  congr 2
  apply hbefore (fun l => l == line)
  rw [List.map_drop, List.map_drop, hlines]

theorem keepsFirstLine_congr {s s' : TokenStream} (h : s.map readingOf = s'.map readingOf)
    (startLine stopLine : Nat) :
    keepsFirstLine s startLine stopLine = keepsFirstLine s' startLine stopLine := by
  unfold keepsFirstLine
  simp only [lineRange_congr h, namesHelper_eq, List.map_drop, List.map_take, h]

private theorem closeFirstLine_reading {s s' : TokenStream} {line : Nat}
    (h : closeFirstLine s line = .ok s') : s'.map readingOf = s.map readingOf := by
  unfold closeFirstLine at h
  dsimp only at h
  split at h
  · split at h
    · rename_i t ht
      split at h
      · rename_i hcomma
        obtain rfl := Except.ok.inj h
        apply List.ext_getElem
        · simp
        · intro i h₁ h₂
          simp only [List.getElem_map, List.getElem_modify]
          split
          · rename_i hi
            subst hi
            obtain ⟨_, rfl⟩ := List.getElem?_eq_some_iff.mp ht
            have hkind : ∀ u : Token, u.isPunctuator "," = true → u.kind = .punctuator := by
              intro u hu
              simp only [Token.isPunctuator, Bool.and_eq_true, beq_iff_eq] at hu
              exact hu.1
            simp [readingOf, Token.withValue, Token.imprint, hkind _ hcomma]
          · rfl
      · simp at h
    · simp at h
  · simp at h

/-- The first line that a helper declaration loses, read off the stream. -/
def firstLine (s : TokenStream) (n : SyntaxNode) : Nat :=
  if keepsFirstLine s n.region.start.line n.region.stop.line then n.region.start.line + 1
  else n.region.start.line

/-- The lines marked for a node: those of a helper declaration from its first removed line on. -/
def Schedules (s : TokenStream) (n : SyntaxNode) (l : Nat) : Prop :=
  declaresHelper n = true ∧ 0 < l ∧ firstLine s n ≤ l ∧ l ≤ n.region.stop.line

theorem markDeclaration_ok {n : SyntaxNode} {s : TokenStream} {marked : MarkedLines}
    {m : Marking} (h : markDeclaration n s marked = .ok m) :
    m.stream.map readingOf = s.map readingOf ∧
      ∀ l, m.marked.contains l = true ↔
        marked.contains l = true ∨ (0 < l ∧ firstLine s n ≤ l ∧ l ≤ n.region.stop.line) := by
  unfold markDeclaration at h
  dsimp only at h
  unfold firstLine
  split at h
  · rename_i hkeeps
    split at h
    · simp at h
    · rename_i s' hclose
      obtain rfl := Except.ok.inj h
      refine ⟨closeFirstLine_reading hclose, fun l => ?_⟩
      simp only [hkeeps, if_true, MarkedLines.contains_markRange]
  · rename_i hkeeps
    obtain rfl := Except.ok.inj h
    refine ⟨rfl, fun l => ?_⟩
    simp only [hkeeps, if_false, MarkedLines.contains_markRange, Bool.false_eq_true]

theorem visit_cases (s : Sweep) (n : SyntaxNode) :
    (declaresHelper n = false ∧ visit s n = .proceed s) ∨
      (declaresHelper n = true ∧ ∃ fault, visit s n = .halt { s with fault := some fault }) ∨
      (declaresHelper n = true ∧ ∃ m, markDeclaration n s.stream s.marked = .ok m ∧
        visit s n = .proceed ⟨m.stream, m.marked, true,
          s.notices ++ [.declarationMarked m.startLine m.stopLine], s.fault⟩) := by
  cases hn : declaresHelper n with
  | false => exact Or.inl ⟨rfl, by simp [visit, hn]⟩
  | true =>
    cases hm : markDeclaration n s.stream s.marked with
    | error fault => exact Or.inr (Or.inl ⟨rfl, fault, by simp [visit, hn, hm]⟩)
    | ok m => exact Or.inr (Or.inr ⟨rfl, m, rfl, by simp [visit, hn, hm]⟩)

/-- A sweep that has met no fault so far has met none before, keeps what it reads of the tokens, and
has marked the lines of all nodes it went through. -/
private theorem through_ok (s₀ : TokenStream) {s : Sweep} {ns : List SyntaxNode}
    (hreading : s.stream.map readingOf = s₀.map readingOf) (hfault : s.fault = none)
    (h : (Step.through visit s ns).state.fault = none) :
    (Step.through visit s ns).state.stream.map readingOf = s₀.map readingOf ∧
      ∀ l, (Step.through visit s ns).state.marked.contains l = true ↔
        s.marked.contains l = true ∨ ∃ n ∈ ns, Schedules s₀ n l := by
  induction ns generalizing s with
  | nil => exact ⟨hreading, by simp [Step.through, Step.state]⟩
  | cons n ns ih =>
    rcases visit_cases s n with ⟨hn, hvisit⟩ | ⟨hn, fault, hvisit⟩ | ⟨hn, m, hm, hvisit⟩
    · rw [Step.through, hvisit] at h ⊢
      obtain ⟨hkept, hmarked⟩ := ih hreading hfault h
      refine ⟨hkept, fun l => ?_⟩
      rw [Step.andThen, hmarked]
      simp [Schedules, hn]
    · simp [Step.through, hvisit, Step.andThen, Step.state] at h
    · rw [Step.through, hvisit] at h ⊢
      obtain ⟨hsame, hlines⟩ := markDeclaration_ok hm
      obtain ⟨hkept, hmarked⟩ := ih (s := ⟨m.stream, m.marked, true, _, s.fault⟩)
        (hsame.trans hreading) hfault h
      refine ⟨hkept, fun l => ?_⟩
      have hfirst : firstLine s.stream n = firstLine s₀ n := by
        unfold firstLine
        rw [keepsFirstLine_congr hreading]
      rw [Step.andThen, hmarked, hlines, hfirst]
      simp [Schedules, hn, or_assoc]

/-- A pass that succeeds keeps the imprints of all tokens and the tree, and marks exactly the lines
of the helper declarations of the tree. -/
theorem run_ok {w : Workspace} {r : PassResult} (h : (run w).outcome = .ok r) :
    r.workspace.stream.imprints = w.stream.imprints ∧
      ∀ l, r.workspace.marked.contains l = true ↔
        w.marked.contains l = true ∨ ∃ n ∈ w.tree.preorder, Schedules w.stream n l := by
  unfold run at h
  dsimp only at h
  rw [SyntaxNode.walk_eq_through] at h
  split at h
  · simp at h
  · rename_i hfault
    obtain rfl := Except.ok.inj h
    obtain ⟨hkept, hmarked⟩ := through_ok w.stream rfl rfl hfault
    refine ⟨?_, hmarked⟩
    have := congrArg (List.map Prod.fst) hkept
    simpa [TokenStream.imprints, List.map_map, Function.comp_def, readingOf] using this

/-- A pass that succeeds changes no name. -/
theorem run_reading {w : Workspace} {r : PassResult} (h : (run w).outcome = .ok r) :
    r.workspace.stream.map readingOf = w.stream.map readingOf := by
  unfold run at h
  dsimp only at h
  rw [SyntaxNode.walk_eq_through] at h
  split at h
  · simp at h
  · rename_i hfault
    obtain rfl := Except.ok.inj h
    exact (through_ok w.stream rfl rfl hfault).1

end HelperDeclarations

end ClosureReady
