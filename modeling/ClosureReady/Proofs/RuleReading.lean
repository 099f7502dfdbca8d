import ClosureReady.Grammar.Program
import ClosureReady.Proofs.Reading

/-!
Every rule of the grammar keeps the state of the reader sound and never goes back.  This is shown for the steps rules are made of and for the ways of putting them together, and then
follows for each rule from its parts; the rules it calls in a circle are those of the level below.
-/

set_option autoImplicit false
set_option relaxedAutoImplicit false
set_option synthInstance.maxSize 4096
set_option synthInstance.maxHeartbeats 200000

namespace ClosureReady.Grammar

open Reader

variable {whole : List Char} {α β : Type}

/-- Reading from a sound state leads to a sound state that is not behind it. -/
class Keeps (whole : List Char) (p : Reader α) : Prop where
  keeps : ∀ {s : ReadState} {a : α} {t : ReadState}, s.Sound whole → p s = some (a, t) →
    t.Sound whole ∧ s.Before t

/-- The same where the current lexeme is known. -/
class KeepsAt (whole : List Char) (lexeme : Lexeme) (p : Reader α) : Prop where
  keeps : ∀ {s : ReadState} {a : α} {t : ReadState}, s.Sound whole → s.lexeme = lexeme →
    p s = some (a, t) → t.Sound whole ∧ s.Before t

/-! ### Putting rules together -/

theorem bind_eq_some_iff {p : Reader α} {f : α → Reader β} {s t : ReadState} {b : β} :
    (p >>= f) s = some (b, t) ↔ ∃ a u, p s = some (a, u) ∧ f a u = some (b, t) := by
  change (p s).bind (fun r => f r.1 r.2) = some (b, t) ↔ _
  rw [Option.bind_eq_some_iff]
  exact ⟨fun ⟨r, hr, h⟩ => ⟨r.1, r.2, hr, h⟩, fun ⟨a, u, hp, h⟩ => ⟨(a, u), hp, h⟩⟩

/-- A step that only looks at the state. -/
theorem keeps_of_looking {p : Reader α} (h : ∀ {s a t}, p s = some (a, t) → t = s) :
    Keeps whole p where
  keeps hs hp := by
    obtain rfl := h hp
    exact ⟨hs, .refl _⟩

instance keeps_pure (a : α) : Keeps whole (pure a : Reader α) :=
  keeps_of_looking fun h => ((Prod.mk.inj (Option.some.inj h)).2).symm

instance keeps_failure : Keeps whole (failure : Reader α) where
  keeps _ h := nomatch (show none = some _ from h)

instance keeps_bind {p : Reader α} {f : α → Reader β} [Keeps whole p] [∀ a, Keeps whole (f a)] :
    Keeps whole (p >>= f) where
  keeps hs h := by
    obtain ⟨a, u, hp, hf⟩ := bind_eq_some_iff.mp h
    obtain ⟨hu, hfirst⟩ := Keeps.keeps hs hp
    obtain ⟨ht, hsecond⟩ := Keeps.keeps hu hf
    exact ⟨ht, hfirst.trans hsecond⟩

/-- A rule whose second part has to be looked at case by case. -/
theorem keeps_step {p : Reader α} {f : α → Reader β} [Keeps whole p] (h : ∀ a, Keeps whole (f a)) :
    Keeps whole (p >>= f) :=
  keeps_bind

instance keeps_map {p : Reader α} {f : α → β} [Keeps whole p] : Keeps whole (f <$> p) := by
  rw [← bind_pure_comp]
  infer_instance

instance keeps_ite {c : Prop} [Decidable c] {p q : Reader α} [Keeps whole p] [Keeps whole q] :
    Keeps whole (if c then p else q) := by
  split <;> infer_instance

instance keeps_guard (c : Prop) [Decidable c] : Keeps whole (guard c : Reader Unit) := by
  unfold guard
  infer_instance

theorem guard_state {c : Prop} [Decidable c] {s t : ReadState} {u : Unit}
    (h : (guard c : Reader Unit) s = some (u, t)) : s = t := by
  unfold guard at h
  split at h
  · exact (Prod.mk.inj (Option.some.inj h)).2
  · exact nomatch (show none = some _ from h)

instance keepsAt_of_keeps {lexeme : Lexeme} {p : Reader α} [Keeps whole p] :
    KeepsAt whole lexeme p where
  keeps hs _ h := Keeps.keeps hs h

instance keepsAt_bind {lexeme : Lexeme} {p : Reader α} {f : α → Reader β} [KeepsAt whole lexeme p]
    [∀ a, Keeps whole (f a)] : KeepsAt whole lexeme (p >>= f) where
  keeps hs hlexeme h := by
    obtain ⟨a, u, hp, hf⟩ := bind_eq_some_iff.mp h
    obtain ⟨hu, hfirst⟩ := KeepsAt.keeps hs hlexeme hp
    obtain ⟨ht, hsecond⟩ := Keeps.keeps hu hf
    exact ⟨ht, hfirst.trans hsecond⟩

theorem keeps_current_bind {f : Lexeme → Reader α} (h : ∀ lexeme, KeepsAt whole lexeme (f lexeme)) :
    Keeps whole (current >>= f) where
  keeps hs hp := by
    obtain ⟨lexeme, u, hcurrent, hf⟩ := bind_eq_some_iff.mp hp
    obtain ⟨rfl, rfl⟩ := Prod.mk.inj (Option.some.inj hcurrent)
    exact (h _).keeps hs rfl hf

instance keeps_repeatFrom {body : α → Reader (α ⊕ β)} [∀ a, Keeps whole (body a)] (rounds : Nat)
    (init : α) : Keeps whole (repeatFrom body rounds init) := by
  induction rounds generalizing init with
  | zero => exact ⟨fun _ h => nomatch (show none = some _ from h)⟩
  | succ rounds ih =>
    constructor
    intro s b t hs h
    unfold repeatFrom at h
    split at h
    · simp at h
    · rename_i a u hbody
      obtain ⟨hu, hfirst⟩ := Keeps.keeps hs hbody
      obtain ⟨ht, hsecond⟩ := (ih a).keeps hu h
      exact ⟨ht, hfirst.trans hsecond⟩
    · rename_i b u hbody
      obtain ⟨-, rfl⟩ := Prod.mk.inj (Option.some.inj h)
      exact Keeps.keeps hs hbody

/-! ### Steps -/

instance keeps_advance : Keeps whole advance where
  keeps {s u t} hs h := by
    obtain ⟨ht, -, -, hbefore, -⟩ := advance_sound hs h
    exact ⟨ht, hbefore⟩

private theorem state_eq {s t : ReadState} {a b : α} (h : some (a, s) = some (b, t)) : t = s :=
  (Prod.mk.inj (Option.some.inj h)).2.symm

instance keeps_current : Keeps whole current := keeps_of_looking state_eq
instance keeps_onNewLine : Keeps whole onNewLine := keeps_of_looking state_eq
instance keeps_startOffset : Keeps whole startOffset := keeps_of_looking state_eq
instance keeps_atPunct (text : String) : Keeps whole (atPunct text) := keeps_of_looking state_eq
instance keeps_atWord (text : String) : Keeps whole (atWord text) := keeps_of_looking state_eq
instance keeps_canEndStatement : Keeps whole canEndStatement := keeps_of_looking state_eq
instance keeps_innerText : Keeps whole innerText := keeps_of_looking state_eq

instance keeps_lookAhead {p : Reader α} : Keeps whole (lookAhead p) := by
  refine keeps_of_looking fun {s a t} h => ?_
  unfold lookAhead at h
  split at h <;> exact state_eq h

instance keeps_attempt {p : Reader α} [Keeps whole p] : Keeps whole (attempt p) where
  keeps hs h := by
    unfold attempt at h
    split at h
    · rename_i hp
      obtain rfl := state_eq h
      exact Keeps.keeps hs hp
    · obtain rfl := state_eq h
      exact ⟨hs, .refl _⟩

instance keeps_next : Keeps whole next := by
  unfold next
  infer_instance

instance keeps_eatPunct (text : String) : Keeps whole (eatPunct text) := by
  unfold eatPunct
  infer_instance

instance keeps_eatWord (text : String) : Keeps whole (eatWord text) := by
  unfold eatWord
  infer_instance

instance keeps_expectPunct (text : String) : Keeps whole (expectPunct text) := by
  unfold expectPunct
  infer_instance

instance keeps_expectWord (text : String) : Keeps whole (expectWord text) := by
  unfold expectWord
  infer_instance

instance keeps_endStatement : Keeps whole endStatement := by
  unfold endStatement
  infer_instance

/-- What is counted beside the reading does not matter. -/
theorem ReadState.Sound.withCounts {s : ReadState} (hs : s.Sound whole) (pending : Nat)
    (exported : List String) :
    ReadState.Sound whole { s with pending, exported } ∧ s.Before { s with pending, exported } :=
  ⟨⟨hs.stands, hs.paired, hs.passes, hs.lexeme, hs.previous_le, hs.comments, hs.parted, hs.nodes,
    hs.clear⟩, Nat.le_refl _, Nat.le_refl _, fun _ hc => Or.inl hc⟩

instance keeps_resolveTarget (pending : Option Nat) : Keeps whole (resolveTarget pending) where
  keeps hs h := by
    obtain ⟨n, -, hpair⟩ := Option.map_eq_some_iff.mp h
    obtain ⟨-, rfl⟩ := Prod.mk.inj hpair
    exact hs.withCounts _ _

theorem ReadState.Sound.withAfter {s : ReadState} (hs : s.Sound whole) {text : List Char}
    {after : Cursor} (hpasses : s.here.Passes text after) (hfirm : Text.Firm text) :
    ReadState.Sound whole { s with after } :=
  ⟨hs.stands, hs.paired, ⟨text, hpasses, fun _ => hfirm, .of_firm hfirm _⟩, hs.lexeme, hs.previous_le,
    hs.comments, hs.parted, hs.nodes, hs.clear⟩

/-- Moving on does not look at the nodes. -/
theorem advance_withNodes {s t : ReadState} {nodes : List ParseNode} {u : Unit}
    (h : advance { s with nodes } = some (u, t)) :
    advance s = some (u, { t with nodes := s.nodes }) ∧ t.nodes = nodes := by
  obtain ⟨t', ht', hpair⟩ := Option.map_eq_some_iff.mp h
  obtain ⟨-, rfl⟩ := Prod.mk.inj hpair
  unfold readFrom at ht'
  unfold advance readFrom
  split at ht'
  · simp at ht'
  · rename_i gap hgap
    dsimp only at hgap ht' ⊢
    rw [hgap]
    split at ht'
    · simp at ht'
    · rename_i lexeme after hlexeme
      obtain rfl := Option.some.inj ht'
      simp only [hlexeme, Option.map_some, and_self]

/-- Reads the current lexeme as a literal where its text is firm. -/
theorem literal_keeps {kind : LiteralKind} {s t : ReadState} {u : Unit} {text : List Char}
    (hs : s.Sound whole) (hpasses : s.here.Passes text s.after) (hfirm : Text.Firm text)
    (h : literal kind s = some (u, t)) : t.Sound whole ∧ s.Before t := by
  have hevent : TreeEvent.Sound whole (.enter (.literal kind) ⟨s.here.offset, s.after.offset⟩) := by
    refine ⟨text, hpasses.slice hs.stands, hfirm, fun c hc => hs.lexeme c ?_⟩
    rw [hpasses.rest_eq]
    obtain ⟨d, text, rfl⟩ := List.exists_cons_of_ne_nil hfirm.solid.1
    exact hc
  obtain ⟨hadvance, hnodes⟩ := advance_withNodes (show advance { s with
    nodes := .node (.literal kind) ⟨s.here.offset, s.after.offset⟩ [] :: s.nodes } = some (u, t) from h)
  obtain ⟨ht, hstop, -, hbefore, hfound⟩ := advance_sound hs hadvance
  -- The comments found before lie in front of the lexeme, and those found behind it on the way.
  have hclear : TreeEvent.Clear t.previousStop t.comments
      (.enter (.literal kind) ⟨s.here.offset, s.after.offset⟩) := by
    refine ⟨hstop.ge, fun c hc => ?_⟩
    rcases hfound c hc with hc | hlater
    · exact Or.inl (hs.comments.le_high c hc)
    · exact Or.inr (Or.inl hlater)
  have hnoted : ∀ e ∈ ParseNode.eventsAll t.nodes,
      e = .enter (.literal kind) ⟨s.here.offset, s.after.offset⟩ ∨ e = .leave ∨
        e ∈ ParseNode.eventsAll s.nodes := by
    intro e he
    rw [hnodes] at he
    simpa [ParseNode.events, ParseNode.eventsAll, or_assoc] using he
  refine ⟨⟨ht.stands, ht.paired, ht.passes, ht.lexeme, ht.previous_le, ht.comments, ht.parted,
    fun e he => ?_, fun e he => ?_⟩, hbefore.previous_le, hbefore.here_le, hbefore.comments⟩
  · rcases hnoted e he with rfl | rfl | he
    · exact hevent
    · exact trivial
    · exact ht.nodes e he
  · rcases hnoted e he with rfl | rfl | he
    · exact hclear
    · exact trivial
    · exact ht.clear e he

instance keepsAt_literal_string {kind : LiteralKind} : KeepsAt whole .string (literal kind) where
  keeps hs hlexeme h := by
    obtain ⟨text, hpasses, hfirm, -⟩ := hs.passes
    exact literal_keeps hs hpasses (hfirm (by rw [hlexeme]; rfl)) h

instance keepsAt_literal_number {k kind : LiteralKind} :
    KeepsAt whole (.number k) (literal kind) where
  keeps hs hlexeme h := by
    obtain ⟨text, hpasses, hfirm, -⟩ := hs.passes
    exact literal_keeps hs hpasses (hfirm (by rw [hlexeme]; rfl)) h

/-- Looking at the text of the current lexeme does not change which lexeme it is. -/
instance keepsAt_innerText_bind {lexeme : Lexeme} {f : String → Reader α}
    [∀ text, KeepsAt whole lexeme (f text)] : KeepsAt whole lexeme (innerText >>= f) where
  keeps hs hlexeme h := by
    obtain ⟨text, u, hinner, hf⟩ := bind_eq_some_iff.mp h
    obtain rfl := state_eq hinner
    exact KeepsAt.keeps hs hlexeme hf

/-! ### The level below -/

/-- The rules of a level keep the state sound. -/
class KeepsRules (whole : List Char) (deeper : Deeper) : Prop where
  keeps : ∀ r, Keeps whole (deeper.call r)

section Rules

variable (deeper : Deeper) [KeepsRules whole deeper]

instance keeps_assignment (c : Context) : Keeps whole (deeper.assignment c) := KeepsRules.keeps _
instance keeps_binary (c : Context) (above : Nat) : Keeps whole (deeper.binary c above) :=
  KeepsRules.keeps _
instance keeps_unary (c : Context) : Keeps whole (deeper.unary c) := KeepsRules.keeps _
instance keeps_leftHandSide (c : Context) : Keeps whole (deeper.leftHandSide c) := KeepsRules.keeps _
instance keeps_callee (c : Context) : Keeps whole (deeper.callee c) := KeepsRules.keeps _
instance keeps_statement (c : Context) (single : Bool) : Keeps whole (deeper.statement c single) :=
  KeepsRules.keeps _
instance keeps_binding (c : Context) : Keeps whole (deeper.binding c) := KeepsRules.keeps _

omit [KeepsRules whole deeper] in
instance keeps_repeated (init : α) (body : α → Reader (α ⊕ β)) [∀ a, Keeps whole (body a)] :
    Keeps whole (deeper.repeated init body) := by
  unfold Deeper.repeated
  infer_instance

/-! ### Words, expressions in general, templates -/

omit [KeepsRules whole deeper] in
instance keeps_identifier (c : Context) : Keeps whole (identifier c) := by
  unfold identifier
  refine keeps_current_bind fun lexeme => ?_
  split <;> infer_instance

instance keeps_anyWord : Keeps whole anyWord := by
  unfold anyWord
  refine keeps_current_bind fun lexeme => ?_
  split <;> infer_instance

instance keeps_expression (c : Context) : Keeps whole (expression deeper c) := by
  unfold expression
  infer_instance

instance keeps_statementsToBrace (c : Context) : Keeps whole (statementsToBrace deeper c) := by
  unfold statementsToBrace
  infer_instance

instance keeps_block (c : Context) : Keeps whole (block deeper c) := by
  unfold block
  infer_instance

/-- The last lexeme read starts at or after an offset and is firm. -/
def ReadState.EndsFirm (whole : List Char) (low : Nat) (t : ReadState) : Prop :=
  ∃ (a b : Cursor) (text : List Char), a.At whole ∧ low ≤ a.offset ∧ a.Passes text b ∧
    Text.Firm text ∧ b.offset = t.previousStop

/-- A sound state reached from the first one after its lexeme was left. -/
structure ReadState.Behind (whole : List Char) (first t : ReadState) : Prop where
  sound : t.Sound whole
  before : first.Before t
  left : first.here.offset ≤ t.previousStop

omit [KeepsRules whole deeper] in
theorem advance_endsFirm {first s t : ReadState} {u : Unit} {text : List Char} (hs : s.Sound whole)
    (hfirst : first.Before s) (hpasses : s.here.Passes text s.after) (hfirm : Text.Firm text)
    (h : advance s = some (u, t)) :
    first.Behind whole t ∧ t.EndsFirm whole first.here.offset := by
  obtain ⟨ht, hstop, -, hbefore, -⟩ := advance_sound hs h
  have hle : first.here.offset ≤ t.previousStop := by
    rw [hstop]
    exact Nat.le_trans hfirst.here_le hpasses.offset_le
  exact ⟨⟨ht, hfirst.trans hbefore, hle⟩, s.here, s.after, text, hs.stands, hfirst.here_le, hpasses,
    hfirm, hstop.symm⟩

omit [KeepsRules whole deeper] in
/-- What each round of a repetition keeps, and what each leads to, holds at its end. -/
theorem repeated_ends {P Q : ReadState → Prop} {body : α → Reader (α ⊕ β)}
    (hbody : ∀ {a : α} {s : ReadState} {r : α ⊕ β} {t : ReadState}, P s → body a s = some (r, t) →
      P t ∧ Q t) {init : α} {s t : ReadState} {b : β} (hs : P s)
    (h : deeper.repeated init body s = some (b, t)) : P t ∧ Q t := by
  unfold Deeper.repeated at h
  generalize deeper.rounds = rounds at h
  induction rounds generalizing init s with
  | zero => exact nomatch (show none = some _ from h)
  | succ rounds ih =>
    unfold repeatFrom at h
    split at h
    · simp at h
    · rename_i a u hround
      exact ih (hbody hs hround).1 h
    · rename_i b u hround
      obtain rfl := state_eq h
      exact hbody hs hround

/-- A template is read up to the end of its last piece. -/
theorem templateRest_ends {c : Context} {tagged : Bool} {s t : ReadState} {u : Unit}
    (hs : s.Sound whole) (h : templateRest deeper c tagged s = some (u, t)) :
    s.Behind whole t ∧ t.EndsFirm whole s.here.offset := by
  unfold templateRest at h
  obtain ⟨lexeme, s', hcurrent, h⟩ := bind_eq_some_iff.mp h
  obtain ⟨hlexeme, rfl⟩ := Prod.mk.inj (Option.some.inj hcurrent)
  split at h
  · obtain ⟨text, hpasses, hfirm, -⟩ := hs.passes
    replace hfirm := hfirm (by rw [hlexeme]; rfl)
    obtain ⟨_, s', hguard, h⟩ := bind_eq_some_iff.mp h
    obtain rfl := guard_state hguard
    split at h
    · exact advance_endsFirm hs (.refl s) hpasses hfirm h
    · obtain ⟨_, v, hadvance, h⟩ := bind_eq_some_iff.mp h
      obtain ⟨hv, -⟩ := advance_endsFirm hs (.refl s) hpasses hfirm hadvance
      refine repeated_ends (P := s.Behind whole) deeper (fun {_ v r w} hv h => ?_) hv h
      -- One round reads an expression and, from its closing brace on, the next piece.
      obtain ⟨_, v₁, hexpression, h⟩ := bind_eq_some_iff.mp h
      obtain ⟨hv₁, hread⟩ := (keeps_expression deeper c.withIn).keeps hv.sound hexpression
      obtain ⟨atBrace, v₂, hat, h⟩ := bind_eq_some_iff.mp h
      obtain ⟨-, rfl⟩ := Prod.mk.inj (Option.some.inj hat)
      obtain ⟨_, v₃, hguard, h⟩ := bind_eq_some_iff.mp h
      obtain rfl := guard_state hguard
      obtain ⟨v₄, v₅, hget, h⟩ := bind_eq_some_iff.mp h
      obtain ⟨rfl, rfl⟩ := Prod.mk.inj (Option.some.inj hget)
      cases hpiece : templateFrom true v₁.after.rest v₁.after.offset with
      | none =>
        simp only [hpiece] at h
        exact nomatch (show none = some _ from h)
      | some piece =>
        simp only [hpiece] at h
        obtain ⟨_, v₆, hguard, h⟩ := bind_eq_some_iff.mp h
        obtain rfl := guard_state hguard
        obtain ⟨_, v₇, hset, h⟩ := bind_eq_some_iff.mp h
        obtain ⟨-, rfl⟩ := Prod.mk.inj (Option.some.inj hset)
        obtain ⟨_, v₈, hadvance, h⟩ := bind_eq_some_iff.mp h
        obtain ⟨-, rfl⟩ := Prod.mk.inj (Option.some.inj h)
        obtain ⟨brace, hbrace, -⟩ := hv₁.passes
        obtain ⟨inner, hinner, hfirm⟩ := templateFrom_firm hpiece
        have hpasses := hbrace.trans hinner
        replace hfirm := hfirm.append_left brace
        obtain ⟨hprevious, hhere, hcomments⟩ := hv.before.trans hread
        exact advance_endsFirm (hv₁.withAfter hpasses hfirm) ⟨hprevious, hhere, hcomments⟩ hpasses
          hfirm hadvance
  · exact nomatch (show none = some _ from h)

omit [KeepsRules whole deeper] in
/-- Collecting nodes under a sound one keeps the state sound. -/
theorem enclose_sound {start : Nat} {kind : α → ParseKind} {p : Reader α} {s t : ReadState} {a : α}
    (h : enclose start kind p s = some (a, t)) (hs : s.Sound whole)
    (hp : ∀ {u : ReadState}, p { s with nodes := [] } = some (a, u) →
      u.Sound whole ∧ s.Before u ∧
        TreeEvent.Sound whole (.enter (kind a) ⟨start, u.previousStop⟩) ∧
        TreeEvent.Clear u.previousStop u.comments (.enter (kind a) ⟨start, u.previousStop⟩)) :
    t.Sound whole ∧ s.Before t := by
  unfold enclose at h
  split at h
  · simp at h
  · rename_i b u hu
    obtain ⟨rfl, rfl⟩ := Prod.mk.inj (Option.some.inj h)
    obtain ⟨hsound, hbefore, hevent, hclear⟩ := hp hu
    have hnoted : ∀ e ∈ ParseNode.eventsAll
        (.node (kind b) ⟨start, u.previousStop⟩ u.nodes.reverse :: s.nodes),
        e = .enter (kind b) ⟨start, u.previousStop⟩ ∨ e = .leave ∨
          e ∈ ParseNode.eventsAll u.nodes ∨ e ∈ ParseNode.eventsAll s.nodes := by
      intro e he
      simp only [ParseNode.eventsAll, ParseNode.events, List.cons_append, List.mem_cons,
        List.mem_append, List.not_mem_nil, or_false, ParseNode.mem_eventsAll_reverse] at he
      tauto
    refine ⟨⟨hsound.stands, hsound.paired, hsound.passes, hsound.lexeme, hsound.previous_le,
      hsound.comments, hsound.parted, fun e he => ?_, fun e he => ?_⟩, hbefore.previous_le,
      hbefore.here_le, hbefore.comments⟩
    · rcases hnoted e he with rfl | rfl | he | he
      · exact hevent
      · exact trivial
      · exact hsound.nodes e he
      · exact hs.nodes e he
    · rcases hnoted e he with rfl | rfl | he | he
      · exact hclear
      · exact trivial
      · exact hsound.clear e he
      · exact (hs.clear e he).mono hbefore.previous_le fun c hc =>
          (hbefore.comments c hc).imp_right (Nat.le_trans hs.previous_le)

omit [KeepsRules whole deeper] in
theorem ReadState.Sound.withoutNodes {s : ReadState} (hs : s.Sound whole) :
    ReadState.Sound whole { s with nodes := [] } :=
  ⟨hs.stands, hs.paired, hs.passes, hs.lexeme, hs.previous_le, hs.comments, hs.parted,
    by simp [ParseNode.eventsAll], by simp [ParseNode.eventsAll]⟩

instance keeps_template (c : Context) (tagged : Bool) : Keeps whole (template deeper c tagged) where
  keeps {s a t} hs h := by
    unfold template at h
    obtain ⟨start, s', hstart, h⟩ := bind_eq_some_iff.mp h
    obtain ⟨rfl, rfl⟩ := Prod.mk.inj (Option.some.inj hstart)
    refine enclose_sound h hs fun {u} hu => ?_
    obtain ⟨⟨hsound, ⟨hprevious, hhere, hcomments⟩, hleft⟩, a, b, text, ha, hlow, hpasses, hfirm,
      hstop⟩ := templateRest_ends deeper hs.withoutNodes hu
    obtain ⟨before, hbefore⟩ := hs.stands.passes ha hlow
    have hwhole := hbefore.trans hpasses
    refine ⟨hsound, ⟨hprevious, hhere, hcomments⟩,
      ⟨before ++ text, ?_, hfirm.append_left before, fun c hc => hs.lexeme c ?_⟩, Nat.le_refl _,
      fun c hc => ?_⟩
    · rw [← hstop]
      exact hwhole.slice hs.stands
    · rw [hwhole.rest_eq]
      obtain ⟨d, more, heq⟩ := List.exists_cons_of_ne_nil (hfirm.append_left before).solid.1
      rw [heq] at hc ⊢
      exact hc
    · -- A comment found meanwhile lies behind the start, and not across the end.
      rcases hcomments c hc with hc | hlater
      · exact Or.inl (hs.comments.le_high c hc)
      · rcases hsound.parted c hc with hinside | hbehind
        · exact Or.inr (Or.inr ⟨rfl, hlater, hinside⟩)
        · exact Or.inr (Or.inl hbehind)

/-! ### Bindings and functions -/

instance keeps_propertyKey (c : Context) : Keeps whole (propertyKey deeper c) := by
  unfold propertyKey
  refine keeps_current_bind fun lexeme => ?_
  split <;> infer_instance

instance keeps_publicKey (c : Context) : Keeps whole (publicKey deeper c) := by
  unfold publicKey
  refine keeps_step fun key => ?_
  split <;> infer_instance

instance keeps_initializer (c : Context) : Keeps whole (initializer deeper c) := by
  unfold initializer
  infer_instance

instance keeps_bindingProperty (c : Context) : Keeps whole (bindingProperty deeper c) := by
  unfold bindingProperty
  refine keeps_step fun key => ?_
  cases key <;> infer_instance

instance keeps_objectBinding (c : Context) : Keeps whole (objectBinding deeper c) := by
  unfold objectBinding
  infer_instance

instance keeps_arrayBinding (c : Context) : Keeps whole (arrayBinding deeper c) := by
  unfold arrayBinding
  infer_instance

instance keeps_bindingRule (c : Context) : Keeps whole (bindingRule deeper c) := by
  unfold bindingRule
  infer_instance

instance keeps_parameters (c : Context) : Keeps whole (parameters deeper c) := by
  unfold parameters
  infer_instance

instance keeps_functionRest (generator async : Bool) :
    Keeps whole (functionRest deeper generator async) := by
  unfold functionRest
  infer_instance

instance keeps_functionAfterAsync (c : Context) (async declaration nameRequired : Bool) :
    Keeps whole (functionAfterAsync deeper c async declaration nameRequired) := by
  unfold functionAfterAsync
  refine keeps_step fun _ => keeps_step fun generator => keeps_current_bind fun lexeme => ?_
  dsimp only
  split <;> infer_instance

instance keeps_methodRest (kind : MethodKind) (generator async : Bool) :
    Keeps whole (methodRest deeper kind generator async) := by
  unfold methodRest
  cases kind <;> infer_instance

omit [KeepsRules whole deeper] in
instance keeps_modifiers : Keeps whole modifiers := by
  unfold modifiers
  infer_instance

/-! ### Classes -/

instance keeps_decorators (c : Context) : Keeps whole (decorators deeper c) := by
  unfold decorators
  infer_instance

omit [KeepsRules whole deeper] in
instance keeps_memberModifier (word : String) (sameLine : Bool) (also : List String) :
    Keeps whole (memberModifier word sameLine also) := by
  unfold memberModifier
  refine keeps_step fun here => ?_
  split
  · refine keeps_step fun follows => ?_
    split <;> infer_instance
  · infer_instance

instance keeps_classMemberRest (c : Context) (static accessor : Bool) :
    Keeps whole (classMemberRest deeper c static accessor) := by
  unfold classMemberRest
  infer_instance

instance keeps_classMember (c : Context) : Keeps whole (classMember deeper c) := by
  unfold classMember
  infer_instance

instance keeps_classBody (c : Context) : Keeps whole (classBody deeper c) := by
  unfold classBody
  infer_instance

instance keeps_classRest (c : Context) : Keeps whole (classRest deeper c) := by
  unfold classRest
  refine keeps_step fun _ => keeps_current_bind fun lexeme => ?_
  dsimp only
  split <;> infer_instance

/-! ### Array and object literals -/

instance keeps_arrayLiteral (c : Context) : Keeps whole (arrayLiteral deeper c) := by
  unfold arrayLiteral
  infer_instance

omit [KeepsRules whole deeper] in
instance keeps_modify_pending (f : Nat → Nat) :
    Keeps whole (modify fun s : ReadState => { s with pending := f s.pending }) where
  keeps hs h := by
    obtain ⟨-, rfl⟩ := Prod.mk.inj (Option.some.inj h)
    exact hs.withCounts _ _

instance keeps_propertyValue (c : Context) (key : Key) :
    Keeps whole (propertyValue deeper c key) := by
  unfold propertyValue
  have hcount : Keeps whole (modify fun s : ReadState => { s with pending := s.pending + 1 }) :=
    keeps_modify_pending (· + 1)
  cases key <;> infer_instance

instance keeps_property (c : Context) : Keeps whole (property deeper c) := by
  unfold property
  infer_instance

instance keeps_objectLiteral (c : Context) : Keeps whole (objectLiteral deeper c) := by
  unfold objectLiteral
  infer_instance

/-! ### Imports and exports -/

omit [KeepsRules whole deeper] in
instance keeps_moduleName : Keeps whole moduleName := by
  unfold moduleName
  refine keeps_current_bind fun lexeme => ?_
  split <;> infer_instance

omit [KeepsRules whole deeper] in
instance keeps_moduleSource : Keeps whole moduleSource := by
  unfold moduleSource
  refine keeps_current_bind fun lexeme => ?_
  split <;> infer_instance

instance keeps_attributes : Keeps whole (attributes deeper) := by
  unfold attributes
  refine keeps_step fun attributed => keeps_step fun newline => ?_
  dsimp only
  split
  · infer_instance
  · split <;> infer_instance

omit [KeepsRules whole deeper] in
instance keeps_importSpecifier (c : Context) : Keeps whole (importSpecifier c) := by
  unfold importSpecifier
  infer_instance

instance keeps_importSpecifiers (c : Context) : Keeps whole (importSpecifiers deeper c) := by
  unfold importSpecifiers
  infer_instance

instance keeps_importNames (c : Context) : Keeps whole (importNames deeper c) := by
  unfold importNames
  infer_instance

instance keeps_importDeclaration (c : Context) : Keeps whole (importDeclaration deeper c) := by
  unfold importDeclaration
  refine keeps_step fun _ => keeps_current_bind fun lexeme => ?_
  dsimp only
  split <;> infer_instance

instance keeps_exportSpecifiers (c : Context) : Keeps whole (exportSpecifiers deeper c) := by
  unfold exportSpecifiers
  dsimp only
  infer_instance

omit [KeepsRules whole deeper] in
instance keeps_noteExports (names : List String) : Keeps whole (noteExports names) where
  keeps hs h := by
    obtain ⟨exported, -, hpair⟩ := Option.map_eq_some_iff.mp h
    obtain ⟨-, rfl⟩ := Prod.mk.inj hpair
    exact hs.withCounts _ _

instance keeps_exportList (c : Context) : Keeps whole (exportList deeper c) := by
  unfold exportList
  infer_instance

instance keeps_exportAll : Keeps whole (exportAll deeper) := by
  unfold exportAll
  infer_instance

/-! ### Expressions -/

instance keeps_arguments (c : Context) : Keeps whole (arguments deeper c) := by
  unfold arguments
  infer_instance

omit [KeepsRules whole deeper] in
instance keeps_regularExpression : Keeps whole regularExpression where
  keeps {s a t} hs h := by
    unfold regularExpression at h
    obtain ⟨s', s'', hget, h⟩ := bind_eq_some_iff.mp h
    obtain ⟨rfl, rfl⟩ := Prod.mk.inj (Option.some.inj hget)
    cases hafter : s.here.regExp? with
    | none =>
      simp only [hafter] at h
      exact nomatch (show none = some _ from h)
    | some after =>
      simp only [hafter] at h
      obtain ⟨_, v, hset, h⟩ := bind_eq_some_iff.mp h
      obtain ⟨-, rfl⟩ := Prod.mk.inj (Option.some.inj hset)
      obtain ⟨text, hpasses, hfirm⟩ := Cursor.regExp?_firm hafter
      obtain ⟨ht, hbefore⟩ := literal_keeps (hs.withAfter hpasses hfirm) hpasses hfirm h
      exact ⟨ht, hbefore.previous_le, hbefore.here_le, hbefore.comments⟩

omit [KeepsRules whole deeper] in
instance keeps_memberName : Keeps whole memberName := by
  unfold memberName
  refine keeps_current_bind fun lexeme => ?_
  split <;> infer_instance

omit [KeepsRules whole deeper] in
instance keeps_atTemplate : Keeps whole atTemplate := by
  unfold atTemplate
  refine keeps_current_bind fun lexeme => ?_
  split <;> infer_instance

instance keeps_optionalLink (c : Context) : Keeps whole (optionalLink deeper c) := by
  unfold optionalLink
  infer_instance

instance keeps_chainLinks (c : Context) (calls : Bool) (first : Shape) :
    Keeps whole (chainLinks deeper c calls first) := by
  unfold chainLinks
  infer_instance

instance keeps_importExpression (c : Context) : Keeps whole (importExpression deeper c) := by
  unfold importExpression
  infer_instance

instance keeps_newExpression (c : Context) : Keeps whole (newExpression deeper c) := by
  unfold newExpression
  infer_instance

omit [KeepsRules whole deeper] in
instance keeps_superExpression : Keeps whole superExpression := by
  unfold superExpression
  infer_instance

omit [KeepsRules whole deeper] in
instance keeps_atAsyncFunction : Keeps whole atAsyncFunction := by
  unfold atAsyncFunction
  refine keeps_step fun here => ?_
  split
  · refine keeps_step fun follows => ?_
    split <;> infer_instance
  · infer_instance

instance keeps_wordExpression (c : Context) (word : String) :
    Keeps whole (wordExpression deeper c word) := by
  unfold wordExpression
  infer_instance

instance keeps_punctExpression (c : Context) (text : String) :
    Keeps whole (punctExpression deeper c text) := by
  unfold punctExpression
  infer_instance

instance keeps_primary (c : Context) : Keeps whole (primary deeper c) := by
  unfold primary
  refine keeps_current_bind fun lexeme => ?_
  split <;> infer_instance

instance keeps_leftHandSideRule (c : Context) : Keeps whole (leftHandSideRule deeper c) := by
  unfold leftHandSideRule
  infer_instance

omit [KeepsRules whole deeper] in
instance keeps_atImportCall : Keeps whole atImportCall := by
  unfold atImportCall
  refine keeps_step fun here => ?_
  split
  · refine keeps_step fun follows => ?_
    split <;> infer_instance
  · infer_instance

instance keeps_calleeRule (c : Context) : Keeps whole (calleeRule deeper c) := by
  unfold calleeRule
  infer_instance

instance keeps_updatedOperand (c : Context) : Keeps whole (updatedOperand deeper c) := by
  unfold updatedOperand
  infer_instance

instance keeps_unaryRule (c : Context) : Keeps whole (unaryRule deeper c) := by
  unfold unaryRule
  refine keeps_current_bind fun lexeme => ?_
  split <;> infer_instance

omit [KeepsRules whole deeper] in
instance keeps_operatorHere (c : Context) : Keeps whole (operatorHere c) := by
  unfold operatorHere
  refine keeps_current_bind fun lexeme => ?_
  split <;> infer_instance

instance keeps_firstOperand (c : Context) (above : Nat) :
    Keeps whole (firstOperand deeper c above) := by
  unfold firstOperand
  refine keeps_current_bind fun lexeme => ?_
  split <;> infer_instance

instance keeps_binaryRule (c : Context) (above : Nat) :
    Keeps whole (binaryRule deeper c above) := by
  unfold binaryRule
  refine keeps_step fun first => @keeps_repeated _ _ _ _ _ _ fun left => keeps_step fun op => ?_
  split
  · infer_instance
  · split
    · refine keeps_step fun _ => keeps_step fun right => ?_
      split <;> infer_instance
    · infer_instance

omit [KeepsRules whole deeper] in
instance keeps_mayStartArrow (c : Context) : Keeps whole (mayStartArrow c) := by
  unfold mayStartArrow
  infer_instance

instance keeps_arrowHead (c : Context) : Keeps whole (arrowHead deeper c) := by
  unfold arrowHead
  dsimp only
  infer_instance

instance keeps_arrowBody (c : Context) (async : Bool) : Keeps whole (arrowBody deeper c async) := by
  unfold arrowBody
  infer_instance

omit [KeepsRules whole deeper] in
instance keeps_asyncArrowHead (c : Context) : Keeps whole (asyncArrowHead c) := by
  unfold asyncArrowHead
  infer_instance

instance keeps_yieldExpression (c : Context) : Keeps whole (yieldExpression deeper c) := by
  unfold yieldExpression
  refine keeps_step fun _ => keeps_step fun newline => ?_
  split
  · refine keeps_step fun delegate => keeps_current_bind fun lexeme => ?_
    dsimp only
    split <;> infer_instance
  · infer_instance

instance keeps_assignmentRest (c : Context) (left : Shape) :
    Keeps whole (assignmentRest deeper c left) := by
  unfold assignmentRest
  refine keeps_current_bind fun lexeme => ?_
  split
  · cases left <;> infer_instance
  · infer_instance

instance keeps_assignmentRule (c : Context) : Keeps whole (assignmentRule deeper c) := by
  unfold assignmentRule
  refine keeps_step fun yields => ?_
  split
  · infer_instance
  refine keeps_step fun mayStart => ?_
  dsimp only
  split
  on_goal 1 =>
    refine keeps_step fun head => ?_
    split
    · infer_instance
  all_goals
    refine keeps_step fun async => ?_
    split
    · refine keeps_step fun head => ?_
      split <;> infer_instance
    · infer_instance

/-! ### Statements -/

instance keeps_declarators (c : Context) (constant : Bool) :
    Keeps whole (declarators deeper c constant) := by
  unfold declarators
  dsimp only
  infer_instance

/-- A declaration ends no earlier than its keyword. -/
instance keeps_variableDeclaration (c : Context) (header : Bool) :
    Keeps whole (variableDeclaration deeper c header) where
  keeps {s a t} hs h := by
    unfold variableDeclaration at h
    obtain ⟨start, s', hstart, h⟩ := bind_eq_some_iff.mp h
    obtain ⟨rfl, rfl⟩ := Prod.mk.inj (Option.some.inj hstart)
    refine enclose_sound h hs fun {u} hu => ?_
    obtain ⟨_, v, hconst, hu⟩ := bind_eq_some_iff.mp hu
    obtain ⟨-, rfl⟩ := Prod.mk.inj (Option.some.inj hconst)
    obtain ⟨_, v, husing, hu⟩ := bind_eq_some_iff.mp hu
    obtain ⟨-, rfl⟩ := Prod.mk.inj (Option.some.inj husing)
    obtain ⟨_, v, hadvance, hu⟩ := bind_eq_some_iff.mp hu
    obtain ⟨hv, hstop, -, hpassed, -⟩ := advance_sound hs.withoutNodes hadvance
    have hrest : u.Sound whole ∧ v.Before u := Keeps.keeps hv hu
    obtain ⟨text, hpasses, -⟩ := hs.passes
    have hle : s.here.offset ≤ u.previousStop := by
      have hkeyword : s.here.offset ≤ s.after.offset := hpasses.offset_le
      have hpassed : v.previousStop = s.after.offset := hstop
      have hread := hrest.2.previous_le
      omega
    obtain ⟨hprevious, hhere, hcomments⟩ := hpassed.trans hrest.2
    exact ⟨hrest.1, ⟨hprevious, hhere, hcomments⟩, hle, trivial⟩

instance keeps_variableStatement (c : Context) (single : Bool) :
    Keeps whole (variableStatement deeper c single) := by
  unfold variableStatement
  infer_instance

instance keeps_expressionStatement (c : Context) : Keeps whole (expressionStatement deeper c) := by
  unfold expressionStatement
  refine keeps_step fun shape => ?_
  split <;> infer_instance

omit [KeepsRules whole deeper] in
instance keeps_letIsName (single : Bool) : Keeps whole (letIsName single) := by
  unfold letIsName
  refine keeps_step fun follows => ?_
  split <;> infer_instance

instance keeps_letStatement (c : Context) (single : Bool) :
    Keeps whole (letStatement deeper c single) := by
  unfold letStatement
  infer_instance

omit [KeepsRules whole deeper] in
instance keeps_usingDeclares (c : Context) : Keeps whole (usingDeclares c) := by
  unfold usingDeclares
  refine keeps_step fun follows => ?_
  split <;> infer_instance

instance keeps_functionDeclaration (c : Context) (single nameRequired : Bool) :
    Keeps whole (functionDeclaration deeper c single nameRequired) := by
  unfold functionDeclaration
  infer_instance

instance keeps_classDeclaration (c : Context) (single : Bool) :
    Keeps whole (classDeclaration deeper c single) := by
  unfold classDeclaration
  infer_instance

instance keeps_exportDefault (c : Context) : Keeps whole (exportDefault deeper c) := by
  unfold exportDefault
  infer_instance

instance keeps_exportedDeclaration (c : Context) : Keeps whole (exportedDeclaration deeper c) := by
  unfold exportedDeclaration
  infer_instance

instance keeps_exportDeclaration (c : Context) : Keeps whole (exportDeclaration deeper c) := by
  unfold exportDeclaration
  infer_instance

instance keeps_decoratedStatement (c : Context) (single : Bool) :
    Keeps whole (decoratedStatement deeper c single) := by
  unfold decoratedStatement
  infer_instance

instance keeps_condition (c : Context) : Keeps whole (condition deeper c) := by
  unfold condition
  infer_instance

instance keeps_ifStatement (c : Context) : Keeps whole (ifStatement deeper c) := by
  unfold ifStatement
  infer_instance

instance keeps_doStatement (c : Context) : Keeps whole (doStatement deeper c) := by
  unfold doStatement
  infer_instance

instance keeps_headedStatement (c : Context) (keyword : String) :
    Keeps whole (headedStatement deeper c keyword) := by
  unfold headedStatement
  infer_instance

instance keeps_countingLoop (c : Context) : Keeps whole (countingLoop deeper c) := by
  unfold countingLoop
  dsimp only
  infer_instance

omit [KeepsRules whole deeper] in
instance keeps_atIteration : Keeps whole atIteration := by
  unfold atIteration
  infer_instance

instance keeps_iteration (c : Context) (awaited : Bool) :
    Keeps whole (iteration deeper c awaited) := by
  unfold iteration
  dsimp only
  infer_instance

omit [KeepsRules whole deeper] in
instance keeps_atLoopDeclaration : Keeps whole atLoopDeclaration := by
  unfold atLoopDeclaration
  refine keeps_step fun var => keeps_step fun const => ?_
  split
  · infer_instance
  · refine keeps_step fun here => ?_
    split
    · refine keeps_step fun follows => ?_
      split <;> infer_instance
    · infer_instance

instance keeps_declaringLoop (c : Context) (awaited : Bool) :
    Keeps whole (declaringLoop deeper c awaited) := by
  unfold declaringLoop
  infer_instance

omit [KeepsRules whole deeper] in
instance keeps_atDoubtfulOf (awaited : Bool) : Keeps whole (atDoubtfulOf awaited) := by
  unfold atDoubtfulOf
  refine keeps_step fun follows => ?_
  split <;> infer_instance

instance keeps_expressionLoop (c : Context) (awaited : Bool) :
    Keeps whole (expressionLoop deeper c awaited) := by
  unfold expressionLoop
  infer_instance

instance keeps_forStatement (c : Context) : Keeps whole (forStatement deeper c) := by
  unfold forStatement
  infer_instance

omit [KeepsRules whole deeper] in
instance keeps_jumpStatement (c : Context) : Keeps whole (jumpStatement c) := by
  unfold jumpStatement
  dsimp only
  infer_instance

instance keeps_returnStatement (c : Context) : Keeps whole (returnStatement deeper c) := by
  unfold returnStatement
  dsimp only
  infer_instance

instance keeps_throwStatement (c : Context) : Keeps whole (throwStatement deeper c) := by
  unfold throwStatement
  infer_instance

instance keeps_caseStatements (c : Context) : Keeps whole (caseStatements deeper c) := by
  unfold caseStatements
  infer_instance

instance keeps_switchStatement (c : Context) : Keeps whole (switchStatement deeper c) := by
  unfold switchStatement
  infer_instance

instance keeps_catchClause (c : Context) : Keeps whole (catchClause deeper c) := by
  unfold catchClause
  infer_instance

instance keeps_tryStatement (c : Context) : Keeps whole (tryStatement deeper c) := by
  unfold tryStatement
  infer_instance

omit [KeepsRules whole deeper] in
instance keeps_importDeclares : Keeps whole importDeclares := by
  unfold importDeclares
  refine keeps_step fun follows => ?_
  split <;> infer_instance

instance keeps_wordStatement (c : Context) (single : Bool) (word : String) :
    Keeps whole (wordStatement deeper c single word) := by
  unfold wordStatement
  split <;> infer_instance

instance keeps_statementRule (c : Context) (single : Bool) :
    Keeps whole (statementRule deeper c single) := by
  unfold statementRule
  refine keeps_current_bind fun lexeme => ?_
  split <;> infer_instance

end Rules

/-! ### All levels -/

theorem keeps_rulesAt (levels : Nat) (r : Rule) : Keeps whole (rulesAt levels r) := by
  induction levels generalizing r with
  | zero => exact ⟨fun _ h => nomatch (show none = some _ from h)⟩
  | succ levels ih =>
    have hbelow : KeepsRules whole ⟨levels, rulesAt levels⟩ := ⟨ih⟩
    cases r with
    | assignment c => exact keeps_assignmentRule _ c
    | binary c above => exact keeps_binaryRule _ c above
    | unary c => exact keeps_unaryRule _ c
    | leftHandSide c => exact keeps_leftHandSideRule _ c
    | callee c => exact keeps_calleeRule _ c
    | statement c single => exact keeps_statementRule _ c single
    | binding c => exact keeps_bindingRule _ c

private theorem dropWhileFrom_head (p : Char → Bool) (rest : List Char) (offset : Nat) :
    ∀ c ∈ (dropWhileFrom p rest offset).rest.head?, p c = false := by
  induction rest generalizing offset with
  | nil => simp [dropWhileFrom]
  | cons c rest ih =>
    unfold dropWhileFrom
    split
    · exact ih _
    · rename_i hc
      simpa using hc

/-- The program starts with the text, or where the first line ends. -/
private theorem Cursor.start_stands (text : List Char) :
    GapState.Stands text true (Cursor.start text) .between := by
  have hwhole : Cursor.At text ⟨text, 0⟩ := ⟨[], rfl, rfl⟩
  unfold Cursor.start
  split
  · rename_i rest
    obtain ⟨line, hpasses, -⟩ := dropWhileFrom_passes (fun c => !Text.isLineTerminator c) rest 2
    have hhead := dropWhileFrom_head (fun c => !Text.isLineTerminator c) rest 2
    refine ⟨((hpasses.cons 1 rfl).cons 0 rfl).at hwhole, fun _ _ hangle => ?_, fun _ _ _ hdash => ?_⟩
    · exact absurd (hhead _ hangle) (by decide)
    · exact absurd (hhead _ hdash) (by decide)
  · have hnil : ∀ pre, text = pre ++ text → pre = [] := fun pre hpre => by simpa using hpre
    refine ⟨hwhole, fun pre hpre _ => ?_, fun _ pre hpre _ => ?_⟩
    · rw [hnil pre hpre]
      rfl
    · rw [hnil pre hpre]
      simp

/-- The outline of a text is what a sound state of the reader holds. -/
theorem outline?_state {mode : Mode} {text : List Char} {outline : Outline}
    (h : outline? mode text = some outline) :
    ∃ t : ReadState, t.Sound text ∧ outline.comments = t.comments.reverse ∧
      outline.tree = .node .program ⟨0, Text.byteLength text⟩ t.nodes.reverse := by
  unfold outline? at h
  dsimp only at h
  split at h
  · simp at h
  · rename_i s hfirst
    obtain ⟨hs, -⟩ := readFrom_sound hfirst (Cursor.start_stands text) (Nat.zero_le _)
      (CommentsIn.nil text 0 _) (by simp [initialState])
      (by simp [initialState, ParseNode.eventsAll]) (by simp [initialState, ParseNode.eventsAll])
    split at h
    · simp at h
    · rename_i u t hrest
      have hbelow : KeepsRules text ⟨levelsFor text.length, rulesAt (levelsFor text.length)⟩ :=
        ⟨keeps_rulesAt _⟩
      have hkeeps : Keeps text (statementsToEnd
          ⟨levelsFor text.length, rulesAt (levelsFor text.length)⟩ (.top mode)) := by
        unfold statementsToEnd
        infer_instance
      obtain ⟨ht, -⟩ := hkeeps.keeps hs hrest
      split at h
      · obtain rfl := Option.some.inj h
        exact ⟨t, ht, rfl, rfl⟩
      · simp at h

private theorem mem_events_program {span : Span} {ns : List ParseNode} {e : TreeEvent}
    (h : e ∈ (ParseNode.node .program span ns.reverse).events) :
    e = .enter .program span ∨ e = .leave ∨ e ∈ ParseNode.eventsAll ns := by
  simp only [ParseNode.events, List.mem_cons, List.mem_append, List.not_mem_nil, or_false,
    ParseNode.mem_eventsAll_reverse] at h
  tauto

/-- What the outline of a text is made of is sound: its comments follow each other and have the form of
comments, its literals end inside a line, and its declarations do not end before they start. -/
theorem outline?_sound {mode : Mode} {text : List Char} {outline : Outline}
    (h : outline? mode text = some outline) :
    (∃ high, CommentsIn text 0 high outline.comments.reverse) ∧
      ∀ e ∈ outline.tree.events, e.Sound text := by
  obtain ⟨t, ht, hcomments, htree⟩ := outline?_state h
  refine ⟨⟨_, by simpa [hcomments] using ht.comments⟩, fun e he => ?_⟩
  rw [htree] at he
  rcases mem_events_program he with rfl | rfl | he
  · exact trivial
  · exact trivial
  · exact ht.nodes e he

/-- A comment is in front of a literal, behind it, or inside of a template. -/
theorem outline?_clearOf {mode : Mode} {text : List Char} {outline : Outline}
    (h : outline? mode text = some outline) {kind : LiteralKind} {span : Span}
    (hevent : .enter (.literal kind) span ∈ outline.tree.events) {c : Span}
    (hc : c ∈ outline.comments) : c.ClearOf span kind := by
  obtain ⟨t, ht, hcomments, htree⟩ := outline?_state h
  rw [htree] at hevent
  rw [hcomments, List.mem_reverse] at hc
  rcases mem_events_program hevent with hprogram | hleave | hevent
  · simp at hprogram
  · simp at hleave
  · exact (ht.clear _ hevent).2 c hc

end ClosureReady.Grammar
