import ClosureReady.Proofs.ClassBody
import ClosureReady.Proofs.ClassDeclarator
import Mathlib.Tactic.MkIffOfInductiveProp

/-!
A source that holds one class, in parts.  What the compiler wrote for the class is a head that assigns
the wrapper, the body one level deeper with the constructor somewhere in it, the answer, and a closing
line that passes the parent.  The layout says at which columns the parts start and that each is made of
whole lines; where the wrapper is found and which tokens lead the body follow from it.
-/

set_option autoImplicit false
set_option relaxedAutoImplicit false

namespace ClosureReady

/-- The tokens of a source around and inside of a class, in order. -/
structure ClassParts where
  before : List Token
  /-- What stands before the name in the assignment, as `app.ui.` does. -/
  qualifier : List Token
  target : Token
  /-- From the assignment to the brace that opens the body. -/
  lead : List Token
  pre : List Token
  doc : List Token
  opening : Token
  name : Token
  rest : List Token
  post : List Token
  answer : List Token
  close : List Token
  parent : List Token
  finish : List Token
  after : List Token

namespace ClassParts

/-- The line that assigns the wrapper. -/
def head (p : ClassParts) : List Token := p.qualifier ++ p.target :: p.lead

/-- The constructor from `function` to its end. -/
def ctor (p : ClassParts) : List Token := p.opening :: p.name :: p.rest

/-- The line that closes the wrapper and passes the parent. -/
def foot (p : ClassParts) : List Token := p.close ++ (p.parent ++ p.finish)

def className (p : ClassParts) : String := p.name.value

/-- The constructor as the pass finds it. -/
def found (p : ClassParts) : ClassWrapper.Constructor := ⟨p.opening.id, p.className⟩

/-- The parts that consist of whole lines. -/
def sections (p : ClassParts) : List (List Token) :=
  [p.before, p.head, p.pre, p.doc, p.ctor, p.post, p.answer, p.foot, p.after]

def stream (p : ClassParts) : TokenStream :=
  p.before ++ (p.head ++ (p.pre ++ (p.doc ++ (p.ctor ++ (p.post ++ (p.answer ++ (p.foot ++
    p.after)))))))

/-- Cuts a stream into parts, given the lengths of those that vary. -/
def cut? (before qualifier lead pre doc rest post parent : Nat) (s : TokenStream) :
    Option ClassParts :=
  match s.drop (before + qualifier), s.drop (before + qualifier + 1 + lead + pre + doc) with
  | target :: body, opening :: name :: inside =>
    let ending := inside.drop (rest + post)
    some
      { before := s.take before
        qualifier := (s.drop before).take qualifier
        target
        lead := body.take lead
        pre := (body.drop lead).take pre
        doc := (body.drop (lead + pre)).take doc
        opening
        name
        rest := inside.take rest
        post := (inside.drop rest).take post
        answer := ending.take 3
        close := (ending.drop 3).take 3
        parent := (ending.drop 6).take parent
        finish := (ending.drop (6 + parent)).take 2
        after := ending.drop (8 + parent) }
  | _, _ => none

end ClassParts

/-- The classes and texts of some tokens. -/
def readings (ts : List Token) : List (TokenKind × String) := ts.map fun t => (t.kind, t.value)

/-- What the head reads after the name of the class, with the parameter for the parent or without. -/
def leadReading (parameter : Bool) : List (TokenKind × String) :=
  [(.punctuator, "="), (.punctuator, "("), (.keyword, "function"), (.punctuator, "(")] ++
    (if parameter then [(.identifier, ClassWrapper.parentParameter)] else []) ++
    [(.punctuator, ")"), (.punctuator, "\x7b")]

/-- Names with a dot after each. -/
def IsQualifier : List Token → Prop
  | [] => True
  | [_] => False
  | n :: d :: rest => n.kind ≠ .punctuator ∧ d.isPunctuator "." = true ∧ IsQualifier rest

/-- Tokens of one line, the first of them at a column and the others further right. -/
def LineAt (column : Nat) : List Token → Prop
  | [] => False
  | t :: ts => t.column = column ∧ ∀ u ∈ ts, u.line = t.line ∧ column < u.column

/-- A constructor at a column ends with a brace at that column, or what is next starts there and neither
is nor looks like one. -/
def ConstructorEnds (column : Nat) (tail next : List Token) : Prop :=
  (∃ brace ∈ tail.getLast?, brace.isPunctuator "\x7d" = true ∧ brace.column = column ∧
    ∀ t ∈ tail.dropLast, column < t.column) ∨
  ((∀ t ∈ tail, column < t.column) ∧
    ∀ t ∈ next.head?, t.column = column ∧ t.kind ≠ .punctuator ∧ t.value ≠ "\x7d")

/-- The layout of a class whose wrapper stands at a column. -/
@[mk_iff]
structure ClassParts.LaidOut (p : ClassParts) (column : Nat) : Prop where
  qualifier_eq : IsQualifier p.qualifier
  target_eq : p.target.isIdentifier p.className = true
  lead_eq : ∃ parameter, readings p.lead = leadReading parameter
  answer_eq : readings p.answer =
    [(.keyword, "return"), (.identifier, p.className), (.punctuator, ";")]
  close_eq : readings p.close = [(.punctuator, "\x7d"), (.punctuator, ")"), (.punctuator, "(")]
  parent_eq : ∀ t ∈ p.parent, t.kind = .identifier ∨ t.isPunctuator "." = true
  finish_eq : readings p.finish = [(.punctuator, ")"), (.punctuator, ";")]
  name_ne : p.className ≠ ClassWrapper.parentParameter
  only : ClassWrapper.findConstructors p.stream = [p.found]
  head_line : LineAt column p.head
  body_column : ∀ t ∈ p.pre ++ (p.doc ++ p.post), column + indentUnit ≤ t.column
  doc_eq : p.doc.map Token.kind = [.blockComment] ∨
    (p.doc = [] ∧ ∀ t ∈ p.pre.getLast?, t.kind ≠ .blockComment)
  opening_column : p.opening.column = column + indentUnit
  name_column : column + indentUnit < p.name.column
  ctor_ends : ConstructorEnds (column + indentUnit) p.rest (p.post ++ p.answer)
  answer_line : LineAt (column + indentUnit) p.answer
  foot_line : LineAt column p.foot
  apart : p.sections.Pairwise fun xs ys => ∀ t ∈ xs, ∀ u ∈ ys, t.line ≠ u.line
  answer_near : ∀ t ∈ p.answer, ∀ u ∈ p.foot, u.line ≤ t.line + 2
  body_above : ∀ t ∈ p.pre ++ (p.doc ++ (p.ctor ++ p.post)), ∀ u ∈ p.foot, t.line + 2 < u.line

section Decidable

variable (column : Nat) (ts next : List Token)

instance decidableIsQualifier : (ts : List Token) → Decidable (IsQualifier ts)
  | [] => inferInstanceAs (Decidable True)
  | [_] => inferInstanceAs (Decidable False)
  | n :: d :: rest =>
    have := decidableIsQualifier rest
    inferInstanceAs (Decidable (n.kind ≠ .punctuator ∧ d.isPunctuator "." = true ∧ IsQualifier rest))

instance : Decidable (LineAt column ts) :=
  match ts with
  | [] => inferInstanceAs (Decidable False)
  | _ :: _ => inferInstanceAs (Decidable (_ ∧ _))

instance : Decidable (ConstructorEnds column ts next) := inferInstanceAs (Decidable (_ ∨ _))

instance (p : ClassParts) : Decidable (p.LaidOut column) :=
  decidable_of_iff' _ (ClassParts.laidOut_iff p column)

end Decidable

theorem ConstructorEnds.cases {column : Nat} {tail next : List Token}
    (h : ConstructorEnds column tail next) :
    (∃ inner brace, tail = inner ++ [brace] ∧ brace.isPunctuator "\x7d" = true ∧
      brace.column = column ∧ ∀ t ∈ inner, column < t.column) ∨
    ((∀ t ∈ tail, column < t.column) ∧
      ∀ t ∈ next.head?, t.column = column ∧ t.kind ≠ .punctuator ∧ t.value ≠ "\x7d") := by
  refine h.imp_left ?_
  rintro ⟨brace, hlast, hbrace, hat, hinner⟩
  obtain ⟨inner, rfl⟩ := List.getLast?_eq_some_iff.mp hlast
  rw [List.dropLast_concat] at hinner
  exact ⟨inner, brace, rfl, hbrace, hat, hinner⟩

namespace LineAt

variable {column : Nat} {ts : List Token}

theorem ne_nil (h : LineAt column ts) : ts ≠ [] := by
  rintro rfl
  exact h

theorem same_line (h : LineAt column ts) {t u : Token} (ht : t ∈ ts) (hu : u ∈ ts) :
    t.line = u.line := by
  cases ts with
  | nil => exact h.elim
  | cons a rest =>
    have hfirst : ∀ v ∈ a :: rest, v.line = a.line := by
      intro v hv
      rcases List.mem_cons.mp hv with rfl | hv
      · rfl
      · exact (h.2 v hv).1
    rw [hfirst t ht, hfirst u hu]

theorem le_column (h : LineAt column ts) {t : Token} (ht : t ∈ ts) : column ≤ t.column := by
  cases ts with
  | nil => exact h.elim
  | cons a rest =>
    rcases List.mem_cons.mp ht with rfl | ht
    · exact h.1.ge
    · exact (h.2 t ht).2.le

end LineAt

namespace ClassParts

variable {p : ClassParts} {column : Nat} {text : List Char}

theorem stream_eq_flatten (p : ClassParts) : p.stream = p.sections.flatten := by
  simp [stream, sections]

/-- The parts of the body before the answer, as they stand. -/
def middle (p : ClassParts) : List Token := p.pre ++ (p.doc ++ (p.ctor ++ p.post))

structure Ascends (p : ClassParts) : Prop where
  before_head : ∀ t ∈ p.before, ∀ u ∈ p.head, t.line < u.line
  head_middle : ∀ t ∈ p.head, ∀ u ∈ p.middle, t.line < u.line
  head_answer : ∀ t ∈ p.head, ∀ u ∈ p.answer, t.line < u.line
  answer_foot : ∀ t ∈ p.answer, ∀ u ∈ p.foot, t.line < u.line
  foot_after : ∀ t ∈ p.foot, ∀ u ∈ p.after, t.line < u.line

theorem LaidOut.ascends (h : p.LaidOut column) (hplaced : p.stream.Placed text) : p.Ascends := by
  have hordered := hplaced.lines_ordered
  rw [stream_eq_flatten, List.pairwise_flatten] at hordered
  have hlines : p.sections.Pairwise fun xs ys => ∀ t ∈ xs, ∀ u ∈ ys, t.line < u.line := by
    refine (hordered.2.and h.apart).imp fun {xs ys} hboth t ht u hu => ?_
    exact Nat.lt_of_le_of_ne (hboth.1 t ht u hu) (hboth.2 t ht u hu)
  simp only [sections, List.pairwise_cons, List.mem_cons] at hlines
  obtain ⟨hbefore, hhead, -, -, -, -, hanswer, hfoot, -⟩ := hlines
  constructor
  · exact hbefore p.head (by simp)
  · intro t ht u hu
    simp only [middle, List.mem_append] at hu
    rcases hu with hu | hu | hu | hu
    · exact hhead p.pre (by simp) t ht u hu
    · exact hhead p.doc (by simp) t ht u hu
    · exact hhead p.ctor (by simp) t ht u hu
    · exact hhead p.post (by simp) t ht u hu
  · exact hhead p.answer (by simp)
  · exact hanswer p.foot (by simp)
  · exact hfoot p.after (by simp)

theorem LaidOut.ctor_column (h : p.LaidOut column) {t : Token} (ht : t ∈ p.ctor) :
    column + indentUnit ≤ t.column := by
  rcases List.mem_cons.mp ht with rfl | ht
  · exact h.opening_column.ge
  · rcases List.mem_cons.mp ht with rfl | ht
    · exact h.name_column.le
    · rcases h.ctor_ends.cases with ⟨inner, brace, htail, -, hbrace, hinner⟩ | ⟨htail, -⟩
      · rw [htail] at ht
        rcases List.mem_append.mp ht with ht | ht
        · exact (hinner t ht).le
        · rw [List.mem_singleton.mp ht, hbrace]
      · exact (htail t ht).le

/-! ### The head -/

theorem LaidOut.lead_cons (h : p.LaidOut column) :
    ∃ assign more, p.lead = assign :: more ∧ assign.isPunctuator "=" = true := by
  obtain ⟨parameter, hlead⟩ := h.lead_eq
  cases hcons : p.lead with
  | nil => simp [hcons, readings, leadReading] at hlead
  | cons assign more =>
    refine ⟨assign, more, rfl, ?_⟩
    simp only [hcons, readings, leadReading, List.map_cons, List.cons_append, List.cons.injEq,
      Prod.mk.injEq] at hlead
    simp [Token.isPunctuator, hlead.1.1, hlead.1.2]

theorem LaidOut.lead_last (h : p.LaidOut column) :
    ∃ brace, p.lead.getLast? = some brace ∧ brace.isPunctuator "\x7b" = true := by
  obtain ⟨parameter, hlead⟩ := h.lead_eq
  have hlast := congrArg List.getLast? hlead
  rw [readings, leadReading, List.getLast?_map, List.getLast?_append] at hlast
  cases hbrace : p.lead.getLast? with
  | none => simp [hbrace] at hlast
  | some brace =>
    refine ⟨brace, rfl, ?_⟩
    simp only [hbrace, Option.map_some, List.getLast?_cons_cons, List.getLast?_singleton,
      Option.some_or, Option.some.injEq, Prod.mk.injEq] at hlast
    simp [Token.isPunctuator, hlast.1, hlast.2]

end ClassParts

theorem IsQualifier.not_assign {q : List Token} (h : IsQualifier q) :
    ∀ t ∈ q, t.isPunctuator "=" = false := by
  induction q using IsQualifier.induct with
  | case1 => simp
  | case2 t => exact h.elim
  | case3 n d rest ih =>
    obtain ⟨hname, hdot, hrest⟩ := h
    simp only [Token.isPunctuator, Bool.and_eq_true, beq_iff_eq] at hdot
    intro t ht
    rcases List.mem_cons.mp ht with rfl | ht
    · simp [Token.isPunctuator, hname]
    · rcases List.mem_cons.mp ht with rfl | ht
      · simp [Token.isPunctuator, hdot.2]
      · exact ih hrest t ht

/-- A path with a name after it is never the plain word for the parent. -/
theorem IsQualifier.joinValues_ne {q : List Token} (h : IsQualifier q) {name : String}
    (hname : name ≠ ClassWrapper.parentParameter) :
    ClassWrapper.joinValues q ++ name ≠ ClassWrapper.parentParameter := by
  cases q with
  | nil => simpa [ClassWrapper.joinValues] using hname
  | cons n q =>
    cases q with
    | nil => exact h.elim
    | cons d rest =>
      -- There is a dot in the path and none in the word.
      have hdot : d.value = "." := by
        have := h.2.1
        simp only [Token.isPunctuator, Bool.and_eq_true, beq_iff_eq] at this
        exact this.2
      intro heq
      have hmem : '.' ∈ (ClassWrapper.joinValues (n :: d :: rest) ++ name).toList := by
        simp [ClassWrapper.joinValues, hdot]
      rw [heq] at hmem
      exact absurd hmem (by decide)

namespace ClassParts

variable {p : ClassParts} {column : Nat} {text : List Char}

/-- What stands before the constructor. -/
def upTo (p : ClassParts) : List Token := p.before ++ (p.head ++ (p.pre ++ p.doc))

/-- What stands between the opening of the constructor and the closing line. -/
def inner (p : ClassParts) : List Token := p.name :: (p.rest ++ (p.post ++ p.answer))

theorem stream_eq (p : ClassParts) :
    p.stream = p.upTo ++ p.opening :: (p.inner ++ (p.foot ++ p.after)) := by
  simp [stream, upTo, inner, ctor]

/-! ### The wrapper -/

def wrapper (p : ClassParts) (column : Nat) : ClassWrapper.Wrapper :=
  ⟨p.before.length, (p.upTo ++ p.opening :: p.inner).length, column,
    ClassWrapper.joinValues p.qualifier, ClassWrapper.joinValues p.parent⟩

theorem LaidOut.inner_column (h : p.LaidOut column) :
    ∀ t ∈ p.inner, (t.column == column) = false := by
  intro t ht
  have hright : column + indentUnit ≤ t.column := by
    rcases List.mem_cons.mp ht with rfl | ht
    · exact h.ctor_column (by simp [ctor])
    · rcases List.mem_append.mp ht with ht | ht
      · exact h.ctor_column (by simp [ctor, ht])
      · rcases List.mem_append.mp ht with ht | ht
        · exact h.body_column t (List.mem_append_right _ (List.mem_append_right _ ht))
        · exact h.answer_line.le_column ht
  have hunit : indentUnit = 2 := rfl
  rw [beq_eq_false_iff_ne]
  omega

theorem LaidOut.parentPath_eq (h : p.LaidOut column) {f : Token} (hf : f ∈ p.foot) :
    ClassWrapper.parentPath (p.foot ++ p.after) f.line = ClassWrapper.joinValues p.parent := by
  have hbreak : ∀ u ∈ p.after.head?, (u.line == f.line) = false := by
    intro u hu
    have hapart := h.apart
    simp only [sections, List.pairwise_cons, List.mem_cons] at hapart
    rw [beq_eq_false_iff_ne]
    exact (hapart.2.2.2.2.2.2.2.1 p.after (Or.inl rfl) f hf u (List.mem_of_mem_head? hu)).symm
  have honLine : (p.foot ++ p.after).takeWhile (fun t => t.line == f.line) = p.foot := by
    rw [takeWhile_append_of_head? hbreak]
    exact List.takeWhile_eq_self_iff.mpr fun t ht => by simpa using h.foot_line.same_line ht hf
  have hsigns : ∀ {ts : List Token} {rs : List (TokenKind × String)}, readings ts = rs →
      (∀ r ∈ rs, r.1 = .punctuator ∧ r.2 ≠ ".") →
      ts.filter (fun t => t.kind == .identifier || t.isPunctuator ".") = [] := by
    rintro ts rs rfl hrs
    refine List.filter_eq_nil_iff.mpr fun t ht => ?_
    obtain ⟨hkind, hvalue⟩ := hrs (t.kind, t.value) (List.mem_map_of_mem ht)
    simp only at hkind hvalue
    simp [Token.isPunctuator, hkind, hvalue]
  have hparent : p.parent.filter (fun t => t.kind == .identifier || t.isPunctuator ".") =
      p.parent := by
    refine List.filter_eq_self.mpr fun t ht => ?_
    rcases h.parent_eq t ht with hkind | hdot
    · simp [hkind]
    · simp [hdot]
  unfold ClassWrapper.parentPath
  rw [honLine, foot, List.filter_append, List.filter_append, hparent, hsigns h.close_eq (by simp),
    hsigns h.finish_eq (by simp), List.nil_append, List.append_nil]

private theorem LaidOut.stop_eq (h : p.LaidOut column) {f : Token} {footRest : List Token}
    (hfoot : p.foot = f :: footRest) :
    ClassWrapper.nextIndex? (fun t => t.column == column) (p.upTo.length + 1) p.stream =
      some (p.upTo ++ p.opening :: p.inner).length := by
  have hline := h.foot_line
  rw [hfoot] at hline
  have hsplit : p.stream = (p.upTo ++ [p.opening]) ++ (p.inner ++ f :: (footRest ++ p.after)) := by
    rw [stream_eq, hfoot]
    simp
  rw [hsplit, ClassWrapper.nextIndex?_append (by simp) h.inner_column (by simp [hline.1])]
  simp only [List.length_append, List.length_cons, List.length_nil]
  congr 1
  omega

/-- The wrapper starts at the first token of the head, as the body is further right. -/
private theorem LaidOut.start_eq (h : p.LaidOut column) :
    ClassWrapper.lastIndex? (fun t => t.column == column) p.upTo = some p.before.length := by
  obtain ⟨first, headRest, hhead⟩ := List.exists_cons_of_ne_nil h.head_line.ne_nil
  have hline := h.head_line
  rw [hhead] at hline
  have hsplit : p.upTo = p.before ++ first :: (headRest ++ (p.pre ++ p.doc)) := by
    rw [upTo, hhead]
    simp
  rw [hsplit]
  refine ClassWrapper.lastIndex?_append (fun t ht => ?_) (by simp [hline.1])
  rw [beq_eq_false_iff_ne]
  rcases List.mem_append.mp ht with ht | ht
  · exact (hline.2 t ht).2.ne'
  · have hright : column + indentUnit ≤ t.column :=
      h.body_column t (by simp only [List.mem_append] at ht ⊢; tauto)
    have hunit : indentUnit = 2 := rfl
    omega

private theorem LaidOut.assign_eq (h : p.LaidOut column) :
    ClassWrapper.nextIndex? (·.isPunctuator "=") p.before.length p.upTo =
      some (p.before.length + (p.qualifier ++ [p.target]).length) := by
  obtain ⟨assign, more, hlead, hassign⟩ := h.lead_cons
  have hsplit : p.upTo =
      p.before ++ ((p.qualifier ++ [p.target]) ++ assign :: (more ++ (p.pre ++ p.doc))) := by
    rw [upTo, head, hlead]
    simp
  rw [hsplit]
  refine ClassWrapper.nextIndex?_append rfl (fun t ht => ?_) hassign
  rcases List.mem_append.mp ht with ht | ht
  · exact h.qualifier_eq.not_assign t ht
  · have htarget := h.target_eq
    simp only [Token.isIdentifier, Bool.and_eq_true, beq_iff_eq] at htarget
    rw [List.mem_singleton.mp ht]
    simp [Token.isPunctuator, htarget.1]

private theorem LaidOut.path_eq (h : p.LaidOut column) :
    ClassWrapper.dropEnding? (ClassWrapper.joinValues ((p.stream.take
      (p.before.length + (p.qualifier ++ [p.target]).length)).drop p.before.length)) p.className =
      some (ClassWrapper.joinValues p.qualifier) := by
  have hsplit : p.stream = (p.before ++ (p.qualifier ++ [p.target])) ++
      (p.lead ++ (p.pre ++ (p.doc ++ p.opening :: (p.inner ++ (p.foot ++ p.after))))) := by
    rw [stream_eq, upTo, head]
    simp
  have htarget : ClassWrapper.joinValues [p.target] = p.className := by
    have hname := h.target_eq
    simp only [Token.isIdentifier, Bool.and_eq_true, beq_iff_eq] at hname
    simp [ClassWrapper.joinValues, hname.2]
  rw [hsplit, ← List.length_append, List.take_left, List.drop_left, ClassWrapper.joinValues_append,
    htarget, ClassWrapper.dropEnding?_append]

theorem LaidOut.locate?_eq (h : p.LaidOut column) :
    ClassWrapper.locate? p.stream p.upTo.length p.found = some (p.wrapper column) := by
  obtain ⟨f, footRest, hfoot⟩ : ∃ f footRest, p.foot = f :: footRest :=
    List.exists_cons_of_ne_nil h.foot_line.ne_nil
  have hopening : p.stream[p.upTo.length]? = some p.opening := by
    rw [stream_eq]
    simp
  have hcolumn : Token.checkedSub p.opening.column indentUnit = some column := by
    rw [h.opening_column]
    exact Token.checkedSub_eq_some_iff.mpr ⟨Nat.le_add_left _ _, (Nat.add_sub_cancel _ _).symm⟩
  have hsplit : p.stream = (p.upTo ++ p.opening :: p.inner) ++ (p.foot ++ p.after) := by
    rw [stream_eq]
    simp
  have hclosing : p.stream[(p.upTo ++ p.opening :: p.inner).length]? = some f := by
    rw [hsplit, hfoot]
    simp
  have htake : p.stream.take p.upTo.length = p.upTo := by
    rw [stream_eq, List.take_left]
  have hdrop : p.stream.drop (p.upTo ++ p.opening :: p.inner).length = p.foot ++ p.after := by
    rw [hsplit, List.drop_left]
  have hparent := h.parentPath_eq (f := f) (by simp [hfoot])
  unfold ClassWrapper.locate?
  simp only [hopening, hcolumn, h.stop_eq hfoot, hclosing, htake, h.start_eq, h.assign_eq, found,
    h.path_eq, hdrop, hparent, Option.bind_eq_bind, Option.bind_some, Option.pure_def]
  rfl

end ClassParts

end ClosureReady
