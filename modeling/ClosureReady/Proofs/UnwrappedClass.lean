import ClosureReady.Proofs.ClassLayout
import ClosureReady.Proofs.PreparedStream

/-!
Unwrapping a class that is laid out as the compiler writes it.  Each step of the pass is followed on
the parts: the declarator goes, the head of the constructor is written, the constructor moves in front
of the body, the body is renamed and dedented, and the lines of the head, the answer and the end are
marked.  Once the marked lines are gone, the constructor with its comment leads, the rest of the body
follows in order, and everything around the class is as it was.
-/

set_option autoImplicit false
set_option relaxedAutoImplicit false

namespace ClosureReady

namespace ClassParts

variable {p : ClassParts} {column : Nat} {text : List Char}

/-! ### The constructor leads -/

/-- The constructor with its new head. -/
def newCtor (p : ClassParts) (assignment : String) : List Token :=
  p.opening.withValue assignment :: p.name.withValue "function" :: p.rest

theorem newCtor_place {assignment : String} {t : Token} (ht : t ∈ p.newCtor assignment) :
    ∃ u ∈ p.ctor, t.region = u.region ∧ t.span = u.span := by
  rcases List.mem_cons.mp ht with rfl | ht
  · exact ⟨p.opening, by simp [ctor], rfl, rfl⟩
  · rcases List.mem_cons.mp ht with rfl | ht
    · exact ⟨p.name, by simp [ctor], rfl, rfl⟩
    · exact ⟨t, by simp [ctor, ht], rfl, rfl⟩

/-- The stream with the new head of the constructor and with other tokens before the class. -/
def headed (p : ClassParts) (left : List Token) (assignment : String) : TokenStream :=
  left ++ (p.head ++ (p.pre ++ (p.doc ++ (p.newCtor assignment ++ (p.post ++ (p.answer ++
    (p.foot ++ p.after)))))))

/-- The stream with the constructor in front of the body. -/
def led (p : ClassParts) (left : List Token) (assignment : String) : TokenStream :=
  left ++ (p.head ++ (p.doc ++ (p.newCtor assignment ++ (p.pre ++ (p.post ++ (p.answer ++
    (p.foot ++ p.after)))))))

def ctorIndex (p : ClassParts) (left : List Token) : Nat :=
  (left ++ (p.head ++ (p.pre ++ p.doc))).length

theorem headed_eq (p : ClassParts) (left : List Token) (assignment : String) :
    p.headed left assignment = (left ++ (p.head ++ (p.pre ++ p.doc))) ++
      p.opening.withValue assignment :: p.name.withValue "function" ::
        (p.rest ++ (p.post ++ (p.answer ++ (p.foot ++ p.after)))) := by
  simp [headed, newCtor]

section Lead

variable (left : List Token) (assignment : String)

private theorem LaidOut.previous_kind (h : p.LaidOut column)
    (hpre : ∀ t ∈ p.pre.getLast?, t.kind ≠ .blockComment) :
    ∃ t, (left ++ (p.head ++ p.pre)).getLast? = some t ∧ t.kind ≠ .blockComment := by
  cases hlast : p.pre.getLast? with
  | some t =>
    refine ⟨t, ?_, hpre t hlast⟩
    simp [List.getLast?_append, hlast]
  | none =>
    obtain ⟨brace, hbrace, hkind⟩ := h.lead_last
    simp only [Token.isPunctuator, Bool.and_eq_true, beq_iff_eq] at hkind
    refine ⟨brace, ?_, by simp [hkind.1]⟩
    simp [head, List.getLast?_append, List.getLast?_cons, hlast, hbrace]

private theorem LaidOut.run_start (h : p.LaidOut column) :
    (if (decide (0 < p.ctorIndex left) &&
        ((p.headed left assignment)[p.ctorIndex left - 1]?.map
          (·.kind == TokenKind.blockComment)).getD false) = true
      then p.ctorIndex left - 1 else p.ctorIndex left) =
      (left ++ (p.head ++ p.pre)).length := by
  have hprevious : ∀ t, (left ++ (p.head ++ (p.pre ++ p.doc))).getLast? = some t →
      0 < p.ctorIndex left ∧
        (p.headed left assignment)[p.ctorIndex left - 1]? = some t := by
    intro t ht
    have hpos : 0 < p.ctorIndex left := by
      refine List.length_pos_iff.mpr fun hnil => ?_
      simp [hnil] at ht
    refine ⟨hpos, ?_⟩
    rw [headed_eq, List.getElem?_append_left (by unfold ctorIndex at *; omega)]
    rwa [List.getLast?_eq_getElem?] at ht
  rcases h.doc_eq with hdoc | ⟨hdoc, hpre⟩
  · obtain ⟨d, hdoc, hkind⟩ := List.map_eq_singleton_iff.mp hdoc
    obtain ⟨hpos, hget⟩ := hprevious d (by simp [hdoc, List.getLast?_append])
    rw [hget]
    simp only [hpos, decide_true, Bool.true_and, Option.map_some, hkind, beq_self_eq_true,
      Option.getD_some, if_true]
    simp [ctorIndex, hdoc]
    omega
  · obtain ⟨t, ht, hkind⟩ := h.previous_kind left hpre
    obtain ⟨hpos, hget⟩ := hprevious t (by simpa [hdoc] using ht)
    have hother : (t.kind == TokenKind.blockComment) = false := by simpa using hkind
    rw [hget]
    simp [hother, ctorIndex, hdoc]

private theorem headed_next (p : ClassParts) {skipped tail : List Token} {t : Token}
    (hsplit : p.rest ++ (p.post ++ (p.answer ++ (p.foot ++ p.after))) = skipped ++ t :: tail)
    (hskipped : ∀ u ∈ p.name :: skipped, u.column ≠ p.opening.column)
    (ht : t.column = p.opening.column) :
    ClassWrapper.nextIndex? (fun t => t.column == p.opening.column) (p.ctorIndex left + 1)
        (p.headed left assignment) =
        some (p.ctorIndex left + (p.opening :: p.name :: skipped).length) ∧
      (p.headed left assignment)[p.ctorIndex left + (p.opening :: p.name :: skipped).length]? =
        some t := by
  have hparts : p.headed left assignment =
      ((left ++ (p.head ++ (p.pre ++ p.doc))) ++ [p.opening.withValue assignment]) ++
        ((p.name.withValue "function" :: skipped) ++ t :: tail) := by
    rw [headed_eq, hsplit]
    simp
  have hindex : p.ctorIndex left + 1 =
      ((left ++ (p.head ++ (p.pre ++ p.doc))) ++ [p.opening.withValue assignment]).length := by
    rw [List.length_append, List.length_singleton]
    rfl
  have hlength : p.ctorIndex left + (p.opening :: p.name :: skipped).length =
      (((left ++ (p.head ++ (p.pre ++ p.doc))) ++ [p.opening.withValue assignment]) ++
        (p.name.withValue "function" :: skipped)).length := by
    rw [List.length_append, ← hindex]
    simp only [List.length_cons]
    omega
  rw [hlength, hparts]
  constructor
  · rw [List.length_append]
    refine ClassWrapper.nextIndex?_append hindex (fun u hu => ?_) (by simp [ht])
    rcases List.mem_cons.mp hu with rfl | hu
    · simpa using hskipped p.name List.mem_cons_self
    · simpa using hskipped u (List.mem_cons_of_mem _ hu)
  · rw [← List.append_assoc]
    simp

private theorem LaidOut.run_stop (h : p.LaidOut column) :
    ∃ j t, ClassWrapper.nextIndex? (fun t => t.column == p.opening.column) (p.ctorIndex left + 1)
        (p.headed left assignment) = some j ∧ (p.headed left assignment)[j]? = some t ∧
      (if (t.kind == .punctuator || t.value == "\x7d") = true then j + 1 else j) =
        p.ctorIndex left + (p.newCtor assignment).length := by
  have hright : p.name.column ≠ p.opening.column := by
    rw [h.opening_column]
    exact h.name_column.ne'
  rcases h.ctor_ends.cases with ⟨inner, brace, hrest, hbrace, hat, hinner⟩ | ⟨hrest, hnext⟩
  · have hskipped : ∀ u ∈ p.name :: inner, u.column ≠ p.opening.column := by
      refine List.forall_mem_cons.mpr ⟨hright, fun u hu => ?_⟩
      rw [h.opening_column]
      exact (hinner u hu).ne'
    have hsplit : p.rest ++ (p.post ++ (p.answer ++ (p.foot ++ p.after))) =
        inner ++ brace :: (p.post ++ (p.answer ++ (p.foot ++ p.after))) := by
      rw [hrest, List.append_assoc, List.singleton_append]
    obtain ⟨hfind, hget⟩ := headed_next left assignment p hsplit hskipped
      (hat.trans h.opening_column.symm)
    refine ⟨_, brace, hfind, hget, ?_⟩
    simp only [Token.isPunctuator, Bool.and_eq_true] at hbrace
    rw [hbrace.2, Bool.or_true, if_pos rfl, newCtor, hrest]
    simp only [List.length_cons, List.length_append, List.length_nil]
    omega
  · obtain ⟨t, more, hmore⟩ : ∃ t more, p.post ++ p.answer = t :: more := by
      refine List.exists_cons_of_ne_nil fun hnil => ?_
      exact h.answer_line.ne_nil (List.append_eq_nil_iff.mp hnil).2
    obtain ⟨hat, hkind, hvalue⟩ := hnext t (by simp [hmore])
    have hskipped : ∀ u ∈ p.name :: p.rest, u.column ≠ p.opening.column := by
      refine List.forall_mem_cons.mpr ⟨hright, fun u hu => ?_⟩
      rw [h.opening_column]
      exact (hrest u hu).ne'
    have hsplit : p.rest ++ (p.post ++ (p.answer ++ (p.foot ++ p.after))) =
        p.rest ++ t :: (more ++ (p.foot ++ p.after)) := by
      rw [← List.append_assoc p.post, hmore, List.cons_append]
    obtain ⟨hfind, hget⟩ := headed_next left assignment p hsplit hskipped
      (hat.trans h.opening_column.symm)
    refine ⟨_, t, hfind, hget, ?_⟩
    have hnot : (t.kind == TokenKind.punctuator || t.value == "\x7d") = false := by
      simp [hkind, hvalue]
    rw [hnot, if_neg (by simp)]
    rfl

/-- The run to move is the constructor with its comment, unless it leads the body already. -/
private theorem LaidOut.constructorRun?_eq (h : p.LaidOut column) :
    ClassWrapper.constructorRun? (p.headed left assignment) (p.ctorIndex left)
        (left.length + p.head.length) p.opening.column =
      if p.pre = [] then none
      else some ⟨(left ++ p.head).length + p.pre.length,
        (left ++ p.head).length + p.pre.length + (p.doc ++ p.newCtor assignment).length⟩ := by
  obtain ⟨j, t, hfind, hget, hstop⟩ := h.run_stop left assignment
  have hlead : (left ++ (p.head ++ p.pre)).length ≤ left.length + p.head.length ↔ p.pre = [] := by
    rw [← List.length_eq_zero_iff]
    simp only [List.length_append]
    omega
  unfold ClassWrapper.constructorRun?
  simp only [h.run_start, hlead, hfind, hget, Option.map_some, Option.getD_some, hstop]
  split
  · rfl
  · simp only [ctorIndex, List.length_append]
    congr 2
    · omega
    · omega

theorem LaidOut.leadWithConstructor_eq (h : p.LaidOut column) (hlines : p.Ascends)
    (c : ClassWrapper.Constructor) :
    (ClassWrapper.leadWithConstructor (p.headed left assignment) (p.ctorIndex left) left.length
      c).outcome = .ok (p.led left assignment) := by
  obtain ⟨first, headRest, hhead⟩ : ∃ first headRest, p.head = first :: headRest :=
    List.exists_cons_of_ne_nil h.head_line.ne_nil
  have hmem : first ∈ p.head := by simp [hhead]
  have hfirst : (p.headed left assignment)[left.length]? = some first := by
    simp [headed, hhead]
  have hctor : (p.headed left assignment)[p.ctorIndex left]? =
      some (p.opening.withValue assignment) := by
    rw [headed_eq, ctorIndex]
    simp
  -- The body starts right behind the head.
  have hbody : ClassWrapper.nextIndex? (fun t => t.line != first.line) left.length
      (p.headed left assignment) = some (left.length + p.head.length) := by
    obtain ⟨t, more, hmore⟩ : ∃ t more, p.pre ++ (p.doc ++ p.newCtor assignment) = t :: more :=
      List.exists_cons_of_ne_nil (by simp [newCtor])
    have hother : t.line ≠ first.line := by
      have ht : t ∈ p.pre ++ (p.doc ++ p.newCtor assignment) := by simp [hmore]
      rcases List.mem_append.mp ht with ht | ht
      · exact (hlines.head_middle first hmem t (by simp [middle, ht])).ne'
      · rcases List.mem_append.mp ht with ht | ht
        · exact (hlines.head_middle first hmem t (by simp [middle, ht])).ne'
        · obtain ⟨u, hu, hregion, -⟩ := newCtor_place ht
          have hline : t.line = u.line := congrArg (·.start.line) hregion
          rw [hline]
          exact (hlines.head_middle first hmem u (by simp [middle, hu])).ne'
    have hsplit : p.headed left assignment =
        left ++ (p.head ++ t :: (more ++ (p.post ++ (p.answer ++ (p.foot ++ p.after))))) := by
      rw [← List.cons_append, ← hmore]
      simp [headed]
    rw [hsplit]
    refine ClassWrapper.nextIndex?_append rfl (fun u hu => ?_) (by simpa using hother)
    simpa using h.head_line.same_line hu hmem
  unfold ClassWrapper.leadWithConstructor
  simp only [Traced.bind_outcome_eq_ok_iff, Traced.ofEdit_outcome_eq_ok_iff]
  refine ⟨first, hfirst, p.opening.withValue assignment, hctor, ?_⟩
  rw [hbody]
  simp only [Token.withValue_column, h.constructorRun?_eq left assignment]
  by_cases hpre : p.pre = []
  · rw [if_pos hpre]
    simp [headed, led, hpre]
  · rw [if_neg hpre]
    refine Traced.bind_outcome_eq_ok_iff.mpr ⟨(), rfl, Traced.ofEdit_outcome_eq_ok_iff.mpr ?_⟩
    have hmoved := TokenStream.relocate?_append (left ++ p.head) p.pre (p.doc ++ p.newCtor assignment)
      (p.post ++ (p.answer ++ (p.foot ++ p.after)))
    simpa [headed, led] using hmoved

end Lead

/-! ### The body is lifted -/

/-- The body with the constructor in front, before it is lifted. -/
def body (p : ClassParts) (assignment : String) : List Token :=
  p.doc ++ (p.newCtor assignment ++ (p.pre ++ p.post))

/-- Tokens of the class outside of its wrapper. -/
def lift (p : ClassParts) (indent : Nat → Nat) (dotted : Bool) (ts : List Token) : List Token :=
  ClassWrapper.lifted (ClassWrapper.joinValues p.qualifier) p.className
    (ClassWrapper.joinValues p.parent) indent dotted ts

def liftedBody (p : ClassParts) (assignment : String) : List Token :=
  p.lift (fun _ => indentUnit) false (p.body assignment)

theorem led_eq (p : ClassParts) (left : List Token) (assignment : String) :
    p.led left assignment =
      left ++ (p.head ++ (p.body assignment ++ (p.answer ++ (p.foot ++ p.after)))) := by
  simp [led, body]

theorem body_place {assignment : String} {t : Token} (ht : t ∈ p.body assignment) :
    ∃ u ∈ p.middle, t.region = u.region ∧ t.span = u.span := by
  simp only [body, List.mem_append] at ht
  rcases ht with ht | ht | ht | ht
  · exact ⟨t, by simp [middle, ht], rfl, rfl⟩
  · obtain ⟨u, hu, hplace⟩ := newCtor_place ht
    exact ⟨u, by simp [middle, hu], hplace⟩
  · exact ⟨t, by simp [middle, ht], rfl, rfl⟩
  · exact ⟨t, by simp [middle, ht], rfl, rfl⟩

theorem LaidOut.middle_column (h : p.LaidOut column) {t : Token} (ht : t ∈ p.middle) :
    column + indentUnit ≤ t.column := by
  simp only [middle, List.mem_append] at ht
  rcases ht with ht | ht | ht | ht
  · exact h.body_column t (by simp [ht])
  · exact h.body_column t (by simp [ht])
  · exact h.ctor_column ht
  · exact h.body_column t (by simp [ht])

private theorem hasRoom_of_place {s : TokenStream} (hplaced : s.Placed text) {t u : Token} (hu : u ∈ s)
    (hregion : t.region = u.region) {columns : Nat} (hle : columns ≤ u.column) :
    t.HasRoom 0 columns := by
  have hcolumn : t.column = u.column := congrArg (·.start.column) hregion
  refine ⟨Nat.zero_le _, Nat.zero_le _, by omega, fun hsingle => ?_⟩
  have hsame : u.isSingleLine = true := by
    unfold Token.isSingleLine at hsingle ⊢
    rwa [hregion] at hsingle
  have hstop := hplaced.column_le_stop hu hsame
  rw [hregion]
  omega

theorem LaidOut.head_foot (h : p.LaidOut column) (hlines : p.Ascends) {t u : Token} (ht : t ∈ p.head)
    (hu : u ∈ p.foot) : t.line < u.line := by
  have hopening : p.opening ∈ p.middle := by simp [middle, ctor]
  have habove := hlines.head_middle t ht p.opening hopening
  have hbelow := h.body_above p.opening hopening u hu
  omega

theorem LaidOut.head_cons_cons (h : p.LaidOut column) :
    ∃ first second more, p.head = first :: second :: more := by
  obtain ⟨assign, more, hlead, -⟩ := h.lead_cons
  unfold head
  rw [hlead]
  cases p.qualifier with
  | nil => exact ⟨_, _, _, rfl⟩
  | cons n rest =>
    obtain ⟨second, later, hrest⟩ : ∃ second later, rest ++ p.target :: assign :: more =
        second :: later := List.exists_cons_of_ne_nil (by simp)
    exact ⟨n, second, later, by rw [List.cons_append, hrest]⟩

/-- The tokens of the body and the answer stand in the source right of the wrapper by a level, below the
head and above the closing line. -/
theorem LaidOut.body_answer_place (h : p.LaidOut column) (hlines : p.Ascends) {assignment : String}
    {t : Token} (ht : t ∈ p.body assignment ++ p.answer) :
    (∃ u ∈ p.stream, t.region = u.region ∧ column + indentUnit ≤ u.column) ∧
      (∀ v ∈ p.head, v.line < t.line) ∧ ∀ f ∈ p.foot, t.line < f.line := by
  rcases List.mem_append.mp ht with ht | ht
  · obtain ⟨u, hu, hregion, -⟩ := body_place ht
    have hline : t.line = u.line := congrArg (·.start.line) hregion
    refine ⟨⟨u, ?_, hregion, h.middle_column hu⟩, fun v hv => ?_, fun f hf => ?_⟩
    · simp only [middle, stream, List.mem_append] at hu ⊢
      tauto
    · rw [hline]
      exact hlines.head_middle v hv u hu
    · have := h.body_above u hu f hf
      omega
  · refine ⟨⟨t, by simp [stream, ht], rfl, h.answer_line.le_column ht⟩, fun v hv => ?_, fun f hf => ?_⟩
    · exact hlines.head_answer v hv t ht
    · exact hlines.answer_foot t ht f hf

private theorem LaidOut.foot_apart (h : p.LaidOut column) (hlines : p.Ascends) (assignment : String) :
    ∀ u ∈ (p.foot ++ p.after).head?, ∀ t ∈ p.head ++ (p.body assignment ++ p.answer),
      u.line ≠ t.line := by
  obtain ⟨f, more, hfoot⟩ := List.exists_cons_of_ne_nil h.foot_line.ne_nil
  intro u hu t ht
  have huf : u ∈ p.foot := by
    simp only [hfoot, List.cons_append, List.head?_cons, Option.mem_def, Option.some.injEq] at hu
    simp [hfoot, hu]
  rcases List.mem_append.mp ht with ht | ht
  · exact (h.head_foot hlines ht huf).ne'
  · exact ((h.body_answer_place hlines ht).2.2 u huf).ne'

/-- How far each line moves left: that of the head as far as its second token can, all others by a
level. -/
def indentOf (head second : Token) (l : Nat) : Nat :=
  if l = head.line then min second.column indentUnit else indentUnit

section Through

variable {first second : Token} {more : List Token} {assignment : String}

private theorem LaidOut.through_room (h : p.LaidOut column) (hplaced : p.stream.Placed text)
    (hhead : p.head = first :: second :: more) :
    ∀ t ∈ second :: (more ++ (p.body assignment ++ p.answer)),
      t.HasRoom 0 (indentOf first second t.line) := by
  have hunit : indentUnit = 2 := rfl
  have hmem : ∀ t ∈ p.head, t ∈ p.stream := by
    intro t ht
    simp [stream, ht]
  have hcolumns : ∀ t ∈ second :: more, second.column ≤ t.column := by
    intro t ht
    rcases List.mem_cons.mp ht with rfl | ht
    · exact Nat.le_refl _
    · have hsublist : (second :: more).Sublist p.stream := by
        rw [stream, hhead]
        refine List.Sublist.trans ?_ (List.sublist_append_right _ _)
        exact (List.sublist_cons_self _ _).trans (List.sublist_append_left _ _)
      have hpair := hplaced.columns_ordered.sublist hsublist
      refine (List.pairwise_cons.mp hpair).1 t ht ?_
      exact h.head_line.same_line (by simp [hhead]) (by simp [hhead, ht])
  rw [← List.cons_append]
  intro t ht
  rcases List.mem_append.mp ht with ht | ht
  · -- Tokens of the head move no further than the second of them can.
    have htop : t ∈ p.head := by
      rw [hhead]
      exact List.mem_cons_of_mem _ ht
    have hline : t.line = first.line := h.head_line.same_line htop (by simp [hhead])
    refine hasRoom_of_place hplaced (hmem t htop) rfl ?_
    rw [indentOf, if_pos hline]
    exact (Nat.min_le_left _ _).trans (hcolumns t ht)
  · obtain ⟨⟨u, hu, hregion, hcolumn⟩, habove, -⟩ := h.body_answer_place (h.ascends hplaced) ht
    have hline : t.line ≠ first.line := (habove first (by simp [hhead])).ne'
    refine hasRoom_of_place hplaced hu hregion ?_
    rw [indentOf, if_neg hline]
    omega

private theorem LaidOut.through_starts (h : p.LaidOut column) (hlines : p.Ascends)
    (hhead : p.head = first :: second :: more) :
    ClassWrapper.LineStarts (indentOf first second) none
      (second :: (more ++ (p.body assignment ++ p.answer))) := by
  have hunit : indentUnit = 2 := rfl
  have hline : ∀ t ∈ second :: more, t.line = first.line := by
    intro t ht
    refine h.head_line.same_line ?_ (by simp [hhead])
    rw [hhead]
    exact List.mem_cons_of_mem _ ht
  refine ⟨Or.inr ?_, ?_⟩
  · rw [indentOf, if_pos (hline second List.mem_cons_self)]
  · refine ClassWrapper.lineStarts_of_line (fun t ht => ?_)
      (ClassWrapper.lineStarts_of_le fun t ht => ?_)
    · rw [hline t (List.mem_cons_of_mem _ ht), hline second List.mem_cons_self]
    · obtain ⟨⟨u, -, hregion, hcolumn⟩, habove, -⟩ := h.body_answer_place hlines ht
      have hsame : t.column = u.column := congrArg (·.start.column) hregion
      refine ⟨by omega, ?_⟩
      rw [indentOf, if_neg (habove first (by simp [hhead])).ne']

/-- The head ends with a brace, so the first token of the body follows no dot; and the lines of the body
move by a level. -/
private theorem LaidOut.lift_through (h : p.LaidOut column) (hlines : p.Ascends)
    (hhead : p.head = first :: second :: more) (assignment : String) (dotted : Bool) :
    ∃ ends, p.lift (indentOf first second) dotted
        (second :: (more ++ (p.body assignment ++ p.answer))) =
      p.lift (indentOf first second) dotted (second :: more) ++ (p.liftedBody assignment ++
        p.lift (indentOf first second) ends p.answer) := by
  obtain ⟨brace, hbrace, hopens⟩ := h.lead_last
  have hdot : brace.isPunctuator "." = false := by
    simp only [Token.isPunctuator, Bool.and_eq_true, beq_iff_eq] at hopens
    simp [Token.isPunctuator, hopens.2]
  have hlast : (second :: more).getLast? = some brace := by
    have hwhole : p.head.getLast? = some brace := by
      simp [head, List.getLast?_append, List.getLast?_cons, hbrace]
    rwa [hhead, List.getLast?_cons_cons] at hwhole
  have hindent : ∀ t ∈ p.body assignment, indentOf first second t.line = indentUnit := by
    intro t ht
    have habove := (h.body_answer_place hlines (List.mem_append_left p.answer ht)).2.1
    rw [indentOf, if_neg (habove first (by simp [hhead])).ne']
  have hbody : p.liftedBody assignment =
      p.lift (indentOf first second) false (p.body assignment) :=
    (ClassWrapper.lifted_congr hindent).symm
  refine ⟨((p.body assignment).getLast?.map (·.isPunctuator ".")).getD false, ?_⟩
  rw [hbody, lift, ← List.cons_append, ClassWrapper.lifted_append, ClassWrapper.lifted_append, hlast,
    Option.map_some, Option.getD_some, hdot]
  rfl

end Through

theorem LaidOut.adaptBetween?_eq (h : p.LaidOut column) (hplaced : p.stream.Placed text)
    (left : List Token) (assignment : String) :
    ∃ headLeft answerLeft : List Token, headLeft.map Token.line = p.head.map Token.line ∧
      answerLeft.map Token.line = p.answer.map Token.line ∧
      ClassWrapper.adaptBetween? (p.led left assignment) left.length
          (left ++ (p.head ++ (p.body assignment ++ p.answer))).length (p.wrapper column) p.found =
        some (left ++ (headLeft ++ (p.liftedBody assignment ++ (answerLeft ++
          (p.foot ++ p.after))))) := by
  have hlines := h.ascends hplaced
  obtain ⟨first, second, more, hhead⟩ := h.head_cons_cons
  have hafter : ∀ u ∈ (p.foot ++ p.after).head?,
      ∀ t ∈ second :: (more ++ (p.body assignment ++ p.answer)), u.line ≠ t.line := by
    intro u hu t ht
    refine h.foot_apart hlines assignment u hu t ?_
    rw [hhead]
    exact List.mem_cons_of_mem _ ht
  have hadapt := ClassWrapper.adaptBody_eq (w := p.wrapper column) (c := p.found)
    (h.qualifier_eq.joinValues_ne h.name_ne) first (h.through_room hplaced hhead)
    (h.through_starts hlines hhead) hafter
  obtain ⟨ends, hlift⟩ := h.lift_through hlines hhead assignment (first.isPunctuator ".")
  refine ⟨first :: p.lift (indentOf first second) (first.isPunctuator ".") (second :: more),
    p.lift (indentOf first second) ends p.answer, ?_, ClassWrapper.lifted_lines, ?_⟩
  · rw [hhead, List.map_cons, lift, ClassWrapper.lifted_lines, List.map_cons]
    rfl
  · have hled : p.led left assignment = (left ++ [first]) ++
        ((second :: (more ++ (p.body assignment ++ p.answer))) ++ (p.foot ++ p.after)) := by
      rw [led_eq, hhead]
      simp
    have hfirst : (p.led left assignment)[left.length]? = some first := by
      rw [hled]
      simp
    have hlength : left.length + 1 = (left ++ [first]).length := by simp
    have hcount : (left ++ (p.head ++ (p.body assignment ++ p.answer))).length - (left.length + 1) =
        (second :: (more ++ (p.body assignment ++ p.answer))).length := by
      rw [hhead]
      simp only [List.length_append, List.length_cons]
      omega
    have hmany : left.length + 1 < (left ++ (p.head ++ (p.body assignment ++ p.answer))).length := by
      rw [hhead]
      simp only [List.length_append, List.length_cons]
      omega
    unfold ClassWrapper.adaptBetween?
    rw [if_pos hmany, hfirst, Option.bind_some, hcount, hled, hlength, List.drop_left, List.take_left]
    refine (congrArg _ hadapt).trans ?_
    rw [Option.map_some]
    refine congrArg some ?_
    refine (congrArg (fun ts => left ++ [first] ++ (ts ++ (p.foot ++ p.after))) hlift).trans ?_
    simp

/-! ### The whole class -/

/-- The text that takes the place of `function`: the assignment to the class, with a declaration of its
own when one was removed and the class is not part of something else. -/
def assignment (p : ClassParts) (declared : Bool) : String :=
  (if declared && ClassWrapper.joinValues p.qualifier == "" then "var " else "") ++
    ClassWrapper.joinValues p.qualifier ++ p.className ++ " ="

def withBefore (p : ClassParts) (left : List Token) : TokenStream :=
  left ++ (p.head ++ (p.pre ++ (p.doc ++ (p.ctor ++ (p.post ++ (p.answer ++ (p.foot ++ p.after)))))))

theorem writeHead?_eq (p : ClassParts) (column : Nat) (left : List Token) (declared : Bool) :
    ClassWrapper.writeHead? (p.withBefore left) (p.ctorIndex left) (p.wrapper column) p.found
      declared = some (p.headed left (p.assignment declared)) := by
  have hfirst := TokenStream.setValue?_append (left ++ (p.head ++ (p.pre ++ p.doc)))
    (p.name :: (p.rest ++ (p.post ++ (p.answer ++ (p.foot ++ p.after))))) p.opening
    (p.assignment declared)
  have hsecond := TokenStream.setValue?_append
    (left ++ (p.head ++ (p.pre ++ p.doc)) ++ [p.opening.withValue (p.assignment declared)])
    (p.rest ++ (p.post ++ (p.answer ++ (p.foot ++ p.after)))) p.name "function"
  have hsplit : p.withBefore left = (left ++ (p.head ++ (p.pre ++ p.doc))) ++ p.opening ::
      (p.name :: (p.rest ++ (p.post ++ (p.answer ++ (p.foot ++ p.after))))) := by
    simp [withBefore, ctor]
  change ((p.withBefore left).setValue? (p.ctorIndex left) (p.assignment declared)).bind
    (·.setValue? (p.ctorIndex left + 1) "function") = _
  rw [hsplit, ctorIndex, hfirst, Option.bind_some, headed_eq]
  generalize left ++ (p.head ++ (p.pre ++ p.doc)) = front at hsecond ⊢
  simpa using hsecond

/-- The constructor is where its identity says, as no other token has it. -/
private theorem indexOf?_opening (hplaced : p.stream.Placed text) :
    p.stream.indexOf? p.found.token = some p.upTo.length := by
  rw [stream_eq]
  refine TokenStream.indexOf?_append fun u hu heq => ?_
  have hnodup := hplaced.ids_nodup
  rw [stream_eq, List.map_append, List.map_cons] at hnodup
  exact (List.nodup_append.mp hnodup).2.2 u.id (List.mem_map_of_mem hu) p.opening.id
    List.mem_cons_self heq

/-- The lines marked for a class: its head, the closing line with the two above it, and that of a
variable statement of its own. -/
def marksOf (marked : MarkedLines) (first f : Token) (line : Nat) : MarkedLines :=
  ((marked.markRange (f.line - 2) f.line).mark first.line).mark line

/-- Unwrapping a class that is laid out answers the parts in their new order, with the head and the
answer still on their lines, which are marked. -/
theorem LaidOut.unwrap_eq (h : p.LaidOut column) (hplaced : p.stream.Placed text)
    {kept : List Token} {declared : Bool}
    (hbefore : ClassWrapper.Undeclares column p.className p.before kept declared)
    {first f : Token} (hfirst : p.head.head? = some first) (hf : p.foot.head? = some f)
    (marked : MarkedLines) :
    ∃ (left headLeft answerLeft : List Token) (line : Nat),
      (ClassWrapper.unwrap p.stream marked p.found).outcome =
        .ok ⟨left ++ (headLeft ++ (p.liftedBody (p.assignment declared) ++ (answerLeft ++
          (p.foot ++ p.after)))),
          marksOf marked first f line, true⟩ ∧
      headLeft.map Token.line = p.head.map Token.line ∧
      answerLeft.map Token.line = p.answer.map Token.line ∧
      left.map Token.line ⊆ p.before.map Token.line ∧
      (line = 0 ∨ line ∈ p.before.map Token.line) ∧ left.filter (fun t => t.line != line) = kept := by
  have hlines := h.ascends hplaced
  obtain ⟨headRest, hhead⟩ : ∃ headRest, p.head = first :: headRest :=
    List.head?_eq_some_iff.mp hfirst
  obtain ⟨footRest, hfoot⟩ : ∃ footRest, p.foot = f :: footRest := List.head?_eq_some_iff.mp hf
  have hopening : p.stream[(p.wrapper column).start]? = some first := by
    simp [stream, wrapper, hhead]
  have hclosing : p.stream[(p.wrapper column).stop]? = some f := by
    rw [stream_eq, hfoot, wrapper, ← List.cons_append, ← List.append_assoc]
    simp
  have hafter : ∀ u ∈ (p.head ++ (p.pre ++ (p.doc ++ (p.ctor ++ (p.post ++ (p.answer ++
      (p.foot ++ p.after))))))).head?, ∀ t ∈ p.before, u.line ≠ t.line := by
    intro u hu t ht
    simp only [hhead, List.cons_append, List.head?_cons, Option.mem_def, Option.some.injEq] at hu
    subst hu
    exact (hlines.before_head t ht first (by simp [hhead])).ne'
  obtain ⟨left, line, removed, hremove, hsome, hlength, hleft, hline, hkept⟩ :=
    hbefore.removeDeclarator (c := p.found) hplaced hafter
      ((marked.markRange (f.line - 2) f.line).mark first.line)
  obtain ⟨headLeft, answerLeft, hheadLeft, hanswerLeft, hadapt⟩ :=
    h.adaptBetween?_eq hplaced left (p.assignment declared)
  refine ⟨left, headLeft, answerLeft, line, ?_, hheadLeft, hanswerLeft, hleft, hline, hkept⟩
  have hbodyLength : (p.body (p.assignment declared)).length = p.middle.length := by
    simp only [body, middle, newCtor, ctor, List.length_append, List.length_cons]
    omega
  -- The indices were taken before the declarator went; they move back by what it was.
  have hctorIndex : Token.checkedSub p.upTo.length (removed.getD 0) = some (p.ctorIndex left) := by
    refine Token.checkedSub_eq_some_iff.mpr ?_
    simp only [upTo, ctorIndex, List.length_append]
    omega
  have hstart : Token.checkedSub (p.wrapper column).start (removed.getD 0) = some left.length := by
    refine Token.checkedSub_eq_some_iff.mpr ?_
    simp only [wrapper]
    omega
  have hstop : Token.checkedSub (p.wrapper column).stop (removed.getD 0) =
      some (left ++ (p.head ++ (p.body (p.assignment declared) ++ p.answer))).length := by
    refine Token.checkedSub_eq_some_iff.mpr ?_
    simp only [wrapper, upTo, inner, middle, ctor, hbodyLength, List.length_append,
      List.length_cons]
    omega
  unfold ClassWrapper.unwrap
  simp only [indexOf?_opening hplaced, h.locate?_eq]
  unfold ClassWrapper.unwrapAt
  simp only [Traced.bind_outcome_eq_ok_iff, Traced.ofEdit_outcome_eq_ok_iff, Traced.ofExcept_outcome]
  refine ⟨first, hopening, f, hclosing, ⟨p.withBefore left, _, removed⟩, ?_, p.ctorIndex left,
    hctorIndex, left.length, hstart, _, hstop, _, ?_, _,
    h.leadWithConstructor_eq left (p.assignment declared) hlines _, _, hadapt, (), rfl, rfl⟩
  · have htake : p.stream.take (p.wrapper column).start = p.before := List.take_left
    rw [htake]
    exact hremove
  · rw [hsome]
    exact p.writeHead?_eq column left declared

/-! ### The marked lines -/

section Marks

variable {marked : MarkedLines} {first f : Token} {line : Nat}

private theorem contains_marksOf {l : Nat} :
    (marksOf marked first f line).contains l = true ↔ marked.contains l = true ∨
      (0 < l ∧ ((f.line - 2 ≤ l ∧ l ≤ f.line) ∨ l = first.line ∨ l = line)) := by
  unfold marksOf
  rw [MarkedLines.contains_mark, MarkedLines.contains_mark, MarkedLines.contains_markRange]
  tauto

private theorem keep_marksOf {ts : List Token}
    (h : ∀ t ∈ ts, (t.line < f.line - 2 ∨ f.line < t.line) ∧ t.line ≠ first.line ∧ t.line ≠ line) :
    MarkedLineRemoval.keep (marksOf marked first f line) ts = MarkedLineRemoval.keep marked ts := by
  refine MarkedLineRemoval.keep_congr fun t ht => contains_marksOf.trans (or_iff_left ?_)
  have := h t ht
  omega

private theorem keep_marksOf_eq_nil {ts : List Token} (h : ∀ t ∈ ts, 0 < t.line ∧
      (f.line ≤ t.line + 2 ∧ t.line ≤ f.line ∨ t.line = first.line)) :
    MarkedLineRemoval.keep (marksOf marked first f line) ts = [] := by
  refine MarkedLineRemoval.keep_eq_nil fun t ht => contains_marksOf.mpr (Or.inr ?_)
  obtain ⟨hpos, hline⟩ := h t ht
  exact ⟨hpos, by omega⟩

/-- Of tokens above the head, those on the line of the variable statement go. -/
private theorem keep_marksOf_above {ts : List Token}
    (h : ∀ t ∈ ts, 0 < t.line ∧ t.line < first.line) (hfoot : first.line + 2 < f.line) :
    MarkedLineRemoval.keep (marksOf marked first f line) ts =
      MarkedLineRemoval.keep marked (ts.filter fun t => t.line != line) := by
  unfold MarkedLineRemoval.keep
  rw [List.filter_filter]
  refine List.filter_congr fun t ht => ?_
  obtain ⟨hpos, habove⟩ := h t ht
  rw [Bool.eq_iff_iff]
  simp only [Bool.not_eq_true', Bool.and_eq_true, bne_iff_ne, ← Bool.not_eq_true]
  rw [contains_marksOf]
  constructor
  · intro hnot
    exact ⟨fun hmarked => hnot (Or.inl hmarked), fun hsole => hnot (Or.inr ⟨hpos, by omega⟩)⟩
  · rintro ⟨hfree, hother⟩ (hmarked | ⟨-, hmarked⟩)
    · exact hfree hmarked
    · omega

end Marks

private theorem LaidOut.keep_eq (h : p.LaidOut column) (hplaced : p.stream.Placed text)
    {first f : Token} (hfirst : first ∈ p.head) (hf : f ∈ p.foot)
    {left headLeft answerLeft : List Token} {line : Nat} (assignment : String)
    (hheadLeft : headLeft.map Token.line = p.head.map Token.line)
    (hanswerLeft : answerLeft.map Token.line = p.answer.map Token.line)
    (hleft : left.map Token.line ⊆ p.before.map Token.line)
    (hline : line = 0 ∨ line ∈ p.before.map Token.line) (marked : MarkedLines) :
    MarkedLineRemoval.keep (marksOf marked first f line)
        (left ++ (headLeft ++ (p.liftedBody assignment ++ (answerLeft ++ (p.foot ++ p.after))))) =
      MarkedLineRemoval.keep marked (left.filter (fun t => t.line != line) ++
        (p.liftedBody assignment ++ p.after)) := by
  have hlines := h.ascends hplaced
  have hpos : ∀ {t : Token}, t ∈ p.stream → 0 < t.line := fun ht => hplaced.line_pos ht
  have hopening : p.opening ∈ p.middle := by simp [middle, ctor]
  have hfoot : first.line + 2 < f.line := by
    have habove := hlines.head_middle first hfirst p.opening hopening
    have hbelow := h.body_above p.opening hopening f hf
    omega
  -- The line of a removed declarator is above the head.
  have hlineAbove : line < first.line := by
    rcases hline with rfl | hline
    · exact hpos (by simp [stream, hfirst])
    · obtain ⟨t, ht, rfl⟩ := List.mem_map.mp hline
      exact hlines.before_head t ht first hfirst
  have hbeforeKept : MarkedLineRemoval.keep (marksOf marked first f line) left =
      MarkedLineRemoval.keep marked (left.filter fun t => t.line != line) := by
    refine keep_marksOf_above (fun t ht => ?_) hfoot
    obtain ⟨u, hu, hsame⟩ := List.mem_map.mp (hleft (List.mem_map_of_mem ht))
    rw [← hsame]
    exact ⟨hpos (by simp [stream, hu]), hlines.before_head u hu first hfirst⟩
  have hheadGone : MarkedLineRemoval.keep (marksOf marked first f line) headLeft = [] := by
    refine keep_marksOf_eq_nil fun t ht => ?_
    obtain ⟨u, hu, hsame⟩ := List.mem_map.mp (hheadLeft ▸ List.mem_map_of_mem ht)
    rw [← hsame]
    exact ⟨hpos (by simp [stream, hu]), Or.inr (h.head_line.same_line hu hfirst)⟩
  have hbodyKept : MarkedLineRemoval.keep (marksOf marked first f line) (p.liftedBody assignment) =
      MarkedLineRemoval.keep marked (p.liftedBody assignment) := by
    have hmap : (p.liftedBody assignment).map Token.line = (p.body assignment).map Token.line :=
      ClassWrapper.lifted_lines
    refine keep_marksOf fun t ht => ?_
    obtain ⟨u, hu, hsame⟩ := List.mem_map.mp (hmap ▸ List.mem_map_of_mem ht)
    obtain ⟨v, hv, hregion, -⟩ := body_place hu
    have hvline : u.line = v.line := congrArg (·.start.line) hregion
    have habove := hlines.head_middle first hfirst v hv
    have hbelow := h.body_above v hv f hf
    omega
  have hanswerGone : MarkedLineRemoval.keep (marksOf marked first f line) answerLeft = [] := by
    refine keep_marksOf_eq_nil fun t ht => ?_
    obtain ⟨u, hu, hsame⟩ := List.mem_map.mp (hanswerLeft ▸ List.mem_map_of_mem ht)
    rw [← hsame]
    refine ⟨hpos (by simp [stream, hu]), Or.inl ⟨h.answer_near u hu f hf, ?_⟩⟩
    exact (hlines.answer_foot u hu f hf).le
  have hfootGone : MarkedLineRemoval.keep (marksOf marked first f line) p.foot = [] := by
    refine keep_marksOf_eq_nil fun t ht => ⟨hpos (by simp [stream, ht]), Or.inl ?_⟩
    rw [h.foot_line.same_line ht hf]
    exact ⟨Nat.le_add_right _ _, Nat.le_refl _⟩
  have hafterKept : MarkedLineRemoval.keep (marksOf marked first f line) p.after =
      MarkedLineRemoval.keep marked p.after := by
    refine keep_marksOf fun t ht => ?_
    have hbelow := hlines.foot_after f hf t ht
    omega
  simp only [MarkedLineRemoval.keep, List.filter_append] at *
  rw [hbeforeKept, hheadGone, hbodyKept, hanswerGone, hfootGone, hafterKept]
  simp

end ClassParts

/-- A class that is laid out as the compiler writes it is unwrapped, whatever stands around it and in its
body.  Once the marked lines are gone, what is left is the source without the head, the answer, the
closing line and the declarator of the class: first the constructor with its comment, assigned to the
class, then the rest of the body in order, all a level further left, with the full name of the class for
its name and the parent for the parameter. -/
theorem class_unwrapped {text : List Char} {p : ClassParts} {column : Nat} {kept : List Token}
    {declared : Bool} {w : Workspace} (hplaced : p.stream.Placed text) (hlayout : p.LaidOut column)
    (hbefore : ClassWrapper.Undeclares column p.className p.before kept declared)
    (hw : w.stream = p.stream) :
    ∃ r r', (ClassWrapper.run w).outcome = .ok r ∧ r.modified = true ∧
      (MarkedLineRemoval.run r.workspace).outcome = .ok r' ∧
      r'.workspace.stream = MarkedLineRemoval.keep w.marked
        (kept ++ (ClassWrapper.lifted (ClassWrapper.joinValues p.qualifier) p.className
          (ClassWrapper.joinValues p.parent) (fun _ => indentUnit) false
            (p.doc ++ (p.opening.withValue (p.assignment declared) :: p.name.withValue "function" ::
              p.rest ++ (p.pre ++ p.post))) ++ p.after)) := by
  obtain ⟨first, headRest, hhead⟩ := List.exists_cons_of_ne_nil hlayout.head_line.ne_nil
  obtain ⟨f, footRest, hfoot⟩ := List.exists_cons_of_ne_nil hlayout.foot_line.ne_nil
  have hfirst : p.head.head? = some first := by rw [hhead]; rfl
  have hclose : p.foot.head? = some f := by rw [hfoot]; rfl
  obtain ⟨left, headLeft, answerLeft, line, hunwrap, hheadLeft, hanswerLeft, hleft, hline, hkept⟩ :=
    hlayout.unwrap_eq hplaced hbefore hfirst hclose w.marked
  have hrun : (ClassWrapper.run w).outcome = .ok
      ⟨{ w with
        stream := left ++ (headLeft ++ (p.liftedBody (p.assignment declared) ++ (answerLeft ++
          (p.foot ++ p.after))))
        marked := ClassParts.marksOf w.marked first f line }, true⟩ := by
    unfold ClassWrapper.run
    rw [hw, hlayout.only]
    refine Traced.bind_outcome_eq_ok_iff.mpr ⟨⟨_, _, true⟩, ?_, rfl⟩
    unfold ClassWrapper.unwrapAll
    exact Traced.bind_outcome_eq_ok_iff.mpr ⟨_, hunwrap, rfl⟩
  obtain ⟨r', hr', hworkspace⟩ := MarkedLineRemoval.run_succeeds
    { w with
      stream := left ++ (headLeft ++ (p.liftedBody (p.assignment declared) ++ (answerLeft ++
        (p.foot ++ p.after))))
      marked := ClassParts.marksOf w.marked first f line }
  refine ⟨_, r', hrun, rfl, hr', ?_⟩
  rw [hworkspace]
  refine (hlayout.keep_eq hplaced (by simp [hhead]) (by simp [hfoot]) _ hheadLeft hanswerLeft hleft
    hline w.marked).trans ?_
  rw [hkept]
  rfl

/-- A class of a namespace with a parent, whose constructor has a comment and stands below another
statement. -/
theorem class_unwrapped_constructor_below :
    ∃ parsed, ParsedSource.parse .script
        "a();\nui.F = (function(_super) \x7b\n  x();\n\n  /* d */\n  function F() \x7b\x7d\n\n  F.y = _super;\n\n  return F;\n\n\x7d)(B);\nz();\n" =
          .ok parsed ∧
      ∃ r r', (ClassWrapper.run (.start parsed.tree parsed.stream)).outcome = .ok r ∧
        r.modified = true ∧ (MarkedLineRemoval.run r.workspace).outcome = .ok r' ∧
        r'.workspace.stream.map Token.value =
          ["a", "(", ")", ";", " d ", "ui.F =", "function", "(", ")", "\x7b", "\x7d", "x", "(", ")", ";",
            "ui.F", ".", "y", "=", "B", ";", "z", "(", ")", ";"] := by
  have hparts : ((ParsedSource.parse .script
      "a();\nui.F = (function(_super) \x7b\n  x();\n\n  /* d */\n  function F() \x7b\x7d\n\n  F.y = _super;\n\n  return F;\n\n\x7d)(B);\nz();\n").toOption.any
        fun parsed => (ClassParts.cut? 4 2 7 4 1 4 6 1 parsed.stream).any fun p =>
          decide (parsed.stream = p.stream ∧ p.LaidOut 0 ∧ ClassWrapper.Silent p.className p.before ∧
            (MarkedLineRemoval.keep .empty
              (p.before ++ (p.liftedBody (p.assignment false) ++ p.after))).map Token.value =
              ["a", "(", ")", ";", " d ", "ui.F =", "function", "(", ")", "\x7b", "\x7d", "x", "(", ")",
                ";", "ui.F", ".", "y", "=", "B", ";", "z", "(", ")", ";"])) = true := by
    decide +kernel
  obtain ⟨parsed, hparse, hparts⟩ := (Option.any_eq_true _ _).mp hparts
  obtain ⟨p, -, hparts⟩ := (Option.any_eq_true _ _).mp hparts
  obtain ⟨hstream, hlayout, hsilent, hvalues⟩ := of_decide_eq_true hparts
  have hok := except_eq_ok_of_toOption hparse
  have hbefore : ClassWrapper.Undeclares 0 p.className p.before p.before false :=
    @ClassWrapper.Undeclares.absent 0 p.className [] p.before (by simp)
      (fun t _ => Nat.zero_le t.column) hsilent
  obtain ⟨r, r', hrun, hmodified, hremoved, hfinal⟩ :=
    class_unwrapped (w := .start parsed.tree parsed.stream)
      (hstream ▸ ParsedSource.stream_placed hok) hlayout hbefore hstream
  exact ⟨parsed, hok, r, r', hrun, hmodified, hremoved, (congrArg _ hfinal).trans hvalues⟩

end ClosureReady
