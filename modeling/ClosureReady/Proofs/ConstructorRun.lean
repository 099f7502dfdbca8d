import ClosureReady.Proofs.Brackets
import ClosureReady.Proofs.ConstructorFirst

/-!
The run that moves to the front of a class body.  It starts with the constructor and a block comment
right before it, and goes on to the next token in the constructor's column.  A function whose inner
tokens are all right of that column is taken whole, but the run ends with it only if its closing brace
is in the column itself, or the next token is and is neither punctuation nor reads like a brace: the
token that ends the run is taken along when it could be the closing brace.
-/

set_option autoImplicit false
set_option relaxedAutoImplicit false

namespace ClosureReady

namespace TokenStream

/-- The tokens from one index up to another. -/
def between (s : TokenStream) (a b : Nat) : TokenStream := (s.drop a).take (b - a)

variable {s : TokenStream} {a m b : Nat}

theorem between_append (ham : a ≤ m) (hmb : m ≤ b) : s.between a b = s.between a m ++ s.between m b := by
  have hcount : b - a = (m - a) + (b - m) := by omega
  rw [between, between, between, hcount, List.take_add, List.drop_drop, Nat.add_sub_cancel' ham]

theorem between_cons {t : Token} (ht : s[a]? = some t) (hab : a < b) :
    s.between a b = t :: s.between (a + 1) b := by
  obtain ⟨ha, rfl⟩ := List.getElem?_eq_some_iff.mp ht
  have hcount : b - a = (b - (a + 1)) + 1 := by omega
  rw [between, between, List.drop_eq_getElem_cons ha, hcount, List.take_succ_cons]

theorem between_self (s : TokenStream) (a : Nat) : s.between a a = [] := by
  rw [between, Nat.sub_self, List.take_zero]

theorem between_single {t : Token} (ht : s[a]? = some t) : s.between a (a + 1) = [t] := by
  rw [between_cons ht (Nat.lt_succ_self a), between_self]

/-- Some tokens, one more, and the rest. -/
theorem between_parts {t : Token} (ht : s[m]? = some t) (ham : a ≤ m) (hmb : m < b) :
    s.between a b = s.between a m ++ t :: s.between (m + 1) b := by
  rw [between_append ham hmb.le, between_cons ht hmb]

end TokenStream

namespace ClassWrapper

/-! ### The end of the run -/

/-- What a run takes of the tokens after the one it is made for: all up to the next one in a column, and
that one if it is punctuation or reads like a closing brace. -/
def runTail (column : Nat) : List Token → List Token
  | [] => []
  | t :: ts =>
    if t.column == column then
      if t.kind == .punctuator || t.value == "\x7d" then [t] else []
    else t :: runTail column ts

theorem runTail_append {column : Nat} {ts us : List Token} (h : ∀ t ∈ ts, t.column ≠ column) :
    runTail column (ts ++ us) = ts ++ runTail column us := by
  induction ts with
  | nil => rfl
  | cons t ts ih =>
    obtain ⟨ht, hts⟩ := List.forall_mem_cons.mp h
    rw [List.cons_append, runTail, if_neg (by simpa using ht), ih hts]
    rfl

theorem runTail_eq_nil_iff {column : Nat} {ts : List Token} :
    runTail column ts = [] ↔
      ∀ t ∈ ts.head?, t.column = column ∧ t.kind ≠ .punctuator ∧ t.value ≠ "\x7d" := by
  cases ts with
  | nil => simp [runTail]
  | cons t ts =>
    rw [runTail]
    by_cases hcolumn : t.column = column
    · by_cases hkind : t.kind = .punctuator
      · simp [hcolumn, hkind]
      · by_cases hvalue : t.value = "\x7d"
        · simp [hcolumn, hvalue]
        · simp [hcolumn, hkind, hvalue]
    · simp [hcolumn]

/-- The tail of a run by the index of the next token in the column. -/
theorem runTail_eq_take (column : Nat) (ts : List Token) :
    runTail column ts = ts.take (match ts.findIdx? fun t => t.column == column with
      | none => ts.length
      | some j => if (ts[j]?.map fun t => t.kind == .punctuator || t.value == "\x7d").getD false = true
          then j + 1 else j) := by
  induction ts with
  | nil => rfl
  | cons t ts ih =>
    rw [runTail, List.findIdx?_cons]
    by_cases hcolumn : (t.column == column) = true
    · rw [if_pos hcolumn, if_pos hcolumn]
      dsimp only
      rw [List.getElem?_cons_zero]
      dsimp only [Option.map_some, Option.getD_some]
      split <;> rfl
    · rw [if_neg hcolumn, if_neg hcolumn, ih]
      cases hnext : ts.findIdx? fun t => t.column == column with
      | none => simp
      | some j =>
        dsimp only [Option.map_some]
        rw [List.getElem?_cons_succ]
        split <;> rfl

/-- The block comment right before a token, if there is one. -/
def attachedComment (s : TokenStream) (i : Nat) : List Token :=
  ((s.take i).getLast?.filter fun t => t.kind == .blockComment).toList

theorem between_runStart {s : TokenStream} {i : Nat} (hi : i ≤ s.length) :
    s.between (runStart s i) i = attachedComment s i := by
  rw [attachedComment, runStart]
  cases i with
  | zero => simp [TokenStream.between_self]
  | succ i =>
    have hget := List.getElem?_eq_getElem (show i < s.length from hi)
    rw [Nat.add_sub_cancel, List.take_succ_eq_append_getElem hi, List.getLast?_concat, hget]
    by_cases hkind : s[i].kind = .blockComment
    · rw [if_pos (by simp [hkind]), TokenStream.between_single hget]
      simp [Option.filter, hkind]
    · rw [if_neg (by simp [hkind]), TokenStream.between_self]
      simp [hkind]

theorem attachedComment_balanced (s : TokenStream) (i : Nat) :
    TokenStream.Balanced bracketPairs (attachedComment s i) := by
  refine TokenStream.balanced_of_kind fun t ht => ?_
  have hkind := (Option.filter_eq_some_iff.mp (Option.mem_toList.mp ht)).2
  have hkind : t.kind = .blockComment := by simpa using hkind
  simp [hkind]

/-- The tokens of a run: the comment, the constructor, and the tail. -/
theorem constructorRun?_tokens {s : TokenStream} {i firstInBody : Nat} {run : IndexRange}
    {opening : Token} (hopening : s[i]? = some opening)
    (h : constructorRun? s i firstInBody opening.column = some run) :
    s.between run.start run.stop =
      attachedComment s i ++ opening :: runTail opening.column (s.drop (i + 1)) := by
  have hi := (List.getElem?_eq_some_iff.mp hopening).1
  have hbounds := constructorRun?_bounds h hi
  have htail : s.between (i + 1) run.stop = runTail opening.column (s.drop (i + 1)) := by
    rw [runTail_eq_take, TokenStream.between]
    congr 1
    rw [constructorRun?] at h
    change (if runStart s i ≤ firstInBody then none else _) = some run at h
    split at h
    · simp at h
    · rw [nextIndex?] at h
      cases hnext : (s.drop (i + 1)).findIdx? fun t => t.column == opening.column with
      | none =>
        rw [hnext] at h
        rw [← Option.some.inj h, List.length_drop]
      | some j =>
        rw [hnext] at h
        rw [← Option.some.inj h]
        dsimp only
        rw [List.getElem?_drop]
        split <;> omega
  rw [TokenStream.between_parts hopening hbounds.2.1 hbounds.2.2.1, htail, constructorRun?_start h,
    between_runStart hi.le]

/-! ### Functions -/

/-- Where the parts of a function declaration are in a stream. -/
structure FunctionPlace where
  opening : Nat
  paren : Nat
  parenEnd : Nat
  brace : Nat
  close : Nat
  deriving DecidableEq, Repr, Inhabited

namespace FunctionPlace

/-- A function declaration from its keyword to its closing brace: the keyword and the name, parameters
in parentheses and the body in braces, with nothing but comments between these parts. -/
structure IsFunction (f : FunctionPlace) (s : TokenStream) : Prop where
  keyword : ∃ t ∈ s[f.opening]?, t.kind = .keyword
  name : ∃ t ∈ s[f.opening + 1]?, t.kind = .identifier
  beforeParen : f.opening + 2 ≤ f.paren ∧ ∀ t ∈ s.between (f.opening + 2) f.paren, t.kind.isComment = true
  paren : ∃ t ∈ s[f.paren]?, t.isPunctuator "(" = true
  parameters : f.paren < f.parenEnd ∧
    TokenStream.Balanced bracketPairs (s.between (f.paren + 1) f.parenEnd)
  parenEnd : ∃ t ∈ s[f.parenEnd]?, t.isPunctuator ")" = true
  beforeBrace : f.parenEnd < f.brace ∧ ∀ t ∈ s.between (f.parenEnd + 1) f.brace, t.kind.isComment = true
  brace : ∃ t ∈ s[f.brace]?, t.isPunctuator "\x7b" = true
  body : f.brace < f.close ∧ TokenStream.Balanced bracketPairs (s.between (f.brace + 1) f.close)
  close : ∃ t ∈ s[f.close]?, t.isPunctuator "\x7d" = true

instance (f : FunctionPlace) (s : TokenStream) : Decidable (f.IsFunction s) :=
  decidable_of_iff
    ((∃ t ∈ s[f.opening]?, t.kind = .keyword) ∧ (∃ t ∈ s[f.opening + 1]?, t.kind = .identifier) ∧
      (f.opening + 2 ≤ f.paren ∧
        ∀ t ∈ s.between (f.opening + 2) f.paren, t.kind.isComment = true) ∧
      (∃ t ∈ s[f.paren]?, t.isPunctuator "(" = true) ∧
      (f.paren < f.parenEnd ∧
        TokenStream.Balanced bracketPairs (s.between (f.paren + 1) f.parenEnd)) ∧
      (∃ t ∈ s[f.parenEnd]?, t.isPunctuator ")" = true) ∧
      (f.parenEnd < f.brace ∧
        ∀ t ∈ s.between (f.parenEnd + 1) f.brace, t.kind.isComment = true) ∧
      (∃ t ∈ s[f.brace]?, t.isPunctuator "\x7b" = true) ∧
      (f.brace < f.close ∧ TokenStream.Balanced bracketPairs (s.between (f.brace + 1) f.close)) ∧
      ∃ t ∈ s[f.close]?, t.isPunctuator "\x7d" = true)
    ⟨fun ⟨h₁, h₂, h₃, h₄, h₅, h₆, h₇, h₈, h₉, h₁₀⟩ => ⟨h₁, h₂, h₃, h₄, h₅, h₆, h₇, h₈, h₉, h₁₀⟩,
      fun ⟨h₁, h₂, h₃, h₄, h₅, h₆, h₇, h₈, h₉, h₁₀⟩ => ⟨h₁, h₂, h₃, h₄, h₅, h₆, h₇, h₈, h₉, h₁₀⟩⟩

/-- The tokens of the function. -/
def tokens (f : FunctionPlace) (s : TokenStream) : List Token := s.between f.opening (f.close + 1)

/-- The tokens between the keyword and the closing brace. -/
def inner (f : FunctionPlace) (s : TokenStream) : List Token := s.between (f.opening + 1) f.close

variable {f : FunctionPlace} {s : TokenStream}

theorem IsFunction.opening_lt_close (h : f.IsFunction s) : f.opening < f.close := by
  have := h.beforeParen.1
  have := h.parameters.1
  have := h.beforeBrace.1
  have := h.body.1
  omega

private theorem not_punctuator_of_isComment {t : Token} (h : t.kind.isComment = true) :
    t.kind ≠ .punctuator := by
  intro hkind
  simp [hkind, TokenKind.isComment] at h

/-- Every bracket of a function has its partner. -/
theorem IsFunction.balanced (h : f.IsFunction s) :
    TokenStream.Balanced bracketPairs (f.tokens s) := by
  obtain ⟨⟨keyword, hkeyword, hkeywordKind⟩, ⟨name, hname, hnameKind⟩, ⟨hparen, hgap⟩,
    ⟨paren, hparenGet, hparenSign⟩, ⟨hparenEnd, hparameters⟩, ⟨parenEnd, hparenEndGet, hparenEndSign⟩,
    ⟨hbrace, hgap'⟩, ⟨brace, hbraceGet, hbraceSign⟩, ⟨hclose, hbody⟩, ⟨close, hcloseGet, hcloseSign⟩⟩ := h
  have hsplit : f.tokens s = keyword :: name :: (s.between (f.opening + 2) f.paren ++
      ((paren :: (s.between (f.paren + 1) f.parenEnd ++ [parenEnd])) ++
        (s.between (f.parenEnd + 1) f.brace ++
          (brace :: (s.between (f.brace + 1) f.close ++ [close]))))) := by
    rw [tokens, TokenStream.between_cons hkeyword (by omega),
      TokenStream.between_cons hname (by omega), TokenStream.between_parts hparenGet hparen (by omega),
      TokenStream.between_parts hparenEndGet (show f.paren + 1 ≤ f.parenEnd from hparenEnd) (by omega),
      TokenStream.between_parts hbraceGet (show f.parenEnd + 1 ≤ f.brace from hbrace) (by omega),
      TokenStream.between_append (show f.brace + 1 ≤ f.close from hclose) (Nat.le_succ _),
      TokenStream.between_single hcloseGet]
    simp
  rw [hsplit]
  have hhead : TokenStream.Balanced bracketPairs [keyword, name] := by
    refine TokenStream.balanced_of_kind ?_
    simp [hkeywordKind, hnameKind]
  have hlist := hparameters.within (b := ("(", ")")) (by simp [bracketPairs]) hparenSign hparenEndSign
  have hblock := hbody.within (b := ("\x7b", "\x7d")) (by simp [bracketPairs]) hbraceSign hcloseSign
  have hcomments : ∀ {ts : List Token}, (∀ t ∈ ts, t.kind.isComment = true) →
      TokenStream.Balanced bracketPairs ts := by
    intro ts hts
    exact TokenStream.balanced_of_kind fun t ht => not_punctuator_of_isComment (hts t ht)
  have hfirst := hcomments hgap
  have hsecond := hcomments hgap'
  exact hhead.append (hfirst.append (hlist.append (hsecond.append hblock)))

theorem tokens_eq {opening close : Token} (hopening : s[f.opening]? = some opening)
    (hclose : s[f.close]? = some close) (hlt : f.opening < f.close) :
    f.tokens s = opening :: (f.inner s ++ [close]) := by
  rw [tokens, TokenStream.between_cons hopening (by omega),
    TokenStream.between_append (show f.opening + 1 ≤ f.close from hlt) (Nat.le_succ _),
    TokenStream.between_single hclose, inner]

end FunctionPlace

/-! ### The run of a class -/

/-- The run that moves, and the index it moves to; nothing where the constructor already leads. -/
def relocation? (s : TokenStream) (i start : Nat) : Option (IndexRange × Nat) :=
  s[start]?.bind fun head => s[i]?.bind fun opening =>
    (nextIndex? (fun t => t.line != head.line) start s).bind fun first =>
      (constructorRun? s i first opening.column).map fun run => (run, first)

theorem relocation?_eq_some {s : TokenStream} {i start target : Nat} {run : IndexRange}
    (h : relocation? s i start = some (run, target)) :
    ∃ head opening, s[start]? = some head ∧ s[i]? = some opening ∧
      nextIndex? (fun t => t.line != head.line) start s = some target ∧
      constructorRun? s i target opening.column = some run := by
  obtain ⟨head, hhead, h⟩ := Option.bind_eq_some_iff.mp h
  obtain ⟨opening, hopening, h⟩ := Option.bind_eq_some_iff.mp h
  obtain ⟨first, hfirst, h⟩ := Option.bind_eq_some_iff.mp h
  obtain ⟨run', hrun, hpair⟩ := Option.map_eq_some_iff.mp h
  obtain ⟨rfl, rfl⟩ := Prod.mk.inj hpair
  exact ⟨head, opening, hhead, hopening, hfirst, hrun⟩

/-- Moving the run swaps it with what stands between it and the line of the head. -/
theorem leadWithConstructor_of_relocation {s : TokenStream} {i start target : Nat} {run : IndexRange}
    (h : relocation? s i start = some (run, target)) (c : Constructor) :
    (leadWithConstructor s i start c).outcome = .ok (s.take target ++ s.between run.start run.stop ++
      s.between target run.start ++ s.drop run.stop) := by
  obtain ⟨head, opening, hhead, hopening, hfirst, hrun⟩ := relocation?_eq_some h
  have hbounds := constructorRun?_bounds hrun (List.getElem?_eq_some_iff.mp hopening).1
  simp only [leadWithConstructor, Traced.bind_outcome, hhead, hopening, Traced.ofEdit_outcome,
    Except.bind, hfirst, hrun, Traced.tell_outcome, TokenStream.relocate?]
  rw [if_pos (by omega), List.drop_take, List.drop_take]
  rfl

/-- What a run takes after a function all of whose inner tokens are right of the column. -/
def afterFunction (s : TokenStream) (f : FunctionPlace) (opening close : Token) : List Token :=
  if close.column = opening.column then [] else runTail opening.column (s.drop (f.close + 1))

theorem afterFunction_eq_nil_iff {s : TokenStream} {f : FunctionPlace} {opening close : Token} :
    afterFunction s f opening close = [] ↔ close.column = opening.column ∨
      ∀ t ∈ s[f.close + 1]?, t.column = opening.column ∧ t.kind ≠ .punctuator ∧ t.value ≠ "\x7d" := by
  rw [afterFunction]
  by_cases hcolumn : close.column = opening.column
  · rw [if_pos hcolumn]
    exact iff_of_true rfl (Or.inl hcolumn)
  · rw [if_neg hcolumn, runTail_eq_nil_iff, List.head?_drop, or_iff_right hcolumn]

/-- A run takes the function that opens it whole. -/
theorem constructorRun?_function {s : TokenStream} {f : FunctionPlace} {firstInBody : Nat}
    {run : IndexRange} {opening close : Token} (hopening : s[f.opening]? = some opening)
    (hclose : s[f.close]? = some close) (hf : f.IsFunction s)
    (hdeeper : ∀ t ∈ f.inner s, opening.column < t.column)
    (h : constructorRun? s f.opening firstInBody opening.column = some run) :
    s.between run.start run.stop =
      attachedComment s f.opening ++ (f.tokens s ++ afterFunction s f opening close) := by
  have hlt := hf.opening_lt_close
  have hrest : s.drop (f.opening + 1) = f.inner s ++ close :: s.drop (f.close + 1) := by
    obtain ⟨hvalid, rfl⟩ := List.getElem?_eq_some_iff.mp hclose
    rw [FunctionPlace.inner, TokenStream.between, ← List.drop_eq_getElem_cons hvalid]
    conv_lhs => rw [← List.take_append_drop (f.close - (f.opening + 1)) (s.drop (f.opening + 1))]
    rw [List.drop_drop]
    congr 2
    omega
  have hkind : close.kind = .punctuator := by
    obtain ⟨t, ht, hsign⟩ := hf.close
    obtain rfl := Option.some.inj (hclose.symm.trans ht)
    simp only [Token.isPunctuator, Bool.and_eq_true, beq_iff_eq] at hsign
    exact hsign.1
  have htail : runTail opening.column (close :: s.drop (f.close + 1)) =
      close :: afterFunction s f opening close := by
    rw [runTail, afterFunction]
    by_cases hcolumn : close.column = opening.column
    · rw [if_pos (by simpa using hcolumn), if_pos (by simp [hkind]), if_pos hcolumn]
    · rw [if_neg (by simpa using hcolumn), if_neg hcolumn]
  have hright : ∀ t ∈ f.inner s, t.column ≠ opening.column := fun t ht => (hdeeper t ht).ne'
  rw [constructorRun?_tokens hopening h, hrest, runTail_append hright, htail,
    FunctionPlace.tokens_eq hopening hclose hlt]
  simp

end ClassWrapper

/-- The run that is moved for a class is the constructor's function with the comment before it, followed
by what comes before the next token in the constructor's column and, if that is punctuation or reads
like a closing brace, by that token.  So it is the function and the comment alone exactly when the
function closes in the column or is followed there by a token of another kind, and its brackets are
balanced exactly when those of the tokens taken along are. -/
theorem moved_run_iff {x : ClassWrapper.Unwrapping} {s : TokenStream} (hheaded : x.headed? = some s)
    {run : IndexRange} {target : Nat}
    (hmoves : ClassWrapper.relocation? s (x.index - x.removed) (x.wrapper.start - x.removed) =
      some (run, target))
    {f : ClassWrapper.FunctionPlace} (hplace : f.opening = x.index - x.removed) (hf : f.IsFunction s)
    {opening close : Token} (hopening : s[f.opening]? = some opening)
    (hclose : s[f.close]? = some close) (hdeeper : ∀ t ∈ f.inner s, opening.column < t.column) :
    x.led? = some (s.take target ++ s.between run.start run.stop ++ s.between target run.start ++
        s.drop run.stop) ∧
      (s.between run.start run.stop = ClassWrapper.attachedComment s f.opening ++ f.tokens s ↔
        close.column = opening.column ∨ ∀ t ∈ s[f.close + 1]?,
          t.column = opening.column ∧ t.kind ≠ .punctuator ∧ t.value ≠ "\x7d") ∧
      TokenStream.Balanced bracketPairs (ClassWrapper.attachedComment s f.opening ++ f.tokens s) ∧
      ∃ along, s.between run.start run.stop =
          ClassWrapper.attachedComment s f.opening ++ (f.tokens s ++ along) ∧
        (TokenStream.Balanced bracketPairs (s.between run.start run.stop) ↔
          TokenStream.Balanced bracketPairs along) := by
  obtain ⟨head, opening', -, hopening', -, hrun⟩ := ClassWrapper.relocation?_eq_some hmoves
  rw [← hplace] at hopening' hrun
  obtain rfl := Option.some.inj (hopening.symm.trans hopening')
  have hmoved := ClassWrapper.constructorRun?_function hopening hclose hf hdeeper hrun
  have hcomment := ClassWrapper.attachedComment_balanced s f.opening
  refine ⟨?_, ?_, hcomment.append hf.balanced,
    ClassWrapper.afterFunction s f opening close, hmoved, ?_⟩
  · rw [ClassWrapper.Unwrapping.led?, hheaded, Option.bind_some,
      ClassWrapper.leadWithConstructor_of_relocation hmoves]
    rfl
  · rw [hmoved, List.append_cancel_left_eq, List.append_right_eq_self,
      ClassWrapper.afterFunction_eq_nil_iff]
  · rw [hmoved, TokenStream.Balanced, hcomment.openAfter_append, hf.balanced.openAfter_append]
    rfl

/-- A function on one line, followed in its column by a parenthesis. -/
theorem moved_run_parenthesis :
    ∃ p, ParsedSource.parse .script "Foo = (function() \x7b\n  Foo.x = 1;\n\n  function Foo() \x7b\x7d\n\n  (function() \x7b\x7d)();\n\n  return Foo;\n\n\x7d)();\n" = .ok p ∧
      ∃ x ∈ p.attemptedClasses, ∃ s run target, x.headed? = some s ∧
        ClassWrapper.relocation? s (x.index - x.removed) (x.wrapper.start - x.removed) =
          some (run, target) ∧
        (⟨13, 15, 16, 17, 18⟩ : ClassWrapper.FunctionPlace).IsFunction s ∧
        s.between run.start run.stop ≠ ClassWrapper.attachedComment s 13 ++ s.between 13 19 ∧
        ¬ TokenStream.Balanced bracketPairs (s.between run.start run.stop) := by
  have hrun : ((ParsedSource.parse .script "Foo = (function() \x7b\n  Foo.x = 1;\n\n  function Foo() \x7b\x7d\n\n  (function() \x7b\x7d)();\n\n  return Foo;\n\n\x7d)();\n").toOption.any
      fun p => p.attemptedClasses.any fun x => x.headed?.any fun s =>
        (ClassWrapper.relocation? s (x.index - x.removed) (x.wrapper.start - x.removed)).any fun m =>
          decide (x.index - x.removed = 13 ∧
            (⟨13, 15, 16, 17, 18⟩ : ClassWrapper.FunctionPlace).IsFunction s ∧
            ¬ TokenStream.Balanced bracketPairs (s.between m.1.start m.1.stop)) &&
          s[13]?.any fun opening => s[18]?.any fun close => s[19]?.any fun next =>
            decide (opening.column < close.column ∧ next.kind = .punctuator ∧
              ∀ t ∈ s.between 14 18, opening.column < t.column)) = true := by
    decide +kernel
  obtain ⟨p, hp, hp'⟩ := (Option.any_eq_true _ _).mp hrun
  obtain ⟨x, hx, hx'⟩ := List.any_eq_true.mp hp'
  obtain ⟨s, hs, hs'⟩ := (Option.any_eq_true _ _).mp hx'
  obtain ⟨⟨run, target⟩, hmoves, hfacts⟩ := (Option.any_eq_true _ _).mp hs'
  obtain ⟨hfirst, htokens⟩ := Bool.and_eq_true_iff.mp hfacts
  obtain ⟨hindex, hfunction, hbalanced⟩ := of_decide_eq_true hfirst
  obtain ⟨opening, hopening, htokens⟩ := (Option.any_eq_true _ _).mp htokens
  obtain ⟨close, hclose, htokens⟩ := (Option.any_eq_true _ _).mp htokens
  obtain ⟨next, hnext, htokens⟩ := (Option.any_eq_true _ _).mp htokens
  obtain ⟨hright, hkind, hdeeper⟩ := of_decide_eq_true htokens
  obtain ⟨-, hiff, -⟩ := moved_run_iff hs hmoves hindex.symm hfunction hopening hclose hdeeper
  refine ⟨p, except_eq_ok_of_toOption hp, x, hx, s, run, target, hs, hmoves, hfunction, ?_, hbalanced⟩
  intro hsame
  rcases hiff.mp hsame with hcolumn | hother
  · omega
  · exact (hother next hnext).2.1 hkind

end ClosureReady
