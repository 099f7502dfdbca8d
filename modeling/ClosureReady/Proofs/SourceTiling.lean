import ClosureReady.Proofs.RuleReading
import Mathlib.Data.List.Pairwise

/-!
The tokens of a source tile its text.  Code tokens follow each other without overlap, and so do
comments; a character outside of both is a separator.  A comment lies outside of the code tokens unless
it starts inside of one, which then is a literal or has a text with the sign of the comment in it.
-/

set_option autoImplicit false
set_option relaxedAutoImplicit false

namespace ClosureReady

/-- Whether tokens of a class are literals, whose text may hold anything. -/
def TokenKind.isLiteral : TokenKind → Bool
  | .numeric | .string | .regularExpression | .template => true
  | _ => false

/-- Whether tokens of a class are comments. -/
def TokenKind.isComment : TokenKind → Bool
  | .blockComment | .lineComment => true
  | _ => false

/-- What the text of a code token is. -/
structure Token.Lexed (whole : List Char) (t : Token) : Prop where
  code : t.kind.isComment = false
  slice_eq : Text.slice whole t.span = some t.value.toList
  solid : Text.Solid t.value.toList
  head : ∀ c ∈ t.value.toList.head?, Text.isSeparator c = false
  form : t.kind.isLiteral = true ∨ (∀ c ∈ t.value.toList.tail, Text.isWordPart c = true) ∨
    t.value.toList ∈ longPunctuators

/-- A literal that is reported for splitting is a stretch of text that ends inside a line. -/
structure Literal.Sound (whole : List Char) (l : Literal) : Prop where
  kind : l.kind.isLiteral = true
  text : ∃ text, Text.slice whole l.span = some text ∧ Text.Solid text ∧
    ∀ c ∈ text.head?, Text.isSeparator c = false

/-! ### Pieces -/

/-- What stands at a place of the text, by where the piece comes from. -/
inductive Piece.Sound (whole passed : List Char) (comment : Option Span) (c : Char)
    (rest : List Char) : Piece → Prop
  | token {kind : TokenKind} {text : List Char} : kind.isComment = false → text <+: c :: rest →
      Text.Solid text →
      (∀ d ∈ text.head?, Text.isSeparator d = false) →
      (kind.isLiteral = true ∨ (∀ d ∈ text.tail, Text.isWordPart d = true) ∨
        text ∈ longPunctuators) →
      (kind.isLiteral = true ∨ ∀ s ∈ comment, s.start ≠ Text.byteLength passed) →
      Sound whole passed comment c rest (.token kind text)
  | comment {s : Span} {text : List Char} : comment = some s → text <+: c :: rest → text ≠ [] →
      s.start = Text.byteLength passed → s.stop = Text.byteLength (passed ++ text) →
      Sound whole passed comment c rest (.gap text)
  | separator : Text.isSeparator c = true → (∀ s ∈ comment, s.start ≠ Text.byteLength passed) →
      Sound whole passed comment c rest (.gap [c])

private theorem takeBytes_slice {passed text taken tail : List Char} {span : Span}
    (hslice : Text.slice (passed ++ tail) span = some text)
    (hstart : span.start = Text.byteLength passed)
    (htaken : Text.takeBytes (span.stop - Text.byteLength passed) tail = some taken) :
    taken = text ∧ text <+: tail ∧ span.stop = Text.byteLength (passed ++ text) := by
  obtain ⟨pre, post, hwhole, hpre, hstop⟩ := Text.slice_eq_some_iff.mp hslice
  obtain ⟨rfl, rfl⟩ := Text.append_inj_of_byteLength hwhole (by rw [hpre, hstart])
  rw [← hstop, Text.byteLength_append, Nat.add_sub_cancel_left, Text.takeBytes_append] at htaken
  exact ⟨(Option.some.inj htaken).symm, List.prefix_append _ _, hstop.symm⟩

private theorem leadingToken_form (c : Char) (rest : List Char) :
    (leadingToken c rest).1.isLiteral = true ∨
      (∀ d ∈ (leadingToken c rest).2.tail, Text.isWordPart d = true) ∨
        (leadingToken c rest).2 ∈ longPunctuators := by
  unfold leadingToken
  split
  · exact Or.inr (Or.inl fun d hd => List.mem_takeWhile_imp hd)
  · split
    · exact Or.inl rfl
    · cases hfind : longPunctuators.find? fun p => p.isPrefixOf (c :: rest) with
      | none => exact Or.inr (Or.inl (by simp))
      | some p => exact Or.inr (Or.inr (List.mem_of_find?_eq_some hfind))

private theorem isComment_of_isLiteral {kind : TokenKind} (h : kind.isLiteral = true) :
    kind.isComment = false := by
  cases kind <;> simp_all [TokenKind.isLiteral, TokenKind.isComment]

private theorem leadingToken_code (c : Char) (rest : List Char) :
    (leadingToken c rest).1.isComment = false := by
  unfold leadingToken classifyWord
  dsimp only
  split
  · split
    · rfl
    · split
      · rfl
      · split <;> rfl
  · split <;> rfl

private theorem leadingToken_head (c : Char) (rest : List Char) :
    ∃ more, (leadingToken c rest).2 = c :: more := by
  obtain ⟨after, hafter⟩ := leadingToken_isFront c rest
  have hlong : ∀ p ∈ longPunctuators, p ≠ [] := by decide
  have hne : (leadingToken c rest).2 ≠ [] := by
    unfold leadingToken
    split
    · simp
    · split
      · simp
      · cases hfind : longPunctuators.find? fun p => p.isPrefixOf (c :: rest) with
        | none => simp
        | some p => exact hlong p (List.mem_of_find?_eq_some hfind)
  obtain ⟨d, more, heq⟩ := List.exists_cons_of_ne_nil hne
  rw [heq] at hafter ⊢
  exact ⟨more, by rw [(List.cons.inj hafter).1]⟩

private theorem pieceAt_sound {passed rest : List Char} {c : Char} {literal : Option Literal}
    {comment : Option Span} {piece : Piece}
    (hliteral : ∀ l ∈ literal, l.Sound (passed ++ c :: rest))
    (hcomment : ∀ s ∈ comment, ∃ text, Text.slice (passed ++ c :: rest) s = some text ∧
      Grammar.IsCommentText text)
    (h : pieceAt literal comment (Text.byteLength passed) c rest = some piece) :
    piece.Sound (passed ++ c :: rest) passed comment c rest := by
  unfold pieceAt at h
  split at h
  · rename_i l hl
    obtain ⟨hl, hstart⟩ := Option.filter_eq_some_iff.mp hl
    obtain ⟨taken, htaken, rfl⟩ := Option.map_eq_some_iff.mp h
    obtain ⟨hkind, text, hslice, hsolid, hhead⟩ := hliteral l hl
    obtain ⟨rfl, hfront, -⟩ := takeBytes_slice hslice (by simpa using hstart) htaken
    exact .token (isComment_of_isLiteral hkind) hfront hsolid hhead (Or.inl hkind) (Or.inl hkind)
  · split at h
    · rename_i s hs
      obtain ⟨hs, hstart⟩ := Option.filter_eq_some_iff.mp hs
      obtain ⟨taken, htaken, rfl⟩ := Option.map_eq_some_iff.mp h
      obtain ⟨text, hslice, htext⟩ := hcomment s hs
      replace hstart : s.start = Text.byteLength passed := by simpa using hstart
      obtain ⟨rfl, hfront, hstop⟩ := takeBytes_slice hslice hstart htaken
      exact .comment hs hfront htext.ne_nil hstart hstop
    · rename_i hnone
      have hother : ∀ s ∈ comment, s.start ≠ Text.byteLength passed := by
        intro s hs hstart
        obtain rfl : comment = some s := hs
        simp [hstart] at hnone
      split at h
      · rename_i hseparator
        obtain rfl := Option.some.inj h
        exact .separator hseparator hother
      · rename_i hseparator
        have hc : c ≠ '\n' := by
          rintro rfl
          exact hseparator (by decide)
        obtain rfl : Piece.token (leadingToken c rest).1 (leadingToken c rest).2 = piece :=
          Option.some.inj h
        obtain ⟨after, hafter⟩ := leadingToken_isFront c rest
        obtain ⟨more, hmore⟩ := leadingToken_head c rest
        refine .token (leadingToken_code c rest) ⟨after, hafter.symm⟩
          (.of_not_mem (by simp [hmore]) (leadingToken_plain rest hc)) ?_ (leadingToken_form c rest)
          (Or.inr hother)
        rw [hmore]
        simpa using hseparator

/-! ### The scan -/

/-- The tokens from an offset on, the comments, and the text they are taken from fit together. -/
structure Tiled (whole : List Char) (low : Nat) (comments : List Span) (tokens : List Token) :
    Prop where
  low_le : ∀ t ∈ tokens, low ≤ t.span.start
  ordered : tokens.Pairwise fun t u => t.span.stop ≤ u.span.start
  covers : ∀ pre c post, whole = pre ++ c :: post → low ≤ Text.byteLength pre →
    Text.isSeparator c = true ∨
      (∃ t ∈ tokens, t.span.start ≤ Text.byteLength pre ∧ Text.byteLength pre < t.span.stop) ∨
      ∃ s ∈ comments, s.start ≤ Text.byteLength pre ∧ Text.byteLength pre < s.stop
  apart : ∀ s ∈ comments, low ≤ s.start →
    (∃ t ∈ tokens, t.span.start ≤ s.start ∧ s.start < t.span.stop ∧
      (t.kind.isLiteral = true ∨ t.span.start < s.start)) ∨
    ∀ t ∈ tokens, t.span.stop ≤ s.start ∨ s.stop ≤ t.span.start

private theorem mem_dropWhile {α : Type} {p : α → Bool} {x : α} {xs : List α} (hx : x ∈ xs)
    (hp : p x = false) : x ∈ xs.dropWhile p := by
  induction xs with
  | nil => simp at hx
  | cons y ys ih =>
    rw [List.dropWhile_cons]
    split
    · rename_i hy
      rcases List.mem_cons.mp hx with rfl | hx
      · simp [hp] at hy
      · exact ih hx
    · exact hx

/-- Comments in the order of the text. -/
structure CommentsAscend (whole : List Char) (comments : List Span) : Prop where
  sound : ∀ s ∈ comments, ∃ text, Text.slice whole s = some text ∧ Grammar.IsCommentText text
  ordered : comments.Pairwise fun earlier later => earlier.stop ≤ later.start

theorem CommentsAscend.sublist {whole : List Char} {xs ys : List Span}
    (h : CommentsAscend whole ys) (hsub : xs.Sublist ys) : CommentsAscend whole xs :=
  ⟨fun s hs => h.sound s (hsub.mem hs), h.ordered.sublist hsub⟩

theorem slice_start_lt {whole text : List Char} {span : Span}
    (h : Text.slice whole span = some text) (hne : text ≠ []) : span.start < span.stop := by
  obtain ⟨pre, post, -, hstart, hstop⟩ := Text.slice_eq_some_iff.mp h
  obtain ⟨c, more, rfl⟩ := List.exists_cons_of_ne_nil hne
  have hsize := c.utf8Size_pos
  rw [Text.byteLength_append, Text.byteLength] at hstop
  omega

theorem CommentsAscend.start_lt {whole : List Char} {comments : List Span}
    (h : CommentsAscend whole comments) {s : Span} (hs : s ∈ comments) : s.start < s.stop := by
  obtain ⟨text, hslice, htext⟩ := h.sound s hs
  exact slice_start_lt hslice htext.ne_nil

/-- A comment that starts at an offset is the first one that is not passed there. -/
private theorem CommentsAscend.head?_dropWhile {whole : List Char} {comments : List Span} {s : Span}
    (h : CommentsAscend whole comments) (hs : s ∈ comments) :
    (comments.dropWhile fun u => isPassed u s.start).head? = some s := by
  induction comments with
  | nil => simp at hs
  | cons u us ih =>
    obtain ⟨hfirst, -⟩ := List.pairwise_cons.mp h.ordered
    rw [List.dropWhile_cons]
    rcases List.mem_cons.mp hs with rfl | hmem
    · have hlt := h.start_lt List.mem_cons_self
      have hnot : isPassed s s.start = false := by
        simp [isPassed]
        omega
      rw [hnot]
      rfl
    · have hlt := h.start_lt (List.mem_cons_self (a := u) (l := us))
      have hpassed : isPassed u s.start = true := by
        have hstop := hfirst s hmem
        simp [isPassed]
        omega
      rw [hpassed]
      exact ih (h.sublist (List.sublist_cons_self u us)) hmem

/-- A place of the text that starts inside of a character starts with it. -/
private theorem boundary_in_char {passed rest pre post : List Char} {c d : Char}
    (h : passed ++ c :: rest = pre ++ d :: post)
    (hlow : Text.byteLength passed ≤ Text.byteLength pre)
    (hhigh : Text.byteLength pre < Text.byteLength (passed ++ [c])) : pre = passed ∧ d = c := by
  rcases List.append_eq_append_iff.mp h with ⟨mid, rfl, hmid⟩ | ⟨mid, rfl, hmid⟩
  · cases mid with
    | nil =>
      obtain ⟨rfl, -⟩ := List.cons.inj hmid
      simp
    | cons e mid =>
      obtain ⟨rfl, -⟩ := List.cons.inj hmid
      simp only [Text.byteLength_append, Text.byteLength] at hhigh
      omega
  · cases mid with
    | nil =>
      obtain ⟨rfl, -⟩ := List.cons.inj hmid
      simp
    | cons e mid =>
      have hsize := e.utf8Size_pos
      simp only [Text.byteLength_append, Text.byteLength] at hlow
      omega

private theorem CommentsAscend.disjoint {whole : List Char} {comments : List Span}
    (h : CommentsAscend whole comments) {s u : Span} (hs : s ∈ comments) (hu : u ∈ comments) :
    s = u ∨ s.stop ≤ u.start ∨ u.stop ≤ s.start := by
  have hordered := List.pairwise_iff_getElem.mp h.ordered
  obtain ⟨i, hi, rfl⟩ := List.mem_iff_getElem.mp hs
  obtain ⟨j, hj, rfl⟩ := List.mem_iff_getElem.mp hu
  rcases Nat.lt_trichotomy i j with hlt | rfl | hgt
  · exact Or.inr (Or.inl (hordered i j hi hj hlt))
  · exact Or.inl rfl
  · exact Or.inr (Or.inr (hordered j i hj hi hgt))

section Step

variable {whole passed text : List Char} {comments later : List Span} {tokens : List Token}

/-- A stretch that is no token is put in front. -/
private theorem Tiled.gap (h : Tiled whole (Text.byteLength (passed ++ text)) later tokens)
    (hsub : later.Sublist comments)
    (hlater : ∀ s ∈ comments, Text.byteLength (passed ++ text) ≤ s.start → s ∈ later)
    (hcovers : ∀ pre c post, whole = pre ++ c :: post → Text.byteLength passed ≤ Text.byteLength pre →
      Text.byteLength pre < Text.byteLength (passed ++ text) → Text.isSeparator c = true ∨
        ∃ s ∈ comments, s.start ≤ Text.byteLength pre ∧ Text.byteLength pre < s.stop)
    (hapart : ∀ s ∈ comments, Text.byteLength passed ≤ s.start →
      s.start < Text.byteLength (passed ++ text) → s.stop ≤ Text.byteLength (passed ++ text)) :
    Tiled whole (Text.byteLength passed) comments tokens := by
  have hle : Text.byteLength passed ≤ Text.byteLength (passed ++ text) := by
    rw [Text.byteLength_append]
    omega
  refine ⟨fun t ht => Nat.le_trans hle (h.low_le t ht), h.ordered, ?_, ?_⟩
  · intro pre c post hwhole hlow
    rcases Nat.lt_or_ge (Text.byteLength pre) (Text.byteLength (passed ++ text)) with hlt | hge
    · rcases hcovers pre c post hwhole hlow hlt with hseparator | hcomment
      · exact Or.inl hseparator
      · exact Or.inr (Or.inr hcomment)
    · rcases h.covers pre c post hwhole hge with hseparator | htoken | ⟨s, hs, hcomment⟩
      · exact Or.inl hseparator
      · exact Or.inr (Or.inl htoken)
      · exact Or.inr (Or.inr ⟨s, hsub.mem hs, hcomment⟩)
  · intro s hs hlow
    rcases Nat.lt_or_ge s.start (Text.byteLength (passed ++ text)) with hlt | hge
    · refine Or.inr fun t ht => Or.inr ?_
      exact Nat.le_trans (hapart s hs hlow hlt) (h.low_le t ht)
    · exact h.apart s (hlater s hs hge) hge

/-- A token is put in front. -/
private theorem Tiled.token {t : Token} (h : Tiled whole (Text.byteLength (passed ++ text)) later tokens)
    (hsub : later.Sublist comments)
    (hlater : ∀ s ∈ comments, Text.byteLength (passed ++ text) ≤ s.start → s ∈ later)
    (hspan : t.span = ⟨Text.byteLength passed, Text.byteLength (passed ++ text)⟩)
    (hstart : t.kind.isLiteral = true ∨ ∀ s ∈ comments, s.start ≠ Text.byteLength passed) :
    Tiled whole (Text.byteLength passed) comments (t :: tokens) := by
  have hle : Text.byteLength passed ≤ Text.byteLength (passed ++ text) := by
    rw [Text.byteLength_append]
    omega
  refine ⟨?_, List.pairwise_cons.mpr ⟨?_, h.ordered⟩, ?_, ?_⟩
  · intro u hu
    rcases List.mem_cons.mp hu with rfl | hu
    · rw [hspan]
    · exact Nat.le_trans hle (h.low_le u hu)
  · intro u hu
    rw [hspan]
    exact h.low_le u hu
  · intro pre c post hwhole hlow
    rcases Nat.lt_or_ge (Text.byteLength pre) (Text.byteLength (passed ++ text)) with hlt | hge
    · refine Or.inr (Or.inl ⟨t, List.mem_cons_self, ?_⟩)
      rw [hspan]
      exact ⟨hlow, hlt⟩
    · rcases h.covers pre c post hwhole hge with hseparator | ⟨u, hu, htoken⟩ | ⟨s, hs, hcomment⟩
      · exact Or.inl hseparator
      · exact Or.inr (Or.inl ⟨u, List.mem_cons_of_mem t hu, htoken⟩)
      · exact Or.inr (Or.inr ⟨s, hsub.mem hs, hcomment⟩)
  · intro s hs hlow
    rcases Nat.lt_or_ge s.start (Text.byteLength (passed ++ text)) with hlt | hge
    · refine Or.inl ⟨t, List.mem_cons_self, ?_⟩
      rw [hspan]
      refine ⟨hlow, hlt, hstart.imp_right fun hother => ?_⟩
      exact Nat.lt_of_le_of_ne hlow (hother s hs).symm
    · rcases h.apart s (hlater s hs hge) hge with ⟨u, hu, hinside⟩ | houtside
      · exact Or.inl ⟨u, List.mem_cons_of_mem t hu, hinside⟩
      · refine Or.inr fun u hu => ?_
        rcases List.mem_cons.mp hu with rfl | hu
        · rw [hspan]
          exact Or.inl hge
        · exact houtside u hu

end Step

private theorem take_of_front {text rest : List Char} {c : Char} (hfront : text <+: c :: rest)
    (hne : text ≠ []) : text.length - 1 ≤ rest.length ∧ c :: rest.take (text.length - 1) = text := by
  obtain ⟨d, more, rfl⟩ := List.exists_cons_of_ne_nil hne
  obtain ⟨rfl, hmore⟩ := List.cons_prefix_cons.mp hfront
  refine ⟨hmore.length_le, ?_⟩
  rw [List.length_cons, Nat.add_sub_cancel, ← List.prefix_iff_eq_take.mp hmore]

/-- The scan of a text tiles it, from the end of the piece under way on. -/
private theorem scanFrom_tiled {index : LineIndex} (passed : List Char) {rest : List Char}
    {literals : List Literal} {comments : List Span} {id covered : Nat} {tokens : List Token}
    (hliterals : ∀ l ∈ literals, l.Sound (passed ++ rest))
    (hcomments : CommentsAscend (passed ++ rest) comments) (hcovered : covered ≤ rest.length)
    (h : scanFrom index literals comments id (Text.byteLength passed) covered rest = some tokens) :
    Tiled (passed ++ rest) (Text.byteLength (passed ++ rest.take covered)) comments tokens ∧
      ∀ t ∈ tokens, t.Lexed (passed ++ rest) := by
  induction rest generalizing passed literals comments id covered tokens with
  | nil =>
    simp only [scanFrom, Option.some.injEq] at h
    subst h
    refine ⟨⟨by simp, .nil, fun pre c post hwhole hlow => ?_, by simp⟩, by simp⟩
    have hsize := c.utf8Size_pos
    simp only [List.take_nil, hwhole, Text.byteLength_append, Text.byteLength] at hlow
    omega
  | cons c rest ih =>
    have hwhole : passed ++ c :: rest = (passed ++ [c]) ++ rest := by simp
    have hoffset : Text.byteLength passed + c.utf8Size = Text.byteLength (passed ++ [c]) := by
      simp [Text.byteLength_append, Text.byteLength]
    cases covered with
    | succ covered =>
      rw [scanFrom, hoffset] at h
      rw [hwhole] at hliterals hcomments
      have hrest := ih (passed ++ [c]) hliterals hcomments (Nat.le_of_succ_le_succ hcovered) h
      rwa [← hwhole, List.append_assoc] at hrest
    | zero =>
      unfold scanFrom at h
      dsimp only at h
      generalize hlits : literals.dropWhile (fun l => decide (l.span.start < Text.byteLength passed)) =
        lits at h
      generalize hlater : comments.dropWhile (fun s => isPassed s (Text.byteLength passed)) =
        later at h
      have hlits : ∀ l ∈ lits, l.Sound (passed ++ c :: rest) := by
        rw [← hlits]
        exact fun l hl => hliterals l ((List.dropWhile_sublist _).mem hl)
      have hsub : later.Sublist comments := hlater ▸ List.dropWhile_sublist _
      -- A comment that starts here comes first, and those that start further on are not passed.
      have hhead : ∀ s ∈ comments, s.start = Text.byteLength passed → later.head? = some s := by
        intro s hs hstart
        rw [← hlater, ← hstart]
        exact hcomments.head?_dropWhile hs
      have hmem : ∀ s ∈ comments, Text.byteLength passed < s.start → s ∈ later := by
        intro s hs hlt
        rw [← hlater]
        refine mem_dropWhile hs ?_
        simp [isPassed]
        omega
      have hstep : ∀ {text : List Char} {id : Nat} {tokens : List Token}, text <+: c :: rest →
          text ≠ [] → scanFrom index lits later id (Text.byteLength passed + c.utf8Size)
            (text.length - 1) rest = some tokens →
          Tiled (passed ++ c :: rest) (Text.byteLength (passed ++ text)) later tokens ∧
            ∀ t ∈ tokens, t.Lexed (passed ++ c :: rest) := by
        intro text id tokens hfront hne hscan
        obtain ⟨hlength, htext⟩ := take_of_front hfront hne
        rw [hoffset] at hscan
        have hrest := ih (passed ++ [c]) (by rwa [← hwhole])
          (by rw [← hwhole]; exact hcomments.sublist hsub) hlength hscan
        rwa [← hwhole, List.append_assoc, List.singleton_append, htext] at hrest
      have hfar : ∀ {text : List Char}, text ≠ [] → ∀ s ∈ comments,
          Text.byteLength (passed ++ text) ≤ s.start → s ∈ later := by
        intro text hne s hs hle
        obtain ⟨d, more, rfl⟩ := List.exists_cons_of_ne_nil hne
        have hsize := d.utf8Size_pos
        rw [Text.byteLength_append, Text.byteLength] at hle
        exact hmem s hs (by omega)
      rw [List.take_zero, List.append_nil]
      cases hpiece : pieceAt lits.head? later.head? (Text.byteLength passed) c rest with
      | none => simp [hpiece] at h
      | some piece =>
        simp only [hpiece] at h
        have hsound := pieceAt_sound (fun l hl => hlits l (List.mem_of_mem_head? hl))
          (fun s hs => hcomments.sound s (hsub.mem (List.mem_of_mem_head? hs))) hpiece
        cases hsound with
        | token hcode hfront hsolid hclear hform hstart =>
          rename_i kind text
          obtain ⟨more, hmore, rfl⟩ := Option.map_eq_some_iff.mp h
          obtain ⟨htiled, hlexed⟩ := hstep hfront hsolid.1 hmore
          have hspan : (placeToken index id kind text (Text.byteLength passed)).span =
              ⟨Text.byteLength passed, Text.byteLength (passed ++ text)⟩ := by
            rw [Text.byteLength_append]
            rfl
          refine ⟨htiled.token hsub (hfar hsolid.1) hspan (hstart.imp_right fun hother s hs hat => ?_),
            List.forall_mem_cons.mpr ⟨?_, hlexed⟩⟩
          · exact hother s (hhead s hs hat) hat
          · obtain ⟨after, hafter⟩ := hfront
            refine ⟨hcode, ?_, by simpa [placeToken] using hsolid, by simpa [placeToken] using hclear,
              by simpa [placeToken] using hform⟩
            rw [hspan]
            refine Text.slice_eq_some_iff.mpr ⟨passed, after, ?_, rfl, ?_⟩
            · simp [placeToken, hafter]
            · simp [placeToken]
        | comment hs hfront hne hstart hstop =>
          rename_i s text
          obtain ⟨htiled, hlexed⟩ := hstep hfront hne h
          have hs : s ∈ comments := hsub.mem (List.mem_of_mem_head? hs)
          refine ⟨htiled.gap hsub (hfar hne) (fun pre d post _ hlow hhigh => ?_)
            (fun u hu hlow hhigh => ?_), hlexed⟩
          · exact Or.inr ⟨s, hs, by omega, by omega⟩
          · rcases hcomments.disjoint hs hu with rfl | hbefore | hafter
            · omega
            · omega
            · have hlt := hcomments.start_lt hu
              omega
        | separator hseparator hother =>
          obtain ⟨htiled, hlexed⟩ := hstep (show [c] <+: c :: rest from ⟨rest, rfl⟩) (by simp) h
          refine ⟨htiled.gap hsub (hfar (by simp)) (fun pre d post heq hlow hhigh => ?_)
            (fun s hs hlow hhigh => ?_), hlexed⟩
          · obtain ⟨-, rfl⟩ := boundary_in_char heq hlow hhigh
            exact Or.inl hseparator
          · -- A comment that starts inside of the separator starts with it, and would come first.
            obtain ⟨text, hslice, htext⟩ := hcomments.sound s hs
            obtain ⟨pre, post, heq, hpre, -⟩ := Text.slice_eq_some_iff.mp hslice
            obtain ⟨d, more, rfl⟩ := List.exists_cons_of_ne_nil htext.ne_nil
            rw [← hpre] at hlow hhigh
            obtain ⟨rfl, -⟩ := boundary_in_char heq hlow hhigh
            exact absurd hpre.symm (hother s (hhead s hs hpre.symm))

/-! ### Whole sources -/

/-- The token of a comment, by the text it was made from. -/
def Token.IsComment (whole : List Char) (t : Token) : Prop :=
  ∃ text, Text.slice whole t.span = some text ∧ Grammar.IsCommentText text ∧
    t.kind = (commentParts text).1 ∧ t.value = String.ofList (commentParts text).2

theorem commentTokens_spans {index : LineIndex} {text : List Char} {id : Nat}
    {spans : List Span} {tokens : List Token}
    (h : commentTokens index text id spans = some tokens) :
    tokens.map Token.span = spans ∧ ∀ t ∈ tokens, ∃ full, Text.slice text t.span = some full ∧
      t.kind = (commentParts full).1 ∧ t.value = String.ofList (commentParts full).2 := by
  induction spans generalizing id tokens with
  | nil =>
    simp only [commentTokens, Option.some.injEq] at h
    simp [← h]
  | cons span spans ih =>
    unfold commentTokens at h
    split at h
    · rename_i token later htoken hlater
      obtain rfl := Option.some.inj h
      obtain ⟨full, hfull, rfl⟩ := Option.map_eq_some_iff.mp htoken
      obtain ⟨hspans, hparts⟩ := ih hlater
      exact ⟨by rw [List.map_cons, hspans], List.forall_mem_cons.mpr ⟨⟨full, hfull, rfl, rfl⟩, hparts⟩⟩
    · simp at h

private theorem literal_sound {text : List Char} {k : LiteralKind} {span : Span}
    (h : TreeEvent.Sound text (.enter (.literal k) span)) :
    Literal.Sound text ⟨span, k.tokenKind⟩ := by
  obtain ⟨full, hslice, hfirm, hhead⟩ := h
  exact ⟨by cases k <;> rfl, full, hslice, hfirm.solid, hhead⟩

/-- The tokens and comments of a source tile its text. -/
theorem ParsedSource.parse_tiled {mode : Grammar.Mode} {source : String} {p : ParsedSource}
    (h : parse mode source = .ok p) :
    Tiled source.toList 0 (p.comments.map Token.span) p.tokens ∧
      (∀ t ∈ p.tokens, t.Lexed source.toList) ∧
      (p.comments.Pairwise fun s t => s.span.stop ≤ t.span.start) ∧
      ∀ t ∈ p.comments, t.IsComment source.toList := by
  obtain ⟨outline, houtline, hsplit⟩ := parse_ok h
  obtain ⟨⟨high, hcomments⟩, hevents⟩ := Grammar.outline?_sound houtline
  have hascend : CommentsAscend source.toList outline.comments :=
    ⟨fun s hs => hcomments.sound s (List.mem_reverse.mpr hs), List.pairwise_reverse.mp hcomments.ordered⟩
  unfold splitSource at hsplit
  split at hsplit
  · simp at hsplit
  · rename_i tokens htokens
    obtain ⟨comments, hnotes, hpair⟩ := Option.map_eq_some_iff.mp hsplit
    obtain ⟨rfl, rfl⟩ := Prod.mk.inj hpair
    obtain ⟨hspans, hparts⟩ := commentTokens_spans hnotes
    have hliterals : ∀ l ∈ orderLiterals (Builder.empty.run (LineIndex.ofChars source.toList)
        outline.tree.events).literalList, l.Sound source.toList := by
      intro l hl
      rcases Builder.mem_run_literals (List.mem_reverse.mp (mem_orderLiterals.mp hl)) with
        hnone | ⟨k, span, hevent, rfl⟩
      · simp [Builder.empty] at hnone
      · exact literal_sound (hevents _ hevent)
    obtain ⟨htiled, hlexed⟩ := scanFrom_tiled [] hliterals hascend (Nat.zero_le _) htokens
    refine ⟨by rw [hspans]; exact htiled, hlexed, ?_, fun t ht => ?_⟩
    · rw [← hspans] at hascend
      exact List.pairwise_map.mp hascend.ordered
    · obtain ⟨full, hfull, hkind, hvalue⟩ := hparts t ht
      have hspan : t.span ∈ outline.comments := hspans ▸ List.mem_map_of_mem ht
      obtain ⟨text, htext, hform⟩ := hascend.sound t.span hspan
      obtain rfl := Option.some.inj (hfull.symm.trans htext)
      exact ⟨full, hfull, hform, hkind, hvalue⟩

theorem ParsedSource.mem_stream {p : ParsedSource} {t : Token} :
    t ∈ p.stream ↔ t ∈ p.tokens ∨ t ∈ p.comments := by
  unfold ParsedSource.stream
  rw [(TokenStream.prepare_perm p.tokens p.comments).mem_iff, List.mem_append]

theorem ParsedSource.stream_nonempty {mode : Grammar.Mode} {source : String} {p : ParsedSource}
    (h : parse mode source = .ok p) {t : Token} (ht : t ∈ p.stream) : t.span.start < t.span.stop := by
  obtain ⟨-, hlexed, -, hcomments⟩ := parse_tiled h
  rcases mem_stream.mp ht with ht | ht
  · exact slice_start_lt (hlexed t ht).slice_eq (hlexed t ht).solid.1
  · obtain ⟨text, hslice, hform, -⟩ := hcomments t ht
    exact slice_start_lt hslice hform.ne_nil

theorem Token.apart_of_pairwise {ts : List Token} {t u : Token}
    (h : ts.Pairwise fun t u => t.span.stop ≤ u.span.start) (ht : t ∈ ts) (hu : u ∈ ts)
    (hne : t ≠ u) : t.span.stop ≤ u.span.start ∨ u.span.stop ≤ t.span.start := by
  have hsymm : Std.Symm fun t u : Token => t.span.stop ≤ u.span.start ∨
      u.span.stop ≤ t.span.start := ⟨fun _ _ => Or.symm⟩
  have heither : ts.Pairwise fun t u => t.span.stop ≤ u.span.start ∨ u.span.stop ≤ t.span.start :=
    h.imp Or.inl
  exact heither.forall ht hu hne

end ClosureReady
