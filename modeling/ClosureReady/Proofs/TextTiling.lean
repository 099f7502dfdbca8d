import ClosureReady.Proofs.Reading

/-!
The tokens that the scan finds tile the text, for any literals and comments that are given in it.  A
relation beside the scan says how the rest of a text falls into gaps and lexemes after what is passed;
the scan always ends, and what it answers stands in that relation.  Numbers, places, values and gaps of
the tokens are read off from it.
-/

set_option autoImplicit false
set_option relaxedAutoImplicit false

namespace ClosureReady

/-! ### Lexemes -/

/-- What a text starts with, where no literal and no comment does: a word up to the first character that
cannot continue it, a run that a digit leads, or the longest punctuator there is, which is a single
character where the text starts with no longer one. -/
inductive Lexeme : TokenKind → (text rest : List Char) → Prop
  | word {c : Char} {cs rest : List Char} : Text.isWordStart c = true →
      (∀ d ∈ cs, Text.isWordPart d = true) → (∀ d ∈ rest.head?, Text.isWordPart d = false) →
      Lexeme (classifyWord (String.ofList (c :: cs))) (c :: cs) rest
  | digits {c : Char} {cs rest : List Char} : Text.isWordStart c = false → c.isDigit = true →
      (∀ d ∈ cs, isDigitRunPart d = true) → (∀ d ∈ rest.head?, isDigitRunPart d = false) →
      Lexeme .numeric (c :: cs) rest
  | sign {c : Char} {cs rest : List Char} : Text.isWordStart c = false → c.isDigit = false →
      Text.isSeparator c = false → cs = [] ∨ c :: cs ∈ longPunctuators →
      (∀ p ∈ longPunctuators, p <+: c :: cs ++ rest → p.length ≤ (c :: cs).length) →
      Lexeme .punctuator (c :: cs) rest

theorem Lexeme.ne_nil {kind : TokenKind} {text rest : List Char} (h : Lexeme kind text rest) :
    text ≠ [] := by
  cases h <;> exact List.cons_ne_nil _ _

theorem Text.byteLength_pos {text : List Char} (h : text ≠ []) : 0 < byteLength text := by
  obtain ⟨c, cs, rfl⟩ := List.exists_cons_of_ne_nil h
  have := c.utf8Size_pos
  rw [byteLength]
  omega

/-- The code points of the characters that only separate tokens. -/
private def separatorCodes : List Nat :=
  [9, 10, 11, 12, 13, 32, 133, 160, 5760, 8192, 8193, 8194, 8195, 8196, 8197, 8198, 8199, 8200, 8201,
   8202, 8232, 8233, 8239, 8287, 12288, 65279]

private theorem mem_separatorCodes {c : Char} (h : Text.isSeparator c = true) :
    c.toNat ∈ separatorCodes := by
  have hmark : c = Text.byteOrderMark → c.toNat = 65279 := by
    rintro rfl
    rfl
  simp only [Text.isSeparator, Text.isWhiteSpace, Text.inRanges, Text.whiteSpaceRanges, List.any_cons,
    List.any_nil, Bool.or_eq_true, Bool.and_eq_true, decide_eq_true_eq, Bool.or_false,
    beq_iff_eq] at h
  simp only [separatorCodes, List.mem_cons, List.not_mem_nil, or_false]
  rcases h with h | h
  · omega
  · have := hmark h
    omega

/-- A separator starts neither a word nor a number. -/
theorem isSeparator_eq_false_of_start {c : Char}
    (h : Text.isWordStart c = true ∨ c.isDigit = true) : Text.isSeparator c = false := by
  have hcodes : ∀ n ∈ separatorCodes,
      Text.isWordStart (Char.ofNat n) = false ∧ (Char.ofNat n).isDigit = false := by
    decide +kernel
  rw [Bool.eq_false_iff]
  intro hseparator
  obtain ⟨hword, hdigit⟩ := hcodes c.toNat (mem_separatorCodes hseparator)
  rw [Char.ofNat_toNat] at hword hdigit
  simp [hword, hdigit] at h

theorem Lexeme.isSeparator_eq_false {kind : TokenKind} {c : Char} {cs rest : List Char}
    (h : Lexeme kind (c :: cs) rest) : Text.isSeparator c = false := by
  cases h with
  | word hword _ _ => exact isSeparator_eq_false_of_start (Or.inl hword)
  | digits _ hdigit _ _ => exact isSeparator_eq_false_of_start (Or.inr hdigit)
  | sign _ _ hseparator _ _ => exact hseparator

theorem longPunctuators_ordered :
    longPunctuators.Pairwise fun p q => q.length ≤ p.length := by decide

/-- Of the punctuators that a text starts with, the first one in the table is the longest. -/
private theorem length_le_of_find? {text p q : List Char}
    (h : longPunctuators.find? (fun p => p.isPrefixOf text) = some p) (hq : q ∈ longPunctuators)
    (hleads : q <+: text) : q.length ≤ p.length := by
  obtain ⟨-, before, after, hsplit, hbefore⟩ := List.find?_eq_some_iff_append.mp h
  have hordered := longPunctuators_ordered
  rw [hsplit] at hordered hq
  rcases List.mem_append.mp hq with hq | hq
  · have hnot := hbefore q hq
    simp [List.isPrefixOf_iff_prefix.mpr hleads] at hnot
  · rcases List.mem_cons.mp hq with rfl | hq
    · exact Nat.le_refl _
    · exact (List.pairwise_cons.mp (List.pairwise_append.mp hordered).2.1).1 q hq

/-- What a text starts with is a lexeme, followed by the rest of the text. -/
theorem leadingToken_lexeme {c : Char} (rest : List Char) (hc : Text.isSeparator c = false) :
    ∃ after, c :: rest = (leadingToken c rest).2 ++ after ∧
      Lexeme (leadingToken c rest).1 (leadingToken c rest).2 after := by
  have hends : ∀ p : Char → Bool, ∀ d ∈ (rest.dropWhile p).head?, p d = false := by
    intro p d hd
    have hhead := List.head?_dropWhile_not p rest
    rw [hd] at hhead
    simpa using hhead
  unfold leadingToken
  split
  · rename_i hword
    refine ⟨rest.dropWhile Text.isWordPart, by simp, .word hword ?_ (hends _)⟩
    exact fun d hd => List.mem_takeWhile_imp hd
  · rename_i hword
    rw [Bool.not_eq_true] at hword
    split
    · rename_i hdigit
      refine ⟨rest.dropWhile isDigitRunPart, by simp, .digits hword hdigit ?_ (hends _)⟩
      exact fun d hd => List.mem_takeWhile_imp hd
    · rename_i hdigit
      rw [Bool.not_eq_true] at hdigit
      cases hfind : longPunctuators.find? fun p => p.isPrefixOf (c :: rest) with
      | none =>
        refine ⟨rest, rfl, .sign hword hdigit hc (Or.inl rfl) fun p hp hleads => ?_⟩
        have hnone := List.find?_eq_none.mp hfind p hp
        exact absurd (List.isPrefixOf_iff_prefix.mpr hleads) hnone
      | some p =>
        have hmem := List.mem_of_find?_eq_some hfind
        have hstarts := List.find?_some hfind
        obtain ⟨after, hafter⟩ := List.isPrefixOf_iff_prefix.mp hstarts
        have hlong : ∀ p ∈ longPunctuators, p ≠ [] := by decide
        obtain ⟨d, ds, rfl⟩ := List.exists_cons_of_ne_nil (hlong p hmem)
        obtain ⟨rfl, hrest⟩ := List.cons.inj hafter
        refine ⟨after, hafter.symm, .sign hword hdigit hc (Or.inr hmem) fun q hq hleads => ?_⟩
        rw [hafter] at hleads
        exact length_le_of_find? hfind hq hleads

/-- A lexeme is what the text starts with. -/
theorem Lexeme.leadingToken_eq {kind : TokenKind} {c : Char} {cs rest : List Char}
    (h : Lexeme kind (c :: cs) rest) : leadingToken c (cs ++ rest) = (kind, c :: cs) := by
  have hrun : ∀ {p : Char → Bool}, (∀ d ∈ cs, p d = true) → (∀ d ∈ rest.head?, p d = false) →
      (cs ++ rest).takeWhile p = cs := by
    intro p hcs hrest
    have hsame : rest.takeWhile p = [] := by
      cases rest with
      | nil => rfl
      | cons d rest => exact List.takeWhile_cons_of_neg (by simp [hrest d rfl])
    rw [List.takeWhile_append_of_pos hcs, hsame, List.append_nil]
  unfold leadingToken
  cases h with
  | word hword hcs hrest => rw [if_pos hword, hrun hcs hrest]
  | digits hword hdigit hcs hrest =>
    rw [if_neg (by simp [hword]), if_pos hdigit, hrun hcs hrest]
  | sign hword hdigit _ hform hlongest =>
    rw [if_neg (by simp [hword]), if_neg (by simp [hdigit])]
    refine Prod.ext rfl ?_
    show (longPunctuators.find? fun p => p.isPrefixOf (c :: (cs ++ rest))).getD [c] = c :: cs
    cases hfind : longPunctuators.find? fun p => p.isPrefixOf (c :: (cs ++ rest)) with
    | none =>
      rcases hform with rfl | hmem
      · rfl
      · have hnone := List.find?_eq_none.mp hfind _ hmem
        exact absurd (List.isPrefixOf_iff_prefix.mpr (List.prefix_append (c :: cs) rest)) hnone
    | some p =>
      have hmem := List.mem_of_find?_eq_some hfind
      have hstarts := List.find?_some hfind
      have hleads := List.isPrefixOf_iff_prefix.mp hstarts
      have hle := hlongest p hmem hleads
      have hlong : ∀ p ∈ longPunctuators, 1 < p.length := by decide
      -- Both start the text, so the longer one starts with the other.
      have hfront : p <+: c :: cs :=
        List.prefix_of_prefix_length_le hleads (List.prefix_append (c :: cs) rest) hle
      rcases hform with rfl | hword
      · have := hlong p hmem
        rw [List.length_singleton] at hle
        omega
      · have hge := length_le_of_find? hfind hword (List.prefix_append (c :: cs) rest)
        exact hfront.eq_of_length_le hge

/-! ### One piece of the text -/

section Step

variable {index : LineIndex} {literals : List Literal} {comments : List Span} {id offset : Nat}

/-- The rest of a piece under way is passed over. -/
theorem scanFrom_covered (text rest : List Char) :
    scanFrom index literals comments id offset text.length (text ++ rest) =
      scanFrom index literals comments id (offset + Text.byteLength text) 0 rest := by
  induction text generalizing offset with
  | nil => rfl
  | cons c text ih =>
    rw [List.length_cons, List.cons_append, scanFrom, ih, Text.byteLength, Nat.add_assoc]

/-- The literals that are still to come at an offset. -/
def literalsAt (literals : List Literal) (offset : Nat) : List Literal :=
  literals.dropWhile fun l => decide (l.span.start < offset)

/-- The comments that are still to come at an offset. -/
def commentsAt (comments : List Span) (offset : Nat) : List Span :=
  comments.dropWhile fun s => isPassed s offset

theorem scanFrom_token {c : Char} {text rest : List Char} {kind : TokenKind}
    (h : pieceAt (literalsAt literals offset).head? (commentsAt comments offset).head? offset c
      (text ++ rest) = some (.token kind (c :: text))) :
    scanFrom index literals comments id offset 0 (c :: text ++ rest) =
      (scanFrom index (literalsAt literals offset) (commentsAt comments offset) (id + 1)
        (offset + Text.byteLength (c :: text)) 0 rest).map
          (placeToken index id kind (c :: text) offset :: ·) := by
  rw [List.cons_append, scanFrom]
  simp only [literalsAt, commentsAt] at h
  simp only [h, literalsAt, commentsAt, List.length_cons, Nat.add_sub_cancel]
  rw [scanFrom_covered, Text.byteLength, Nat.add_assoc]

theorem scanFrom_gap {c : Char} {text rest : List Char}
    (h : pieceAt (literalsAt literals offset).head? (commentsAt comments offset).head? offset c
      (text ++ rest) = some (.gap (c :: text))) :
    scanFrom index literals comments id offset 0 (c :: text ++ rest) =
      scanFrom index (literalsAt literals offset) (commentsAt comments offset) id
        (offset + Text.byteLength (c :: text)) 0 rest := by
  rw [List.cons_append, scanFrom]
  simp only [literalsAt, commentsAt] at h
  simp only [h, literalsAt, commentsAt, List.length_cons, Nat.add_sub_cancel]
  rw [scanFrom_covered, Text.byteLength, Nat.add_assoc]

end Step

/-! ### What a split text is -/

/-- Text that belongs to no token: separators and whole comments, one after the other. -/
inductive IsGap (comments : List Span) : (offset : Nat) → List Char → Prop
  | nil (offset : Nat) : IsGap comments offset []
  | separator {offset : Nat} {c : Char} {rest : List Char} : Text.isSeparator c = true →
      IsGap comments (offset + c.utf8Size) rest → IsGap comments offset (c :: rest)
  | comment {offset : Nat} {text rest : List Char} :
      ⟨offset, offset + Text.byteLength text⟩ ∈ comments →
      IsGap comments (offset + Text.byteLength text) rest → IsGap comments offset (text ++ rest)

/-- Where the token with a text at an offset comes from: it is one of the literals, or no literal and no
comment starts there and it is a lexeme of the text. -/
inductive Origin (literals : List Literal) (comments : List Span) (kind : TokenKind) (offset : Nat)
    (text rest : List Char) : Prop
  | literal : ⟨⟨offset, offset + Text.byteLength text⟩, kind⟩ ∈ literals →
      Origin literals comments kind offset text rest
  | lexeme : (∀ l ∈ literals, l.span.start ≠ offset) →
      (∀ s ∈ comments, s.start = offset → s.stop = offset) → Lexeme kind text rest →
      Origin literals comments kind offset text rest

/-- The rest of a text split into tokens, after what is passed. -/
inductive Splits (text : List Char) (literals : List Literal) (comments : List Span) :
    (id : Nat) → (passed rest : List Char) → List Token → Prop
  | done {id : Nat} {passed rest : List Char} : IsGap comments (Text.byteLength passed) rest →
      Splits text literals comments id passed rest []
  | token {id : Nat} {passed gap lexeme rest : List Char} {kind : TokenKind} {tokens : List Token} :
      IsGap comments (Text.byteLength passed) gap → lexeme ≠ [] →
      Origin literals comments kind (Text.byteLength (passed ++ gap)) lexeme rest →
      Splits text literals comments (id + 1) (passed ++ gap ++ lexeme) rest tokens →
      Splits text literals comments id passed (gap ++ (lexeme ++ rest))
        (placeToken (.ofChars text) id kind lexeme (Text.byteLength (passed ++ gap)) :: tokens)

namespace Splits

variable {text : List Char} {literals : List Literal} {comments : List Span} {id : Nat}
  {passed rest : List Char} {tokens : List Token}

/-- A stretch that is part of a gap is put in front. -/
private theorem gap_append {front : List Char}
    (hfront : ∀ gap, IsGap comments (Text.byteLength (passed ++ front)) gap →
      IsGap comments (Text.byteLength passed) (front ++ gap))
    (h : Splits text literals comments id (passed ++ front) rest tokens) :
    Splits text literals comments id passed (front ++ rest) tokens := by
  cases h with
  | done hgap => exact .done (hfront _ hgap)
  | @token _ _ gap lexeme rest kind tokens hgap hne horigin hrest =>
    rw [← List.append_assoc front]
    have hjoin : passed ++ front ++ gap = passed ++ (front ++ gap) := List.append_assoc ..
    rw [hjoin] at horigin hrest ⊢
    exact .token (hfront _ hgap) hne horigin hrest

theorem separator {c : Char} (hc : Text.isSeparator c = true)
    (h : Splits text literals comments id (passed ++ [c]) rest tokens) :
    Splits text literals comments id passed (c :: rest) tokens := by
  rw [← List.singleton_append]
  refine gap_append (fun gap hgap => .separator hc ?_) h
  simpa [Text.byteLength_append, Text.byteLength] using hgap

theorem comment {front : List Char}
    (hs : ⟨Text.byteLength passed, Text.byteLength (passed ++ front)⟩ ∈ comments)
    (h : Splits text literals comments id (passed ++ front) rest tokens) :
    Splits text literals comments id passed (front ++ rest) tokens := by
  rw [Text.byteLength_append] at hs
  refine gap_append (fun gap hgap => .comment hs ?_) h
  rwa [Text.byteLength_append] at hgap

theorem lexeme {front : List Char} {kind : TokenKind} (hne : front ≠ [])
    (horigin : Origin literals comments kind (Text.byteLength passed) front rest)
    (h : Splits text literals comments (id + 1) (passed ++ front) rest tokens) :
    Splits text literals comments id passed (front ++ rest)
      (placeToken (.ofChars text) id kind front (Text.byteLength passed) :: tokens) := by
  have hsplits := @Splits.token text literals comments id passed [] front rest kind tokens (.nil _) hne
  simp only [List.append_nil] at hsplits
  exact hsplits horigin h

end Splits

/-! ### The scan -/

/-- What is still to come of a list at an offset, in the order of the starts. -/
structure Queued {α : Type} (start : α → Nat) (all : List α) (offset : Nat) (queue : List α) :
    Prop where
  subset : ∀ a ∈ queue, a ∈ all
  ordered : queue.Pairwise fun a b => start a ≤ start b
  complete : ∀ a ∈ all, offset ≤ start a → a ∈ queue

namespace Queued

variable {α : Type} {start : α → Nat} {all queue : List α} {offset : Nat} {p : α → Bool}

private theorem mem_of_not_dropped {xs : List α} {a : α} (ha : a ∈ xs) (hp : p a = false) :
    a ∈ xs.dropWhile p := by
  rw [← List.takeWhile_append_dropWhile (p := p) (l := xs)] at ha
  rcases List.mem_append.mp ha with ha | ha
  · have := List.mem_takeWhile_imp ha
    simp [hp] at this
  · exact ha

/-- Further on in the text, what was passed is no longer to come. -/
theorem dropWhile (h : Queued start all offset queue) (hp : ∀ a, p a = true → start a ≤ offset)
    {later : Nat} (hlater : offset < later) : Queued start all later (queue.dropWhile p) := by
  have hsub := List.dropWhile_sublist (l := queue) p
  refine ⟨fun a ha => h.subset a (hsub.mem ha), h.ordered.sublist hsub, fun a ha hle => ?_⟩
  refine mem_of_not_dropped (h.complete a ha (by omega)) ?_
  rw [Bool.eq_false_iff]
  intro hpassed
  have := hp a hpassed
  omega

/-- What starts at the offset and is not passed comes first, or something that starts there too. -/
theorem head? (h : Queued start all offset queue) (hp : ∀ a, p a = false → offset ≤ start a) {a : α}
    (ha : a ∈ all) (hstart : start a = offset) (hnot : p a = false) :
    ∃ b, (queue.dropWhile p).head? = some b ∧ start b = offset := by
  have hmem := mem_of_not_dropped (h.complete a ha hstart.ge) hnot
  cases hdrop : queue.dropWhile p with
  | nil => simp [hdrop] at hmem
  | cons b bs =>
    have hb : p b = false := by
      have hhead := List.head?_dropWhile_not p queue
      rw [hdrop] at hhead
      simpa using hhead
    have hordered := h.ordered.sublist (List.dropWhile_sublist p)
    rw [hdrop] at hordered hmem
    refine ⟨b, rfl, Nat.le_antisymm ?_ (hp b hb)⟩
    rcases List.mem_cons.mp hmem with rfl | hmem
    · exact hstart.le
    · exact hstart ▸ (List.pairwise_cons.mp hordered).1 a hmem

end Queued

/-- A span of a text: its ends are boundaries, in order. -/
structure Span.FitsIn (text : List Char) (s : Span) : Prop where
  start : Text.IsBoundary text s.start
  stop : Text.IsBoundary text s.stop
  ordered : s.start ≤ s.stop

instance (text : List Char) (offset : Nat) : Decidable (Text.IsBoundary text offset) :=
  decidable_of_iff ((Text.takeBytes offset text).isSome = true) <| by
    rw [Option.isSome_iff_exists]
    constructor
    · rintro ⟨taken, htaken⟩
      obtain ⟨hlength, rest, rfl⟩ := Text.takeBytes_eq_some htaken
      exact ⟨taken, rest, rfl, hlength⟩
    · rintro ⟨before, after, rfl, rfl⟩
      exact ⟨before, Text.takeBytes_append before after⟩

instance (text : List Char) (s : Span) : Decidable (s.FitsIn text) :=
  decidable_of_iff (Text.IsBoundary text s.start ∧ Text.IsBoundary text s.stop ∧ s.start ≤ s.stop)
    ⟨fun ⟨hstart, hstop, hordered⟩ => ⟨hstart, hstop, hordered⟩,
      fun h => ⟨h.start, h.stop, h.ordered⟩⟩

/-- A span that starts where the rest of a text does is cut off the rest. -/
theorem Span.FitsIn.cut {passed rest : List Char} {c : Char} {s : Span}
    (h : s.FitsIn (passed ++ c :: rest)) (hstart : s.start = Text.byteLength passed)
    (hlt : s.start < s.stop) :
    ∃ front after, rest = front ++ after ∧ Text.byteLength (passed ++ c :: front) = s.stop ∧
      Text.takeBytes (s.stop - Text.byteLength passed) (c :: rest) = some (c :: front) := by
  obtain ⟨before, after, hwhole, hstop⟩ := h.stop
  rw [hstart, ← hstop] at hlt
  obtain ⟨text, rfl, hrest⟩ := Text.append_split hwhole hlt.le
  rw [← hstop, Text.byteLength_append, Nat.add_sub_cancel_left]
  rw [Text.byteLength_append] at hlt
  cases text with
  | nil => simp [Text.byteLength] at hlt
  | cons d front =>
    obtain ⟨rfl, rfl⟩ := List.cons.inj hrest
    refine ⟨front, after, rfl, Text.byteLength_append _ _, ?_⟩
    exact Text.takeBytes_append (c :: front) after

/-- What is at a place of the text that is not passed: a token and where it comes from, or a stretch of a
gap, each in front of the rest. -/
inductive PieceOf (literals : List Literal) (comments : List Span) (passed : List Char) (c : Char)
    (rest : List Char) : Option Piece → Prop
  | token {kind : TokenKind} {front after : List Char} : rest = front ++ after →
      Origin literals comments kind (Text.byteLength passed) (c :: front) after →
      PieceOf literals comments passed c rest (some (.token kind (c :: front)))
  | comment {front after : List Char} : rest = front ++ after →
      ⟨Text.byteLength passed, Text.byteLength (passed ++ c :: front)⟩ ∈ comments →
      PieceOf literals comments passed c rest (some (.gap (c :: front)))
  | separator : Text.isSeparator c = true → PieceOf literals comments passed c rest (some (.gap [c]))

section Scan

variable {literals : List Literal} {comments : List Span}

/-- No literal starts where the next one does not. -/
theorem Queued.no_literal {offset : Nat} {lits : List Literal}
    (h : Queued (·.span.start) literals offset lits)
    (hnone : (literalsAt lits offset).head?.filter (·.span.start == offset) = none) :
    ∀ l ∈ literals, l.span.start ≠ offset := by
  intro l hl hstart
  obtain ⟨m, hm, hmstart⟩ := h.head? (p := fun l => decide (l.span.start < offset)) (by simp) hl hstart
    (by simp [hstart])
  rw [literalsAt, hm] at hnone
  simp [hmstart] at hnone

/-- Only empty comments start where the next one does not. -/
theorem Queued.no_comment {offset : Nat} {later : List Span}
    (h : Queued Span.start comments offset later)
    (hnone : (commentsAt later offset).head?.filter (·.start == offset) = none) :
    ∀ s ∈ comments, s.start = offset → s.stop = offset := by
  intro s hs hstart
  by_contra hopen
  obtain ⟨m, hm, hmstart⟩ := h.head? (p := fun s => isPassed s offset)
    (by intro s hs; simp [isPassed] at hs; omega) hs hstart (by simp [isPassed, hstart, hopen])
  rw [commentsAt, hm] at hnone
  simp [hmstart] at hnone

/-- The piece at a place is the literal or the comment that starts there, a separator or a lexeme. -/
theorem pieceAt_pieceOf {passed rest : List Char} {c : Char} {lits : List Literal} {later : List Span}
    (hliterals : ∀ l ∈ literals, l.span.FitsIn (passed ++ c :: rest) ∧ l.span.start < l.span.stop)
    (hcomments : ∀ s ∈ comments, s.FitsIn (passed ++ c :: rest))
    (hlits : Queued (·.span.start) literals (Text.byteLength passed) lits)
    (hlater : Queued Span.start comments (Text.byteLength passed) later) :
    PieceOf literals comments passed c rest (pieceAt (literalsAt lits (Text.byteLength passed)).head?
      (commentsAt later (Text.byteLength passed)).head? (Text.byteLength passed) c rest) := by
  unfold pieceAt
  split
  · rename_i l hl
    obtain ⟨hl, hstart⟩ := Option.filter_eq_some_iff.mp hl
    replace hstart : l.span.start = Text.byteLength passed := by simpa using hstart
    have hmem : l ∈ literals :=
      hlits.subset l ((List.dropWhile_sublist _).mem (List.mem_of_mem_head? hl))
    obtain ⟨hfits, hlt⟩ := hliterals l hmem
    obtain ⟨front, after, hrest, hstop, htake⟩ := hfits.cut hstart hlt
    rw [htake, Option.map_some]
    refine .token hrest (.literal ?_)
    rw [← Text.byteLength_append, hstop, ← hstart]
    exact hmem
  · rename_i hliteral
    split
    · rename_i s hs
      obtain ⟨hs, hstart⟩ := Option.filter_eq_some_iff.mp hs
      replace hstart : s.start = Text.byteLength passed := by simpa using hstart
      have hmem : s ∈ comments :=
        hlater.subset s ((List.dropWhile_sublist _).mem (List.mem_of_mem_head? hs))
      have hopen : s.start < s.stop := by
        have hhead := List.head?_dropWhile_not (fun s => isPassed s (Text.byteLength passed)) later
        rw [commentsAt] at hs
        rw [hs] at hhead
        have hle := (hcomments s hmem).ordered
        have hopen : s.stop ≠ Text.byteLength passed := by simpa [isPassed, hstart] using hhead
        omega
      obtain ⟨front, after, hrest, hstop, htake⟩ := (hcomments s hmem).cut hstart hopen
      rw [htake, Option.map_some]
      refine .comment hrest ?_
      rw [hstop, ← hstart]
      exact hmem
    · rename_i hcomment
      split
      · rename_i hseparator
        exact .separator hseparator
      · rename_i hseparator
        rw [Bool.not_eq_true] at hseparator
        obtain ⟨after, hafter, hlexeme⟩ := leadingToken_lexeme rest hseparator
        generalize hlead : leadingToken c rest = lead at hafter hlexeme ⊢
        obtain ⟨kind, front⟩ := lead
        dsimp only at hafter hlexeme ⊢
        obtain ⟨d, front, rfl⟩ := List.exists_cons_of_ne_nil hlexeme.ne_nil
        obtain ⟨rfl, hrest⟩ := List.cons.inj hafter
        exact .token hrest (.lexeme (hlits.no_literal hliteral) (hlater.no_comment hcomment) hlexeme)

/-- The scan splits what is left of the text. -/
theorem scanFrom_splits {text : List Char}
    (hliterals : ∀ l ∈ literals, l.span.FitsIn text ∧ l.span.start < l.span.stop)
    (hcomments : ∀ s ∈ comments, s.FitsIn text) (passed : List Char) {rest : List Char}
    {lits : List Literal} {later : List Span} {id : Nat} (htext : text = passed ++ rest)
    (hlits : Queued (·.span.start) literals (Text.byteLength passed) lits)
    (hlater : Queued Span.start comments (Text.byteLength passed) later) :
    ∃ tokens, scanFrom (.ofChars text) lits later id (Text.byteLength passed) 0 rest = some tokens ∧
      Splits text literals comments id passed rest tokens := by
  induction hlength : rest.length using Nat.strong_induction_on generalizing passed rest lits later id with
  | _ n ih =>
    subst hlength
    cases rest with
    | nil => exact ⟨[], rfl, .done (.nil _)⟩
    | cons c rest =>
      -- What follows a piece is split, whatever number the next token gets.
      have hnext : ∀ {front after : List Char} (id : Nat), rest = front ++ after →
          ∃ tokens, scanFrom (.ofChars text) (literalsAt lits (Text.byteLength passed))
              (commentsAt later (Text.byteLength passed)) id
              (Text.byteLength passed + Text.byteLength (c :: front)) 0 after = some tokens ∧
            Splits text literals comments id (passed ++ c :: front) after tokens := by
        intro front after id hrest
        have hfar : Text.byteLength passed < Text.byteLength (passed ++ c :: front) := by
          have := Text.byteLength_pos (List.cons_ne_nil c front)
          rw [Text.byteLength_append]
          omega
        have hless : after.length < (c :: rest).length := by
          rw [hrest, List.length_cons, List.length_append]
          omega
        rw [← Text.byteLength_append]
        refine ih after.length hless _ (by simp [htext, hrest]) ?_ ?_ rfl
        · exact hlits.dropWhile (fun l hl => by simp at hl; omega) hfar
        · exact hlater.dropWhile (fun s hs => by simp [isPassed] at hs; omega) hfar
      have hpiece := pieceAt_pieceOf (htext ▸ hliterals) (htext ▸ hcomments) hlits hlater
      generalize hat : pieceAt (literalsAt lits (Text.byteLength passed)).head?
        (commentsAt later (Text.byteLength passed)).head? (Text.byteLength passed) c rest = piece
        at hpiece
      cases hpiece with
      | @token kind front after hrest horigin =>
        obtain ⟨tokens, hscan, hsplits⟩ := hnext (id + 1) hrest
        subst hrest
        refine ⟨_, ?_, Splits.lexeme (List.cons_ne_nil c front) horigin hsplits⟩
        rw [← List.cons_append, scanFrom_token hat, hscan]
        rfl
      | @comment front after hrest hs =>
        obtain ⟨tokens, hscan, hsplits⟩ := hnext id hrest
        subst hrest
        refine ⟨tokens, ?_, hsplits.comment hs⟩
        rw [← List.cons_append, scanFrom_gap hat, hscan]
      | separator hseparator =>
        obtain ⟨tokens, hscan, hsplits⟩ := hnext id (show rest = [] ++ rest from rfl)
        refine ⟨tokens, ?_, hsplits.separator hseparator⟩
        rw [← hscan]
        exact scanFrom_gap (show pieceAt _ _ _ c ([] ++ rest) = some (.gap [c]) from hat)

end Scan

private theorem insertLiteral_ordered {l : Literal} {ls : List Literal}
    (h : ls.Pairwise fun a b => a.span.start ≤ b.span.start) :
    (insertLiteral l ls).Pairwise fun a b => a.span.start ≤ b.span.start := by
  induction ls with
  | nil => exact List.pairwise_singleton _ _
  | cons m ms ih =>
    obtain ⟨hm, hms⟩ := List.pairwise_cons.mp h
    unfold insertLiteral
    split
    · rename_i hle
      refine List.pairwise_cons.mpr ⟨fun b hb => ?_, h⟩
      rcases List.mem_cons.mp hb with rfl | hb
      · exact hle
      · exact hle.trans (hm b hb)
    · rename_i hlt
      refine List.pairwise_cons.mpr ⟨fun b hb => ?_, ih hms⟩
      rcases mem_insertLiteral.mp hb with rfl | hb
      · exact (Nat.lt_of_not_le hlt).le
      · exact hm b hb

theorem orderLiterals_ordered (ls : List Literal) :
    (orderLiterals ls).Pairwise fun a b => a.span.start ≤ b.span.start := by
  induction ls with
  | nil => exact .nil
  | cons l ls ih => exact insertLiteral_ordered ih

/-! ### The tokens of a text -/

/-- The stretches before, between and after some tokens. -/
def gapsFrom (low high : Nat) : List Token → List Span
  | [] => [⟨low, high⟩]
  | t :: ts => ⟨low, t.span.start⟩ :: gapsFrom t.span.stop high ts

/-- How the tokens of a text lie in it: numbered from zero and apart from each other, each with its own
stretch of the text as value and the places of its ends; what is left is gaps, and every token is a
literal or a lexeme. -/
structure Tiling (literals : List Literal) (comments : List Span) (text : List Char)
    (tokens : List Token) : Prop where
  ids : tokens.map Token.id = List.range tokens.length
  nonempty : ∀ t ∈ tokens, t.span.start < t.span.stop
  apart : tokens.Pairwise fun t u => t.span.stop ≤ u.span.start
  values : ∀ t ∈ tokens, Text.slice text t.span = some t.value.toList
  regions : ∀ t ∈ tokens, t.region = (LineIndex.ofChars text).region t.span
  gaps : ∀ g ∈ gapsFrom 0 (Text.byteLength text) tokens,
    ∃ gap, Text.slice text g = some gap ∧ IsGap comments g.start gap
  origins : ∀ t ∈ tokens, ∃ before rest, text = before ++ (t.value.toList ++ rest) ∧
    Text.byteLength before = t.span.start ∧
    Origin literals comments t.kind t.span.start t.value.toList rest

section Tiling

variable {text : List Char} {literals : List Literal} {comments : List Span} {id : Nat}
  {passed rest : List Char} {tokens : List Token}

theorem Splits.ids_eq (h : Splits text literals comments id passed rest tokens) :
    tokens.map Token.id = List.range' id tokens.length := by
  induction h with
  | done _ => rfl
  | token _ _ _ _ ih => rw [List.map_cons, ih, List.length_cons, List.range'_succ]; rfl

/-- What holds of one token in the text. -/
structure Token.Tile (literals : List Literal) (comments : List Span) (text : List Char) (low : Nat)
    (t : Token) : Prop where
  low_le : low ≤ t.span.start
  nonempty : t.span.start < t.span.stop
  region_eq : t.region = (LineIndex.ofChars text).region t.span
  origin : ∃ before rest, text = before ++ (t.value.toList ++ rest) ∧
    Text.byteLength before = t.span.start ∧
    Text.byteLength (before ++ t.value.toList) = t.span.stop ∧
    Origin literals comments t.kind t.span.start t.value.toList rest

theorem Splits.tiles (h : Splits text literals comments id passed rest tokens)
    (htext : text = passed ++ rest) :
    (∀ t ∈ tokens, t.Tile literals comments text (Text.byteLength passed)) ∧
      tokens.Pairwise fun t u => t.span.stop ≤ u.span.start := by
  induction h with
  | done _ => exact ⟨by simp, .nil⟩
  | @token id passed gap lexeme rest kind tokens hgap hne horigin hrest ih =>
    obtain ⟨htiles, happart⟩ := ih (by simp [htext])
    have hspan : (placeToken (.ofChars text) id kind lexeme (Text.byteLength (passed ++ gap))).span =
        ⟨Text.byteLength (passed ++ gap), Text.byteLength (passed ++ gap ++ lexeme)⟩ := by
      rw [Text.byteLength_append (passed ++ gap)]
      rfl
    have hlong : Text.byteLength (passed ++ gap) < Text.byteLength (passed ++ gap ++ lexeme) := by
      have := Text.byteLength_pos hne
      rw [Text.byteLength_append (passed ++ gap)]
      omega
    have hlow : Text.byteLength passed ≤ Text.byteLength (passed ++ gap) := by
      rw [Text.byteLength_append]
      omega
    refine ⟨List.forall_mem_cons.mpr ⟨⟨?_, ?_, rfl, passed ++ gap, rest, ?_, ?_, ?_, ?_⟩, ?_⟩,
      List.pairwise_cons.mpr ⟨fun u hu => ?_, happart⟩⟩
    · rw [hspan]
      exact hlow
    · rw [hspan]
      exact hlong
    · simp [htext, placeToken]
    · rw [hspan]
    · rw [hspan]
      simp [placeToken]
    · simpa [placeToken] using horigin
    · intro t ht
      obtain ⟨hle, hnonempty, hregion, horigin⟩ := htiles t ht
      exact ⟨by omega, hnonempty, hregion, horigin⟩
    · rw [hspan]
      exact (htiles u hu).low_le

theorem Splits.gaps (h : Splits text literals comments id passed rest tokens)
    (htext : text = passed ++ rest) :
    ∀ g ∈ gapsFrom (Text.byteLength passed) (Text.byteLength text) tokens,
      ∃ gap, Text.slice text g = some gap ∧ IsGap comments g.start gap := by
  induction h with
  | @done id passed rest hgap =>
    simp only [gapsFrom, List.mem_singleton, forall_eq]
    exact ⟨rest, Text.slice_eq_some_iff.mpr ⟨passed, [], by simp [htext], rfl, by rw [htext]⟩, hgap⟩
  | @token id passed gap lexeme rest kind tokens hgap hne horigin hrest ih =>
    refine List.forall_mem_cons.mpr ⟨⟨gap, ?_, hgap⟩, ?_⟩
    · exact Text.slice_eq_some_iff.mpr ⟨passed, lexeme ++ rest, htext, rfl, rfl⟩
    · have hlater := ih (by simp [htext])
      rw [Text.byteLength_append (passed ++ gap)] at hlater
      exact hlater

end Tiling

/-- The scan of a text splits it. -/
theorem scan_splits {text : List Char} {literals : List Literal} {comments : List Span}
    (hliterals : ∀ l ∈ literals, l.span.FitsIn text ∧ l.span.start < l.span.stop)
    (hcomments : ∀ s ∈ comments, s.FitsIn text)
    (hordered : comments.Pairwise fun s u => s.start ≤ u.start) :
    ∃ tokens, scan (.ofChars text) literals comments text = some tokens ∧
      Splits text literals comments 0 [] text tokens := by
  have hlits : Queued (·.span.start) literals 0 (orderLiterals literals) :=
    ⟨fun l hl => mem_orderLiterals.mp hl, orderLiterals_ordered literals,
      fun l hl _ => mem_orderLiterals.mpr hl⟩
  have hlater : Queued Span.start comments 0 comments := ⟨fun s hs => hs, hordered, fun s hs _ => hs⟩
  exact scanFrom_splits hliterals hcomments [] rfl hlits hlater

/-- The tokens of a text tile it, whatever literals and comments are given in it. -/
theorem text_tiled {text : List Char} {literals : List Literal} {comments : List Span}
    (hliterals : ∀ l ∈ literals, l.span.FitsIn text ∧ l.span.start < l.span.stop)
    (hcomments : ∀ s ∈ comments, s.FitsIn text)
    (hordered : comments.Pairwise fun s u => s.start ≤ u.start) :
    ∃ tokens, scan (.ofChars text) literals comments text = some tokens ∧
      Tiling literals comments text tokens := by
  obtain ⟨tokens, hscan, hsplits⟩ := scan_splits hliterals hcomments hordered
  obtain ⟨htiles, happart⟩ := hsplits.tiles rfl
  refine ⟨tokens, hscan, ?_, fun t ht => (htiles t ht).nonempty, happart, fun t ht => ?_,
    fun t ht => (htiles t ht).region_eq, hsplits.gaps rfl, fun t ht => ?_⟩
  · rw [hsplits.ids_eq, List.range_eq_range']
  · obtain ⟨before, rest, htext, hstart, hstop, -⟩ := (htiles t ht).origin
    exact Text.slice_eq_some_iff.mpr ⟨before, rest, htext, hstart, hstop⟩
  · obtain ⟨before, rest, htext, hstart, -, horigin⟩ := (htiles t ht).origin
    exact ⟨before, rest, htext, hstart, horigin⟩

/-- A template with a literal and a comment inside of it, a comment of its own and a long punctuator. -/
theorem text_tiled_template :
    ∃ tokens, scan (.ofChars "x = `a$\x7b'b' /* c */\x7d` /* d */ >>>= 1.5;".toList)
      [⟨⟨8, 11⟩, .string⟩, ⟨⟨4, 21⟩, .template⟩, ⟨⟨35, 38⟩, .numeric⟩] [⟨12, 19⟩, ⟨22, 29⟩]
      "x = `a$\x7b'b' /* c */\x7d` /* d */ >>>= 1.5;".toList = some tokens ∧
        Tiling [⟨⟨8, 11⟩, .string⟩, ⟨⟨4, 21⟩, .template⟩, ⟨⟨35, 38⟩, .numeric⟩] [⟨12, 19⟩, ⟨22, 29⟩]
          "x = `a$\x7b'b' /* c */\x7d` /* d */ >>>= 1.5;".toList tokens := by
  refine text_tiled ?_ ?_ ?_
  · decide +kernel
  · decide +kernel
  · decide +kernel

end ClosureReady
