import ClosureReady.Proofs.Numbering
import ClosureReady.Proofs.Placement
import Mathlib.Data.List.TakeWhile

/-!
A stream that was read from a source is placed in its text.  The scan keeps what it has passed as a
stretch in front of the rest, so every code token starts and ends at a boundary; a comment does because
its text could be cut out; and merging the two orders them by their starts.
-/

set_option autoImplicit false
set_option relaxedAutoImplicit false

namespace ClosureReady

/-- What holds of one token of a text, wherever it stands in a stream. -/
structure Token.Fits (text : List Char) (t : Token) : Prop where
  region_eq : t.region = (LineIndex.ofChars text).region t.span
  start_boundary : Text.IsBoundary text t.span.start
  stop_boundary : Text.IsBoundary text t.span.stop
  start_le_stop : t.span.start ≤ t.span.stop
  name : t.kind = .identifier → t.value ∉ keywords
  single : t.kind = .identifier ∨ t.kind = .punctuator → t.isSingleLine = true

namespace Text

theorem takeBytes_eq_some {bytes : Nat} {text taken : List Char}
    (h : takeBytes bytes text = some taken) :
    byteLength taken = bytes ∧ ∃ rest, text = taken ++ rest := by
  induction text generalizing bytes taken with
  | nil =>
    unfold takeBytes at h
    split at h
    · rename_i hzero
      obtain rfl := Option.some.inj h
      exact ⟨hzero.symm, [], rfl⟩
    · simp at h
  | cons c cs ih =>
    unfold takeBytes at h
    split at h
    · rename_i hzero
      obtain rfl := Option.some.inj h
      exact ⟨hzero.symm, c :: cs, rfl⟩
    · split at h
      · rename_i hsize
        obtain ⟨more, hmore, rfl⟩ := Option.map_eq_some_iff.mp h
        obtain ⟨hlength, rest, rfl⟩ := ih hmore
        refine ⟨?_, rest, rfl⟩
        simp only [byteLength]
        omega
      · simp at h

private theorem dropBytes_eq_some {bytes : Nat} {text rest : List Char}
    (h : dropBytes bytes text = some rest) :
    ∃ dropped, text = dropped ++ rest ∧ byteLength dropped = bytes := by
  induction text generalizing bytes with
  | nil =>
    unfold dropBytes at h
    split at h
    · rename_i hzero
      obtain rfl := Option.some.inj h
      exact ⟨[], rfl, hzero.symm⟩
    · simp at h
  | cons c cs ih =>
    unfold dropBytes at h
    split at h
    · rename_i hzero
      obtain rfl := Option.some.inj h
      exact ⟨[], rfl, hzero.symm⟩
    · split at h
      · rename_i hsize
        obtain ⟨dropped, rfl, hlength⟩ := ih h
        refine ⟨c :: dropped, rfl, ?_⟩
        simp only [byteLength]
        omega
      · simp at h

theorem takeBytes_append (text post : List Char) :
    takeBytes (byteLength text) (text ++ post) = some text := by
  induction text with
  | nil => cases post <;> simp [takeBytes, byteLength]
  | cons c text ih =>
    have hsize := c.utf8Size_pos
    rw [List.cons_append, takeBytes, byteLength, if_neg (by omega), if_pos (by omega),
      Nat.add_sub_cancel_left, ih]
    rfl

private theorem dropBytes_append (pre post : List Char) :
    dropBytes (byteLength pre) (pre ++ post) = some post := by
  induction pre with
  | nil => cases post <;> simp [dropBytes, byteLength]
  | cons c pre ih =>
    have hsize := c.utf8Size_pos
    rw [List.cons_append, dropBytes, byteLength, if_neg (by omega), if_pos (by omega),
      Nat.add_sub_cancel_left, ih]

/-- The text of a span is what stands between its two ends. -/
theorem slice_eq_some_iff {whole text : List Char} {span : Span} :
    slice whole span = some text ↔ ∃ pre post, whole = pre ++ (text ++ post) ∧
      byteLength pre = span.start ∧ byteLength (pre ++ text) = span.stop := by
  unfold slice
  constructor
  · intro h
    split at h
    · obtain ⟨rest, hrest, htaken⟩ := Option.bind_eq_some_iff.mp h
      obtain ⟨pre, rfl, hpre⟩ := dropBytes_eq_some hrest
      obtain ⟨htext, post, rfl⟩ := takeBytes_eq_some htaken
      refine ⟨pre, post, rfl, hpre, ?_⟩
      rw [byteLength_append]
      omega
    · simp at h
  · rintro ⟨pre, post, rfl, hstart, hstop⟩
    rw [byteLength_append] at hstop
    have hlength : span.stop - span.start = byteLength text := by omega
    rw [if_pos (by omega), hlength, ← hstart, dropBytes_append, Option.bind_some, takeBytes_append]

theorem slice_boundaries {text full : List Char} {span : Span} (h : slice text span = some full) :
    IsBoundary text span.start ∧ IsBoundary text span.stop ∧ span.start ≤ span.stop := by
  obtain ⟨pre, post, rfl, hstart, hstop⟩ := slice_eq_some_iff.mp h
  refine ⟨⟨pre, full ++ post, rfl, hstart⟩, ⟨pre ++ full, post, by simp, hstop⟩, ?_⟩
  rw [byteLength_append] at hstop
  omega

end Text

/-! ### Code tokens -/

theorem leadingToken_isFront (c : Char) (rest : List Char) :
    ∃ after, c :: rest = (leadingToken c rest).2 ++ after := by
  unfold leadingToken
  split
  · exact ⟨rest.dropWhile Text.isWordPart, by simp⟩
  · split
    · exact ⟨rest.dropWhile isDigitRunPart, by simp⟩
    · cases hfind : longPunctuators.find? fun p => p.isPrefixOf (c :: rest) with
      | none => exact ⟨rest, rfl⟩
      | some p =>
        have hprefix := List.find?_some hfind
        obtain ⟨after, hafter⟩ := List.isPrefixOf_iff_prefix.mp hprefix
        exact ⟨after, hafter.symm⟩

private theorem leadingToken_name {c : Char} {rest : List Char}
    (h : (leadingToken c rest).1 = .identifier) :
    String.ofList (leadingToken c rest).2 ∉ keywords := by
  unfold leadingToken at h ⊢
  split
  · rename_i hword
    rw [if_pos hword] at h
    unfold classifyWord at h
    dsimp only at h ⊢
    split at h
    · simp at h
    · split at h
      · simp at h
      · split at h
        · simp at h
        · rename_i hkeyword
          simpa using hkeyword
  · rename_i hword
    rw [if_neg hword] at h
    split at h <;> simp at h

theorem leadingToken_plain {c : Char} (rest : List Char) (hc : c ≠ '\n') :
    '\n' ∉ (leadingToken c rest).2 := by
  have hword : Text.isWordPart '\n' = false := by decide +kernel
  have hdigit : isDigitRunPart '\n' = false := by decide
  have hlong : ∀ p ∈ longPunctuators, '\n' ∉ p := by decide
  have hrun : ∀ p : Char → Bool, p '\n' = false → '\n' ∉ c :: rest.takeWhile p := by
    intro p hp hmem
    rcases List.mem_cons.mp hmem with heq | hmem
    · exact hc heq.symm
    · simpa [hp] using List.mem_takeWhile_imp hmem
  unfold leadingToken
  split
  · exact hrun _ hword
  · split
    · exact hrun _ hdigit
    · cases hfind : longPunctuators.find? fun p => p.isPrefixOf (c :: rest) with
      | none => simpa using hc.symm
      | some p => exact hlong p (List.mem_of_find?_eq_some hfind)

/-- A piece that is a token is a stretch at the front of the rest; it is no name that is a keyword, and
no name or punctuator with a line feed inside. -/
private theorem pieceAt_token {literal : Option Literal} {comment : Option Span} {offset : Nat}
    {c : Char} {rest : List Char} {kind : TokenKind} {text : List Char}
    (hliteral : ∀ l, literal = some l → ¬ (l.kind = .identifier ∨ l.kind = .punctuator))
    (h : pieceAt literal comment offset c rest = some (.token kind text)) :
    (∃ after, c :: rest = text ++ after) ∧
      (kind = .identifier → String.ofList text ∉ keywords) ∧
      (kind = .identifier ∨ kind = .punctuator → '\n' ∉ text) := by
  unfold pieceAt at h
  split at h
  · rename_i l hl
    obtain ⟨taken, htaken, hpiece⟩ := Option.map_eq_some_iff.mp h
    obtain ⟨rfl, rfl⟩ := Piece.token.inj hpiece
    have hother := hliteral l (Option.filter_eq_some_iff.mp hl).1
    refine ⟨(Text.takeBytes_eq_some htaken).2, fun hkind => ?_, fun hkind => absurd hkind hother⟩
    exact absurd (Or.inl hkind) hother
  · split at h
    · obtain ⟨taken, -, hpiece⟩ := Option.map_eq_some_iff.mp h
      simp at hpiece
    · split at h
      · simp at h
      · rename_i hgap
        have hc : c ≠ '\n' := by
          rintro rfl
          exact hgap (by decide)
        obtain ⟨hkind, htext⟩ := Piece.token.inj (Option.some.inj h)
        subst hkind htext
        exact ⟨leadingToken_isFront c rest, leadingToken_name, fun _ => leadingToken_plain rest hc⟩

private theorem scanFrom_fits (passed : List Char) {rest : List Char} {literals : List Literal}
    {comments : List Span} {id covered : Nat} {tokens : List Token}
    (hliterals : ∀ l ∈ literals, ¬ (l.kind = .identifier ∨ l.kind = .punctuator))
    (h : scanFrom (.ofChars (passed ++ rest)) literals comments id (Text.byteLength passed) covered
      rest = some tokens) :
    ∀ t ∈ tokens, t.Fits (passed ++ rest) := by
  induction rest generalizing passed literals comments id covered tokens with
  | nil =>
    simp only [scanFrom, Option.some.injEq] at h
    simp [← h]
  | cons c rest ih =>
    -- One character moves from the rest to what is passed.
    have hwhole : passed ++ c :: rest = (passed ++ [c]) ++ rest := by simp
    have hoffset : Text.byteLength passed + c.utf8Size = Text.byteLength (passed ++ [c]) := by
      simp [Text.byteLength_append, Text.byteLength]
    have hlater : ∀ l ∈ literals.dropWhile fun l => decide (l.span.start < Text.byteLength passed),
        ¬ (l.kind = .identifier ∨ l.kind = .punctuator) :=
      fun l hl => hliterals l ((List.dropWhile_sublist _).mem hl)
    cases covered with
    | succ covered =>
      rw [scanFrom, hoffset, hwhole] at h
      rw [hwhole]
      exact ih (passed ++ [c]) hliterals h
    | zero =>
      unfold scanFrom at h
      dsimp only at h
      split at h
      · simp at h
      · rw [hoffset, hwhole] at h
        rw [hwhole]
        exact ih (passed ++ [c]) hlater h
      · rename_i kind text hpiece
        obtain ⟨more, hmore, rfl⟩ := Option.map_eq_some_iff.mp h
        rw [hoffset, hwhole] at hmore
        obtain ⟨⟨after, hafter⟩, hname, hsingle⟩ := pieceAt_token
          (fun l hl => hlater l (List.mem_of_mem_head? hl)) hpiece
        intro t ht
        rcases List.mem_cons.mp ht with rfl | ht
        · refine ⟨rfl, ⟨passed, c :: rest, rfl, rfl⟩, ⟨passed ++ text, after, ?_, ?_⟩, ?_, hname,
            fun hkind => ?_⟩
          · rw [List.append_assoc, ← hafter]
          · simp [placeToken, Text.byteLength_append]
          · simp [placeToken]
          · have hline := LineIndex.position_line_eq passed after (hsingle hkind)
            rw [← hafter, Text.byteLength_append] at hline
            exact beq_iff_eq.mpr hline
        · rw [hwhole]
          exact ih (passed ++ [c]) hlater hmore t ht

/-! ### Comments -/

private theorem commentParts_kind (full : List Char) : ¬ ((commentParts full).1 = .identifier ∨ (commentParts full).1 = .punctuator) := by
  unfold commentParts
  split <;> simp

private theorem commentTokens_fits {text : List Char} {id : Nat} {spans : List Span}
    {tokens : List Token} (h : commentTokens (.ofChars text) text id spans = some tokens) :
    ∀ t ∈ tokens, t.Fits text := by
  induction spans generalizing id tokens with
  | nil =>
    simp only [commentTokens, Option.some.injEq] at h
    simp [← h]
  | cons span spans ih =>
    unfold commentTokens at h
    split at h
    · rename_i token later htoken hlater
      obtain rfl := Option.some.inj h
      obtain ⟨full, hfull, rfl⟩ := Option.map_eq_some_iff.mp htoken
      obtain ⟨hstart, hstop, hle⟩ := Text.slice_boundaries hfull
      intro t ht
      rcases List.mem_cons.mp ht with rfl | ht
      · exact ⟨rfl, hstart, hstop, hle, fun hkind => absurd (Or.inl hkind) (commentParts_kind full),
          fun hkind => absurd hkind (commentParts_kind full)⟩
      · exact ih hlater t ht
    · simp at h

/-! ### Literals -/

private theorem literal_kind (k : LiteralKind) : 
    ¬ (k.tokenKind = .identifier ∨ k.tokenKind = .punctuator) := by
  cases k <;> simp [LiteralKind.tokenKind]

/-- Every literal that was noted while a tree was built is that of a node that was entered. -/
theorem Builder.mem_run_literals {index : LineIndex} {b : Builder} {events : List TreeEvent}
    {l : Literal} (h : l ∈ (b.run index events).literals) :
    l ∈ b.literals ∨ ∃ k span, TreeEvent.enter (.literal k) span ∈ events ∧
      l = ⟨span, k.tokenKind⟩ := by
  induction events generalizing b with
  | nil => exact Or.inl h
  | cons e events ih =>
    rcases ih h with hmem | ⟨k, span, hevent, hl⟩
    · cases e with
      | enter kind span =>
        rcases List.mem_append.mp hmem with hmem | hmem
        · cases kind with
          | literal k =>
            refine Or.inr ⟨k, span, List.mem_cons_self, ?_⟩
            simpa [literalOf] using hmem
          | program => simp [literalOf] at hmem
          | variableDeclaration declarators => simp [literalOf] at hmem
          | other => simp [literalOf] at hmem
        · exact Or.inl hmem
      | leave =>
        have hsame : (b.step index .leave).literals = b.literals := by
          unfold step leave
          dsimp only
          split <;> rfl
        exact Or.inl (hsame ▸ hmem)
    · exact Or.inr ⟨k, span, List.mem_cons_of_mem e hevent, hl⟩

theorem mem_insertLiteral {l m : Literal} {ms : List Literal} :
    l ∈ insertLiteral m ms ↔ l = m ∨ l ∈ ms := by
  induction ms with
  | nil => simp [insertLiteral]
  | cons k ks ih =>
    unfold insertLiteral
    split
    · simp
    · rw [List.mem_cons, ih, List.mem_cons]
      exact or_left_comm

theorem mem_orderLiterals {l : Literal} {ls : List Literal} :
    l ∈ orderLiterals ls ↔ l ∈ ls := by
  unfold orderLiterals
  induction ls with
  | nil => simp
  | cons m ms ih => rw [List.foldr_cons, mem_insertLiteral, ih, List.mem_cons]

/-! ### The stream -/

theorem TokenStream.insertByStart_ordered {t : Token} {ts : List Token}
    (h : ts.Pairwise fun t u => t.span.start ≤ u.span.start) :
    (insertByStart t ts).Pairwise fun t u => t.span.start ≤ u.span.start := by
  induction ts with
  | nil => simp [insertByStart]
  | cons u us ih =>
    obtain ⟨hfirst, hrest⟩ := List.pairwise_cons.mp h
    unfold insertByStart
    split
    · rename_i hle
      refine List.pairwise_cons.mpr ⟨fun v hv => ?_, h⟩
      rcases List.mem_cons.mp hv with rfl | hv
      · exact hle
      · exact Nat.le_trans hle (hfirst v hv)
    · refine List.pairwise_cons.mpr ⟨fun v hv => ?_, ih hrest⟩
      rcases List.mem_cons.mp ((insertByStart_perm t us).mem_iff.mp hv) with rfl | hv
      · omega
      · exact hfirst v hv

theorem TokenStream.prepare_ordered (code comments : List Token) :
    (prepare code comments).Pairwise fun t u => t.span.start ≤ u.span.start := by
  unfold prepare
  induction code ++ comments with
  | nil => exact .nil
  | cons t ts ih => exact insertByStart_ordered ih

/-- A stream that was read from a source is placed in its text. -/
theorem ParsedSource.stream_placed {mode : Grammar.Mode} {source : String} {p : ParsedSource}
    (h : parse mode source = .ok p) : p.stream.Placed source.toList := by
  obtain ⟨outline, -, hsplit⟩ := parse_ok h
  have hfits : ∀ t ∈ p.stream, t.Fits source.toList := by
    unfold splitSource at hsplit
    split at hsplit
    · simp at hsplit
    · rename_i tokens htokens
      obtain ⟨comments, hcomments, hpair⟩ := Option.map_eq_some_iff.mp hsplit
      obtain ⟨rfl, rfl⟩ := Prod.mk.inj hpair
      intro t ht
      rcases List.mem_append.mp ((TokenStream.prepare_perm _ _).mem_iff.mp ht) with ht | ht
      · refine scanFrom_fits [] (fun l hl => ?_) htokens t ht
        rcases Builder.mem_run_literals (List.mem_reverse.mp (mem_orderLiterals.mp hl)) with
          hnone | ⟨k, span, -, rfl⟩
        · simp [Builder.empty] at hnone
        · exact literal_kind k
      · exact commentTokens_fits hcomments t ht
  exact
    { ids_nodup := stream_ids_nodup h
      region_eq := fun t ht => (hfits t ht).region_eq
      start_boundary := fun t ht => (hfits t ht).start_boundary
      stop_boundary := fun t ht => (hfits t ht).stop_boundary
      start_le_stop := fun t ht => (hfits t ht).start_le_stop
      ordered := TokenStream.prepare_ordered _ _
      names := fun t ht => (hfits t ht).name
      single := fun t ht => (hfits t ht).single }

end ClosureReady
