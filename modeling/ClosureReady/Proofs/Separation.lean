import ClosureReady.Proofs.CommentOverlap

/-!
What printing keeps of the text between two tokens.  Between neighbours of a stream that do not overlap
something is written exactly when something stood there, and the line is broken exactly when a line feed
stood there.  The grammar knows three more characters that end a line, the line index does not: a break
that is made of these alone is written as blanks, and the token behind a line comment then comes to stand
inside of the comment.
-/

set_option autoImplicit false
set_option relaxedAutoImplicit false

namespace ClosureReady

/-- Whether a text ends a line somewhere. -/
def Text.breaksLine (text : List Char) : Bool := text.any isLineTerminator

theorem Text.breaksLine_of_mem {text : List Char} (h : '\n' ∈ text) : breaksLine text = true :=
  List.any_eq_true.mpr ⟨'\n', h, by decide⟩

theorem Text.breaksLine_replicate (n : Nat) : breaksLine (List.replicate n ' ') = false := by
  refine List.any_eq_false.mpr fun c hc => ?_
  rw [List.eq_of_mem_replicate hc]
  decide

/-! ### What is written for a gap -/

section Separator

variable {pre gap post : List Char} {t u : Token}

/-- The line of the second of two tokens is as many further as line feeds stand between them. -/
theorem line_behind_gap
    (ht : t.region.stop = (LineIndex.ofChars (pre ++ (gap ++ post))).position (Text.byteLength pre))
    (hu : u.region.start =
      (LineIndex.ofChars (pre ++ (gap ++ post))).position (Text.byteLength (pre ++ gap))) :
    u.region.start.line = t.region.stop.line + gap.count '\n' ∧
      ('\n' ∉ gap → u.region.start.column = t.region.stop.column + gap.length) := by
  rw [LineIndex.position_byteLength] at ht
  rw [← List.append_assoc, LineIndex.position_byteLength, Text.columnFrom_append,
    List.count_append] at hu
  rw [ht, hu]
  refine ⟨by dsimp only; omega, fun hplain => ?_⟩
  exact Text.columnFrom_of_not_mem hplain _

/-- A line feed is written for one. -/
theorem mem_separator_of_mem (hline : u.region.start.line = t.region.stop.line + gap.count '\n')
    (hgap : '\n' ∈ gap) : '\n' ∈ (Token.separator t u).toList := by
  have hcount := List.count_pos_iff.mpr hgap
  rw [toList_separator, if_neg (by omega)]
  split <;> exact List.mem_cons_self

/-- Without a line feed as many blanks are written as characters stood there. -/
theorem separator_of_not_mem (hline : u.region.start.line = t.region.stop.line + gap.count '\n')
    (hcolumn : u.region.start.column = t.region.stop.column + gap.length) (hgap : '\n' ∉ gap) :
    (Token.separator t u).toList = List.replicate gap.length ' ' := by
  have hcount := List.count_eq_zero.mpr hgap
  rw [toList_separator, if_pos (by omega), hcolumn, Nat.add_sub_cancel_left]

/-- What is written for a gap by the text of the gap. -/
theorem separator_kept (pre : List Char) {gap : List Char} (post : List Char)
    (ht : t.region.stop = (LineIndex.ofChars (pre ++ (gap ++ post))).position (Text.byteLength pre))
    (hu : u.region.start =
      (LineIndex.ofChars (pre ++ (gap ++ post))).position (Text.byteLength (pre ++ gap))) :
    (Token.separator t u = "" ↔ gap = []) ∧
      (Text.breaksLine (Token.separator t u).toList = true ↔ '\n' ∈ gap) := by
  obtain ⟨hline, hcolumn⟩ := line_behind_gap ht hu
  by_cases hgap : '\n' ∈ gap
  · have hmem := mem_separator_of_mem hline hgap
    refine ⟨iff_of_false ?_ ?_, iff_of_true (Text.breaksLine_of_mem hmem) hgap⟩
    · intro hempty
      simp [hempty] at hmem
    · rintro rfl
      simp at hgap
  · have hblanks := separator_of_not_mem hline (hcolumn hgap) hgap
    refine ⟨?_, iff_of_false ?_ hgap⟩
    · rw [← String.toList_inj, hblanks]
      simp
    · simp [hblanks, Text.breaksLine_replicate]

end Separator

/-! ### Line comments -/

section Parsed

variable {mode : Grammar.Mode} {source : String} {p : ParsedSource} {t u : Token}

theorem isSeparator_of_isLineTerminator {c : Char} (h : Text.isLineTerminator c = true) :
    Text.isSeparator c = true := by
  simp only [Text.isLineTerminator, Bool.or_eq_true, beq_iff_eq] at h
  rcases h with ((rfl | rfl) | rfl) | rfl <;> decide

/-- What a token starts with ends no line. -/
theorem not_isLineTerminator_head (h : ParsedSource.parse mode source = .ok p) (hu : u ∈ p.stream)
    {pre post : List Char} (hwhole : source.toList = pre ++ post)
    (hstart : Text.byteLength pre = u.span.start) :
    ∃ c ∈ post.head?, Text.isLineTerminator c = false := by
  obtain ⟨text, hslice, hsolid, hhead, -⟩ := stream_text h hu
  obtain ⟨pre', rest, hwhole', hstart', -⟩ := Text.slice_eq_some_iff.mp hslice
  obtain ⟨rfl, rfl⟩ := Text.append_inj_of_byteLength (hwhole.symm.trans hwhole')
    (hstart.trans hstart'.symm)
  obtain ⟨c, more, rfl⟩ := List.exists_cons_of_ne_nil hsolid.1
  refine ⟨c, rfl, ?_⟩
  by_contra hline
  have := isSeparator_of_isLineTerminator (by simpa using hline)
  simp [hhead c rfl] at this

/-- A line comment goes on to the end of its line. -/
theorem lineComment_ends (h : ParsedSource.parse mode source = .ok p) (ht : t ∈ p.stream)
    (hkind : t.kind = .lineComment) {pre post : List Char} (hwhole : source.toList = pre ++ post)
    (hstop : Text.byteLength pre = t.span.stop) :
    ∀ c ∈ post.head?, Text.isLineTerminator c = true := by
  obtain ⟨-, hlexed, -, hcomments⟩ := ParsedSource.parse_tiled h
  obtain ⟨literals, hgiven, -⟩ := ParsedSource.parse_outlined h
  have hcomment : t ∈ p.comments := by
    refine (ParsedSource.mem_stream.mp ht).resolve_left fun hcode => ?_
    have := (hlexed t hcode).code
    simp [hkind, TokenKind.isComment] at this
  obtain ⟨text, hslice, -, hparts, -⟩ := hcomments t hcomment
  obtain ⟨before, text', after, hwhole', hstart, hstop', -, hapart⟩ :=
    hgiven.found t.span (List.mem_map_of_mem hcomment)
  have hslice' : Text.slice source.toList t.span = some text' :=
    Text.slice_eq_some_iff.mpr ⟨before, after, hwhole', hstart, hstop'⟩
  obtain rfl : text = text' := Option.some.inj (hslice.symm.trans hslice')
  rw [← List.append_assoc] at hwhole'
  obtain ⟨-, rfl⟩ := Text.append_inj_of_byteLength (hwhole.symm.trans hwhole') (hstop.trans hstop'.symm)
  refine hapart.ends.resolve_left ?_
  rintro ⟨inner, rfl⟩
  rw [hkind] at hparts
  simp [commentParts] at hparts

/-- Neighbours of the stream that do not overlap, and the text between them. -/
theorem exists_gap (h : ParsedSource.parse mode source = .ok p) (hnext : [t, u] <:+: p.stream)
    (hapart : ¬ t.span.Meets u.span) :
    t ∈ p.stream ∧ u ∈ p.stream ∧ ∃ pre gap post, source.toList = pre ++ (gap ++ post) ∧
      Text.byteLength pre = t.span.stop ∧ Text.byteLength (pre ++ gap) = u.span.start := by
  have hplaced := ParsedSource.stream_placed h
  have ht : t ∈ p.stream := hnext.subset (by simp)
  have hu : u ∈ p.stream := hnext.subset (by simp)
  have hordered : t.span.start ≤ u.span.start := by
    simpa using hplaced.ordered.sublist hnext.sublist
  have htpos := ParsedSource.stream_nonempty h ht
  have hupos := ParsedSource.stream_nonempty h hu
  have hle : t.span.stop ≤ u.span.start := by
    unfold Span.Meets at hapart
    omega
  obtain ⟨pre, gap, post, hwhole, hpre, hgap⟩ :=
    (hplaced.stop_boundary t ht).between (hplaced.start_boundary u hu) hle
  exact ⟨ht, hu, pre, gap, post, by rw [hwhole, List.append_assoc], hpre, hgap⟩

/-- What is written between two neighbours of the stream that do not overlap: nothing exactly where
nothing stood, and a line break exactly where a line feed stood.  So breaks are kept exactly where a line
feed is among the characters that end the line; behind a line comment one of these comes first, and the
token that follows stays out of the comment exactly where one of them is a line feed. -/
theorem separation_kept_iff (h : ParsedSource.parse mode source = .ok p)
    (hnext : [t, u] <:+: p.stream) (hapart : ¬ t.span.Meets u.span) :
    ∃ gap, Text.slice source.toList ⟨t.span.stop, u.span.start⟩ = some gap ∧
      (Token.separator t u = "" ↔ gap = []) ∧
      (Text.breaksLine (Token.separator t u).toList = true ↔ '\n' ∈ gap) ∧
      (Text.breaksLine (Token.separator t u).toList = Text.breaksLine gap ↔
        (Text.breaksLine gap = true → '\n' ∈ gap)) ∧
      (t.kind = .lineComment → ∃ c ∈ gap.head?, Text.isLineTerminator c = true) := by
  have hplaced := ParsedSource.stream_placed h
  obtain ⟨ht, hu, pre, gap, post, hwhole, hpre, hgap⟩ := exists_gap h hnext hapart
  obtain ⟨hempty, hbreak⟩ : (Token.separator t u = "" ↔ gap = []) ∧
      (Text.breaksLine (Token.separator t u).toList = true ↔ '\n' ∈ gap) := by
    refine separator_kept pre post ?_ ?_
    · rw [hplaced.region_eq t ht, ← hwhole, hpre]
      rfl
    · rw [hplaced.region_eq u hu, ← hwhole, hgap]
      rfl
  refine ⟨gap, Text.slice_eq_some_iff.mpr ⟨pre, post, hwhole, hpre, hgap⟩, hempty, hbreak, ?_,
    fun hkind => ?_⟩
  · rw [Bool.eq_iff_iff, hbreak]
    exact ⟨Iff.mpr, fun hkept => ⟨Text.breaksLine_of_mem, hkept⟩⟩
  · have hends := lineComment_ends h ht hkind hwhole hpre
    obtain ⟨d, hd, hplain⟩ :=
      not_isLineTerminator_head h hu (hwhole.trans (List.append_assoc _ _ _).symm) hgap
    cases gap with
    | nil => simp [hends d hd] at hplain
    | cons c gap => exact ⟨c, rfl, hends c rfl⟩

end Parsed

/-- A carriage return ends the comment for the reader, and is no line break where the text is printed:
the statement behind the comment becomes part of it. -/
theorem separation_kept_carriage_return :
    ∃ p t u, ParsedSource.parse .script "// a\ry = 2\n" = .ok p ∧ [t, u] <:+: p.stream ∧
      t.kind = .lineComment ∧ ¬ t.span.Meets u.span ∧
      Text.breaksLine (Token.separator t u).toList = false ∧ p.stream.print = "// a y = 2" := by
  have hrun : ((ParsedSource.parse .script "// a\ry = 2\n").toOption.any fun p =>
      p.stream.head?.any fun t => p.stream.tail.head?.any fun u =>
        decide (t.kind = .lineComment ∧ ¬ t.span.Meets u.span ∧
          Text.slice "// a\ry = 2\n".toList ⟨t.span.stop, u.span.start⟩ = some ['\r'] ∧
          p.stream.print = "// a y = 2")) = true := by
    decide +kernel
  obtain ⟨p, hp, hp'⟩ := (Option.any_eq_true _ _).mp hrun
  obtain ⟨t, ht, ht'⟩ := (Option.any_eq_true _ _).mp hp'
  obtain ⟨u, hu, hu'⟩ := (Option.any_eq_true _ _).mp ht'
  obtain ⟨hkind, hapart, hslice, hprint⟩ := of_decide_eq_true hu'
  have hparse := except_eq_ok_of_toOption hp
  have hnext : [t, u] <:+: p.stream := by
    obtain ⟨more, hstream⟩ := List.head?_eq_some_iff.mp ht
    rw [hstream, List.tail_cons] at hu
    obtain ⟨rest, rfl⟩ := List.head?_eq_some_iff.mp hu
    exact ⟨[], rest, hstream.symm⟩
  obtain ⟨gap, hgap, -, hbreak, -⟩ := separation_kept_iff hparse hnext hapart
  obtain rfl : gap = ['\r'] := Option.some.inj (hgap.symm.trans hslice)
  refine ⟨p, t, u, hparse, hnext, hkind, hapart, ?_, hprint⟩
  rw [Bool.eq_false_iff, Ne, hbreak]
  decide

end ClosureReady
