import ClosureReady.Proofs.FixRun
import ClosureReady.Proofs.Reprinting
import ClosureReady.Proofs.TextTiling

/-!
How the comments of a source lie to its code tokens.  The reader finds the comments while it reads, and
the scan splits the text once more without the grammar; that a comment starts inside of a lexeme of the
scan would take a `<<` or a `--` that the two of them cut differently, and they never do.  So a comment
shares text with a code token only inside of a template, which is one token with all that is in it: such
a comment stands twice in the stream, and every other one stands in it once.
-/

set_option autoImplicit false
set_option relaxedAutoImplicit false

namespace ClosureReady

/-- One stretch of text lies inside of another. -/
def Span.Within (s outer : Span) : Prop := outer.start ≤ s.start ∧ s.stop ≤ outer.stop

/-- Two stretches of text share a place. -/
def Span.Meets (s u : Span) : Prop := s.start < u.stop ∧ u.start < s.stop

instance (s outer : Span) : Decidable (s.Within outer) :=
  inferInstanceAs (Decidable (outer.start ≤ s.start ∧ s.stop ≤ outer.stop))

instance (s u : Span) : Decidable (s.Meets u) :=
  inferInstanceAs (Decidable (s.start < u.stop ∧ u.start < s.stop))

/-! ### Comments in the text -/

namespace Grammar

/-- A comment of a text, with what stands in front of it and behind it. -/
def CommentAt (whole : List Char) (s : Span) : Prop :=
  ∃ before text after, whole = before ++ (text ++ after) ∧ Text.byteLength before = s.start ∧
    Text.byteLength (before ++ text) = s.stop ∧ IsCommentText text ∧ StandsApart before text after

theorem CommentsIn.commentAt {whole : List Char} {low high : Nat} {comments : List Span}
    (h : CommentsIn whole low high comments) {s : Span} (hs : s ∈ comments) : CommentAt whole s := by
  obtain ⟨text, hslice, htext⟩ := h.sound s hs
  obtain ⟨before, text', after, hwhole, hstart, hstop, hapart⟩ := h.apart s hs
  have hslice' : Text.slice whole s = some text' :=
    Text.slice_eq_some_iff.mpr ⟨before, after, hwhole, hstart, hstop⟩
  obtain rfl : text = text' := Option.some.inj (hslice.symm.trans hslice')
  exact ⟨before, text, after, hwhole, hstart, hstop, htext, hapart⟩

theorem CommentAt.start_lt {whole : List Char} {s : Span} (h : CommentAt whole s) :
    s.start < s.stop := by
  obtain ⟨before, text, after, -, hstart, hstop, htext, -⟩ := h
  have hpos := Text.byteLength_pos htext.ne_nil
  rw [Text.byteLength_append] at hstop
  omega

/-- Behind a comment no half of a shift sign is left. -/
theorem StandsApart.keepsPairs {before text after : List Char} (h : StandsApart before text after)
    (htext : IsCommentText text) : Text.KeepsPairs text after := by
  rcases htext with ⟨inner, rfl⟩ | ⟨-, sign, hsign, hfront⟩
  · exact .of_last (c := '/') (by rw [List.getLast?_append]; rfl) (by decide) after
  · rcases h.ends with hblock | hends
    · have hsigns : ∀ sign ∈ lineCommentSigns, ¬ sign <+: ['/', '*'] ∧ ¬ ['/', '*'] <+: sign := by decide
      rcases List.prefix_or_prefix_of_prefix hfront hblock with hle | hle
      · exact absurd hle (hsigns sign hsign).1
      · exact absurd hle (hsigns sign hsign).2
    · intro _ _ hnext
      exact absurd (hends '<' hnext) (by decide)

end Grammar

/-! ### Pairs of angles in the scan -/

theorem Text.ne_angle_of_isSeparator {c : Char} (h : isSeparator c = true) : c ≠ '<' := by
  rintro rfl
  exact absurd h (by decide)

theorem Lexeme.keepsPairs {kind : TokenKind} {text rest : List Char} (h : Lexeme kind text rest) :
    Text.KeepsPairs text rest := by
  cases h with
  | word hc hcs _ =>
    refine .of_firm (.of_forall (by simp) (List.forall_mem_cons.mpr ⟨?_, fun d hd => ?_⟩)) rest
    · exact Text.isInert_of_class (by decide) (by decide) hc
    · exact Text.isInert_of_class (by decide) (by decide) (hcs d hd)
  | digits _ hc hcs _ =>
    refine .of_firm (.of_forall (by simp) (List.forall_mem_cons.mpr ⟨?_, fun d hd => ?_⟩)) rest
    · exact Text.isInert_of_class (p := Char.isDigit) (by decide) (by decide) hc
    · exact Text.isInert_of_class (by decide) (by decide) (hcs d hd)
  | @sign c cs _ _ _ _ hform hlongest =>
    have hlong : ∀ p ∈ longPunctuators, p = ['<', '<'] ∨ (p.getLast?.any (· != '<')) = true := by
      decide
    rcases hform with rfl | hmem
    · by_cases hc : c = '<'
      · subst hc
        -- A second angle would have been taken too.
        refine .one fun hnext => ?_
        obtain ⟨more, rfl⟩ := List.head?_eq_some_iff.mp hnext
        have hle := hlongest ['<', '<'] (by decide) ⟨more, rfl⟩
        simp at hle
      · exact .of_last (c := c) rfl hc rest
    · rcases hlong _ hmem with heq | hother
      · rw [heq]
        exact .two rest
      · obtain ⟨d, hd, hne⟩ := (Option.any_eq_true _ _).mp hother
        exact .of_last hd (bne_iff_ne.mp hne) rest

theorem IsGap.paired {whole : List Char} {comments : List Span} {offset : Nat} {gap : List Char}
    (h : IsGap comments offset gap) (hcomments : ∀ s ∈ comments, Grammar.CommentAt whole s)
    {before rest : List Char} (hwhole : whole = before ++ (gap ++ rest))
    (hoffset : Text.byteLength before = offset) (hpaired : Text.Paired before (gap ++ rest)) :
    Text.Paired (before ++ gap) rest := by
  induction h generalizing before with
  | nil offset => simpa using hpaired
  | @separator offset c gap hc _ ih =>
    rw [← List.singleton_append, ← List.append_assoc]
    refine ih (by simp [hwhole]) ?_ ?_
    · rw [Text.byteLength_append, hoffset]
      rfl
    · exact Text.KeepsPairs.of_last rfl (Text.ne_angle_of_isSeparator hc) (gap ++ rest) before hpaired
  | @comment offset text gap hs _ ih =>
    obtain ⟨before', text', after, hwhole', hstart, hstop, htext, hapart⟩ := hcomments _ hs
    rw [List.append_assoc] at hwhole hpaired
    obtain ⟨rfl, hrest⟩ := Text.append_inj_of_byteLength (hwhole'.symm.trans hwhole)
      (hstart.trans hoffset.symm)
    dsimp only at hstop
    obtain ⟨rfl, rfl⟩ := Text.append_inj_of_byteLength hrest (by
      rw [Text.byteLength_append, hoffset] at hstop
      omega)
    rw [← List.append_assoc]
    refine ih (by simp [hwhole]) ?_ (hapart.keepsPairs htext _ hpaired)
    rw [Text.byteLength_append, hoffset]

/-- The literals and comments of a text as the reader reports them: literals end firmly, and comments
are clear of them, up to those inside of templates. -/
structure Outlined (whole : List Char) (literals : List Literal) (comments : List Span) : Prop where
  firm : ∀ l ∈ literals, ∃ text, Text.slice whole l.span = some text ∧ Text.Firm text
  found : ∀ s ∈ comments, Grammar.CommentAt whole s
  clear : ∀ s ∈ comments, ∀ l ∈ literals, s.stop ≤ l.span.start ∨ l.span.stop ≤ s.start ∨
    l.kind = .template ∧ s.Within l.span

/-- A token stands in a text: what is in front of it, with its angles in pairs, and where it comes
from. -/
def Token.ScannedIn (whole : List Char) (literals : List Literal) (comments : List Span) (t : Token) :
    Prop :=
  ∃ before rest, whole = before ++ (t.value.toList ++ rest) ∧ Text.byteLength before = t.span.start ∧
    Text.byteLength (before ++ t.value.toList) = t.span.stop ∧
    Text.Paired before (t.value.toList ++ rest) ∧
    Origin literals comments t.kind t.span.start t.value.toList rest

section Scanned

variable {whole : List Char} {literals : List Literal} {comments : List Span}

theorem Origin.keepsPairs {kind : TokenKind} {before text rest : List Char}
    (h : Origin literals comments kind (Text.byteLength before) text rest)
    (hgiven : Outlined whole literals comments) (hwhole : whole = before ++ (text ++ rest)) :
    Text.KeepsPairs text rest := by
  cases h with
  | literal hl =>
    obtain ⟨text', hslice, hfirm⟩ := hgiven.firm _ hl
    have hslice' : Text.slice whole ⟨Text.byteLength before,
        Text.byteLength before + Text.byteLength text⟩ = some text :=
      Text.slice_eq_some_iff.mpr ⟨before, rest, hwhole, rfl, Text.byteLength_append _ _⟩
    obtain rfl : text' = text := Option.some.inj (hslice.symm.trans hslice')
    exact .of_firm hfirm rest
  | lexeme _ _ hlexeme => exact hlexeme.keepsPairs

/-- The scan of a text keeps its angles in pairs. -/
theorem Splits.scannedIn {id : Nat} {passed rest : List Char} {tokens : List Token}
    (h : Splits whole literals comments id passed rest tokens)
    (hgiven : Outlined whole literals comments) (hwhole : whole = passed ++ rest)
    (hpaired : Text.Paired passed rest) : ∀ t ∈ tokens, t.ScannedIn whole literals comments := by
  induction h with
  | done _ => simp
  | @token id passed gap lexeme rest kind tokens hgap _ horigin _ ih =>
    have hbehind := hgap.paired hgiven.found hwhole rfl hpaired
    have hwhole' : whole = (passed ++ gap) ++ (lexeme ++ rest) := by simp [hwhole]
    refine List.forall_mem_cons.mpr ⟨⟨passed ++ gap, rest, ?_, rfl, ?_, ?_, ?_⟩, ?_⟩
    · simpa [placeToken] using hwhole'
    · rw [Text.byteLength_append]
      simp [placeToken]
    · simpa [placeToken] using hbehind
    · simpa [placeToken] using horigin
    · exact ih (by simp [hwhole]) (horigin.keepsPairs hgiven hwhole' _ hbehind)

/-- Of all punctuators only two can go on as a comment behind their first character. -/
theorem longPunctuators_into_comment {front back rest sign : List Char}
    (hmem : front ++ back ∈ longPunctuators) (hfront : front ≠ []) (hback : back ≠ [])
    (hsign : sign ∈ ['/', '*'] :: Grammar.lineCommentSigns) (hleads : sign <+: back ++ rest) :
    (front = ['<'] ∧ back = ['<']) ∨ (front = ['-'] ∧ back = ['-'] ∧ sign = ['-', '-', '>']) := by
  have htable : ∀ p ∈ longPunctuators, ∀ k < p.length, k = 0 ∨
      ∀ sign ∈ ['/', '*'] :: Grammar.lineCommentSigns, sign <+: p.drop k ∨ p.drop k <+: sign →
        (p.take k = ['<'] ∧ p.drop k = ['<']) ∨
          (p.take k = ['-'] ∧ p.drop k = ['-'] ∧ sign = ['-', '-', '>']) := by decide
  have hlength : front.length < (front ++ back).length := by
    have := List.length_pos_of_ne_nil hback
    rw [List.length_append]
    omega
  have heither := List.prefix_or_prefix_of_prefix hleads (List.prefix_append back rest)
  have hcases := (htable _ hmem front.length hlength).resolve_left (by simpa using hfront) sign hsign
  rw [List.take_left, List.drop_left] at hcases
  exact hcases heither

/-- No comment starts inside of a lexeme. -/
theorem Lexeme.not_comment_inside {kind : TokenKind} {before front back rest text after : List Char}
    (h : Lexeme kind (front ++ back) rest) (hfront : front ≠ []) (hback : back ≠ [])
    (hpaired : Text.Paired before (front ++ back ++ rest)) (htext : Grammar.IsCommentText text)
    (hapart : Grammar.StandsApart (before ++ front) text after)
    (hsame : text ++ after = back ++ rest) : False := by
  obtain ⟨sign, hsign, hleads⟩ := IsCommentText.sign htext
  have hleads' : sign <+: back ++ rest := hsame ▸ hleads.trans (List.prefix_append text after)
  obtain ⟨e, he, hstart⟩ : ∃ e ∈ back, e = '/' ∨ e = '<' ∨ e = '-' := by
    have hsigns : ∀ sign ∈ ['/', '*'] :: Grammar.lineCommentSigns,
        sign.head? = some '/' ∨ sign.head? = some '<' ∨ sign.head? = some '-' := by decide
    obtain ⟨e, back, rfl⟩ := List.exists_cons_of_ne_nil hback
    have hhead : ∀ {c : Char}, sign.head? = some c → e = c := by
      intro c hc
      obtain ⟨more, rfl⟩ := List.head?_eq_some_iff.mp hc
      exact (List.cons_prefix_cons.mp hleads').1.symm
    exact ⟨e, List.mem_cons_self, (hsigns sign hsign).imp hhead (Or.imp hhead hhead)⟩
  have htail : ∀ {c : Char} {cs : List Char}, front ++ back = c :: cs → e ∈ cs := by
    intro c cs heq
    obtain ⟨d, front, rfl⟩ := List.exists_cons_of_ne_nil hfront
    rw [← (List.cons.inj heq).2]
    exact List.mem_append_right front he
  generalize hlexeme : front ++ back = lexeme at h hpaired
  cases h with
  | word _ hcs _ =>
    have hpart := hcs e (htail hlexeme)
    rcases hstart with rfl | rfl | rfl <;> exact absurd hpart (by decide)
  | digits _ _ hcs _ =>
    have hpart := hcs e (htail hlexeme)
    rcases hstart with rfl | rfl | rfl <;> exact absurd hpart (by decide)
  | sign _ _ _ hform _ =>
    have hlong := hform.resolve_left (List.ne_nil_of_mem (htail hlexeme))
    rw [← hlexeme] at hlong hpaired
    rcases longPunctuators_into_comment hlong hfront hback hsign hleads' with
      ⟨rfl, rfl⟩ | ⟨rfl, rfl, rfl⟩
    · -- One angle is left over: those in front of it stand in pairs, and so do they with it.
      have heven := hpaired rfl
      have hodd := hapart.paired (by rw [hsame]; rfl)
      rw [Text.anglesAtEnd_concat, if_pos rfl] at hodd
      omega
    · exact hapart.arrow hleads (by simp)

/-- A token in which a comment starts is a template that holds all of the comment. -/
theorem Token.ScannedIn.template {t : Token} (ht : t.ScannedIn whole literals comments)
    (hgiven : Outlined whole literals comments) {s : Span} (hs : s ∈ comments)
    (hlow : t.span.start ≤ s.start) (hhigh : s.start < t.span.stop) :
    t.kind = .template ∧ s.Within t.span := by
  obtain ⟨before, rest, hwhole, hstart, hstop, hpaired, horigin⟩ := ht
  have hcomment := hgiven.found s hs
  have hopen := hcomment.start_lt
  cases horigin with
  | literal hl =>
    have hspan : t.span = ⟨t.span.start, t.span.start + Text.byteLength t.value.toList⟩ := by
      rw [Text.byteLength_append, hstart] at hstop
      rw [hstop]
    rw [← hspan] at hl
    rcases hgiven.clear s hs _ hl with hfront | hbehind | hinside
    · dsimp only at hfront
      omega
    · dsimp only at hbehind
      omega
    · exact hinside
  | lexeme _ hnone hlexeme =>
    exfalso
    obtain ⟨before', text, after, hwhole', hstart', hstop', htext, hapart⟩ := hcomment
    have hne : t.span.start ≠ s.start := by
      intro heq
      have := hnone s hs heq.symm
      omega
    -- The comment's start cuts the token in two.
    obtain ⟨front, rfl, hrest⟩ := Text.append_split (hwhole.symm.trans hwhole') (by omega)
    have hcut : before ++ front ++ (text ++ after) = before ++ t.value.toList ++ rest := by
      rw [← hwhole', hwhole, List.append_assoc]
    obtain ⟨back, hvalue, hback⟩ := Text.append_split hcut (by omega)
    rw [List.append_assoc] at hvalue
    replace hvalue := List.append_cancel_left hvalue
    rw [hvalue] at hlexeme hpaired hstop
    refine hlexeme.not_comment_inside ?_ ?_ hpaired htext hapart hback
    · rintro rfl
      simp at hstart'
      omega
    · rintro rfl
      simp at hstop
      omega

end Scanned

/-! ### Whole sources -/

theorem Text.fitsIn_of_slice {whole text : List Char} {s : Span} (h : slice whole s = some text) :
    s.FitsIn whole := by
  obtain ⟨hstart, hstop, hle⟩ := slice_boundaries h
  exact ⟨hstart, hstop, hle⟩

/-- What stands inside of a stretch of text is part of its text. -/
theorem Text.infix_of_within {whole text outer : List Char} {s u : Span}
    (hs : slice whole s = some text) (hu : slice whole u = some outer) (hwithin : s.Within u) :
    text <:+: outer := by
  obtain ⟨pre, post, hwhole, hstart, hstop⟩ := slice_eq_some_iff.mp hs
  obtain ⟨pre', post', hwhole', hstart', hstop'⟩ := slice_eq_some_iff.mp hu
  obtain ⟨hlow, hhigh⟩ := hwithin
  obtain ⟨front, rfl, hfront⟩ := append_split (hwhole'.symm.trans hwhole) (by omega)
  have hcut : pre' ++ front ++ text ++ post = pre' ++ outer ++ post' := by
    rw [List.append_assoc, ← hwhole, hwhole', List.append_assoc]
  obtain ⟨back, hback, -⟩ := append_split hcut (by omega)
  refine ⟨front, back, ?_⟩
  simp only [List.append_assoc] at hback ⊢
  exact (List.append_cancel_left hback).symm

namespace Token

/-- A comment is written out in full. -/
theorem IsComment.infix_written {whole text : List Char} {t : Token} (h : t.IsComment whole)
    (hslice : Text.slice whole t.span = some text) : text <:+: t.written.toList := by
  obtain ⟨text', hslice', hform, hkind, hvalue⟩ := h
  obtain rfl : text' = text := Option.some.inj (hslice'.symm.trans hslice)
  rcases commentParts_cases hform with ⟨inner, htext, hparts⟩ | ⟨rest, htext, hparts⟩ | ⟨hparts, -⟩
  · rw [hparts] at hkind hvalue
    simp [Token.written, hkind, hvalue, htext]
  · rw [hparts] at hkind hvalue
    simp [Token.written, hkind, hvalue, htext]
  · rw [hparts] at hkind hvalue
    exact ⟨['/', '/'], [], by simp [Token.written, hkind, hvalue]⟩

/-- Of tokens that follow each other only one shares text with a stretch that lies in one of them. -/
theorem countP_meets {ts : List Token} {t : Token} {s : Span}
    (hordered : ts.Pairwise fun t u => t.span.stop ≤ u.span.start) (ht : t ∈ ts)
    (hopen : s.start < s.stop) (hwithin : s.Within t.span) :
    ts.countP (fun u => decide (s.Meets u.span)) = 1 := by
  obtain ⟨hlow, hhigh⟩ := hwithin
  induction ts with
  | nil => simp at ht
  | cons u us ih =>
    obtain ⟨hu, hus⟩ := List.pairwise_cons.mp hordered
    rcases List.mem_cons.mp ht with rfl | ht
    · have hnone : us.countP (fun u => decide (s.Meets u.span)) = 0 := by
        refine List.countP_eq_zero.mpr fun v hv hmeets => ?_
        obtain ⟨-, hright⟩ := of_decide_eq_true hmeets
        have := hu v hv
        omega
      have hmeets : s.Meets t.span := ⟨by omega, by omega⟩
      rw [List.countP_cons, hnone, if_pos (decide_eq_true hmeets)]
    · have hapart : ¬ s.Meets u.span := by
        rintro ⟨hleft, -⟩
        have := hu t ht
        omega
      rw [List.countP_cons, ih hus ht, if_neg (by simpa using hapart)]

end Token

section Parsed

variable {mode : Grammar.Mode} {source : String} {p : ParsedSource}

/-- A source is split at the literals and comments that its reader reports. -/
theorem ParsedSource.parse_outlined (h : parse mode source = .ok p) :
    ∃ literals, Outlined source.toList literals (p.comments.map Token.span) ∧
      Splits source.toList literals (p.comments.map Token.span) 0 [] source.toList p.tokens := by
  obtain ⟨outline, houtline, hsplit⟩ := parse_ok h
  obtain ⟨⟨high, hcomments⟩, hevents⟩ := Grammar.outline?_sound houtline
  unfold splitSource at hsplit
  split at hsplit
  · simp at hsplit
  · rename_i tokens htokens
    obtain ⟨comments, hnotes, hpair⟩ := Option.map_eq_some_iff.mp hsplit
    obtain ⟨rfl, rfl⟩ := Prod.mk.inj hpair
    obtain ⟨hspans, -⟩ := commentTokens_spans hnotes
    have hliteral : ∀ l ∈ (Builder.empty.run (LineIndex.ofChars source.toList)
        outline.tree.events).literalList,
        ∃ k span, TreeEvent.enter (.literal k) span ∈ outline.tree.events ∧
          l = ⟨span, k.tokenKind⟩ := by
      intro l hl
      refine (Builder.mem_run_literals (List.mem_reverse.mp hl)).resolve_left ?_
      simp [Builder.empty]
    have hgiven : Outlined source.toList (Builder.empty.run (LineIndex.ofChars source.toList)
        outline.tree.events).literalList outline.comments := by
      refine ⟨fun l hl => ?_, fun s hs => hcomments.commentAt (List.mem_reverse.mpr hs),
        fun s hs l hl => ?_⟩
      · obtain ⟨k, span, hevent, rfl⟩ := hliteral l hl
        obtain ⟨text, hslice, hfirm, -⟩ := hevents _ hevent
        exact ⟨text, hslice, hfirm⟩
      · obtain ⟨k, span, hevent, rfl⟩ := hliteral l hl
        refine (Grammar.outline?_clearOf houtline hevent hs).imp_right (Or.imp_right ?_)
        rintro ⟨rfl, hwithin⟩
        exact ⟨rfl, hwithin⟩
    obtain ⟨tokens', hscan, hsplits⟩ := scan_splits
      (fun l hl => by
        obtain ⟨text, hslice, hfirm⟩ := hgiven.firm l hl
        exact ⟨Text.fitsIn_of_slice hslice, slice_start_lt hslice hfirm.solid.1⟩)
      (fun s hs => by
        obtain ⟨text, hslice, -⟩ := hcomments.sound s (List.mem_reverse.mpr hs)
        exact Text.fitsIn_of_slice hslice)
      ((List.pairwise_reverse.mp hcomments.ordered).imp_of_mem fun {s u} hs _ hle =>
        Nat.le_trans (hgiven.found s hs).start_lt.le hle)
    obtain rfl : tokens' = p.tokens := Option.some.inj (hscan.symm.trans htokens)
    rw [hspans]
    exact ⟨_, hgiven, hsplits⟩

/-- A comment shares text with a code token exactly when it stands inside of it and it is a template. -/
theorem ParsedSource.comment_meets_iff (h : parse mode source = .ok p) {c t : Token}
    (hc : c ∈ p.comments) (ht : t ∈ p.tokens) :
    c.span.Meets t.span ↔ t.kind = .template ∧ c.span.Within t.span := by
  obtain ⟨literals, hgiven, hsplits⟩ := parse_outlined h
  have hscanned := hsplits.scannedIn hgiven rfl (fun _ => rfl)
  have hc' : c.span ∈ p.comments.map Token.span := List.mem_map_of_mem hc
  have hopen := (hgiven.found _ hc').start_lt
  have htpos := stream_nonempty h (mem_stream.mpr (Or.inl ht))
  obtain ⟨htiled, -⟩ := parse_tiled h
  constructor
  · intro hmeets
    rcases htiled.apart c.span hc' (Nat.zero_le _) with ⟨u, hu, hlow, hhigh, -⟩ | hapart
    · -- The token in which the comment starts holds all of it, so it is the one that is met.
      obtain ⟨hkind, hwithin⟩ := (hscanned u hu).template hgiven hc' hlow hhigh
      obtain rfl : u = t := by
        by_contra hne
        have := Token.apart_of_pairwise htiled.ordered hu ht hne
        obtain ⟨-, hinside⟩ := hwithin
        obtain ⟨hleft, hright⟩ := hmeets
        omega
      exact ⟨hkind, hwithin⟩
    · have := hapart t ht
      obtain ⟨hleft, hright⟩ := hmeets
      omega
  · rintro ⟨-, hlow, hhigh⟩
    exact ⟨by omega, by omega⟩

/-- Comments and code tokens of a source share text only where a comment stands inside of a template.
Each token of the stream that shares text with a comment writes all of it: only the comment itself does,
unless the comment stands inside of a template, which then writes it too. -/
theorem comment_written_twice_iff (h : ParsedSource.parse mode source = .ok p) :
    (∀ c ∈ p.comments, ∀ t ∈ p.tokens,
      (c.span.Meets t.span ↔ t.kind = .template ∧ c.span.Within t.span)) ∧
    ∀ c ∈ p.comments, ∃ text, Text.slice source.toList c.span = some text ∧
      (∀ t ∈ p.stream, c.span.Meets t.span → text <:+: t.written.toList) ∧
      p.stream.countP (fun t => decide (c.span.Meets t.span)) =
        if ∃ t ∈ p.tokens, t.kind = .template ∧ c.span.Within t.span then 2 else 1 := by
  obtain ⟨htiled, hlexed, hordered, hcomments⟩ := ParsedSource.parse_tiled h
  refine ⟨fun c hc t ht => ParsedSource.comment_meets_iff h hc ht, fun c hc => ?_⟩
  have hopen := ParsedSource.stream_nonempty h (ParsedSource.mem_stream.mpr (Or.inr hc))
  have hself : c.span.Within c.span := ⟨Nat.le_refl _, Nat.le_refl _⟩
  obtain ⟨text, hslice, -⟩ := hcomments c hc
  refine ⟨text, hslice, fun t ht hmeets => ?_, ?_⟩
  · rcases ParsedSource.mem_stream.mp ht with ht | ht
    · rw [(hlexed t ht).written]
      exact Text.infix_of_within hslice (hlexed t ht).slice_eq
        ((ParsedSource.comment_meets_iff h hc ht).mp hmeets).2
    · obtain rfl : c = t := by
        by_contra hne
        have := Token.apart_of_pairwise hordered hc ht hne
        obtain ⟨hleft, hright⟩ := hmeets
        omega
      exact (hcomments c hc).infix_written hslice
  · unfold ParsedSource.stream
    rw [(TokenStream.prepare_perm p.tokens p.comments).countP_eq, List.countP_append,
      Token.countP_meets hordered hc hopen hself]
    split
    · rename_i hinside
      obtain ⟨t, ht, -, hwithin⟩ := hinside
      rw [Token.countP_meets htiled.ordered ht hopen hwithin]
    · rename_i houtside
      rw [List.countP_eq_zero.mpr fun t ht hmeets => houtside ⟨t, ht,
        (ParsedSource.comment_meets_iff h hc ht).mp (of_decide_eq_true hmeets)⟩]

end Parsed

/-- A comment inside of a template is written with the template and once more behind it. -/
theorem comment_written_twice_substitution :
    ∃ p, ParsedSource.parse .script "x = `$\x7ba /* c */\x7d`;\n" = .ok p ∧
      (∃ c ∈ p.comments, p.stream.countP (fun t => decide (c.span.Meets t.span)) = 2) ∧
      p.stream.print = "x = `$\x7ba /* c */\x7d`/* c */  ;" := by
  have hrun : ((ParsedSource.parse .script "x = `$\x7ba /* c */\x7d`;\n").toOption.any fun p =>
      decide ((∃ c ∈ p.comments, ∃ t ∈ p.tokens, t.kind = .template ∧ c.span.Within t.span) ∧
        p.stream.print = "x = `$\x7ba /* c */\x7d`/* c */  ;")) = true := by
    decide +kernel
  obtain ⟨p, hp, hp'⟩ := (Option.any_eq_true _ _).mp hrun
  obtain ⟨⟨c, hc, hinside⟩, hprint⟩ := of_decide_eq_true hp'
  have hparse := except_eq_ok_of_toOption hp
  obtain ⟨-, -, -, hcount⟩ := (comment_written_twice_iff hparse).2 c hc
  exact ⟨p, hparse, ⟨c, hc, hcount.trans (if_pos hinside)⟩, hprint⟩

end ClosureReady
