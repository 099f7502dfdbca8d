import ClosureReady.Proofs.PassFlags
import ClosureReady.Proofs.SourceTiling
import ClosureReady.Token.Print

/-!
Sources that no pass touches.  Such a source is printed from the stream it was read into, and the result
is the source itself exactly when its layout is the one that printing makes: the text between two
neighbours is what printing puts between them.  One direction follows the stream and finds the text of
the source; the other follows the printed text and finds, since no token starts or ends with a
separator, that each token is printed where it stood.
-/

set_option autoImplicit false
set_option relaxedAutoImplicit false

namespace ClosureReady

/-- What may stand between two neighbours: blanks on one line, one line break and blanks where another
line starts, and exactly one empty line before a block comment. -/
def NormalGap (t u : Token) (gap : List Char) : Prop :=
  if u.region.start.line = t.region.stop.line then ∀ c ∈ gap, c = ' '
  else if u.kind = .blockComment then gap = ['\n', '\n']
  else ∃ blanks, gap = '\n' :: blanks ∧ ∀ c ∈ blanks, c = ' '

/-- A source whose layout is the one that printing makes. -/
structure NormalLayout (text : List Char) (p : ParsedSource) : Prop where
  starts : ∃ t ∈ p.stream.head?, t.span.start = 0
  comments : ∀ t ∈ p.comments, ∃ full, Text.slice text t.span = some full ∧
    (['/', '/'] <+: full ∨ ['/', '*'] <+: full)
  between : p.stream.IsChain fun t u =>
    ∃ gap, Text.slice text ⟨t.span.stop, u.span.start⟩ = some gap ∧ NormalGap t u gap
  ends : ∃ t ∈ p.stream.getLast?, ∃ tail,
    Text.slice text ⟨t.span.stop, Text.byteLength text⟩ = some tail ∧ (tail = [] ∨ tail = ['\n'])

/-! ### What is printed between two tokens -/

theorem toList_separator (t u : Token) : (Token.separator t u).toList =
    if u.region.start.line = t.region.stop.line then
      List.replicate (u.region.start.column - t.region.stop.column) ' '
    else if u.kind = .blockComment then
      '\n' :: (List.replicate u.region.start.column ' ' ++ ['\n'])
    else '\n' :: List.replicate u.region.start.column ' ' := by
  unfold Token.separator spaces
  split
  · simp
  · split <;> simp

private theorem separator_isSeparator {t u : Token} {c : Char}
    (hc : c ∈ (Token.separator t u).toList) : Text.isSeparator c = true := by
  have hblank : ∀ n, c ∈ List.replicate n ' ' → Text.isSeparator c = true := by
    intro n hmem
    rw [List.eq_of_mem_replicate hmem]
    decide
  have hline : c = '\n' → Text.isSeparator c = true := by
    rintro rfl
    decide
  rw [toList_separator] at hc
  split at hc
  · exact hblank _ hc
  · split at hc
    · rcases List.mem_cons.mp hc with hc | hc
      · exact hline hc
      · rcases List.mem_append.mp hc with hc | hc
        · exact hblank _ hc
        · exact hline (by simpa using hc)
    · rcases List.mem_cons.mp hc with hc | hc
      · exact hline hc
      · exact hblank _ hc

/-- What is printed between two tokens is what stood there exactly when that is as it may be. -/
private theorem separator_eq_iff (pre : List Char) {gap : List Char} (post : List Char) {t u : Token}
    (ht : t.region.stop = (LineIndex.ofChars (pre ++ (gap ++ post))).position (Text.byteLength pre))
    (hu : u.region.start =
      (LineIndex.ofChars (pre ++ (gap ++ post))).position (Text.byteLength (pre ++ gap))) :
    (Token.separator t u).toList = gap ↔ NormalGap t u gap := by
  rw [LineIndex.position_byteLength] at ht
  rw [← List.append_assoc, LineIndex.position_byteLength, Text.columnFrom_append,
    List.count_append] at hu
  rw [toList_separator]
  unfold NormalGap
  rw [ht, hu]
  dsimp only
  split
  · rename_i hline
    have hplain : '\n' ∉ gap := List.count_eq_zero.mp (by omega)
    rw [Text.columnFrom_of_not_mem hplain, Nat.add_sub_cancel_left, eq_comm]
    exact List.eq_replicate_iff.trans (by simp)
  · split
    · constructor
      · intro h
        have hcolumn : Text.columnFrom (Text.columnFrom 0 pre) gap = 0 := by
          rw [← h, ← List.cons_append, Text.columnFrom_append]
          rfl
        rw [hcolumn] at h
        exact h.symm
      · rintro rfl
        rfl
    · constructor
      · intro h
        exact ⟨_, h.symm, fun c hc => List.eq_of_mem_replicate hc⟩
      · rintro ⟨blanks, rfl, hblanks⟩
        have hplain : '\n' ∉ blanks := fun hmem => absurd (hblanks _ hmem) (by decide)
        simp only [Text.columnFrom, if_true, Text.columnFrom_of_not_mem hplain, Nat.zero_add]
        congr 1
        exact (List.eq_replicate_iff.mpr ⟨rfl, hblanks⟩).symm

/-! ### What is printed for a token -/

private theorem IsCommentText.solid {text : List Char} (h : Grammar.IsCommentText text) :
    Text.Solid text := by
  rcases h with ⟨inner, rfl⟩ | ⟨hplain, hsign⟩
  · exact Text.Solid.append_left (.of_not_mem (by simp) (by decide)) _
  · exact .of_not_mem (Grammar.IsCommentText.ne_nil (Or.inr ⟨hplain, hsign⟩)) hplain

/-- A comment starts with one of four signs. -/
theorem IsCommentText.sign {text : List Char} (h : Grammar.IsCommentText text) :
    ∃ sign ∈ ['/', '*'] :: Grammar.lineCommentSigns, sign <+: text := by
  rcases h with ⟨inner, rfl⟩ | ⟨-, sign, hsign, hfront⟩
  · exact ⟨_, List.mem_cons_self, by simp⟩
  · exact ⟨sign, List.mem_cons_of_mem _ hsign, hfront⟩

theorem Token.Lexed.written {whole : List Char} {t : Token} (h : t.Lexed whole) :
    t.written = t.value := by
  have hcode := h.code
  unfold Token.written
  split <;> simp_all [TokenKind.isComment]

private theorem dropEnding_append (text ending : List Char) :
    dropEnding ending (text ++ ending) = text := by
  unfold dropEnding
  rw [if_pos (List.isSuffixOf_iff_suffix.mpr (List.suffix_append text ending)), List.length_append,
    Nat.add_sub_cancel, List.take_left]

/-- The parts of a comment: a block loses both of its signs, two slashes go, and a markup sign stays. -/
theorem commentParts_cases {text : List Char} (h : Grammar.IsCommentText text) :
    (∃ inner, text = ['/', '*'] ++ inner ++ ['*', '/'] ∧ commentParts text = (.blockComment, inner)) ∨
      (∃ rest, text = ['/', '/'] ++ rest ∧ commentParts text = (.lineComment, rest)) ∨
      commentParts text = (.lineComment, text) ∧ text.head? ≠ some '/' := by
  rcases h with ⟨inner, rfl⟩ | ⟨-, sign, hsign, rest, rfl⟩
  · exact Or.inl ⟨inner, rfl, congrArg (Prod.mk _) (dropEnding_append inner _)⟩
  · simp only [Grammar.lineCommentSigns, List.map_cons, List.map_nil, List.mem_cons,
      List.not_mem_nil, or_false] at hsign
    rcases hsign with rfl | rfl | rfl
    · exact Or.inr (Or.inl ⟨rest, rfl, rfl⟩)
    · exact Or.inr (Or.inr ⟨rfl, by simp⟩)
    · exact Or.inr (Or.inr ⟨rfl, by simp⟩)

/-- A comment is printed with two slashes or as a block, so it is printed as it stood exactly when it
starts with a slash. -/
private theorem Token.IsComment.written {whole : List Char} {t : Token} (h : t.IsComment whole) :
    (∃ more, t.written.toList = '/' :: more) ∧
      ∀ text, Text.slice whole t.span = some text → text.head? = some '/' →
        t.written.toList = text ∧ (['/', '/'] <+: text ∨ ['/', '*'] <+: text) := by
  obtain ⟨text, hslice, hform, hkind, hvalue⟩ := h
  have hsame : ∀ text', Text.slice whole t.span = some text' → text' = text := by
    intro text' hslice'
    exact Option.some.inj (hslice'.symm.trans hslice)
  rcases commentParts_cases hform with ⟨inner, htext, hparts⟩ | ⟨rest, htext, hparts⟩ |
    ⟨hparts, hother⟩
  · rw [hparts] at hkind hvalue
    have hwritten : t.written.toList = text := by
      simp [Token.written, hkind, hvalue, htext]
    refine ⟨⟨_, hwritten.trans htext⟩, fun text' hslice' _ => ?_⟩
    rw [hsame text' hslice']
    exact ⟨hwritten, Or.inr (by simp [htext])⟩
  · rw [hparts] at hkind hvalue
    have hwritten : t.written.toList = text := by
      simp [Token.written, hkind, hvalue, htext]
    refine ⟨⟨_, hwritten.trans htext⟩, fun text' hslice' _ => ?_⟩
    rw [hsame text' hslice']
    exact ⟨hwritten, Or.inl (by simp [htext])⟩
  · rw [hparts] at hkind
    refine ⟨⟨'/' :: t.value.toList, by simp [Token.written, hkind]⟩, fun text' hslice' hslash => ?_⟩
    rw [hsame text' hslice'] at hslash
    exact absurd hslash hother

section Parsed

variable {mode : Grammar.Mode} {source : String} {p : ParsedSource}

theorem stream_text (h : ParsedSource.parse mode source = .ok p) {t : Token}
    (ht : t ∈ p.stream) :
    ∃ text, Text.slice source.toList t.span = some text ∧ Text.Solid text ∧
      (∀ c ∈ text.head?, Text.isSeparator c = false) ∧
      ∃ c more, t.written.toList = c :: more ∧ Text.isSeparator c = false := by
  obtain ⟨-, hlexed, -, hcomments⟩ := ParsedSource.parse_tiled h
  rcases ParsedSource.mem_stream.mp ht with ht | ht
  · have hcode := hlexed t ht
    refine ⟨_, hcode.slice_eq, hcode.solid, hcode.head, ?_⟩
    obtain ⟨c, more, heq⟩ := List.exists_cons_of_ne_nil hcode.solid.1
    refine ⟨c, more, by rw [hcode.written, heq], hcode.head c ?_⟩
    rw [heq]
    rfl
  · obtain ⟨⟨more, hmore⟩, -⟩ := (hcomments t ht).written
    obtain ⟨text, hslice, hform, -⟩ := hcomments t ht
    refine ⟨text, hslice, IsCommentText.solid hform, ?_, '/', more, hmore, by decide⟩
    obtain ⟨sign, hsign, rest, rfl⟩ := IsCommentText.sign hform
    have hsigns : ∀ sign ∈ ['/', '*'] :: Grammar.lineCommentSigns, sign ≠ [] ∧
        sign.head?.any Text.isSeparator = false := by
      decide
    obtain ⟨hne, hhead⟩ := hsigns sign hsign
    rw [List.head?_append_of_ne_nil sign hne]
    intro c hc
    rw [Option.mem_def.mp hc] at hhead
    exact hhead

/-- The text of a token that starts where a stretch of the source ends follows it. -/
private theorem slice_at {whole pre post text : List Char} {span : Span} (hwhole : whole = pre ++ post)
    (hslice : Text.slice whole span = some text) (hpre : Text.byteLength pre = span.start) :
    ∃ rest, post = text ++ rest ∧ Text.byteLength (pre ++ text) = span.stop := by
  obtain ⟨pre', rest, hwhole', hstart, hstop⟩ := Text.slice_eq_some_iff.mp hslice
  obtain ⟨rfl, rfl⟩ := Text.append_inj_of_byteLength (hwhole.symm.trans hwhole') (hpre.trans hstart.symm)
  exact ⟨rest, rfl, hstop⟩

/-- What is printed between two tokens of the stream is what stood there exactly when that is as it may
be. -/
private theorem separator_placed (hplaced : p.stream.Placed source.toList) {t u : Token}
    (ht : t ∈ p.stream) (hu : u ∈ p.stream) {pre gap post : List Char}
    (hwhole : source.toList = pre ++ (gap ++ post)) (hpre : Text.byteLength pre = t.span.stop)
    (hstart : Text.byteLength (pre ++ gap) = u.span.start) :
    (Token.separator t u).toList = gap ↔ NormalGap t u gap := by
  refine separator_eq_iff pre post ?_ ?_
  · rw [hplaced.region_eq t ht, ← hwhole, hpre]
    rfl
  · rw [hplaced.region_eq u hu, ← hwhole, hstart]
    rfl

/-- Printing a stream in normal layout gives the text it was read from, up to what follows the last
token. -/
private theorem printAfter_eq (h : ParsedSource.parse mode source = .ok p) {t : Token}
    {ts : List Token} (hmem : ∀ v ∈ t :: ts, v ∈ p.stream)
    (hwritten : ∀ v ∈ ts, ∀ text, Text.slice source.toList v.span = some text →
      v.written.toList = text)
    (hchain : (t :: ts).IsChain fun t u => ∃ gap,
      Text.slice source.toList ⟨t.span.stop, u.span.start⟩ = some gap ∧ NormalGap t u gap)
    {pre post : List Char} (hwhole : source.toList = pre ++ post)
    (hpre : Text.byteLength pre = t.span.stop) :
    ∃ tail, post = (TokenStream.printAfter t ts).toList ++ tail ∧ ∀ last ∈ (t :: ts).getLast?,
      Text.slice source.toList ⟨last.span.stop, Text.byteLength source.toList⟩ = some tail := by
  have hplaced := ParsedSource.stream_placed h
  induction ts generalizing t pre post with
  | nil =>
    refine ⟨post, by simp [TokenStream.printAfter], fun last hlast => ?_⟩
    obtain rfl : t = last := by simpa using hlast
    exact Text.slice_eq_some_iff.mpr ⟨pre, [], by simpa using hwhole, hpre, by rw [hwhole]⟩
  | cons u us ih =>
    obtain ⟨⟨gap, hgap, hnormal⟩, hlater⟩ := List.isChain_cons_cons.mp hchain
    obtain ⟨ht, hus⟩ := List.forall_mem_cons.mp hmem
    have hu : u ∈ p.stream := hus u List.mem_cons_self
    obtain ⟨text, htext, -⟩ := stream_text h hu
    obtain ⟨rest, rfl, hstart⟩ := slice_at hwhole hgap hpre
    obtain ⟨after, rfl, hstop⟩ := slice_at (hwhole.trans (List.append_assoc _ _ _).symm) htext hstart
    obtain ⟨hw, hws⟩ := List.forall_mem_cons.mp hwritten
    have hnext : source.toList = pre ++ gap ++ text ++ after := by
      rw [hwhole]
      simp
    obtain ⟨tail, htail, hlast⟩ := ih hus hws hlater hnext hstop
    refine ⟨tail, ?_, fun last hmem => hlast last (by simpa using hmem)⟩
    have hsep := (separator_placed hplaced ht hu hwhole hpre hstart).mpr hnormal
    simp only [TokenStream.printAfter, String.toList_append, hsep, hw text htext, htail,
      List.append_assoc]

/-! ### From the printed text to the layout -/

/-- A comment sign that starts inside of a token that is no literal reaches over its end: the token is
one of two punctuators. -/
private theorem interior_sign {value front back post sign : List Char}
    (hform : (∀ c ∈ value.tail, Text.isWordPart c = true) ∨ value ∈ longPunctuators)
    (hvalue : value = front ++ back) (hfront : front ≠ []) (hback : back ≠ [])
    (hsign : sign ∈ ['/', '*'] :: Grammar.lineCommentSigns) (hstarts : sign <+: back ++ post) :
    post.head? = some '!' ∨ post.head? = some '-' := by
  have hwords : ∀ sign ∈ ['/', '*'] :: Grammar.lineCommentSigns,
      sign.head?.any Text.isWordPart = false := by
    decide
  have hlong : ∀ value ∈ longPunctuators, ∀ k < value.length, k = 0 ∨
      ∀ sign ∈ ['/', '*'] :: Grammar.lineCommentSigns, sign.isPrefixOf (value.drop k) = false ∧
        ((value.drop k).isPrefixOf sign = false ∨
          (sign.drop (value.drop k).length).head? = some '!' ∨
          (sign.drop (value.drop k).length).head? = some '-') := by
    decide
  obtain ⟨rest, hrest⟩ := hstarts
  rcases hform with hword | hpunctuator
  · exfalso
    obtain ⟨c, more, rfl⟩ := List.exists_cons_of_ne_nil hback
    have hc : Text.isWordPart c = true := by
      refine hword c ?_
      rw [hvalue, List.tail_append_of_ne_nil hfront]
      simp
    have hne : sign ≠ [] := by
      rintro rfl
      simp [Grammar.lineCommentSigns] at hsign
    obtain ⟨d, later, rfl⟩ := List.exists_cons_of_ne_nil hne
    obtain rfl : d = c := (List.cons.inj hrest).1
    exact Bool.false_ne_true ((hwords _ hsign).symm.trans hc)
  · have hk := hlong value hpunctuator front.length (by
      rw [hvalue, List.length_append]
      have hlength := List.length_pos_of_ne_nil hback
      omega)
    rw [hvalue, List.drop_left] at hk
    obtain ⟨hinside, hbeyond⟩ := hk.resolve_left (by simpa using hfront) sign hsign
    have hfits : ¬ sign <+: back := by
      intro hfits
      simp [List.isPrefixOf_iff_prefix.mpr hfits] at hinside
    obtain ⟨beyond, hbeyond', hpost⟩ : ∃ beyond, sign = back ++ beyond ∧ post = beyond ++ rest := by
      rcases List.append_eq_append_iff.mp hrest with ⟨mid, hmid, -⟩ | ⟨mid, hmid, hpost⟩
      · exact absurd ⟨mid, hmid.symm⟩ hfits
      · exact ⟨mid, hmid, hpost⟩
    have hne : beyond ≠ [] := by
      rintro rfl
      exact hfits (by simp [hbeyond'])
    rw [hpost, List.head?_append_of_ne_nil beyond hne]
    have hstarts : back.isPrefixOf sign = true := by
      rw [List.isPrefixOf_iff_prefix, hbeyond']
      exact List.prefix_append back beyond
    rw [hstarts] at hbeyond
    simpa [hbeyond'] using hbeyond

/-- After a token that a comment starts in comes a character of the comment. -/
private theorem after_interior {whole pre post text : List Char} {t : Token}
    (ht : t.Lexed whole) (hliteral : t.kind.isLiteral = false) {span : Span}
    (hslice : Text.slice whole span = some text) (hform : Grammar.IsCommentText text)
    (hstart : t.span.start < span.start) (hstop : span.start < t.span.stop)
    (hwhole : whole = pre ++ post) (hpre : Text.byteLength pre = t.span.stop) :
    post.head? = some '!' ∨ post.head? = some '-' := by
  obtain ⟨a, b, hcode, ha, hab⟩ := Text.slice_eq_some_iff.mp ht.slice_eq
  obtain ⟨a', b', hcomment, ha', -⟩ := Text.slice_eq_some_iff.mp hslice
  rw [← List.append_assoc] at hcode
  obtain ⟨rfl, rfl⟩ := Text.append_inj_of_byteLength (hwhole.symm.trans hcode) (hpre.trans hab.symm)
  obtain ⟨back, hback, hrest⟩ := Text.append_split (hcomment.symm.trans hcode) (by omega)
  obtain ⟨front, rfl, hvalue⟩ := Text.append_split hback (by omega)
  obtain ⟨sign, hsign, hfront⟩ := IsCommentText.sign hform
  refine interior_sign (ht.form.resolve_left (by simp [hliteral])) hvalue ?_ ?_ hsign ?_
  · rintro rfl
    simp at ha'
    omega
  · rintro rfl
    rw [hback] at hab
    simp at hab
    omega
  · rw [← hrest]
    exact hfront.trans (List.prefix_append text b')

/-- No literal has a comment inside of it. -/
def ParsedSource.CommentsOutside (p : ParsedSource) : Prop :=
  ∀ s ∈ p.comments, ∀ t ∈ p.tokens, t.kind.isLiteral = true →
    t.span.stop ≤ s.span.start ∨ s.span.stop ≤ t.span.start

instance (p : ParsedSource) : Decidable p.CommentsOutside :=
  inferInstanceAs (Decidable (∀ s ∈ p.comments, ∀ t ∈ p.tokens, t.kind.isLiteral = true →
    t.span.stop ≤ s.span.start ∨ s.span.stop ≤ t.span.start))

/-- As long as the printed text agrees with the source, the next token starts where the last one ends
or later. -/
private theorem stop_le_start (h : ParsedSource.parse mode source = .ok p) (houtside : p.CommentsOutside)
    {done us : List Token} {t u : Token} (hstream : p.stream = done ++ t :: u :: us)
    (hdone : ∀ v ∈ done, v.span.stop ≤ t.span.start)
    {pre post : List Char} (hwhole : source.toList = pre ++ post)
    (hpre : Text.byteLength pre = t.span.stop)
    (hnext : u ∈ p.comments → post.head? ≠ some '!' ∧ post.head? ≠ some '-') :
    t.span.stop ≤ u.span.start := by
  obtain ⟨htiled, hlexed, hordered, hcomments⟩ := ParsedSource.parse_tiled h
  have hplaced := ParsedSource.stream_placed h
  have ht : t ∈ p.stream := by simp [hstream]
  have hu : u ∈ p.stream := by simp [hstream]
  have htpos := ParsedSource.stream_nonempty h ht
  have hupos := ParsedSource.stream_nonempty h hu
  have hstarts := hplaced.ordered
  rw [hstream, List.pairwise_append, List.pairwise_cons, List.pairwise_cons] at hstarts
  obtain ⟨-, ⟨htafter, huafter, -⟩, -⟩ := hstarts
  have htu := htafter u List.mem_cons_self
  have hne : t ≠ u := by
    rintro rfl
    have hnodup := hplaced.ids_nodup
    simp [hstream, List.nodup_append] at hnodup
  -- A code token that starts before `u` is `t` or one of those before it.
  have hearlier : ∀ v ∈ p.tokens, v.span.start < u.span.start → v = t ∨ v.span.stop ≤ t.span.start := by
    intro v hv hlt
    have hmem : v ∈ p.stream := ParsedSource.mem_stream.mpr (Or.inl hv)
    rw [hstream, List.mem_append, List.mem_cons, List.mem_cons] at hmem
    rcases hmem with hmem | rfl | rfl | hmem
    · exact Or.inr (hdone v hmem)
    · exact Or.inl rfl
    · omega
    · have := huafter v hmem
      omega
  rcases ParsedSource.mem_stream.mp ht with ht | ht <;> rcases ParsedSource.mem_stream.mp hu with hu | hu
  · have := Token.apart_of_pairwise htiled.ordered ht hu hne
    omega
  · rcases htiled.apart u.span (List.mem_map_of_mem hu) (Nat.zero_le _) with
      ⟨v, hv, hlow, hhigh, hinside⟩ | hapart
    · have hliteral : v.kind.isLiteral = false := by
        by_contra hliteral
        have := houtside u hu v hv (by simpa using hliteral)
        omega
      rcases hearlier v hv (hinside.resolve_left (by simp [hliteral])) with rfl | hbefore
      · obtain ⟨text, hslice, hform, -⟩ := hcomments u hu
        have hlt := hinside.resolve_left (by simp [hliteral])
        have hhead := after_interior (hlexed v hv) hliteral hslice hform hlt hhigh hwhole hpre
        have := hnext hu
        tauto
      · omega
    · have := hapart t ht
      omega
  · rcases htiled.apart t.span (List.mem_map_of_mem ht) (Nat.zero_le _) with
      ⟨v, hv, hlow, hhigh, hinside⟩ | hapart
    · have hliteral : v.kind.isLiteral = false := by
        by_contra hliteral
        have := houtside t ht v hv (by simpa using hliteral)
        omega
      have hlt := hinside.resolve_left (by simp [hliteral])
      rcases hearlier v hv (by omega) with rfl | hbefore <;> omega
    · have := hapart u hu
      omega
  · have := Token.apart_of_pairwise hordered ht hu hne
    omega

/-- The text before the next token holds separators only. -/
private theorem gap_isSeparator (h : ParsedSource.parse mode source = .ok p)
    {done us : List Token} {u : Token} (hstream : p.stream = done ++ u :: us)
    {pre gap post : List Char} (hdone : ∀ v ∈ done, v.span.stop ≤ Text.byteLength pre)
    (hwhole : source.toList = pre ++ (gap ++ post))
    (hstart : Text.byteLength (pre ++ gap) = u.span.start) {c : Char} (hc : c ∈ gap) :
    Text.isSeparator c = true := by
  obtain ⟨htiled, -⟩ := ParsedSource.parse_tiled h
  have hstarts := (ParsedSource.stream_placed h).ordered
  rw [hstream, List.pairwise_append, List.pairwise_cons] at hstarts
  obtain ⟨-, ⟨huafter, -⟩, -⟩ := hstarts
  obtain ⟨front, back, rfl⟩ := List.append_of_mem hc
  have hsize := c.utf8Size_pos
  simp only [Text.byteLength_append, Text.byteLength] at hstart
  -- No token of the stream covers the place of `c`.
  have hbare : ∀ v ∈ p.stream, v.span.start ≤ Text.byteLength (pre ++ front) →
      ¬ Text.byteLength (pre ++ front) < v.span.stop := by
    intro v hv hlow hhigh
    rw [Text.byteLength_append] at hlow hhigh
    rw [hstream, List.mem_append, List.mem_cons] at hv
    rcases hv with hv | rfl | hv
    · have := hdone v hv
      omega
    · omega
    · have := huafter v hv
      omega
  rcases htiled.covers (pre ++ front) c (back ++ post) (by simp [hwhole]) (Nat.zero_le _) with
    hseparator | ⟨v, hv, hlow, hhigh⟩ | ⟨s, hs, hlow, hhigh⟩
  · exact hseparator
  · exact absurd hhigh (hbare v (ParsedSource.mem_stream.mpr (Or.inl hv)) hlow)
  · obtain ⟨v, hv, rfl⟩ := List.mem_map.mp hs
    exact absurd hhigh (hbare v (ParsedSource.mem_stream.mpr (Or.inr hv)) hlow)

/-- Separators before something that does not start with one are told apart from it. -/
private theorem separators_inj {xs ys xs' ys' : List Char} (h : xs ++ ys = xs' ++ ys')
    (hxs : ∀ c ∈ xs, Text.isSeparator c = true) (hys : ∀ c ∈ ys.head?, Text.isSeparator c = false)
    (hxs' : ∀ c ∈ xs', Text.isSeparator c = true)
    (hys' : ∀ c ∈ ys'.head?, Text.isSeparator c = false) : xs = xs' ∧ ys = ys' := by
  have htake : ∀ {xs ys : List Char}, (∀ c ∈ xs, Text.isSeparator c = true) →
      (∀ c ∈ ys.head?, Text.isSeparator c = false) → (xs ++ ys).takeWhile Text.isSeparator = xs := by
    intro xs ys hxs hys
    rw [List.takeWhile_append_of_pos hxs]
    cases ys with
    | nil => simp
    | cons c ys => simp [hys c rfl]
  have heq : xs = xs' := by
    rw [← htake hxs hys, h, htake hxs' hys']
  subst heq
  exact ⟨rfl, List.append_cancel_left h⟩

/-- Where the printed text agrees with the source, the next token is printed where it stood and as it
stood. -/
private theorem printed_in_place (h : ParsedSource.parse mode source = .ok p)
    {done us : List Token} {u : Token} (hstream : p.stream = done ++ u :: us)
    {pre seps rest : List Char} (hdone : ∀ v ∈ done, v.span.stop ≤ Text.byteLength pre)
    (hle : Text.byteLength pre ≤ u.span.start)
    (hwhole : source.toList = pre ++ (seps ++ (u.written.toList ++ rest)))
    (hseps : ∀ c ∈ seps, Text.isSeparator c = true) :
    Text.byteLength (pre ++ seps) = u.span.start ∧
      Text.byteLength (pre ++ seps ++ u.written.toList) = u.span.stop ∧
      Text.slice source.toList u.span = some u.written.toList := by
  obtain ⟨-, hlexed, -, hcomments⟩ := ParsedSource.parse_tiled h
  have hu : u ∈ p.stream := by simp [hstream]
  obtain ⟨text, hslice, hsolid, hhead, c, more, hwritten, hc⟩ := stream_text h hu
  obtain ⟨a, b, hplace, ha, hab⟩ := Text.slice_eq_some_iff.mp hslice
  obtain ⟨gap, rfl, hsplit⟩ := Text.append_split (hwhole.symm.trans hplace) (by omega)
  have hgap : ∀ c ∈ gap, Text.isSeparator c = true :=
    fun c hc => gap_isSeparator h hstream hdone (by rw [hplace, List.append_assoc]) ha hc
  obtain ⟨rfl, hrest⟩ := separators_inj hsplit hseps (by simpa [hwritten] using hc) hgap
    (by rwa [List.head?_append_of_ne_nil text hsolid.1])
  have hsame : u.written.toList = text := by
    rcases ParsedSource.mem_stream.mp hu with hu | hu
    · rw [(hlexed u hu).written]
      exact Option.some.inj ((hlexed u hu).slice_eq.symm.trans hslice)
    · obtain ⟨⟨more, hmore⟩, hslash⟩ := (hcomments u hu).written
      refine (hslash text hslice ?_).1
      rw [← List.head?_append_of_ne_nil text hsolid.1, ← hrest, hmore]
      rfl
  rw [hsame]
  exact ⟨ha, hab, hslice⟩

/-- A stream whose printed text is the source from its first token on is in normal layout. -/
private theorem layout_of_printAfter (h : ParsedSource.parse mode source = .ok p)
    (houtside : p.CommentsOutside) {done ts : List Token} {t : Token}
    (hstream : p.stream = done ++ t :: ts) (hdone : ∀ v ∈ done, v.span.stop ≤ t.span.start)
    {pre tail : List Char}
    (hwhole : source.toList = pre ++ ((TokenStream.printAfter t ts).toList ++ tail))
    (hpre : Text.byteLength pre = t.span.stop) :
    ((t :: ts).IsChain fun t u => ∃ gap,
        Text.slice source.toList ⟨t.span.stop, u.span.start⟩ = some gap ∧ NormalGap t u gap) ∧
      (∀ v ∈ ts, Text.slice source.toList v.span = some v.written.toList) ∧
      ∀ last ∈ (t :: ts).getLast?,
        Text.slice source.toList ⟨last.span.stop, Text.byteLength source.toList⟩ = some tail := by
  have hplaced := ParsedSource.stream_placed h
  induction ts generalizing done t pre with
  | nil =>
    refine ⟨.singleton t, by simp, fun last hlast => ?_⟩
    obtain rfl : t = last := by simpa using hlast
    have hwhole' : source.toList = pre ++ tail := by simpa [TokenStream.printAfter] using hwhole
    exact Text.slice_eq_some_iff.mpr ⟨pre, [], by simpa using hwhole', hpre, by rw [hwhole']⟩
  | cons u us ih =>
    obtain ⟨-, -, -, hcomments⟩ := ParsedSource.parse_tiled h
    have ht : t ∈ p.stream := by simp [hstream]
    have hu : u ∈ p.stream := by simp [hstream]
    have hpos := ParsedSource.stream_nonempty h ht
    simp only [TokenStream.printAfter, String.toList_append, List.append_assoc] at hwhole
    have hle : t.span.stop ≤ u.span.start := by
      refine stop_le_start h houtside hstream hdone hwhole hpre fun hcomment => ?_
      obtain ⟨⟨more, hmore⟩, -⟩ := (hcomments u hcomment).written
      rw [hmore]
      cases hsep : (Token.separator t u).toList with
      | nil => simp
      | cons c cs =>
        have hc : Text.isSeparator c = true := separator_isSeparator (t := t) (u := u) (by simp [hsep])
        constructor
        · rintro heq
          obtain rfl : c = '!' := by simpa using heq
          exact absurd hc (by decide)
        · rintro heq
          obtain rfl : c = '-' := by simpa using heq
          exact absurd hc (by decide)
    have hstream' : p.stream = (done ++ [t]) ++ u :: us := by simp [hstream]
    have hdone' : ∀ v ∈ done ++ [t], v.span.stop ≤ t.span.stop := by
      intro v hv
      rcases List.mem_append.mp hv with hv | hv
      · have := hdone v hv
        omega
      · rw [List.mem_singleton.mp hv]
    obtain ⟨hstart, hstop, hslice⟩ := printed_in_place h hstream' (by rwa [hpre]) (by rwa [hpre])
      hwhole (fun c hc => separator_isSeparator hc)
    have hnormal := (separator_placed hplaced ht hu hwhole hpre hstart).mp rfl
    obtain ⟨hchain, hslices, hlast⟩ := ih hstream' (fun v hv => (hdone' v hv).trans hle)
      (by rw [hwhole]; simp) hstop
    refine ⟨List.isChain_cons_cons.mpr ⟨⟨_, ?_, hnormal⟩, hchain⟩,
      List.forall_mem_cons.mpr ⟨hslice, hslices⟩, fun last hmem => hlast last (by simpa using hmem)⟩
    exact Text.slice_eq_some_iff.mpr ⟨pre, _, hwhole, hpre, hstart⟩

/-- A source that ends with a token does not end with a line break. -/
private theorem getLast_ne_of_ends (h : ParsedSource.parse mode source = .ok p) {t : Token}
    (ht : t ∈ p.stream)
    (hends : Text.slice source.toList ⟨t.span.stop, Text.byteLength source.toList⟩ = some []) :
    source.toList.getLast? ≠ some '\n' := by
  obtain ⟨text, hslice, hsolid, -⟩ := stream_text h ht
  obtain ⟨pre, post, hwhole, hpre, hstop⟩ := Text.slice_eq_some_iff.mp hends
  obtain ⟨a, b, hplace, -, hab⟩ := Text.slice_eq_some_iff.mp hslice
  rw [← List.append_assoc] at hplace
  rw [List.append_nil] at hstop
  obtain ⟨hwhole, -⟩ := Text.append_inj_of_byteLength
    (show source.toList ++ [] = (a ++ text) ++ b by rw [List.append_nil, hplace])
    (by rw [hab]; exact hstop.symm.trans hpre)
  rw [hwhole]
  exact (hsolid.append_left a).2

/-- The printed stream with the last line break is the source exactly when its layout is normal. -/
private theorem print_eq_iff (h : ParsedSource.parse mode source = .ok p)
    (houtside : p.CommentsOutside) :
    (∃ tail, (tail = [] ∧ source.toList.getLast? ≠ some '\n' ∨ tail = ['\n']) ∧ p.stream ≠ [] ∧
        source.toList = p.stream.print.toList ++ tail) ↔
      NormalLayout source.toList p := by
  obtain ⟨-, hlexed, -, hcomments⟩ := ParsedSource.parse_tiled h
  constructor
  · rintro ⟨tail, htail, hne, hwhole⟩
    obtain ⟨t, ts, hstream⟩ := List.exists_cons_of_ne_nil hne
    have hnone : p.stream = [] ++ t :: ts := hstream
    have hfirst : source.toList =
        [] ++ ([] ++ (t.written.toList ++ ((TokenStream.printAfter t ts).toList ++ tail))) := by
      simpa [hstream, TokenStream.print] using hwhole
    obtain ⟨hstart, hstop, hslice⟩ := printed_in_place h hnone (by simp) (Nat.zero_le _) hfirst (by simp)
    obtain ⟨hchain, hslices, hlast⟩ := layout_of_printAfter h houtside hnone (by simp) hfirst hstop
    have hall : ∀ v ∈ p.stream, Text.slice source.toList v.span = some v.written.toList := by
      rw [hstream]
      exact List.forall_mem_cons.mpr ⟨hslice, hslices⟩
    refine ⟨⟨t, by simp [hstream], hstart.symm⟩, fun v hv => ?_, by rwa [hstream], ?_⟩
    · have hv' := hall v (ParsedSource.mem_stream.mpr (Or.inr hv))
      obtain ⟨⟨more, hmore⟩, hslash⟩ := (hcomments v hv).written
      exact ⟨_, hv', (hslash _ hv' (by rw [hmore]; rfl)).2⟩
    · refine ⟨(t :: ts).getLast (by simp), ?_, tail, hlast _ ?_, htail.imp_left And.left⟩
      · rw [hstream, List.getLast?_eq_some_getLast (by simp)]
        rfl
      · rw [List.getLast?_eq_some_getLast (by simp)]
        rfl
  · rintro ⟨⟨t, ht, hstart⟩, hsigns, hchain, last, hlast, tail, hslice, htail⟩
    obtain ⟨ts, hstream⟩ : ∃ ts, p.stream = t :: ts := by
      cases hs : p.stream with
      | nil => simp [hs] at ht
      | cons u ts => exact ⟨ts, by simpa [hs] using ht⟩
    have hwritten : ∀ v ∈ t :: ts, ∀ text, Text.slice source.toList v.span = some text →
        v.written.toList = text := by
      intro v hv text htext
      rcases ParsedSource.mem_stream.mp (hstream ▸ hv) with hv | hv
      · rw [(hlexed v hv).written]
        exact Option.some.inj ((hlexed v hv).slice_eq.symm.trans htext)
      · obtain ⟨full, hfull, hsign⟩ := hsigns v hv
        obtain rfl := Option.some.inj (hfull.symm.trans htext)
        refine ((hcomments v hv).written.2 full hfull ?_).1
        rcases hsign with ⟨more, rfl⟩ | ⟨more, rfl⟩ <;> rfl
    obtain ⟨text, htext, -⟩ := stream_text h (show t ∈ p.stream by simp [hstream])
    obtain ⟨rest, hrest, hstop⟩ := slice_at (show source.toList = [] ++ source.toList from rfl) htext
      hstart.symm
    obtain ⟨tail', htail', hlast'⟩ := printAfter_eq h (fun v hv => hstream ▸ hv)
      (fun v hv => hwritten v (List.mem_cons_of_mem t hv)) (by rwa [← hstream])
      (show source.toList = text ++ rest from hrest) hstop
    obtain rfl : tail' = tail :=
      Option.some.inj ((hlast' last (by rwa [← hstream])).symm.trans hslice)
    refine ⟨tail', htail.imp_left fun hnil => ⟨hnil, ?_⟩, by simp [hstream], ?_⟩
    · exact getLast_ne_of_ends h (List.mem_of_getLast? hlast) (hnil ▸ hslice)
    rw [hrest, htail', hstream, TokenStream.print, String.toList_append,
      hwritten t List.mem_cons_self text htext, List.append_assoc]

private theorem print_ne_empty (h : ParsedSource.parse mode source = .ok p) (hne : p.stream ≠ []) :
    p.stream.print ≠ "" := by
  obtain ⟨t, ts, hstream⟩ := List.exists_cons_of_ne_nil hne
  obtain ⟨-, -, -, -, c, more, hwritten, -⟩ := stream_text h (show t ∈ p.stream by simp [hstream])
  intro hempty
  have hlist := congrArg String.toList hempty
  simp [hstream, TokenStream.print, hwritten] at hlist

/-- Without a change and without a banner the result is the source exactly when its layout is normal. -/
private theorem assemble_eq_iff (h : ParsedSource.parse mode source = .ok p)
    (houtside : p.CommentsOutside) (hsource : source ≠ "") :
    assemble ⟨false, mode⟩ source (.start p.tree p.stream) = source ↔
      NormalLayout source.toList p := by
  have hcode : assemble ⟨false, mode⟩ source (.start p.tree p.stream) =
      if source.toList.getLast? = some '\n' ∧ p.stream.print ≠ "" then p.stream.print ++ "\n"
      else p.stream.print := rfl
  rw [hcode]
  constructor
  · intro heq
    have hne : p.stream ≠ [] := by
      intro hnil
      simp only [hnil, TokenStream.print, ne_eq, not_true_eq_false, and_false, if_false] at heq
      exact hsource heq.symm
    refine (print_eq_iff h houtside).mp ?_
    split at heq
    · exact ⟨['\n'], Or.inr rfl, hne, by rw [← heq, String.toList_append]; rfl⟩
    · rename_i hends
      refine ⟨[], Or.inl ⟨rfl, fun hlast => hends ⟨hlast, print_ne_empty h hne⟩⟩, hne, ?_⟩
      rw [heq, List.append_nil]
  · intro hlayout
    obtain ⟨tail, htail, hne, hwhole⟩ := (print_eq_iff h houtside).mpr hlayout
    have hprint := print_ne_empty h hne
    refine String.toList_injective ?_
    rcases htail with ⟨rfl, hends⟩ | rfl
    · rw [if_neg (fun hboth => hends hboth.1), hwhole, List.append_nil]
    · rw [if_pos ⟨by simp [hwhole], hprint⟩, hwhole, String.toList_append]
      rfl

private theorem findConstructors_of_chain {s : TokenStream}
    (h : s.IsChain fun t u => ¬ (t.isKeyword "function" = true ∧ u.kind = .identifier)) :
    ClassWrapper.findConstructors s = [] := by
  induction s with
  | nil => rfl
  | cons t s ih =>
    cases s with
    | nil => rfl
    | cons u s =>
      obtain ⟨hfirst, hrest⟩ := List.isChain_cons_cons.mp h
      have hopens : ClassWrapper.opensConstructor t u = false := by
        simp only [ClassWrapper.opensConstructor, Bool.and_eq_false_iff]
        by_cases hkeyword : t.isKeyword "function" = true
        · exact Or.inl (Or.inr (by simpa using fun hkind => hfirst ⟨hkeyword, hkind⟩))
        · exact Or.inl (Or.inl (by simpa using hkeyword))
      rw [ClassWrapper.findConstructors, hopens]
      exact ih hrest

private theorem aliasOf_stream (h : ParsedSource.parse mode source = .ok p)
    (halias : ∀ t ∈ p.tokens, t.kind = .identifier → helperAlias? t.value = none) :
    ∀ t ∈ p.stream, HelperUses.aliasOf? t = none := by
  obtain ⟨-, -, -, hcomments⟩ := ParsedSource.parse_tiled h
  intro t ht
  unfold HelperUses.aliasOf?
  split
  · rename_i hkind
    replace hkind : t.kind = .identifier := by simpa using hkind
    rcases ParsedSource.mem_stream.mp ht with ht | ht
    · exact halias t ht hkind
    · obtain ⟨text, -, hform, hclass, -⟩ := hcomments t ht
      rw [hkind] at hclass
      rcases commentParts_cases hform with ⟨_, -, hparts⟩ | ⟨_, -, hparts⟩ | ⟨hparts, -⟩ <;>
        simp [hparts] at hclass
  · rfl

/-- Without a helper, its declaration or a named function every pass hands its workspace on. -/
private theorem fix_of_plain (hparse : ParsedSource.parse mode source = .ok p)
    (hkept : isLeftAlone p.tokens = false)
    (halias : ∀ t ∈ p.tokens, t.kind = .identifier → helperAlias? t.value = none)
    (hhelpers : ∀ n ∈ p.tree.preorder, HelperDeclarations.declaresHelper n = false)
    (hfunctions : p.stream.IsChain fun t u =>
      ¬ (t.isKeyword "function" = true ∧ u.kind = .identifier)) (header : Bool) :
    (fix ⟨header, mode⟩ source).outcome =
      .ok ⟨false, false, assemble ⟨header, mode⟩ source (.start p.tree p.stream)⟩ := by
  let same : PassResult := ⟨.start p.tree p.stream, false⟩
  let run : FixRun mode source :=
    { parsed := p
      declarationsMarked := same
      classesUnwrapped := same
      linesRemoved := same
      helpersResolved := same
      parse_eq := hparse
      not_leftAlone := hkept
      declarations_eq := HelperDeclarations.run_of_none hhelpers
      classes_eq := ClassWrapper.run_of_none (findConstructors_of_chain hfunctions)
      lines_eq := MarkedLineRemoval.run_of_isEmpty rfl
      uses_eq := HelperUses.run_of_none (aliasOf_stream hparse halias) }
  exact run.fix_eq header

end Parsed

/-- A source that names no helper, declares none and has no named function is answered as unchanged, and
the answer is the source itself exactly when its layout is normal. -/
theorem plain_source_reprinted_iff {mode : Grammar.Mode} {source : String} {p : ParsedSource}
    (hparse : ParsedSource.parse mode source = .ok p) (hsource : source ≠ "")
    (houtside : p.CommentsOutside) (hkept : isLeftAlone p.tokens = false)
    (halias : ∀ t ∈ p.tokens, t.kind = .identifier → helperAlias? t.value = none)
    (hhelpers : ∀ n ∈ p.tree.preorder, HelperDeclarations.declaresHelper n = false)
    (hfunctions : p.stream.IsChain fun t u =>
      ¬ (t.isKeyword "function" = true ∧ u.kind = .identifier)) :
    ∃ result, (fix ⟨false, mode⟩ source).outcome = .ok result ∧ result.modified = false ∧
      result.requiresArrayLibrary = false ∧
      (result.code = source ↔ NormalLayout source.toList p) :=
  ⟨_, fix_of_plain hparse hkept halias hhelpers hfunctions false, rfl, rfl,
    assemble_eq_iff hparse houtside hsource⟩

/-- A source with columns past characters of two bytes is in normal layout, since it is fixed to
itself. -/
theorem plain_source_reprinted_loop :
    ∃ p, ParsedSource.parse .script "// Ü\nfor (;;) \x7b\n  a(1,  'é');\n\n/* b */\n\x7d\n" = .ok p ∧
      NormalLayout "// Ü\nfor (;;) \x7b\n  a(1,  'é');\n\n/* b */\n\x7d\n".toList p := by
  have hrun : ((FixRun.of? .script
      "// Ü\nfor (;;) \x7b\n  a(1,  'é');\n\n/* b */\n\x7d\n").any fun run => decide
        (run.parsed.CommentsOutside ∧
          (∀ t ∈ run.parsed.tokens, t.kind = .identifier → helperAlias? t.value = none) ∧
          (∀ n ∈ run.parsed.tree.preorder, HelperDeclarations.declaresHelper n = false) ∧
          (run.parsed.stream.IsChain fun t u =>
            ¬ (t.isKeyword "function" = true ∧ u.kind = .identifier)) ∧
          assemble ⟨false, .script⟩ "// Ü\nfor (;;) \x7b\n  a(1,  'é');\n\n/* b */\n\x7d\n" run.final =
            "// Ü\nfor (;;) \x7b\n  a(1,  'é');\n\n/* b */\n\x7d\n")) = true := by
    decide +kernel
  obtain ⟨run, -, hrun⟩ := (Option.any_eq_true _ _).mp hrun
  obtain ⟨houtside, halias, hhelpers, hfunctions, hcode⟩ := of_decide_eq_true hrun
  obtain ⟨result, hfix, -, -, hiff⟩ := plain_source_reprinted_iff run.parse_eq (by decide) houtside
    run.not_leftAlone halias hhelpers hfunctions
  rw [run.fix_eq false, Except.ok.injEq] at hfix
  rw [← hfix] at hiff
  exact ⟨run.parsed, run.parse_eq, hiff.mp hcode⟩

end ClosureReady
