import ClosureReady.Grammar.Reader
import ClosureReady.Proofs.LexemeText
import ClosureReady.Proofs.PreparedStream

/-!
What holds of every state of the reader.  Its cursors stand in the text that is read, the current
lexeme does not start with a separator, the comments found so far follow each other in front of it, and
the nodes noted so far are sound: a literal is a stretch of text that ends inside a line, and a variable
declaration does not end before it starts.  No comment lies across the end of a lexeme or of a literal,
and only templates have comments inside of them.  Reading a gap and moving on keep this.
-/

set_option autoImplicit false
set_option relaxedAutoImplicit false

namespace ClosureReady

private theorem Text.eq_nil_of_byteLength {xs : List Char} (h : byteLength xs = 0) : xs = [] := by
  cases xs with
  | nil => rfl
  | cons c xs =>
    have hsize := c.utf8Size_pos
    rw [byteLength] at h
    omega

/-- Of two cuts of a text the earlier one cuts the front of the later one. -/
theorem Text.append_split {xs ys xs' ys' : List Char} (h : xs ++ ys = xs' ++ ys')
    (hle : byteLength xs ≤ byteLength xs') : ∃ mid, xs' = xs ++ mid ∧ ys = mid ++ ys' := by
  rcases List.append_eq_append_iff.mp h with ⟨mid, hxs, hys⟩ | ⟨mid, rfl, rfl⟩
  · exact ⟨mid, hxs, hys⟩
  · obtain rfl := eq_nil_of_byteLength (show byteLength mid = 0 by rw [byteLength_append] at hle; omega)
    exact ⟨[], by simp, by simp⟩

/-- A text is cut at one offset in one way only. -/
theorem Text.append_inj_of_byteLength {xs ys xs' ys' : List Char} (h : xs ++ ys = xs' ++ ys')
    (hlength : byteLength xs = byteLength xs') : xs = xs' ∧ ys = ys' := by
  obtain ⟨mid, rfl, rfl⟩ := append_split h hlength.le
  obtain rfl := eq_nil_of_byteLength (show byteLength mid = 0 by
    rw [byteLength_append] at hlength
    omega)
  simp

/-- What is promised of a node that the reader notes. -/
def TreeEvent.Sound (whole : List Char) : TreeEvent → Prop
  | .enter (.literal _) span => ∃ text, Text.slice whole span = some text ∧ Text.Firm text ∧
      ∀ c ∈ text.head?, Text.isSeparator c = false
  | .enter (.variableDeclaration _) span => span.start ≤ span.stop
  | _ => True

/-- How a comment lies to a literal: in front of it, behind it, or inside of a template. -/
def Span.ClearOf (comment span : Span) (kind : LiteralKind) : Prop :=
  comment.stop ≤ span.start ∨ span.stop ≤ comment.start ∨
    kind = .template ∧ span.start ≤ comment.start ∧ comment.stop ≤ span.stop

/-- A literal that is noted ends at or before an offset, and the comments found are clear of it. -/
def TreeEvent.Clear (stop : Nat) (comments : List Span) : TreeEvent → Prop
  | .enter (.literal kind) span => span.stop ≤ stop ∧ ∀ c ∈ comments, c.ClearOf span kind
  | _ => True

/-- Literals stay clear while the reader goes on. -/
theorem TreeEvent.Clear.mono {stop stop' : Nat} {comments comments' : List Span} {e : TreeEvent}
    (h : e.Clear stop comments) (hstop : stop ≤ stop')
    (hcomments : ∀ c ∈ comments', c ∈ comments ∨ stop ≤ c.start) : e.Clear stop' comments' := by
  unfold Clear at h ⊢
  split
  · obtain ⟨hend, hclear⟩ := h
    refine ⟨Nat.le_trans hend hstop, fun c hc => ?_⟩
    rcases hcomments c hc with hc | hlater
    · exact hclear c hc
    · exact Or.inr (Or.inl (Nat.le_trans hend hlater))
  · trivial

theorem ParseNode.eventsAll_eq_flatMap (ns : List ParseNode) : eventsAll ns = ns.flatMap events := by
  induction ns with
  | nil => rfl
  | cons n ns ih => rw [eventsAll, ih, List.flatMap_cons]

theorem ParseNode.mem_eventsAll_reverse {ns : List ParseNode} {e : TreeEvent} :
    e ∈ eventsAll ns.reverse ↔ e ∈ eventsAll ns := by
  simp only [eventsAll_eq_flatMap, List.mem_flatMap, List.mem_reverse]

namespace Grammar

/-- The cursor stands in the text. -/
def Cursor.At (whole : List Char) (cur : Cursor) : Prop :=
  ∃ pre, whole = pre ++ cur.rest ∧ Text.byteLength pre = cur.offset

theorem Cursor.Passes.at {whole text : List Char} {a b : Cursor} (h : a.Passes text b)
    (ha : a.At whole) : b.At whole := by
  obtain ⟨pre, hwhole, hoffset⟩ := ha
  refine ⟨pre ++ text, ?_, ?_⟩
  · rw [hwhole, h.rest_eq, List.append_assoc]
  · rw [Text.byteLength_append, hoffset, h.offset_eq]

theorem Cursor.At.passes {whole : List Char} {a b : Cursor} (ha : a.At whole) (hb : b.At whole)
    (hle : a.offset ≤ b.offset) : ∃ text, a.Passes text b := by
  obtain ⟨pre, hpre, hstart⟩ := ha
  obtain ⟨pre', hpre', hstop⟩ := hb
  obtain ⟨p, mid, q, hwhole, hp, hmid⟩ := Text.IsBoundary.between ⟨pre, a.rest, hpre, hstart⟩
    ⟨pre', b.rest, hpre', hstop⟩ hle
  rw [List.append_assoc] at hwhole
  obtain ⟨rfl, hrest⟩ := Text.append_inj_of_byteLength (hpre.symm.trans hwhole) (hstart.trans hp.symm)
  rw [← List.append_assoc] at hwhole
  obtain ⟨rfl, hrest'⟩ := Text.append_inj_of_byteLength (hpre'.symm.trans hwhole)
    (hstop.trans hmid.symm)
  refine ⟨mid, by rw [hrest, hrest'], ?_⟩
  rw [← hstop, ← hstart, Text.byteLength_append]

theorem Cursor.Passes.slice {whole text : List Char} {a b : Cursor} (h : a.Passes text b)
    (ha : a.At whole) : Text.slice whole ⟨a.offset, b.offset⟩ = some text := by
  obtain ⟨pre, hwhole, hoffset⟩ := ha
  refine Text.slice_eq_some_iff.mpr ⟨pre, b.rest, ?_, hoffset, ?_⟩
  · rw [hwhole, h.rest_eq]
  · rw [Text.byteLength_append, hoffset, h.offset_eq]

/-- In front of the cursor angles stand in pairs. -/
def Cursor.PairedIn (whole : List Char) (cur : Cursor) : Prop :=
  ∀ pre, whole = pre ++ cur.rest → Text.Paired pre cur.rest

/-- No dash stands in front of a dash at the cursor. -/
def Cursor.DashFree (whole : List Char) (cur : Cursor) : Prop :=
  ∀ pre, whole = pre ++ cur.rest → cur.rest.head? = some '-' → pre.getLast? ≠ some '-'

theorem Cursor.Passes.before_eq {whole text pre : List Char} {a b : Cursor} (h : a.Passes text b)
    (ha : a.At whole) (hpre : whole = pre ++ b.rest) :
    ∃ front, whole = front ++ a.rest ∧ pre = front ++ text := by
  obtain ⟨front, hfront, -⟩ := ha
  refine ⟨front, hfront, ?_⟩
  rw [hfront, h.rest_eq, ← List.append_assoc] at hpre
  exact (List.append_cancel_right hpre).symm

theorem Cursor.Passes.pairedIn {whole text : List Char} {a b : Cursor} (h : a.Passes text b)
    (ha : a.At whole) (hpaired : a.PairedIn whole) (hkeeps : Text.KeepsPairs text b.rest) :
    b.PairedIn whole := by
  intro pre hpre
  obtain ⟨front, hfront, rfl⟩ := h.before_eq ha hpre
  refine hkeeps front ?_
  rw [← h.rest_eq]
  exact hpaired front hfront

/-! ### Gaps -/

/-- The signs that start a comment up to the end of the line. -/
def lineCommentSigns : List (List Char) := ["//", "<!--", "-->"].map String.toList

/-- The text of a comment: a block with both of its signs, or the rest of a line from a sign on. -/
def IsCommentText (text : List Char) : Prop :=
  (∃ inner, text = ['/', '*'] ++ inner ++ ['*', '/']) ∨
    '\n' ∉ text ∧ ∃ sign ∈ lineCommentSigns, sign <+: text

theorem IsCommentText.ne_nil {text : List Char} (h : IsCommentText text) : text ≠ [] := by
  rcases h with ⟨inner, rfl⟩ | ⟨-, sign, hsign, hfront⟩
  · simp
  · rintro rfl
    have hnil : sign = [] := List.prefix_nil.mp hfront
    exact absurd (hnil ▸ hsign) (by decide)

/-- How the text of a comment stands between what is before and behind it: in front of it angles stand
in pairs, no dash stands in front of an arrow, and a comment that is no block ends where a line does. -/
structure StandsApart (before text after : List Char) : Prop where
  paired : Text.Paired before (text ++ after)
  arrow : ['-', '-', '>'] <+: text → before.getLast? ≠ some '-'
  ends : ['/', '*'] <+: text ∨ ∀ c ∈ after.head?, Text.isLineTerminator c = true

/-- Comments of a text, last one first, that do not overlap and lie between two offsets. -/
structure CommentsIn (whole : List Char) (low high : Nat) (comments : List Span) : Prop where
  sound : ∀ s ∈ comments, ∃ text, Text.slice whole s = some text ∧ IsCommentText text
  apart : ∀ s ∈ comments, ∃ before text after, whole = before ++ (text ++ after) ∧
    Text.byteLength before = s.start ∧ Text.byteLength (before ++ text) = s.stop ∧
    StandsApart before text after
  ordered : comments.Pairwise fun later earlier => earlier.stop ≤ later.start
  low_le : ∀ s ∈ comments, low ≤ s.start
  le_high : ∀ s ∈ comments, s.stop ≤ high

theorem CommentsIn.nil (whole : List Char) (low high : Nat) : CommentsIn whole low high [] :=
  ⟨by simp, by simp, .nil, by simp, by simp⟩

theorem CommentsIn.append {whole : List Char} {low mid mid' high : Nat} {later earlier : List Span}
    (hlater : CommentsIn whole mid' high later) (hearlier : CommentsIn whole low mid earlier)
    (hmid : mid ≤ mid') (hlow : low ≤ mid') (hhigh : mid ≤ high) :
    CommentsIn whole low high (later ++ earlier) := by
  refine ⟨?_, ?_, List.pairwise_append.mpr ⟨hlater.ordered, hearlier.ordered, ?_⟩, ?_, ?_⟩
  · intro s hs
    rcases List.mem_append.mp hs with hs | hs
    · exact hlater.sound s hs
    · exact hearlier.sound s hs
  · intro s hs
    rcases List.mem_append.mp hs with hs | hs
    · exact hlater.apart s hs
    · exact hearlier.apart s hs
  · intro s hs t ht
    have hstop := hearlier.le_high t ht
    have hstart := hlater.low_le s hs
    omega
  · intro s hs
    rcases List.mem_append.mp hs with hs | hs
    · exact Nat.le_trans hlow (hlater.low_le s hs)
    · exact hearlier.low_le s hs
  · intro s hs
    rcases List.mem_append.mp hs with hs | hs
    · exact hlater.le_high s hs
    · exact Nat.le_trans (hearlier.le_high s hs) hhigh

theorem CommentsIn.mono {whole : List Char} {low high high' : Nat} {comments : List Span}
    (h : CommentsIn whole low high comments) (hhigh : high ≤ high') :
    CommentsIn whole low high' comments :=
  ⟨h.sound, h.apart, h.ordered, h.low_le, fun s hs => Nat.le_trans (h.le_high s hs) hhigh⟩

/-- Where the reader is while it passes a gap: inside of a comment, it has passed the comment's text
from the start on.  Where a line has started, no dash stands in front of one. -/
def GapState.Stands (whole : List Char) (newline : Bool) (cur : Cursor) : GapState → Prop
  | .between => cur.At whole ∧ cur.PairedIn whole ∧ (newline = true → cur.DashFree whole)
  | .lineComment start => ∃ (a : Cursor) (body : List Char), a.At whole ∧ a.offset = start ∧
      a.Passes body cur ∧ a.PairedIn whole ∧ '\n' ∉ body ∧ ∃ sign ∈ lineCommentSigns,
        sign <+: body ∧ (sign = ['-', '-', '>'] → a.DashFree whole)
  | .blockComment start => ∃ (a : Cursor) (inner : List Char), a.At whole ∧ a.offset = start ∧
      a.Passes (['/', '*'] ++ inner) cur ∧ a.PairedIn whole

/-- The offset up to which a gap has been passed for good: a comment under way counts as a whole. -/
def GapState.settled (offset : Nat) : GapState → Nat
  | .between => offset
  | .lineComment start => start
  | .blockComment start => start

/-- What is found at the end of a gap. -/
structure Gap.Sound (whole : List Char) (low : Nat) (gap : Gap) : Prop where
  stands : gap.cursor.At whole
  paired : gap.cursor.PairedIn whole
  low_le : low ≤ gap.cursor.offset
  lexeme : ∀ c ∈ gap.cursor.rest.head?, Text.isSeparator c = false
  comments : CommentsIn whole low gap.cursor.offset gap.comments

private theorem isSeparator_eq_false {c : Char} (hline : ¬ Text.isLineTerminator c = true)
    (hblank : ¬ Text.isInlineBlank c = true) : Text.isSeparator c = false := by
  have hcode : ∀ {a : Char}, c = a ↔ c.toNat = a.toNat := by
    intro a
    exact ⟨fun h => by rw [h], fun h => Char.toNat_inj.mp h⟩
  simp only [Text.isLineTerminator, Bool.or_eq_true, beq_iff_eq, hcode, not_or] at hline
  simp only [Text.isInlineBlank, Text.inRanges, Text.inlineBlankRanges, List.any_cons, List.any_nil,
    Bool.or_eq_true, Bool.and_eq_true, decide_eq_true_eq, not_or, not_and, Bool.or_false] at hblank
  rw [Bool.eq_false_iff]
  simp only [Text.isSeparator, Text.isWhiteSpace, Text.inRanges, Text.whiteSpaceRanges, List.any_cons,
    List.any_nil, Bool.or_eq_true, Bool.and_eq_true, decide_eq_true_eq, Bool.or_false, beq_iff_eq,
    Text.byteOrderMark, ne_eq, hcode]
  change ¬ (_ ∨ c.toNat = 65279)
  change ((¬ c.toNat = 10 ∧ ¬ c.toNat = 13) ∧ ¬ c.toNat = 8232) ∧ ¬ c.toNat = 8233 at hline
  omega

private theorem CommentsIn.cons {whole text : List Char} {low : Nat} {comments : List Span}
    {a b : Cursor} (h : CommentsIn whole low a.offset comments) (ha : a.At whole)
    (hpasses : a.Passes text b) (hlow : low ≤ a.offset) (htext : IsCommentText text)
    (hapart : ∀ before, whole = before ++ a.rest → StandsApart before text b.rest) :
    CommentsIn whole low b.offset (⟨a.offset, b.offset⟩ :: comments) := by
  have hsound : CommentsIn whole a.offset b.offset [⟨a.offset, b.offset⟩] := by
    obtain ⟨before, hwhole, hoffset⟩ := ha
    refine ⟨by simpa using ⟨text, hpasses.slice ⟨before, hwhole, hoffset⟩, htext⟩, ?_, by simp, by simp,
      by simp⟩
    simp only [List.mem_singleton, forall_eq]
    refine ⟨before, text, b.rest, by rw [hwhole, hpasses.rest_eq], hoffset, ?_, hapart before hwhole⟩
    rw [Text.byteLength_append, hoffset, hpasses.offset_eq]
  exact hsound.append h (Nat.le_refl _) hlow hpasses.offset_le

private theorem Cursor.Passes.concat {a : Cursor} {text rest : List Char} {c : Char} {offset : Nat}
    (h : a.Passes text ⟨c :: rest, offset⟩) :
    a.Passes (text ++ [c]) ⟨rest, offset + c.utf8Size⟩ :=
  h.trans ((Cursor.Passes.refl _).cons offset rfl)

/-- Behind a character that is neither an angle nor a dash the reader is between comments. -/
private theorem GapState.stands_between {whole text : List Char} {c : Char} {a b : Cursor}
    (ha : a.At whole) (hpasses : a.Passes (text ++ [c]) b) (hangle : c ≠ '<') (hdash : c ≠ '-')
    (newline : Bool) : GapState.Stands whole newline b .between := by
  refine ⟨hpasses.at ha, fun pre hpre => ?_, fun _ pre hpre _ hend => ?_⟩
  · obtain ⟨front, -, rfl⟩ := hpasses.before_eq ha hpre
    intro _
    rw [← List.append_assoc, Text.anglesAtEnd_concat, if_neg hangle]
  · obtain ⟨front, -, rfl⟩ := hpasses.before_eq ha hpre
    rw [← List.append_assoc, List.getLast?_concat] at hend
    exact hdash (Option.some.inj hend)

private theorem ne_of_isLineTerminator {c : Char} (h : Text.isLineTerminator c = true) :
    c ≠ '<' ∧ c ≠ '-' := by
  constructor <;> rintro rfl <;> exact absurd h (by decide)

private theorem ne_of_isInlineBlank {c : Char} (h : Text.isInlineBlank c = true) :
    c ≠ '<' ∧ c ≠ '-' := by
  constructor <;> rintro rfl <;> exact absurd h (by decide)

/-- Passing one separator. -/
private theorem GapState.Stands.tail {whole rest : List Char} {c : Char} {offset : Nat}
    {newline : Bool} (h : GapState.Stands whole newline ⟨c :: rest, offset⟩ .between)
    (hc : c ≠ '<' ∧ c ≠ '-') (newline' : Bool) :
    GapState.Stands whole newline' ⟨rest, offset + c.utf8Size⟩ .between :=
  stands_between h.1 (show Cursor.Passes _ ([] ++ [c]) _ from (Cursor.Passes.refl _).concat) hc.1 hc.2
    newline'

/-- A line comment that starts here. -/
private theorem GapState.stands_lineComment {whole rest : List Char} {offset next : Nat}
    {newline : Bool} (sign : List Char)
    (h : GapState.Stands whole newline ⟨sign ++ rest, offset⟩ .between)
    (hsign : sign ∈ lineCommentSigns) (hnext : next = offset + Text.byteLength sign)
    (harrow : sign = ['-', '-', '>'] → newline = true) (newline' : Bool) :
    (GapState.lineComment offset).Stands whole newline' ⟨rest, next⟩ := by
  have hplain : ∀ sign ∈ lineCommentSigns, '\n' ∉ sign := by decide
  obtain ⟨hat, hpaired, hdash⟩ := h
  exact ⟨_, sign, hat, rfl, ⟨rfl, hnext⟩, hpaired, hplain sign hsign, sign, hsign,
    List.prefix_refl sign, fun hsame => hdash (harrow hsame)⟩

/-- A line comment that ends here stands apart. -/
private theorem standsApart_line {whole body sign : List Char} {a cur : Cursor}
    (hpasses : a.Passes body cur) (hpaired : a.PairedIn whole) (hsign : sign ∈ lineCommentSigns)
    (hfront : sign <+: body) (hdash : sign = ['-', '-', '>'] → a.DashFree whole)
    (hends : ∀ c ∈ cur.rest.head?, Text.isLineTerminator c = true) (before : List Char)
    (hbefore : whole = before ++ a.rest) : StandsApart before body cur.rest := by
  have hsigns : ∀ sign ∈ lineCommentSigns, sign = ['-', '-', '>'] ∨
      (sign.head?.any (· != '-')) = true := by decide
  refine ⟨hpasses.rest_eq ▸ hpaired before hbefore, fun harrow => ?_, Or.inr hends⟩
  obtain ⟨rest, rfl⟩ := harrow
  rcases hsigns sign hsign with rfl | hother
  · refine hdash rfl before hbefore ?_
    rw [hpasses.rest_eq]
    rfl
  · obtain ⟨c, hc, hne⟩ := (Option.any_eq_true _ _).mp hother
    obtain ⟨more, rfl⟩ := List.head?_eq_some_iff.mp hc
    exact absurd (List.cons_prefix_cons.mp hfront).1 (bne_iff_ne.mp hne)

/-- Passing a gap leads to the next lexeme or the end of the text, and finds its comments. -/
theorem passGap_sound {whole : List Char} {low : Nat} {script : Bool} {state : GapState}
    {newline : Bool} {comments : List Span} {offset : Nat} {rest : List Char} {gap : Gap}
    (h : passGap script state newline comments offset rest = some gap)
    (hstands : state.Stands whole newline ⟨rest, offset⟩) (hlow : low ≤ state.settled offset)
    (hcomments : CommentsIn whole low (state.settled offset) comments) :
    gap.Sound whole low := by
  have found : ∀ {newline : Bool} {comments : List Span} {offset : Nat} {rest : List Char},
      some (⟨⟨rest, offset⟩, newline, comments⟩ : Gap) = some gap → Cursor.At whole ⟨rest, offset⟩ →
      Cursor.PairedIn whole ⟨rest, offset⟩ → low ≤ offset → CommentsIn whole low offset comments →
      (∀ c ∈ rest.head?, Text.isSeparator c = false) → gap.Sound whole low := by
    intro _ _ _ _ heq hat hpaired hlow hcomments hhead
    obtain rfl := Option.some.inj heq
    exact ⟨hat, hpaired, hlow, hhead, hcomments⟩
  fun_induction passGap script state newline comments offset rest with
  | case1 newline comments offset => exact found h hstands.1 hstands.2.1 hlow hcomments (by simp)
  | case2 start newline comments offset =>
    obtain ⟨a, body, ha, rfl, hpasses, hpaired, hplain, sign, hsign, hfront, hdash⟩ := hstands
    exact found h (hpasses.at ha) (fun _ _ hnext => by simp at hnext)
      (Nat.le_trans hlow hpasses.offset_le)
      (hcomments.cons ha hpasses hlow (Or.inr ⟨hplain, sign, hsign, hfront⟩)
        (standsApart_line hpasses hpaired hsign hfront hdash (by simp))) (by simp)
  | case3 => simp at h
  | case4 start newline comments offset c rest hline ih =>
    obtain ⟨a, body, ha, rfl, hpasses, hpaired, hplain, sign, hsign, hfront, hdash⟩ := hstands
    obtain ⟨hangle, hminus⟩ := ne_of_isLineTerminator hline
    refine ih h (GapState.stands_between ha hpasses.concat hangle hminus true) ?_ ?_
    · exact Nat.le_trans hlow (Nat.le_trans hpasses.offset_le (Nat.le_add_right _ _))
    · exact (hcomments.cons ha hpasses hlow (Or.inr ⟨hplain, sign, hsign, hfront⟩)
        (standsApart_line hpasses hpaired hsign hfront hdash (by simpa using hline))).mono
          (Nat.le_add_right _ _)
  | case5 start newline comments offset c rest hline ih =>
    obtain ⟨a, body, ha, rfl, hpasses, hpaired, hplain, sign, hsign, hfront, hdash⟩ := hstands
    have hc : c ≠ '\n' := by
      rintro rfl
      exact hline rfl
    refine ih h ⟨a, body ++ [c], ha, rfl, hpasses.concat, hpaired, ?_, sign, hsign, ?_, hdash⟩ hlow
      hcomments
    · simp [hplain, hc.symm]
    · exact hfront.trans (List.prefix_append body [c])
  | case6 start newline comments offset rest ih =>
    obtain ⟨a, inner, ha, rfl, hpasses, hpaired⟩ := hstands
    have hclosed : a.Passes (['/', '*'] ++ inner ++ ['*'] ++ ['/']) ⟨rest, offset + 2⟩ :=
      hpasses.concat.concat
    refine ih h (GapState.stands_between ha hclosed (by decide) (by decide) _)
      (Nat.le_trans hlow hclosed.offset_le) ?_
    have htext : ['/', '*'] ++ inner ++ ['*'] ++ ['/'] = ['/', '*'] ++ inner ++ ['*', '/'] := by simp
    rw [htext] at hclosed
    refine hcomments.cons ha hclosed hlow (Or.inl ⟨inner, rfl⟩) fun before hbefore => ?_
    refine ⟨hclosed.rest_eq ▸ hpaired before hbefore, fun harrow => ?_, Or.inl (by simp)⟩
    simp at harrow
  | case7 start newline comments offset c rest _ ih =>
    obtain ⟨a, inner, ha, rfl, hpasses, hpaired⟩ := hstands
    exact ih h ⟨a, inner ++ [c], ha, rfl, by simpa using hpasses.concat, hpaired⟩ hlow hcomments
  | case8 newline comments offset c rest hline ih =>
    exact ih h (hstands.tail (ne_of_isLineTerminator hline) true)
      (Nat.le_trans hlow (Nat.le_add_right _ _)) (hcomments.mono (Nat.le_add_right _ _))
  | case9 newline comments offset c rest _ hblank ih =>
    exact ih h (hstands.tail (ne_of_isInlineBlank hblank) newline)
      (Nat.le_trans hlow (Nat.le_add_right _ _)) (hcomments.mono (Nat.le_add_right _ _))
  | case10 newline comments offset rest _ _ ih =>
    exact ih h (GapState.stands_lineComment ['/', '/'] hstands (by decide) rfl (by simp) newline) hlow
      hcomments
  | case11 newline comments offset rest _ _ ih =>
    exact ih h ⟨_, [], hstands.1, rfl, ⟨rfl, rfl⟩, hstands.2.1⟩ hlow hcomments
  | case12 newline comments offset rest _ _ _ ih =>
    exact ih h (GapState.stands_lineComment ['<', '!', '-', '-'] hstands (by decide) rfl (by simp)
      newline) hlow hcomments
  | case13 newline comments offset rest _ hline hblank =>
    exact found h hstands.1 hstands.2.1 hlow hcomments (by simpa using isSeparator_eq_false hline hblank)
  | case14 newline comments offset rest hstarts _ _ ih =>
    exact ih h (GapState.stands_lineComment ['-', '-', '>'] hstands (by decide) rfl
      (fun _ => (Bool.and_eq_true_iff.mp hstarts).2) newline) hlow hcomments
  | case15 newline comments offset rest _ hline hblank =>
    exact found h hstands.1 hstands.2.1 hlow hcomments (by simpa using isSeparator_eq_false hline hblank)
  | case16 newline comments offset c rest _ _ _ _ hline hblank =>
    exact found h hstands.1 hstands.2.1 hlow hcomments (by simpa using isSeparator_eq_false hline hblank)

/-! ### States -/

/-- Whether the reader may be in a state while it reads the text. -/
structure ReadState.Sound (whole : List Char) (s : ReadState) : Prop where
  stands : s.here.At whole
  paired : s.here.PairedIn whole
  passes : ∃ text, s.here.Passes text s.after ∧ (s.lexeme.isLiteral = true → Text.Firm text) ∧
    Text.KeepsPairs text s.after.rest
  lexeme : ∀ c ∈ s.here.rest.head?, Text.isSeparator c = false
  previous_le : s.previousStop ≤ s.here.offset
  comments : CommentsIn whole 0 s.here.offset s.comments
  parted : ∀ c ∈ s.comments, c.stop ≤ s.previousStop ∨ s.previousStop ≤ c.start
  nodes : ∀ e ∈ ParseNode.eventsAll s.nodes, e.Sound whole
  clear : ∀ e ∈ ParseNode.eventsAll s.nodes, e.Clear s.previousStop s.comments

/-- One state is reached from another: nothing goes back, and the comments found meanwhile lie behind the
start of the lexeme from which it was reached. -/
structure ReadState.Before (s t : ReadState) : Prop where
  previous_le : s.previousStop ≤ t.previousStop
  here_le : s.here.offset ≤ t.here.offset
  comments : ∀ c ∈ t.comments, c ∈ s.comments ∨ s.here.offset ≤ c.start

namespace ReadState.Before

theorem refl (s : ReadState) : s.Before s :=
  ⟨Nat.le_refl _, Nat.le_refl _, fun _ hc => Or.inl hc⟩

theorem trans {s t u : ReadState} (hst : s.Before t) (htu : t.Before u) : s.Before u := by
  refine ⟨Nat.le_trans hst.previous_le htu.previous_le, Nat.le_trans hst.here_le htu.here_le, ?_⟩
  intro c hc
  rcases htu.comments c hc with hc | hlater
  · exact hst.comments c hc
  · exact Or.inr (Nat.le_trans hst.here_le hlater)

end ReadState.Before

namespace Reader

theorem readFrom_sound {whole : List Char} {s t : ReadState} {lineStart : Bool} {cur : Cursor}
    (h : readFrom s lineStart cur = some t) (hcur : GapState.Stands whole lineStart cur .between)
    (hprevious : s.previousStop ≤ cur.offset) (hcomments : CommentsIn whole 0 cur.offset s.comments)
    (hparted : ∀ c ∈ s.comments, c.stop ≤ s.previousStop)
    (hnodes : ∀ e ∈ ParseNode.eventsAll s.nodes, e.Sound whole)
    (hclear : ∀ e ∈ ParseNode.eventsAll s.nodes, e.Clear s.previousStop s.comments) :
    t.Sound whole ∧ t.previousStop = s.previousStop ∧ t.nodes = s.nodes ∧
      cur.offset ≤ t.here.offset ∧ ∀ c ∈ t.comments, c ∈ s.comments ∨ cur.offset ≤ c.start := by
  unfold readFrom at h
  split at h
  · simp at h
  · rename_i gap hgap
    have hsound := passGap_sound hgap hcur (Nat.le_refl _) (.nil whole _ _)
    split at h
    · simp at h
    · rename_i lexeme after hlexeme
      obtain rfl := Option.some.inj h
      have hfound : ∀ c ∈ gap.comments ++ s.comments, c ∈ s.comments ∨ cur.offset ≤ c.start := by
        intro c hc
        rcases List.mem_append.mp hc with hc | hc
        · exact Or.inr (hsound.comments.low_le c hc)
        · exact Or.inl hc
      refine ⟨⟨hsound.stands, hsound.paired, Cursor.lexeme?_passes hlexeme, hsound.lexeme,
        Nat.le_trans hprevious hsound.low_le, ?_, fun c hc => ?_, hnodes, fun e he => ?_⟩, rfl, rfl,
        hsound.low_le, hfound⟩
      · exact hsound.comments.append hcomments (Nat.le_refl _) (Nat.zero_le _) hsound.low_le
      · exact (hfound c hc).imp (hparted c) (Nat.le_trans hprevious)
      · exact (hclear e he).mono (Nat.le_refl _) fun c hc =>
          (hfound c hc).imp_right (Nat.le_trans hprevious)

/-- Moving on keeps the state sound; what is found on the way lies behind the lexeme that was left. -/
theorem advance_sound {whole : List Char} {s t : ReadState} {u : Unit} (hs : s.Sound whole)
    (h : advance s = some (u, t)) : t.Sound whole ∧ t.previousStop = s.after.offset ∧
      t.nodes = s.nodes ∧ s.Before t ∧ ∀ c ∈ t.comments, c ∈ s.comments ∨ s.after.offset ≤ c.start := by
  obtain ⟨t', ht', hpair⟩ := Option.map_eq_some_iff.mp h
  obtain ⟨-, rfl⟩ := Prod.mk.inj hpair
  obtain ⟨text, hpasses, -, hkeeps⟩ := hs.passes
  have hle : s.here.offset ≤ s.after.offset := hpasses.offset_le
  have hbehind : s.previousStop ≤ s.after.offset := Nat.le_trans hs.previous_le hle
  obtain ⟨hsound, hstop, hnodes, hlow, hfound⟩ := readFrom_sound ht'
    ⟨hpasses.at hs.stands, hpasses.pairedIn hs.stands hs.paired hkeeps, by simp⟩ (Nat.le_refl _)
    (hs.comments.mono hle) (fun c hc => Nat.le_trans (hs.comments.le_high c hc) hle) hs.nodes
    fun e he => (hs.clear e he).mono hbehind fun c hc => Or.inl hc
  refine ⟨hsound, hstop, hnodes, ⟨hstop ▸ hbehind, Nat.le_trans hle hlow, fun c hc => ?_⟩, hfound⟩
  exact (hfound c hc).imp_right (Nat.le_trans hle)

end Reader

end Grammar

end ClosureReady
