import ClosureReady.Source
import Mathlib.Tactic.Linarith

/-!
Where tokens stand.  The place of an offset that ends a stretch of the text is one line more than the
line feeds of the stretch, and the column counts the characters after the last of them; so places
ascend with their offsets.  A stream is `Placed` in a text when its tokens stand where their spans say,
in the order of their starts.
-/

set_option autoImplicit false
set_option relaxedAutoImplicit false

namespace ClosureReady

namespace Text

theorem byteLength_append (xs ys : List Char) :
    byteLength (xs ++ ys) = byteLength xs + byteLength ys := by
  induction xs with
  | nil => simp [byteLength]
  | cons c xs ih => simp [byteLength, ih, Nat.add_assoc]

/-- The column after some characters, when they start at the given column. -/
def columnFrom : Nat → List Char → Nat
  | column, [] => column
  | column, c :: cs => if c = '\n' then columnFrom 0 cs else columnFrom (column + 1) cs

theorem columnFrom_append (column : Nat) (xs ys : List Char) :
    columnFrom column (xs ++ ys) = columnFrom (columnFrom column xs) ys := by
  induction xs generalizing column with
  | nil => rfl
  | cons c xs ih =>
    simp only [List.cons_append, columnFrom]
    split <;> exact ih _

theorem columnFrom_of_not_mem {xs : List Char} (h : '\n' ∉ xs) (column : Nat) :
    columnFrom column xs = column + xs.length := by
  induction xs generalizing column with
  | nil => rfl
  | cons c xs ih =>
    have hc : c ≠ '\n' := fun hc => h (hc ▸ List.mem_cons_self)
    have hxs : '\n' ∉ xs := fun hxs => h (List.mem_cons_of_mem c hxs)
    simp only [columnFrom, if_neg hc, ih hxs, List.length_cons]
    omega

theorem columnFrom_of_mem {xs : List Char} (h : '\n' ∈ xs) (column : Nat) :
    columnFrom column xs = columnFrom 0 xs := by
  induction xs generalizing column with
  | nil => simp at h
  | cons c xs ih =>
    by_cases hc : c = '\n'
    · simp [columnFrom, hc]
    · have hxs : '\n' ∈ xs := by
        rcases List.mem_cons.mp h with heq | hxs
        · exact absurd heq.symm hc
        · exact hxs
      simp only [columnFrom, if_neg hc]
      rw [ih hxs, ih hxs (0 + 1)]

private theorem splitLines_cases (xs : List Char) :
    ∃ line lines, splitLines xs = line :: lines ∧ (lines ≠ [] → 0 < byteLength line) := by
  induction xs with
  | nil => exact ⟨[], [], rfl, fun h => absurd rfl h⟩
  | cons c xs ih =>
    obtain ⟨line, lines, hsplit, -⟩ := ih
    by_cases hc : c = '\n'
    · refine ⟨[c], splitLines xs, by simp [splitLines, hc], fun _ => ?_⟩
      simp [byteLength, Char.utf8Size_pos]
    · refine ⟨c :: line, lines, by simp [splitLines, hc, hsplit], fun _ => ?_⟩
      have := c.utf8Size_pos
      simp only [byteLength]
      omega

@[simp] private theorem charactersBefore_zero (xs : List Char) : charactersBefore xs 0 = some 0 := by
  cases xs <;> simp [charactersBefore]

private theorem charactersBefore_cons (c : Char) (xs : List Char) (offset : Nat) :
    charactersBefore (c :: xs) (c.utf8Size + offset) = (charactersBefore xs offset).map (· + 1) := by
  have hsize := c.utf8Size_pos
  rw [charactersBefore, if_neg (by omega), if_pos (Nat.le_add_right _ _), Nat.add_sub_cancel_left]

/-- The lines that start at or before an offset, and the column the offset has in the last of
them. -/
private theorem reached_lines (base : Nat) (pre post : List Char) :
    ∃ line : Line, ∃ earlier : List Line,
      (placeLines base (splitLines (pre ++ post))).takeWhile
          (fun line => decide (line.start ≤ base + byteLength pre)) = earlier ++ [line] ∧
        earlier.length = pre.count '\n' ∧ line.start ≤ base + byteLength pre ∧
        charactersBefore line.text (base + byteLength pre - line.start) =
          some (columnFrom 0 pre) := by
  induction pre generalizing base with
  | nil =>
    obtain ⟨line, lines, hsplit, hlong⟩ := splitLines_cases post
    refine ⟨⟨base, line⟩, [], ?_, rfl, by simp [byteLength], by simp [byteLength, columnFrom]⟩
    rw [List.nil_append, hsplit]
    cases lines with
    | nil => simp [placeLines, byteLength]
    | cons next lines =>
      have := hlong (by simp)
      have hnext : ¬ base + byteLength line ≤ base := by omega
      simp [placeLines, byteLength, hnext]
  | cons c pre ih =>
    obtain ⟨line, earlier, hreached, hcount, hstart, hcolumn⟩ := ih (base + c.utf8Size)
    have hbound : base + byteLength (c :: pre) = base + c.utf8Size + byteLength pre := by
      simp only [byteLength]
      omega
    rw [hbound]
    by_cases hc : c = '\n'
    · subst hc
      refine ⟨line, ⟨base, ['\n']⟩ :: earlier, ?_, by simp [hcount], hstart, ?_⟩
      · have hfirst : base ≤ base + '\n'.utf8Size + byteLength pre := by omega
        simp only [List.cons_append, splitLines, if_true, placeLines, List.takeWhile_cons, hfirst,
          decide_true, byteLength, Nat.add_zero, hreached]
      · simpa [columnFrom] using hcolumn
    · -- The first line of the rest gets one character in front; the later ones stay.
      obtain ⟨l, ls, hsplit, -⟩ := splitLines_cases (pre ++ post)
      have hwhole : splitLines (c :: pre ++ post) = (c :: l) :: ls := by
        simp [splitLines, hc, hsplit]
      have hfirst : base ≤ base + c.utf8Size + byteLength pre := by omega
      have hfirst' : base + c.utf8Size ≤ base + c.utf8Size + byteLength pre := by omega
      rw [hwhole]
      simp only [hsplit, placeLines, List.takeWhile_cons, hfirst', decide_true, if_true] at hreached
      simp only [placeLines, List.takeWhile_cons, hfirst, decide_true, if_true]
      rw [show base + byteLength (c :: l) = base + c.utf8Size + byteLength l by
        simp only [byteLength]; omega]
      cases earlier with
      | nil =>
        obtain ⟨rfl, htail⟩ := List.cons.inj hreached
        have hnot : '\n' ∉ pre := by
          intro hmem
          have := List.count_pos_iff.mpr hmem
          simp only [List.length_nil] at hcount
          omega
        refine ⟨⟨base, c :: l⟩, [], by rw [htail]; rfl, ?_, hfirst, ?_⟩
        · simpa [List.count_cons, hc] using hcount
        · have hoffset : base + c.utf8Size + byteLength pre - base = c.utf8Size + byteLength pre := by
            omega
          rw [Nat.add_sub_cancel_left] at hcolumn
          rw [hoffset, charactersBefore_cons, hcolumn]
          simp only [columnFrom, if_neg hc, columnFrom_of_not_mem hnot, Option.map_some]
          congr 1
          omega
      | cons first earlier =>
        obtain ⟨rfl, htail⟩ := List.cons.inj hreached
        have hmem : '\n' ∈ pre := by
          apply List.count_pos_iff.mp
          simp only [List.length_cons] at hcount
          omega
        refine ⟨line, ⟨base, c :: l⟩ :: earlier, by rw [htail]; rfl, ?_, hstart, ?_⟩
        · simpa [List.count_cons, hc] using hcount
        · simp only [columnFrom, if_neg hc]
          rw [columnFrom_of_mem hmem]
          exact hcolumn

end Text

/-- The place of the end of a stretch at the front of a text. -/
theorem LineIndex.position_byteLength (pre post : List Char) :
    (LineIndex.ofChars (pre ++ post)).position (Text.byteLength pre) =
      ⟨pre.count '\n' + 1, Text.columnFrom 0 pre⟩ := by
  obtain ⟨line, earlier, hreached, hcount, hstart, hcolumn⟩ := Text.reached_lines 0 pre post
  simp only [Nat.zero_add] at hreached hstart hcolumn
  have hsize : min (Text.byteLength pre) (Text.byteLength (pre ++ post)) = Text.byteLength pre := by
    rw [Text.byteLength_append]
    omega
  simp only [LineIndex.position, LineIndex.ofChars, hreached, List.getLast?_append, hsize]
  simp [hcount, hcolumn]

theorem LineIndex.position_line_pos (index : LineIndex) (offset : Nat) :
    0 < (index.position offset).line := by
  unfold LineIndex.position
  dsimp only
  split
  · exact Nat.one_pos
  · rename_i line hlast
    refine List.length_pos_iff.mpr fun hnil => ?_
    simp [hnil] at hlast

theorem LineIndex.position_line_eq (pre : List Char) {mid : List Char} (post : List Char)
    (h : '\n' ∉ mid) :
    ((ofChars (pre ++ (mid ++ post))).position (Text.byteLength pre)).line =
      ((ofChars (pre ++ (mid ++ post))).position (Text.byteLength (pre ++ mid))).line := by
  have hstop := position_byteLength (pre ++ mid) post
  rw [List.append_assoc] at hstop
  rw [position_byteLength, hstop, List.count_append, List.count_eq_zero.mpr h]

/-- An offset at which a character of the text starts, or the text ends. -/
def Text.IsBoundary (text : List Char) (offset : Nat) : Prop :=
  ∃ pre post, text = pre ++ post ∧ byteLength pre = offset

theorem Text.IsBoundary.between {text : List Char} {a b : Nat} (ha : IsBoundary text a)
    (hb : IsBoundary text b) (hab : a ≤ b) :
    ∃ pre mid post, text = pre ++ mid ++ post ∧ byteLength pre = a ∧ byteLength (pre ++ mid) = b := by
  obtain ⟨pre, post, rfl, rfl⟩ := ha
  obtain ⟨pre', post', heq, rfl⟩ := hb
  rcases List.append_eq_append_iff.mp heq with ⟨mid, rfl, rfl⟩ | ⟨mid, rfl, rfl⟩
  · exact ⟨pre, mid, post', by simp, rfl, rfl⟩
  · have hnil : mid = [] := by
      cases mid with
      | nil => rfl
      | cons c mid =>
        have := c.utf8Size_pos
        rw [byteLength_append] at hab
        simp only [byteLength] at hab
        omega
    subst hnil
    exact ⟨pre', [], post, by simp, by simp, by simp⟩

/-- Places ascend with their offsets: a later offset is on a later line, or further right on the same
one by the number of characters between. -/
theorem LineIndex.position_le {text : List Char} {a b : Nat} (ha : Text.IsBoundary text a)
    (hb : Text.IsBoundary text b) (hab : a ≤ b) :
    ((ofChars text).position a).line ≤ ((ofChars text).position b).line ∧
      (((ofChars text).position a).line = ((ofChars text).position b).line →
        ((ofChars text).position a).column ≤ ((ofChars text).position b).column) := by
  obtain ⟨pre, mid, post, rfl, rfl, rfl⟩ := ha.between hb hab
  have hstart := position_byteLength pre (mid ++ post)
  have hstop := position_byteLength (pre ++ mid) post
  rw [← List.append_assoc] at hstart
  rw [hstart, hstop]
  simp only [List.count_append]
  refine ⟨by omega, fun hline => ?_⟩
  have hmid : '\n' ∉ mid := by
    intro hmem
    have := List.count_pos_iff.mpr hmem
    omega
  rw [Text.columnFrom_append, Text.columnFrom_of_not_mem hmid]
  omega

theorem LineIndex.position_column_lt {text : List Char} {a b : Nat} (ha : Text.IsBoundary text a)
    (hb : Text.IsBoundary text b) (hab : a < b)
    (hline : ((ofChars text).position a).line = ((ofChars text).position b).line) :
    ((ofChars text).position a).column < ((ofChars text).position b).column := by
  obtain ⟨pre, mid, post, rfl, rfl, rfl⟩ := ha.between hb hab.le
  have hstart := position_byteLength pre (mid ++ post)
  have hstop := position_byteLength (pre ++ mid) post
  rw [← List.append_assoc] at hstart
  rw [hstart, hstop] at hline ⊢
  simp only [List.count_append] at hline
  have hplain : '\n' ∉ mid := List.count_eq_zero.mp (by omega)
  have hlong : 0 < mid.length := by
    refine List.length_pos_iff.mpr ?_
    rintro rfl
    simp at hab
  rw [Text.columnFrom_append, Text.columnFrom_of_not_mem hplain]
  exact Nat.lt_add_of_pos_right hlong

/-- What is promised of a stream that was prepared from a text: tokens have numbers of their own, they
stand where their spans say, in the order of their starts, no keyword is a name, and names and
punctuators do not reach over the end of a line. -/
structure TokenStream.Placed (text : List Char) (s : TokenStream) : Prop where
  ids_nodup : (s.map Token.id).Nodup
  region_eq : ∀ t ∈ s, t.region = (LineIndex.ofChars text).region t.span
  start_boundary : ∀ t ∈ s, Text.IsBoundary text t.span.start
  stop_boundary : ∀ t ∈ s, Text.IsBoundary text t.span.stop
  start_le_stop : ∀ t ∈ s, t.span.start ≤ t.span.stop
  ordered : s.Pairwise fun t u => t.span.start ≤ u.span.start
  names : ∀ t ∈ s, t.kind = .identifier → t.value ∉ keywords
  single : ∀ t ∈ s, t.kind = .identifier ∨ t.kind = .punctuator → t.isSingleLine = true

namespace TokenStream.Placed

variable {text : List Char} {s : TokenStream}

theorem line_pos (h : s.Placed text) {t : Token} (ht : t ∈ s) : 0 < t.line := by
  unfold Token.line
  rw [h.region_eq t ht]
  exact LineIndex.position_line_pos _ _

private theorem position_start (h : s.Placed text) {t : Token} (ht : t ∈ s) :
    (LineIndex.ofChars text).position t.span.start = t.region.start := by
  rw [h.region_eq t ht]
  rfl

private theorem position_stop (h : s.Placed text) {t : Token} (ht : t ∈ s) :
    (LineIndex.ofChars text).position t.span.stop = t.region.stop := by
  rw [h.region_eq t ht]
  rfl

theorem lines_ordered (h : s.Placed text) : s.Pairwise fun t u => t.line ≤ u.line := by
  refine h.ordered.imp_of_mem fun {t u} ht hu hle => ?_
  have hplace := LineIndex.position_le (h.start_boundary t ht) (h.start_boundary u hu) hle
  rw [h.position_start ht, h.position_start hu] at hplace
  exact hplace.1

theorem columns_ordered (h : s.Placed text) :
    s.Pairwise fun t u => t.line = u.line → t.column ≤ u.column := by
  refine h.ordered.imp_of_mem fun {t u} ht hu hle => ?_
  have hplace := LineIndex.position_le (h.start_boundary t ht) (h.start_boundary u hu) hle
  rw [h.position_start ht, h.position_start hu] at hplace
  exact hplace.2

theorem column_lt (h : s.Placed text) {t u : Token} (ht : t ∈ s) (hu : u ∈ s)
    (hlt : t.span.start < u.span.start) (hline : t.line = u.line) : t.column < u.column := by
  have hplace := LineIndex.position_column_lt (h.start_boundary t ht) (h.start_boundary u hu) hlt
  rw [h.position_start ht, h.position_start hu] at hplace
  exact hplace hline

theorem column_le_stop (h : s.Placed text) {t : Token} (ht : t ∈ s)
    (hline : t.isSingleLine = true) : t.column ≤ t.region.stop.column := by
  have hplace := LineIndex.position_le (h.start_boundary t ht) (h.stop_boundary t ht)
    (h.start_le_stop t ht)
  rw [h.position_start ht, h.position_stop ht] at hplace
  exact hplace.2 (by simpa [Token.isSingleLine] using hline)

theorem line_le_stop (h : s.Placed text) {t : Token} (ht : t ∈ s) : t.line ≤ t.region.stop.line := by
  have hplace := LineIndex.position_le (h.start_boundary t ht) (h.stop_boundary t ht)
    (h.start_le_stop t ht)
  rw [h.position_start ht, h.position_stop ht] at hplace
  exact hplace.1

theorem column_lt_stop (h : s.Placed text) {t : Token} (ht : t ∈ s)
    (hlt : t.span.start < t.span.stop) (hline : t.isSingleLine = true) :
    t.column < t.region.stop.column := by
  have hplace := LineIndex.position_column_lt (h.start_boundary t ht) (h.stop_boundary t ht) hlt
  rw [h.position_start ht, h.position_stop ht] at hplace
  exact hplace (by simpa [Token.isSingleLine] using hline)

/-- A token that starts, by its span, where another has ended starts on a later line or further
right. -/
theorem stop_le_column (h : s.Placed text) {t u : Token} (ht : t ∈ s) (hu : u ∈ s)
    (hle : t.span.stop ≤ u.span.start) :
    t.region.stop.line ≤ u.line ∧
      (t.region.stop.line = u.line → t.region.stop.column ≤ u.column) := by
  have hplace := LineIndex.position_le (h.stop_boundary t ht) (h.start_boundary u hu) hle
  rw [h.position_stop ht, h.position_start hu] at hplace
  exact hplace

end TokenStream.Placed

end ClosureReady
