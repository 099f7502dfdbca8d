import ClosureReady.Grammar.Lexeme
import ClosureReady.Proofs.Placement

/-!
The text of a lexeme.  Every reader of the grammar moves its cursor over a stretch of the text, and
counts its bytes.  The stretch of a number, a string, a regular expression or a piece of a template is
not empty and ends neither with a line feed nor with a `<`.  The only lexemes that end with a `<` are one
and two of them, and the longer one is taken where it can be; so in front of every lexeme that starts with
a `<` an even number of them stands.
-/

set_option autoImplicit false
set_option relaxedAutoImplicit false

namespace ClosureReady

/-- A stretch of text that is not empty and ends inside a line. -/
def Text.Solid (text : List Char) : Prop := text ≠ [] ∧ text.getLast? ≠ some '\n'

namespace Text.Solid

theorem append_left {ys : List Char} (h : Solid ys) (xs : List Char) : Solid (xs ++ ys) := by
  obtain ⟨ys, y, rfl⟩ := List.eq_nil_or_concat ys |>.resolve_left h.1
  refine ⟨by simp, ?_⟩
  simpa using h.2

theorem of_not_mem {text : List Char} (hne : text ≠ []) (h : '\n' ∉ text) : Solid text :=
  ⟨hne, fun hlast => h (List.mem_of_getLast? hlast)⟩

end Text.Solid

/-- A character that ends no line and is no half of a shift sign. -/
def Text.isInert (c : Char) : Bool := c != '\n' && c != '<'

/-- A class that holds neither of the two characters is one of inert characters. -/
theorem Text.isInert_of_class {p : Char → Bool} (hline : p '\n' = false) (hangle : p '<' = false)
    {c : Char} (h : p c = true) : isInert c = true := by
  unfold isInert
  simp only [Bool.and_eq_true, bne_iff_ne]
  constructor
  · rintro rfl
    simp [hline] at h
  · rintro rfl
    simp [hangle] at h

/-- A stretch of text that ends with an inert character. -/
def Text.Firm (text : List Char) : Prop := ∃ c ∈ text.getLast?, isInert c = true

namespace Text.Firm

theorem solid {text : List Char} (h : Firm text) : Solid text := by
  obtain ⟨c, hc, hinert⟩ := h
  refine ⟨?_, fun hline => ?_⟩
  · rintro rfl
    simp at hc
  · obtain rfl : c = '\n' := Option.some.inj (hc.symm.trans hline)
    exact absurd hinert (by decide)

theorem append_left {ys : List Char} (h : Firm ys) (xs : List Char) : Firm (xs ++ ys) := by
  obtain ⟨c, hc, hinert⟩ := h
  refine ⟨c, ?_, hinert⟩
  rw [List.getLast?_append, Option.mem_def.mp hc]
  rfl

theorem of_forall {text : List Char} (hne : text ≠ []) (h : ∀ c ∈ text, isInert c = true) :
    Firm text :=
  ⟨text.getLast hne, List.getLast?_eq_some_getLast hne, h _ (List.getLast_mem hne)⟩

theorem append_right {xs ys : List Char} (h : Firm xs) (hys : ∀ c ∈ ys, isInert c = true) :
    Firm (xs ++ ys) := by
  cases ys with
  | nil => simpa using h
  | cons y ys => exact (of_forall (by simp) hys).append_left xs

end Text.Firm

/-! ### Pairs of angles -/

namespace Text

/-- How many `<` a text ends with. -/
def anglesAtEnd (text : List Char) : Nat := (text.reverse.takeWhile (· == '<')).length

theorem anglesAtEnd_concat (text : List Char) (c : Char) :
    anglesAtEnd (text ++ [c]) = if c = '<' then anglesAtEnd text + 1 else 0 := by
  unfold anglesAtEnd
  rw [List.reverse_append, List.reverse_singleton, List.singleton_append, List.takeWhile_cons]
  by_cases hc : c = '<' <;> simp [hc]

/-- Where a `<` follows, those before it stand in pairs. -/
def Paired (before rest : List Char) : Prop := rest.head? = some '<' → anglesAtEnd before % 2 = 0

/-- A stretch of text behind which the angles stand in pairs if they do in front of it. -/
def KeepsPairs (text rest : List Char) : Prop :=
  ∀ before, Paired before (text ++ rest) → Paired (before ++ text) rest

namespace KeepsPairs

theorem nil (rest : List Char) : KeepsPairs [] rest := fun before h => by simpa using h

theorem of_last {text : List Char} {c : Char} (hlast : text.getLast? = some c) (hc : c ≠ '<')
    (rest : List Char) : KeepsPairs text rest := by
  obtain ⟨front, rfl⟩ := List.getLast?_eq_some_iff.mp hlast
  intro before _ _
  rw [← List.append_assoc, anglesAtEnd_concat, if_neg hc]

theorem of_firm {text : List Char} (h : Firm text) (rest : List Char) : KeepsPairs text rest := by
  obtain ⟨c, hc, hinert⟩ := h
  refine of_last hc ?_ rest
  rintro rfl
  exact absurd hinert (by decide)

theorem one {rest : List Char} (h : rest.head? ≠ some '<') : KeepsPairs ['<'] rest :=
  fun _ _ hnext => absurd hnext h

theorem two (rest : List Char) : KeepsPairs ['<', '<'] rest := by
  intro before h _
  have heven := h rfl
  rw [show before ++ ['<', '<'] = before ++ ['<'] ++ ['<'] by simp, anglesAtEnd_concat,
    anglesAtEnd_concat]
  simp only [if_true]
  omega

end KeepsPairs

end Text

namespace Grammar

/-- The second cursor stands behind the first, with the given text between them. -/
structure Cursor.Passes (a : Cursor) (text : List Char) (b : Cursor) : Prop where
  rest_eq : a.rest = text ++ b.rest
  offset_eq : b.offset = a.offset + Text.byteLength text

namespace Cursor.Passes

theorem refl (a : Cursor) : a.Passes [] a := ⟨rfl, rfl⟩

theorem trans {a b c : Cursor} {xs ys : List Char} (hab : a.Passes xs b) (hbc : b.Passes ys c) :
    a.Passes (xs ++ ys) c := by
  constructor
  · rw [hab.rest_eq, hbc.rest_eq, List.append_assoc]
  · rw [hbc.offset_eq, hab.offset_eq, Text.byteLength_append, Nat.add_assoc]

theorem offset_le {a b : Cursor} {text : List Char} (h : a.Passes text b) : a.offset ≤ b.offset := by
  rw [h.offset_eq]
  exact Nat.le_add_right _ _

theorem cons {c : Char} {rest : List Char} {next : Nat} {text : List Char} {b : Cursor}
    (h : Passes ⟨rest, next⟩ text b) (offset : Nat) (hnext : next = offset + c.utf8Size) :
    Passes ⟨c :: rest, offset⟩ (c :: text) b := by
  subst hnext
  exact ⟨congrArg (c :: ·) h.rest_eq, h.offset_eq.trans (Nat.add_assoc ..)⟩

end Cursor.Passes

theorem dropWhileFrom_passes (p : Char → Bool) (rest : List Char) (offset : Nat) :
    ∃ text, Cursor.Passes ⟨rest, offset⟩ text (dropWhileFrom p rest offset) ∧
      ∀ c ∈ text, p c = true := by
  induction rest generalizing offset with
  | nil => exact ⟨[], .refl _, by simp⟩
  | cons c rest ih =>
    unfold dropWhileFrom
    by_cases hc : p c = true
    · obtain ⟨text, hpasses, hall⟩ := ih (offset + c.utf8Size)
      rw [if_pos hc]
      exact ⟨c :: text, hpasses.cons offset rfl, List.forall_mem_cons.mpr ⟨hc, hall⟩⟩
    · rw [if_neg hc]
      exact ⟨[], .refl _, by simp⟩

/-! ### Numbers -/

/-- The second cursor stands behind the first, with inert characters between them. -/
def Cursor.Plain (a b : Cursor) : Prop :=
  ∃ text, a.Passes text b ∧ ∀ c ∈ text, Text.isInert c = true

namespace Cursor.Plain

theorem refl (a : Cursor) : a.Plain a := ⟨[], .refl a, by simp⟩

theorem trans {a b c : Cursor} (hab : a.Plain b) (hbc : b.Plain c) : a.Plain c := by
  obtain ⟨xs, hxs, hfirst⟩ := hab
  obtain ⟨ys, hys, hlast⟩ := hbc
  exact ⟨xs ++ ys, hxs.trans hys, List.forall_mem_append.mpr ⟨hfirst, hlast⟩⟩

theorem cons {c : Char} {rest : List Char} {next : Nat} {b : Cursor} (h : Plain ⟨rest, next⟩ b)
    (offset : Nat) (hc : Text.isInert c = true) (hnext : next = offset + c.utf8Size) :
    Plain ⟨c :: rest, offset⟩ b := by
  obtain ⟨text, hpasses, hplain⟩ := h
  exact ⟨c :: text, hpasses.cons offset hnext, List.forall_mem_cons.mpr ⟨hc, hplain⟩⟩

/-- The characters between two cursors, of which the first is known to be passed. -/
theorem firm_cons {c : Char} {rest : List Char} {offset : Nat} {b : Cursor}
    (h : Plain ⟨rest, offset + 1⟩ b) (hsize : c.utf8Size = 1) (hc : Text.isInert c = true) :
    ∃ text, Passes ⟨c :: rest, offset⟩ text b ∧ Text.Firm text := by
  obtain ⟨text, hpasses, hplain⟩ := h
  exact ⟨c :: text, hpasses.cons offset (by rw [hsize]),
    .of_forall (by simp) (List.forall_mem_cons.mpr ⟨hc, hplain⟩)⟩

end Cursor.Plain

/-- A class of inert characters that take one byte. -/
def IsPlainClass (p : Char → Bool) : Prop :=
  ∀ c, p c = true → c.utf8Size = 1 ∧ Text.isInert c = true

private theorem plain_of_range {c : Char} (hlow : 11 ≤ c.toNat) (hhigh : c.toNat < 128)
    (hangle : c.toNat ≠ 60) : c.utf8Size = 1 ∧ Text.isInert c = true := by
  constructor
  · rw [Char.utf8Size_eq_one_iff, UInt32.le_iff_toNat_le]
    exact Nat.le_of_lt_succ hhigh
  · unfold Text.isInert
    simp only [Bool.and_eq_true, bne_iff_ne]
    constructor
    · rintro rfl
      exact absurd hlow (by decide)
    · rintro rfl
      exact hangle rfl

private theorem toNat_range {a b c : Char} (hlow : a ≤ c) (hhigh : c ≤ b) :
    a.toNat ≤ c.toNat ∧ c.toNat ≤ b.toNat := by
  rw [Char.le_def, UInt32.le_iff_toNat_le] at hlow hhigh
  exact ⟨hlow, hhigh⟩

private theorem isPlainClass_range {a b : Char} (hlow : 11 ≤ a.toNat) (hhigh : b.toNat < 128)
    (hangle : b.toNat < 60 ∨ 60 < a.toNat) :
    IsPlainClass fun c => decide (a ≤ c) && decide (c ≤ b) := by
  intro c hc
  simp only [Bool.and_eq_true, decide_eq_true_eq] at hc
  have hrange := toNat_range hc.1 hc.2
  exact plain_of_range (by omega) (by omega) (by omega)

private theorem isPlainClass_isDigit : IsPlainClass Char.isDigit := by
  intro c hc
  refine isPlainClass_range (a := '0') (b := '9') (by decide) (by decide) (by decide) c ?_
  simpa [Char.isDigit, Char.le_def] using hc

private theorem isPlainClass_bit : IsPlainClass fun d => d == '0' || d == '1' := by
  intro c hc
  simp only [Bool.or_eq_true, beq_iff_eq] at hc
  rcases hc with rfl | rfl
  · exact ⟨rfl, by decide⟩
  · exact ⟨rfl, by decide⟩

private theorem isPlainClass_isHexDigit : IsPlainClass isHexDigit := by
  intro c hc
  unfold isHexDigit hexValue? at hc
  split at hc
  · rename_i hdigit
    exact isPlainClass_isDigit c hdigit
  · split at hc
    · rename_i hlower
      exact isPlainClass_range (a := 'a') (b := 'f') (by decide) (by decide) (by decide) c hlower
    · split at hc
      · rename_i hupper
        exact isPlainClass_range (a := 'A') (b := 'F') (by decide) (by decide) (by decide) c hupper
      · simp at hc

private theorem digitsFrom_plain {isDigit : Char → Bool} (hdigit : IsPlainClass isDigit)
    {rest : List Char} {offset : Nat} {after : Cursor}
    (h : digitsFrom isDigit rest offset = some after) : Cursor.Plain ⟨rest, offset⟩ after := by
  fun_induction digitsFrom isDigit rest offset with
  | case1 offset =>
    obtain rfl := Option.some.inj h
    exact .refl _
  | case2 c offset hc d rest hd ih =>
    obtain rfl : c = '_' := by simpa using hc
    obtain ⟨hsize, hline⟩ := hdigit d hd
    exact ((ih h).cons (offset + 1) hline (by omega)).cons _ (by decide) rfl
  | case3 => simp at h
  | case4 => simp at h
  | case5 c rest offset _ hd ih =>
    obtain ⟨hsize, hline⟩ := hdigit c hd
    exact (ih h).cons _ hline (by omega)
  | case6 =>
    obtain rfl := Option.some.inj h
    exact .refl _

namespace Cursor

private theorem digits?_plain {isDigit : Char → Bool} (hdigit : IsPlainClass isDigit)
    {cur after : Cursor} (h : cur.digits? isDigit = some after) : cur.Plain after := by
  obtain ⟨rest, offset⟩ := cur
  unfold digits? at h
  split at h
  · rename_i d rest hrest
    split at h
    · rename_i hd
      obtain ⟨hsize, hline⟩ := hdigit d hd
      obtain rfl : _ = d :: rest := hrest
      exact (digitsFrom_plain hdigit h).cons _ hline (by simp [hsize])
    · simp at h
  · simp at h

private theorem digits?_firm {isDigit : Char → Bool} (hdigit : IsPlainClass isDigit)
    {cur after : Cursor} (h : cur.digits? isDigit = some after) :
    ∃ text, cur.Passes text after ∧ Text.Firm text := by
  obtain ⟨rest, offset⟩ := cur
  unfold digits? at h
  split at h
  · rename_i d rest hrest
    split at h
    · rename_i hd
      obtain ⟨hsize, hline⟩ := hdigit d hd
      obtain rfl : _ = d :: rest := hrest
      exact (digitsFrom_plain hdigit h).firm_cons hsize hline
    · simp at h
  · simp at h

private theorem optionalDigits_plain {cur after : Cursor} (h : cur.optionalDigits = some after) :
    cur.Plain after := by
  unfold optionalDigits at h
  split at h
  · split at h
    · exact digits?_plain isPlainClass_isDigit h
    · obtain rfl := Option.some.inj h
      exact .refl _
  · obtain rfl := Option.some.inj h
    exact .refl _

private theorem exponentDigits_plain {cur after : Cursor} (h : cur.exponentDigits = some after) :
    cur.Plain after := by
  obtain ⟨rest, offset⟩ := cur
  unfold exponentDigits at h
  split at h
  · rename_i hrest
    obtain rfl : rest = _ := hrest
    exact (digits?_plain isPlainClass_isDigit h).cons _ (by decide) rfl
  · rename_i hrest
    obtain rfl : rest = _ := hrest
    exact (digits?_plain isPlainClass_isDigit h).cons _ (by decide) rfl
  · exact digits?_plain isPlainClass_isDigit h

private theorem optionalExponent_plain {cur after : Cursor}
    (h : cur.optionalExponent = some after) : cur.Plain after := by
  obtain ⟨rest, offset⟩ := cur
  unfold optionalExponent at h
  split at h
  · rename_i c rest hrest
    obtain rfl : _ = c :: rest := hrest
    split at h
    · rename_i hc
      rcases Bool.or_eq_true_iff.mp hc with hc | hc
      · obtain rfl : c = 'e' := by simpa using hc
        exact (exponentDigits_plain h).cons _ (by decide) rfl
      · obtain rfl : c = 'E' := by simpa using hc
        exact (exponentDigits_plain h).cons _ (by decide) rfl
    · obtain rfl := Option.some.inj h
      exact .refl _
  · obtain rfl := Option.some.inj h
    exact .refl _

private theorem endNumber_eq {kind k : LiteralKind} {cur after : Cursor}
    (h : cur.endNumber kind = some (k, after)) : after = cur := by
  unfold endNumber at h
  split at h
  · split at h
    · simp at h
    · simp only [Option.some.injEq, Prod.mk.injEq] at h
      exact h.2.symm
  · simp only [Option.some.injEq, Prod.mk.injEq] at h
    exact h.2.symm

private theorem exponent_endNumber_plain {cur after : Cursor} {k : LiteralKind}
    (h : (cur.optionalExponent.bind fun c => c.endNumber .numeric) = some (k, after)) :
    cur.Plain after := by
  obtain ⟨c, hc, h⟩ := Option.bind_eq_some_iff.mp h
  rw [endNumber_eq h]
  exact optionalExponent_plain hc

private theorem afterPoint_plain {cur after : Cursor} {k : LiteralKind}
    (h : cur.afterPoint = some (k, after)) : cur.Plain after := by
  obtain ⟨c, hc, h⟩ := Option.bind_eq_some_iff.mp h
  exact (optionalDigits_plain hc).trans (exponent_endNumber_plain h)

private theorem endInteger_plain {cur after : Cursor} {k : LiteralKind}
    (h : cur.endInteger = some (k, after)) : cur.Plain after := by
  obtain ⟨rest, offset⟩ := cur
  unfold endInteger at h
  split at h
  · rename_i hrest
    obtain rfl : rest = _ := hrest
    rw [endNumber_eq h]
    exact (Plain.refl _).cons _ (by decide) rfl
  · rw [endNumber_eq h]
    exact .refl _

private theorem basedInteger_plain {isDigit : Char → Bool} (hdigit : IsPlainClass isDigit)
    {cur after : Cursor} {k : LiteralKind} (h : cur.basedInteger isDigit = some (k, after)) :
    cur.Plain after := by
  obtain ⟨c, hc, h⟩ := Option.bind_eq_some_iff.mp h
  exact (digits?_plain hdigit hc).trans (endInteger_plain h)

private theorem legacyInteger_plain {rest : List Char} {offset : Nat} {after : Cursor}
    {k : LiteralKind} (h : legacyInteger ⟨'0' :: rest, offset⟩ = some (k, after)) :
    Plain ⟨rest, offset + 1⟩ after := by
  obtain ⟨text, hpasses, hall⟩ := dropWhileFrom_passes Char.isDigit rest (offset + 1)
  have hdigits : Plain ⟨rest, offset + 1⟩ (dropWhile Char.isDigit ⟨'0' :: rest, offset⟩) := by
    exact ⟨text, hpasses, fun c hc => (isPlainClass_isDigit c (hall c hc)).2⟩
  unfold legacyInteger at h
  dsimp only at h
  refine hdigits.trans ?_
  generalize dropWhile Char.isDigit ⟨'0' :: rest, offset⟩ = reached at h ⊢
  obtain ⟨rest, offset⟩ := reached
  split at h
  · rename_i hrest
    obtain rfl : rest = _ := hrest
    split at h
    · exact (afterPoint_plain h).cons _ (by decide) rfl
    · rw [endNumber_eq h]
      exact .refl _
  · rename_i hrest
    obtain rfl : rest = _ := hrest
    split at h
    · obtain ⟨c, hc, hpair⟩ := Option.map_eq_some_iff.mp h
      obtain ⟨-, rfl⟩ := Prod.mk.inj hpair
      exact (exponentDigits_plain hc).cons _ (by decide) rfl
    · rw [endNumber_eq h]
      exact .refl _
  · rw [endNumber_eq h]
    exact .refl _

private theorem number?_firm {cur after : Cursor} {k : LiteralKind}
    (h : cur.number? = some (k, after)) : ∃ text, cur.Passes text after ∧ Text.Firm text := by
  obtain ⟨rest, offset⟩ := cur
  unfold number? at h
  split at h
  · rename_i c rest hrest
    obtain rfl : _ = '0' :: c :: rest := hrest
    have hzero : ∀ b : Cursor, Plain ⟨c :: rest, offset + 1⟩ b →
        ∃ text, Passes ⟨'0' :: c :: rest, offset⟩ text b ∧ Text.Firm text :=
      fun b hb => hb.firm_cons rfl (by decide)
    -- The letter or point after the zero is passed as well, and takes one byte.
    have hmarked : ∀ b : Cursor, c.utf8Size = 1 → Text.isInert c = true → Plain ⟨rest, offset + 2⟩ b →
        ∃ text, Passes ⟨'0' :: c :: rest, offset⟩ text b ∧ Text.Firm text :=
      fun b hsize hc hb => hzero b (hb.cons _ hc (by omega))
    dsimp only at h
    split at h
    · rename_i hc
      have hplain := basedInteger_plain isPlainClass_bit h
      rcases Bool.or_eq_true_iff.mp hc with hc | hc <;> obtain rfl := beq_iff_eq.mp hc <;>
        exact hmarked after rfl (by decide) hplain
    split at h
    · rename_i hc
      have hplain := basedInteger_plain (isPlainClass_range (by decide) (by decide) (by decide)) h
      rcases Bool.or_eq_true_iff.mp hc with hc | hc <;> obtain rfl := beq_iff_eq.mp hc <;>
        exact hmarked after rfl (by decide) hplain
    split at h
    · rename_i hc
      have hplain := basedInteger_plain isPlainClass_isHexDigit h
      rcases Bool.or_eq_true_iff.mp hc with hc | hc <;> obtain rfl := beq_iff_eq.mp hc <;>
        exact hmarked after rfl (by decide) hplain
    split at h
    · rename_i hc
      obtain ⟨b, hb, hpair⟩ := Option.map_eq_some_iff.mp h
      obtain ⟨-, rfl⟩ := Prod.mk.inj hpair
      have hplain := exponentDigits_plain hb
      rcases Bool.or_eq_true_iff.mp hc with hc | hc <;> obtain rfl := beq_iff_eq.mp hc <;>
        exact hmarked b rfl (by decide) hplain
    split at h
    · rename_i hc
      obtain rfl := beq_iff_eq.mp hc
      exact hmarked after rfl (by decide) (afterPoint_plain h)
    split at h
    · rename_i hc
      obtain rfl := beq_iff_eq.mp hc
      rw [endNumber_eq h]
      exact hmarked _ rfl (by decide) (.refl _)
    split at h
    · exact (legacyInteger_plain h).firm_cons rfl (by decide)
    · rw [endNumber_eq h]
      exact hzero _ (.refl _)
  · rename_i rest hrest
    obtain rfl : _ = '.' :: rest := hrest
    obtain ⟨c, hc, h⟩ := Option.bind_eq_some_iff.mp h
    exact ((digits?_plain isPlainClass_isDigit hc).trans (exponent_endNumber_plain h)).firm_cons
      rfl (by decide)
  · obtain ⟨reached, hreached, h⟩ := Option.bind_eq_some_iff.mp h
    obtain ⟨text, hpasses, hfirm⟩ := digits?_firm isPlainClass_isDigit hreached
    have hrest : reached.Plain after := by
      obtain ⟨rest', offset'⟩ := reached
      split at h
      · rename_i hrest
        obtain rfl : rest' = _ := hrest
        exact (afterPoint_plain h).cons _ (by decide) rfl
      · rename_i hrest
        obtain rfl : rest' = _ := hrest
        rw [endNumber_eq h]
        exact (Plain.refl _).cons _ (by decide) rfl
      · exact exponent_endNumber_plain h
    obtain ⟨more, hmore, hplain⟩ := hrest
    exact ⟨text ++ more, hpasses.trans hmore, hfirm.append_right hplain⟩

end Cursor

/-! ### Names -/

private theorem bracedCodePoint?_firm {value count : Nat} {rest : List Char} {r : Nat × Nat}
    (h : bracedCodePoint? value count rest = some r) :
    ∃ k, r.2 = count + k ∧ Text.Firm (rest.take k) := by
  induction rest generalizing value count with
  | nil => simp [bracedCodePoint?] at h
  | cons c rest ih =>
    unfold bracedCodePoint? at h
    split at h
    · rename_i hc
      obtain rfl : c = '\x7d' := by simpa using hc
      split at h
      · simp at h
      · obtain rfl := Option.some.inj h
        exact ⟨1, rfl, '\x7d', by simp, by decide⟩
    · split at h
      · simp at h
      · split at h
        · obtain ⟨k, hk, hfirm⟩ := ih h
          exact ⟨k + 1, by omega, by simpa using hfirm.append_left [c]⟩
        · simp at h

/-- An escape ends with a digit or a brace. -/
private theorem unicodeEscape?_firm {code : List Char} {value count : Nat}
    (h : unicodeEscape? code = some (value, count)) : Text.Firm (code.take count) := by
  unfold unicodeEscape? at h
  split at h
  · rename_i rest
    obtain ⟨r, hr, hpair⟩ := Option.map_eq_some_iff.mp h
    obtain ⟨-, rfl⟩ := Prod.mk.inj hpair
    obtain ⟨k, hk, hfirm⟩ := bracedCodePoint?_firm hr
    rw [hk, Nat.zero_add, List.take_succ_cons]
    exact hfirm.append_left ['\x7b']
  · rename_i a b c d rest _
    split at h
    · rename_i hd
      obtain ⟨-, rfl⟩ := Prod.mk.inj (Option.some.inj h)
      refine ⟨d, by simp, (isPlainClass_isHexDigit d ?_).2⟩
      unfold isHexDigit
      rw [hd]
      rfl
    · simp at h
  · simp at h

private theorem isInert_of_isNamePart {c : Char} (h : Text.isNamePart c = true) :
    Text.isInert c = true :=
  Text.isInert_of_class (by decide +kernel) (by decide +kernel) h

/-- A name is read behind the characters of an escape; unless nothing is left of it, it ends with one of
its characters or with an escape. -/
private theorem nameFrom_firm {escaped : Bool} {read : List Char} {skip : Nat} {rest : List Char}
    {offset : Nat} {n : Name} (h : nameFrom escaped read skip rest offset = some n) :
    ∃ more, Cursor.Passes ⟨rest, offset⟩ (rest.take skip ++ more) n.after ∧
      (Text.Firm more ∨ more = [] ∧ read ≠ []) := by
  induction rest generalizing escaped read skip offset with
  | nil =>
    rw [nameFrom] at h
    split at h
    · simp at h
    · rename_i hread
      obtain rfl := Option.some.inj h
      exact ⟨[], by simpa using .refl _, Or.inr ⟨rfl, by simpa using hread⟩⟩
  | cons c rest ih =>
    cases skip with
    | succ skip =>
      obtain ⟨more, hpasses, hmore⟩ := ih h
      exact ⟨more, hpasses.cons offset rfl, hmore⟩
    | zero =>
      unfold nameFrom at h
      dsimp only at h
      have hallowed : (if read.isEmpty then Text.isNameStart else Text.isNamePart) c = true →
          Text.isInert c = true := by
        intro hc
        refine isInert_of_isNamePart ?_
        split at hc
        · simp [Text.isNamePart, hc]
        · exact hc
      generalize (if read.isEmpty then Text.isNameStart else Text.isNamePart) = allowed at h hallowed
      split at h
      · -- An escape: its characters are skipped one by one.
        rename_i hescape
        obtain rfl : c = '\\' := by simpa using hescape
        split at h
        · rename_i code
          split at h
          · rename_i value count hcode
            split at h
            · obtain ⟨more, hpasses, hmore⟩ := ih h
              refine ⟨_, hpasses.cons offset rfl, Or.inl ?_⟩
              rcases hmore with hmore | ⟨rfl, -⟩
              · exact hmore.append_left ('\\' :: List.take (count + 1) ('u' :: code))
              · rw [List.append_nil, List.take_succ_cons]
                exact (unicodeEscape?_firm hcode).append_left ['\\', 'u']
            · simp at h
          · simp at h
        · simp at h
      · split at h
        · rename_i hc
          obtain ⟨more, hpasses, hmore⟩ := ih h
          refine ⟨c :: more, hpasses.cons offset rfl, Or.inl ?_⟩
          rcases hmore with hmore | ⟨rfl, -⟩
          · exact hmore.append_left [c]
          · exact ⟨c, rfl, hallowed hc⟩
        · split at h
          · simp at h
          · rename_i hread
            obtain rfl := Option.some.inj h
            exact ⟨[], .refl _, Or.inr ⟨rfl, by simpa using hread⟩⟩

private theorem Cursor.name?_firm {cur : Cursor} {n : Name} (h : cur.name? = some n) :
    ∃ text, cur.Passes text n.after ∧ Text.Firm text := by
  obtain ⟨more, hpasses, hmore⟩ := nameFrom_firm h
  exact ⟨more, by simpa using hpasses, hmore.resolve_right fun hnone => hnone.2 rfl⟩

/-! ### Strings, templates, regular expressions -/

private theorem firm_singleton {c : Char} (hc : Text.isInert c = true) : Text.Firm [c] :=
  ⟨c, rfl, hc⟩

private theorem stringFrom_firm {quote : Char} (hquote : quote.utf8Size = 1) (hline : Text.isInert quote = true)
    {rest : List Char} {offset : Nat} {after : Cursor}
    (h : stringFrom quote rest offset = some after) :
    ∃ text, Cursor.Passes ⟨rest, offset⟩ text after ∧ Text.Firm text := by
  fun_induction stringFrom quote rest offset with
  | case1 => simp at h
  | case2 c offset hc rest hknown ih =>
    obtain rfl : c = '\\' := by simpa using hc
    obtain ⟨text, hpasses, hfirm⟩ := ih h
    refine ⟨['\\', '\r', '\n'] ++ text, ?_, hfirm.append_left _⟩
    exact ((hpasses.cons (offset + 2) rfl).cons (offset + 1) rfl).cons _ rfl
  | case3 c offset hc d rest hknown _ ih =>
    obtain rfl : c = '\\' := by simpa using hc
    obtain ⟨text, hpasses, hfirm⟩ := ih h
    exact ⟨['\\', d] ++ text, (hpasses.cons (offset + 1) rfl).cons _ rfl,
      hfirm.append_left _⟩
  | case4 => simp at h
  | case5 => simp at h
  | case6 c rest offset _ hc =>
    obtain rfl : c = quote := by simpa using hc
    obtain rfl := Option.some.inj h
    exact ⟨[c], (Cursor.Passes.refl _).cons _ (by rw [hquote]), firm_singleton hline⟩
  | case7 => simp at h
  | case8 c rest offset _ _ _ ih =>
    obtain ⟨text, hpasses, hfirm⟩ := ih h
    exact ⟨[c] ++ text, hpasses.cons offset rfl, hfirm.append_left _⟩

theorem templateFrom_firm {wellFormed : Bool} {rest : List Char} {offset : Nat}
    {piece : TemplatePiece} (h : templateFrom wellFormed rest offset = some piece) :
    ∃ text, Cursor.Passes ⟨rest, offset⟩ text piece.after ∧ Text.Firm text := by
  fun_induction templateFrom wellFormed rest offset with
  | case1 => simp at h
  | case2 wellFormed c offset hc d inner ih =>
    obtain rfl : c = '\\' := by simpa using hc
    obtain ⟨text, hpasses, hfirm⟩ := ih h
    exact ⟨['\\', d] ++ text, (hpasses.cons (offset + 1) rfl).cons _ rfl,
      hfirm.append_left _⟩
  | case3 => simp at h
  | case4 wellFormed c rest offset _ hc =>
    obtain rfl : c = '\x60' := by simpa using hc
    obtain rfl := Option.some.inj h
    exact ⟨['\x60'], (Cursor.Passes.refl _).cons _ rfl, firm_singleton (by decide)⟩
  | case5 wellFormed c offset _ _ hc inner =>
    obtain rfl : c = '$' := by simpa using hc
    obtain rfl := Option.some.inj h
    refine ⟨['$', '\x7b'], ?_, (firm_singleton (by decide)).append_left ['$']⟩
    exact ((Cursor.Passes.refl _).cons (offset + 1) rfl).cons _ rfl
  | case6 wellFormed c rest offset _ _ hc _ ih =>
    obtain rfl : c = '$' := by simpa using hc
    obtain ⟨text, hpasses, hfirm⟩ := ih h
    exact ⟨['$'] ++ text, hpasses.cons offset rfl, hfirm.append_left _⟩
  | case7 wellFormed c rest offset _ _ _ ih =>
    obtain ⟨text, hpasses, hfirm⟩ := ih h
    exact ⟨[c] ++ text, hpasses.cons offset rfl, hfirm.append_left _⟩

private theorem patternFrom_firm {inClass : Bool} {rest : List Char} {offset : Nat} {after : Cursor}
    (h : patternFrom inClass rest offset = some after) :
    ∃ text, Cursor.Passes ⟨rest, offset⟩ text after ∧ Text.Firm text := by
  fun_induction patternFrom inClass rest offset with
  | case1 => simp at h
  | case2 => simp at h
  | case3 => simp at h
  | case4 inClass c offset _ hc d rest _ ih =>
    obtain rfl : c = '\\' := by simpa using hc
    obtain ⟨text, hpasses, hfirm⟩ := ih h
    exact ⟨['\\', d] ++ text, (hpasses.cons (offset + 1) rfl).cons _ rfl,
      hfirm.append_left _⟩
  | case5 => simp at h
  | case6 inClass c rest offset _ _ hc =>
    obtain ⟨hc, -⟩ := Bool.and_eq_true_iff.mp hc
    obtain rfl : c = '/' := by simpa using hc
    obtain rfl := Option.some.inj h
    exact ⟨['/'], (Cursor.Passes.refl _).cons _ rfl, firm_singleton (by decide)⟩
  | case7 inClass c rest offset _ _ _ hc ih =>
    obtain rfl : c = '[' := by simpa using hc
    obtain ⟨text, hpasses, hfirm⟩ := ih h
    exact ⟨['['] ++ text, hpasses.cons offset rfl, hfirm.append_left _⟩
  | case8 inClass c rest offset _ _ _ _ hc ih =>
    obtain rfl : c = ']' := by simpa using hc
    obtain ⟨text, hpasses, hfirm⟩ := ih h
    exact ⟨[']'] ++ text, hpasses.cons offset rfl, hfirm.append_left _⟩
  | case9 inClass c rest offset _ _ _ _ _ ih =>
    obtain ⟨text, hpasses, hfirm⟩ := ih h
    exact ⟨[c] ++ text, hpasses.cons offset rfl, hfirm.append_left _⟩

theorem Cursor.regExp?_firm {cur after : Cursor} (h : cur.regExp? = some after) :
    ∃ text, cur.Passes text after ∧ Text.Firm text := by
  obtain ⟨rest, offset⟩ := cur
  unfold regExp? at h
  split at h
  · rename_i inner hrest
    obtain rfl : rest = '/' :: inner := hrest
    obtain ⟨closed, hclosed, h⟩ := Option.bind_eq_some_iff.mp h
    split at h
    · obtain rfl := Option.some.inj h
      obtain ⟨pattern, hpattern, hfirm⟩ := patternFrom_firm hclosed
      obtain ⟨flags, hflags, hall⟩ := dropWhileFrom_passes isFlagPart closed.rest closed.offset
      have hplain : ∀ c ∈ flags, Text.isInert c = true :=
        fun c hc => Text.isInert_of_class (by decide) (by decide) (hall c hc)
      refine ⟨'/' :: (pattern ++ flags), (hpattern.trans hflags).cons _ rfl, ?_⟩
      exact (hfirm.append_right hplain).append_left ['/']
    · simp at h
  · simp at h

/-! ### Lexemes -/

/-- Whether a lexeme is a literal or a piece of one. -/
def Lexeme.isLiteral : Lexeme → Bool
  | .number _ => true
  | .string => true
  | .template .. => true
  | _ => false

private theorem punctuatorAt?_front {text : List Char} {p : List Char × String}
    (h : punctuatorAt? text = some p) :
    p.1 <+: text ∧ Text.byteLength p.1 = p.1.length := by
  have hsize : ∀ p ∈ punctuators, Text.byteLength p.1 = p.1.length := by decide +kernel
  have hfound : ∀ {p}, (punctuators.find? fun p => p.1.isPrefixOf text) = some p →
      p.1 <+: text ∧ Text.byteLength p.1 = p.1.length := by
    intro p hp
    have hfront : p.1.isPrefixOf text = true := by simpa using List.find?_some hp
    exact ⟨List.isPrefixOf_iff_prefix.mp hfront, hsize p (List.mem_of_find?_eq_some hp)⟩
  unfold punctuatorAt? at h
  split at h
  · split at h
    · obtain rfl := Option.some.inj h
      exact ⟨⟨_, rfl⟩, rfl⟩
    · exact hfound h
  · exact hfound h

/-- Where one angle is taken there are no two. -/
private theorem punctuatorAt?_angle {text : List Char} {p : List Char × String}
    (h : punctuatorAt? text = some p) (hangle : p.1 = ['<']) : ¬ ['<', '<'] <+: text := by
  intro hfront
  have hlong : ∀ p ∈ punctuators.take 33, p.1 ≠ ['<'] := by decide +kernel
  have hmem : (['<', '<'], "<<") ∈ punctuators.take 33 := by decide +kernel
  obtain ⟨rest, rfl⟩ := hfront
  have hfind : punctuators.find? (fun p => p.1.isPrefixOf (['<', '<'] ++ rest)) = some p := h
  rw [← List.take_append_drop 33 punctuators, List.find?_append] at hfind
  have hsome : ((punctuators.take 33).find? fun p => p.1.isPrefixOf (['<', '<'] ++ rest)).isSome :=
    List.find?_isSome.mpr ⟨_, hmem, List.isPrefixOf_iff_prefix.mpr (List.prefix_append _ rest)⟩
  obtain ⟨q, hq⟩ := Option.isSome_iff_exists.mp hsome
  rw [hq] at hfind
  obtain rfl := Option.some.inj hfind
  exact hlong q (List.mem_of_find?_eq_some hq) hangle

private theorem punctuatorAt?_keepsPairs {text rest : List Char} {p : List Char × String}
    (h : punctuatorAt? text = some p) (hrest : text = p.1 ++ rest) : Text.KeepsPairs p.1 rest := by
  have hform : ∀ p ∈ punctuators, p.1 = ['<'] ∨ p.1 = ['<', '<'] ∨ p.1.getLast?.any (· != '<') := by
    decide +kernel
  have hmem : p.1 = ['?'] ∨ p ∈ punctuators := by
    unfold punctuatorAt? at h
    split at h
    · split at h
      · exact Or.inl (by rw [← Option.some.inj h])
      · exact Or.inr (List.mem_of_find?_eq_some h)
    · exact Or.inr (List.mem_of_find?_eq_some h)
  rcases hmem with hmark | hmem
  · rw [hmark]
    exact .of_last rfl (by decide) rest
  · rcases hform p hmem with hone | htwo | hlast
    · rw [hone] at hrest ⊢
      refine .one fun hnext => punctuatorAt?_angle h hone ?_
      rw [hrest]
      obtain ⟨rest, rfl⟩ := List.head?_eq_some_iff.mp hnext
      exact ⟨rest, rfl⟩
    · rw [htwo]
      exact .two rest
    · obtain ⟨c, hc, hne⟩ := (Option.any_eq_true _ _).mp hlast
      exact .of_last hc (by simpa using hne) rest

/-- A lexeme is a stretch of the text at its cursor, behind which angles stand in pairs if they do in
front of it; that of a literal is firm. -/
theorem Cursor.lexeme?_passes {cur after : Cursor} {lexeme : Lexeme}
    (h : cur.lexeme? = some (lexeme, after)) :
    ∃ text, cur.Passes text after ∧ (lexeme.isLiteral = true → Text.Firm text) ∧
      Text.KeepsPairs text after.rest := by
  have found : ∀ {text : List Char}, cur.Passes text after → Text.Firm text →
      ∃ text, cur.Passes text after ∧ (lexeme.isLiteral = true → Text.Firm text) ∧
        Text.KeepsPairs text after.rest :=
    fun hpasses hfirm => ⟨_, hpasses, fun _ => hfirm, .of_firm hfirm _⟩
  obtain ⟨rest, offset⟩ := cur
  unfold lexeme? at h
  split at h
  · simp only [Option.some.injEq, Prod.mk.injEq] at h
    obtain ⟨rfl, rfl⟩ := h
    exact ⟨[], .refl _, by simp [Lexeme.isLiteral], .nil _⟩
  · rename_i c inner hrest
    obtain rfl : rest = c :: inner := hrest
    dsimp only at h
    split at h
    · obtain ⟨n, hn, hpair⟩ := Option.map_eq_some_iff.mp h
      obtain ⟨rfl, rfl⟩ := Prod.mk.inj hpair
      obtain ⟨text, hpasses, hfirm⟩ := Cursor.name?_firm hn
      exact found hpasses hfirm
    split at h
    · obtain ⟨n, hn, hpair⟩ := Option.map_eq_some_iff.mp h
      obtain ⟨rfl, rfl⟩ := Prod.mk.inj hpair
      obtain ⟨text, hpasses, hfirm⟩ := Cursor.number?_firm hn
      exact found hpasses hfirm
    split at h
    · rename_i hquote
      obtain ⟨stop, hstop, hpair⟩ := Option.map_eq_some_iff.mp h
      obtain ⟨rfl, rfl⟩ := Prod.mk.inj hpair
      have hplain : c.utf8Size = 1 ∧ Text.isInert c = true := by
        rcases Bool.or_eq_true_iff.mp hquote with hc | hc <;> obtain rfl := beq_iff_eq.mp hc <;>
          exact ⟨rfl, by decide⟩
      obtain ⟨text, hpasses, hfirm⟩ := stringFrom_firm hplain.1 hplain.2 hstop
      exact found (hpasses.cons offset (by rw [hplain.1])) (hfirm.append_left [c])
    split at h
    · rename_i hquote
      obtain rfl : c = '\x60' := by simpa using hquote
      obtain ⟨piece, hpiece, hpair⟩ := Option.map_eq_some_iff.mp h
      obtain ⟨rfl, rfl⟩ := Prod.mk.inj hpair
      obtain ⟨text, hpasses, hfirm⟩ := templateFrom_firm hpiece
      exact found (hpasses.cons offset rfl) (hfirm.append_left ['\x60'])
    split at h
    · rename_i hsign
      obtain rfl : c = '#' := by simpa using hsign
      obtain ⟨n, hn, hpair⟩ := Option.map_eq_some_iff.mp h
      obtain ⟨rfl, rfl⟩ := Prod.mk.inj hpair
      obtain ⟨text, hpasses, hfirm⟩ := Cursor.name?_firm hn
      exact found (hpasses.cons offset rfl) (hfirm.append_left ['#'])
    · obtain ⟨p, hp, hpair⟩ := Option.map_eq_some_iff.mp h
      obtain ⟨rfl, rfl⟩ := Prod.mk.inj hpair
      obtain ⟨hfront, hsize⟩ := punctuatorAt?_front hp
      have hrest := (List.prefix_iff_eq_append.mp hfront).symm
      exact ⟨p.1, ⟨hrest, by rw [hsize]⟩, by simp [Lexeme.isLiteral],
        punctuatorAt?_keepsPairs hp hrest⟩

end Grammar

end ClosureReady
