import ClosureReady.Proofs.Placement
import Mathlib.Data.List.DropRight

/-!
Places of offsets.  The place of an offset at which a character starts counts the line feeds before
it and the characters behind the last of them; an offset past the end has the place of the end.  So
places ascend strictly with the offsets, by line and then by column.
-/

set_option autoImplicit false
set_option relaxedAutoImplicit false

namespace ClosureReady

/-- A place comes before another: on an earlier line, or further left on the same one. -/
def Position.Precedes (p q : Position) : Prop :=
  p.line < q.line ∨ p.line = q.line ∧ p.column < q.column

namespace Text

/-- The number of bytes of characters is that of their encoding. -/
theorem byteLength_toList (s : String) : byteLength s.toList = s.utf8ByteSize := by
  suffices h : ∀ cs : List Char, byteLength cs = (String.ofList cs).utf8ByteSize by
    rw [h, String.ofList_toList]
  intro cs
  induction cs with
  | nil => simp [byteLength]
  | cons c cs ih =>
    rw [byteLength, ih, ← List.singleton_append, String.ofList_append, String.utf8ByteSize_append,
      ← String.singleton_eq_ofList, String.utf8ByteSize_singleton]

theorem length_le_byteLength (cs : List Char) : cs.length ≤ byteLength cs := by
  induction cs with
  | nil => exact Nat.le_refl 0
  | cons c cs ih =>
    have := c.utf8Size_pos
    simp only [List.length_cons, byteLength]
    omega

theorem columnFrom_eq_length (cs : List Char) :
    columnFrom 0 cs = (cs.rtakeWhile (· ≠ '\n')).length := by
  induction cs using List.reverseRecOn with
  | nil => rfl
  | append_singleton cs c ih =>
    rw [columnFrom_append, List.rtakeWhile_concat]
    by_cases hc : c = '\n'
    · simp [columnFrom, hc]
    · simp [columnFrom, hc, ih]

/-- No line starts past the end of the text. -/
theorem start_le_of_mem_placeLines {base : Nat} {text : List Char} {line : Line}
    (h : line ∈ placeLines base (splitLines text)) : line.start ≤ base + byteLength text := by
  induction text generalizing base with
  | nil =>
    obtain rfl : line = ⟨base, []⟩ := by simpa [splitLines, placeLines] using h
    exact Nat.le_add_right _ _
  | cons c text ih =>
    by_cases hc : c = '\n'
    · rw [splitLines, if_pos hc, placeLines] at h
      rcases List.mem_cons.mp h with rfl | hlater
      · exact Nat.le_add_right _ _
      · have := ih hlater
        simp only [byteLength] at this ⊢
        omega
    · rw [splitLines, if_neg hc] at h
      cases hsplit : splitLines text with
      | nil =>
        obtain rfl : line = ⟨base, [c]⟩ := by simpa [hsplit, placeLines] using h
        exact Nat.le_add_right _ _
      | cons first later =>
        simp only [hsplit, placeLines, byteLength] at h ih ⊢
        rcases List.mem_cons.mp h with rfl | hlater
        · exact Nat.le_add_right _ _
        · rw [← Nat.add_assoc] at hlater ⊢
          exact ih (List.mem_cons_of_mem _ hlater)

end Text

namespace LineIndex

theorem position_of_size_le (text : List Char) {offset : Nat} (h : Text.byteLength text ≤ offset) :
    (ofChars text).position offset = (ofChars text).position (Text.byteLength text) := by
  have hall : ∀ {bound : Nat}, Text.byteLength text ≤ bound →
      (ofChars text).lines.takeWhile (fun line => decide (line.start ≤ bound)) =
        (ofChars text).lines := by
    intro bound hbound
    rw [List.takeWhile_eq_self_iff]
    intro line hmem
    have := Text.start_le_of_mem_placeLines hmem
    rw [Nat.zero_add] at this
    exact decide_eq_true (this.trans hbound)
  have hsize : (ofChars text).size = Text.byteLength text := rfl
  simp only [position, hall h, hall (Nat.le_refl _), hsize, Nat.min_eq_right h, Nat.min_self]

theorem position_precedes {text : List Char} {a b : Nat} (ha : Text.IsBoundary text a)
    (hb : Text.IsBoundary text b) (hab : a < b) :
    ((ofChars text).position a).Precedes ((ofChars text).position b) := by
  rcases Nat.lt_or_eq_of_le (position_le ha hb hab.le).1 with hline | hline
  · exact Or.inl hline
  · exact Or.inr ⟨hline, position_column_lt ha hb hab hline⟩

end LineIndex

theorem Text.isBoundary_of_isValid {source : String} {offset : String.Pos.Raw}
    (h : offset.IsValid source) : Text.IsBoundary source.toList offset.byteIdx := by
  obtain ⟨front, rest, rfl, rfl⟩ := String.Pos.Raw.isValid_iff_exists_append.mp h
  exact ⟨front.toList, rest.toList, String.toList_append, Text.byteLength_toList front⟩

/-- The place of an offset between two parts of a text is found from the first part: one line more
than it has line feeds, and the column that is the number of characters behind the last of them.  It
is bounded by the offset; places ascend strictly with the offsets of characters; and past the end the
place is that of the end. -/
theorem offset_located (source : String) :
    (∀ front rest : String, source = front ++ rest →
      (LineIndex.ofChars source.toList).position front.utf8ByteSize =
          ⟨1 + front.toList.count '\n', (front.toList.rtakeWhile (· ≠ '\n')).length⟩ ∧
        front.toList.count '\n' ≤ front.utf8ByteSize ∧
        (front.toList.rtakeWhile (· ≠ '\n')).length ≤ front.utf8ByteSize) ∧
    (∀ a b : String.Pos.Raw, a.IsValid source → b.IsValid source → a.byteIdx < b.byteIdx →
      ((LineIndex.ofChars source.toList).position a.byteIdx).Precedes
        ((LineIndex.ofChars source.toList).position b.byteIdx)) ∧
    ∀ offset : Nat, source.utf8ByteSize ≤ offset →
      (LineIndex.ofChars source.toList).position offset =
        (LineIndex.ofChars source.toList).position source.utf8ByteSize := by
  refine ⟨?_, ?_, ?_⟩
  · rintro front rest rfl
    have hlength : front.toList.length ≤ front.utf8ByteSize := by
      rw [← Text.byteLength_toList]
      exact Text.length_le_byteLength _
    refine ⟨?_, (List.count_le_length).trans hlength,
      (List.rtakeWhile_suffix _ _).length_le.trans hlength⟩
    rw [String.toList_append, ← Text.byteLength_toList, LineIndex.position_byteLength,
      Text.columnFrom_eq_length, Nat.add_comm]
  · intro a b ha hb hab
    exact LineIndex.position_precedes (Text.isBoundary_of_isValid ha)
      (Text.isBoundary_of_isValid hb) hab
  · intro offset hoffset
    rw [← Text.byteLength_toList] at hoffset ⊢
    exact LineIndex.position_of_size_le source.toList hoffset

/-- On the line after an empty one, a character of two bytes takes one column. -/
theorem offset_located_wide_character :
    "ab\n  cd\n\nü x" = "ab\n  cd\n\nü " ++ "x" ∧
      (LineIndex.ofChars "ab\n  cd\n\nü x".toList).position 12 = ⟨4, 2⟩ ∧
      ((LineIndex.ofChars "ab\n  cd\n\nü x".toList).position 8).Precedes
        ((LineIndex.ofChars "ab\n  cd\n\nü x".toList).position 12) ∧
      (LineIndex.ofChars "ab\n  cd\n\nü x".toList).position 99 =
        (LineIndex.ofChars "ab\n  cd\n\nü x".toList).position 13 := by
  obtain ⟨hplace, hprecedes, hend⟩ := offset_located "ab\n  cd\n\nü x"
  exact ⟨rfl, (hplace "ab\n  cd\n\nü " "x" rfl).1,
    hprecedes ⟨8⟩ ⟨12⟩ (by decide) (by decide) (by decide), hend 99 (by decide)⟩

end ClosureReady
