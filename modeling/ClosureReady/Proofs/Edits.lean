import ClosureReady.Proofs.Imprint
import Mathlib.Data.List.TakeWhile

/-!
What the searches and edits of a stream answer when the stream is given in parts: a search finds the
token between two parts when the first holds no other, and an edit changes the part it is aimed at and
leaves those around it alone.
-/

set_option autoImplicit false
set_option relaxedAutoImplicit false

namespace ClosureReady

namespace Token

/-- The token moved towards the start of its line and of the text. -/
def movedLeft (bytes columns : Nat) (t : Token) : Token :=
  { t with
    span := ⟨t.span.start - bytes, t.span.stop - bytes⟩
    region := ⟨⟨t.line, t.column - columns⟩,
      if t.isSingleLine then ⟨t.region.stop.line, t.region.stop.column - columns⟩
      else t.region.stop⟩ }

structure HasRoom (bytes columns : Nat) (t : Token) : Prop where
  start : bytes ≤ t.span.start
  stop : bytes ≤ t.span.stop
  column : columns ≤ t.column
  stopColumn : t.isSingleLine = true → columns ≤ t.region.stop.column

@[simp] theorem movedLeft_line (bytes columns : Nat) (t : Token) :
    (t.movedLeft bytes columns).line = t.line := rfl

@[simp] theorem movedLeft_isPunctuator (bytes columns : Nat) (t : Token) (text : String) :
    (t.movedLeft bytes columns).isPunctuator text = t.isPunctuator text := rfl

@[simp] theorem withValue_column (t : Token) (value : String) :
    (t.withValue value).column = t.column := rfl

@[simp] theorem withValue_kind (t : Token) (value : String) :
    (t.withValue value).kind = t.kind := rfl

theorem shiftColumns?_eq_some {t : Token} {columns : Nat} (hstart : columns ≤ t.column)
    (hstop : t.isSingleLine = true → columns ≤ t.region.stop.column) :
    t.shiftColumns? columns = some (t.movedLeft 0 columns) := by
  have hcolumn : checkedSub t.region.start.column columns = some (t.column - columns) :=
    checkedSub_eq_some_iff.mpr ⟨hstart, rfl⟩
  unfold shiftColumns? movedLeft
  rw [hcolumn]
  by_cases hline : t.isSingleLine = true
  · have hend : checkedSub t.region.stop.column columns = some (t.region.stop.column - columns) :=
      checkedSub_eq_some_iff.mpr ⟨hstop hline, rfl⟩
    simp [hline, hend, line]
  · simp [hline, line]

theorem HasRoom.shift {t : Token} {bytes columns : Nat} (h : t.HasRoom bytes columns) :
    (t.shiftBytes? bytes).bind (·.shiftColumns? columns) = some (t.movedLeft bytes columns) := by
  have hstart : checkedSub t.span.start bytes = some (t.span.start - bytes) :=
    checkedSub_eq_some_iff.mpr ⟨h.start, rfl⟩
  have hstop : checkedSub t.span.stop bytes = some (t.span.stop - bytes) :=
    checkedSub_eq_some_iff.mpr ⟨h.stop, rfl⟩
  unfold shiftBytes?
  rw [hstart, hstop]
  exact shiftColumns?_eq_some h.column h.stopColumn

end Token

/-- A list is cut at the first element without a property as soon as one is known to stand there. -/
theorem takeWhile_append_of_head? {α : Type} {p : α → Bool} {xs ys : List α}
    (h : ∀ y ∈ ys.head?, p y = false) : (xs ++ ys).takeWhile p = xs.takeWhile p := by
  induction xs with
  | nil =>
    cases ys with
    | nil => rfl
    | cons y ys => simp [h y rfl]
  | cons x xs ih => simp only [List.cons_append, List.takeWhile_cons, ih]

theorem dropWhile_append_of_head? {α : Type} {p : α → Bool} {xs ys : List α}
    (h : ∀ y ∈ ys.head?, p y = false) : (xs ++ ys).dropWhile p = xs.dropWhile p ++ ys := by
  have hwhole : (xs ++ ys).takeWhile p ++ (xs ++ ys).dropWhile p = xs ++ ys :=
    List.takeWhile_append_dropWhile
  have hfront : xs.takeWhile p ++ xs.dropWhile p = xs := List.takeWhile_append_dropWhile
  rw [takeWhile_append_of_head? h] at hwhole
  refine (List.append_right_inj (xs.takeWhile p)).mp ?_
  rw [hwhole, ← List.append_assoc, hfront]

namespace TokenStream

theorem shiftAll?_eq_some {bytes columns : Nat} {ts : List Token}
    (h : ∀ t ∈ ts, t.HasRoom bytes columns) :
    shiftAll? bytes columns ts = some (ts.map (·.movedLeft bytes columns)) := by
  induction ts with
  | nil => rfl
  | cons t ts ih =>
    obtain ⟨ht, hts⟩ := List.forall_mem_cons.mp h
    unfold shiftAll?
    rw [ht.shift, ih hts]
    rfl

theorem shiftColumnsAll?_eq_some {columns : Nat} {ts : List Token}
    (h : ∀ t ∈ ts, t.HasRoom 0 columns) :
    shiftColumnsAll? columns ts = some (ts.map (·.movedLeft 0 columns)) := by
  induction ts with
  | nil => rfl
  | cons t ts ih =>
    obtain ⟨ht, hts⟩ := List.forall_mem_cons.mp h
    unfold shiftColumnsAll?
    rw [Token.shiftColumns?_eq_some ht.column ht.stopColumn, ih hts]
    rfl

theorem dedentLine?_cons {t : Token} {ts : List Token} {unit : Nat}
    (hroom : ∀ u ∈ t :: ts.takeWhile fun u => u.line == t.line, u.HasRoom 0 (min t.column unit)) :
    dedentLine? (t :: ts) 0 unit =
      some ((t :: ts.takeWhile fun u => u.line == t.line).map (·.movedLeft 0 (min t.column unit)) ++
        ts.dropWhile fun u => u.line == t.line) := by
  have hall := shiftColumnsAll?_eq_some hroom
  have htake : ts.take (ts.takeWhile fun u => u.line == t.line).length =
      ts.takeWhile fun u => u.line == t.line := by
    exact (List.prefix_iff_eq_take.mp (List.takeWhile_prefix _)).symm
  have hzero : ∀ u : Token, u.movedLeft 0 0 = u := by
    intro u
    unfold Token.movedLeft Token.line Token.column
    split <;> rfl
  unfold dedentLine?
  simp only [List.getElem?_cons_zero, List.drop_zero, List.take_zero, List.nil_append, Nat.zero_add,
    List.drop_one, List.tail_cons]
  split
  · rename_i hnone
    have hself : (t :: ts.takeWhile fun u => u.line == t.line).map (·.movedLeft 0 0) =
        t :: ts.takeWhile fun u => u.line == t.line := by
      rw [List.map_congr_left (fun u _ => hzero u), List.map_id']
    rw [hnone, hself, List.cons_append, List.takeWhile_append_dropWhile]
  · rw [Nat.add_comm 1, List.take_succ_cons, htake, hall, List.drop_succ_cons, drop_length_takeWhile]
    rfl

/-- Excising tokens pulls the rest of their line left by their width. -/
theorem excise?_run {before removed rest after : TokenStream} {first last : Token}
    (hfirst : removed.head? = some first) (hlast : removed.getLast? = some last)
    (hbytes : first.span.start ≤ last.span.stop)
    (hcolumns : first.column ≤ last.region.stop.column)
    (hrest : ∀ u ∈ rest, u.line = last.line ∧ u.HasRoom (last.span.stop - first.span.start)
      (last.region.stop.column - first.column))
    (hafter : ∀ u ∈ after.head?, u.line ≠ last.line) :
    excise? (before ++ (removed ++ (rest ++ after))) before.length removed.length =
      some (before ++ rest.map (·.movedLeft (last.span.stop - first.span.start)
        (last.region.stop.column - first.column)) ++ after) := by
  have hspan : Token.checkedSub last.span.stop first.span.start =
      some (last.span.stop - first.span.start) :=
    Token.checkedSub_eq_some_iff.mpr ⟨hbytes, rfl⟩
  have hwidth : Token.checkedSub last.region.stop.column first.region.start.column =
      some (last.region.stop.column - first.column) :=
    Token.checkedSub_eq_some_iff.mpr ⟨hcolumns, rfl⟩
  have honLine : (rest ++ after).takeWhile (fun u => u.line == last.line) = rest := by
    rw [takeWhile_append_of_head? (by simpa using hafter)]
    exact List.takeWhile_eq_self_iff.mpr fun u hu => by simp [(hrest u hu).1]
  have hcount : 0 < removed.length := by
    refine List.length_pos_iff.mpr ?_
    rintro rfl
    simp at hfirst
  have hdrop : (before ++ (removed ++ (rest ++ after))).drop (before.length + removed.length) =
      rest ++ after := by
    rw [← List.drop_drop, List.drop_left, List.drop_left]
  have hstart : (before ++ (removed ++ (rest ++ after)))[before.length]? = some first := by
    rw [List.getElem?_append_right (Nat.le_refl _), Nat.sub_self, List.getElem?_append_left hcount,
      ← List.head?_eq_getElem?, hfirst]
  have hstop : (before ++ (removed ++ (rest ++ after)))[before.length + removed.length - 1]? =
      some last := by
    rw [List.getElem?_append_right (by omega), List.getElem?_append_left (by omega), ← hlast,
      List.getLast?_eq_getElem?]
    congr 1
    omega
  unfold excise?
  rw [if_neg (by omega), hstart, hstop]
  simp only [hspan, hwidth, hdrop, honLine, shiftAll?_eq_some fun u hu => (hrest u hu).2,
    Option.map_some, List.take_left, List.drop_left]

/-- Excising two neighbours pulls the rest of their line left by their width. -/
theorem excise?_append {before rest after : TokenStream} {first last : Token}
    (hbytes : first.span.start ≤ last.span.stop)
    (hcolumns : first.column ≤ last.region.stop.column)
    (hrest : ∀ u ∈ rest, u.line = last.line ∧ u.HasRoom (last.span.stop - first.span.start)
      (last.region.stop.column - first.column))
    (hafter : ∀ u ∈ after.head?, u.line ≠ last.line) :
    excise? (before ++ first :: last :: (rest ++ after)) before.length 2 =
      some (before ++ rest.map (·.movedLeft (last.span.stop - first.span.start)
        (last.region.stop.column - first.column)) ++ after) :=
  excise?_run (show [first, last].head? = some first from rfl)
    (show [first, last].getLast? = some last from rfl) hbytes hcolumns hrest hafter

theorem setValue?_append (before after : TokenStream) (t : Token) (value : String) :
    setValue? (before ++ t :: after) before.length value =
      some (before ++ t.withValue value :: after) := by
  unfold setValue?
  rw [if_pos (by simp), List.modify_eq_take_cons_drop (by simp)]
  simp

theorem relocate?_append (before skipped moved after : TokenStream) :
    relocate? (before ++ skipped ++ moved ++ after)
        ⟨before.length + skipped.length, before.length + skipped.length + moved.length⟩
        before.length =
      some (before ++ moved ++ skipped ++ after) := by
  have hskip : (before ++ skipped ++ moved ++ after).take (before.length + skipped.length) =
      before ++ skipped := by
    rw [List.append_assoc _ moved, ← List.length_append, List.take_left]
  have hmove : (before ++ skipped ++ moved ++ after).take
      (before.length + skipped.length + moved.length) = before ++ skipped ++ moved := by
    rw [← List.length_append, ← List.length_append, List.take_left]
  have hrest : (before ++ skipped ++ moved ++ after).drop
      (before.length + skipped.length + moved.length) = after := by
    rw [← List.length_append, ← List.length_append, List.drop_left]
  have hfront : (before ++ skipped ++ moved ++ after).take before.length = before := by
    rw [List.append_assoc, List.append_assoc, List.take_left]
  have hmoved : (before ++ skipped ++ moved).drop (before.length + skipped.length) = moved := by
    rw [← List.length_append, List.drop_left]
  unfold relocate?
  rw [if_pos (by simp; omega)]
  simp only [hskip, hmove, hrest, hfront, hmoved, List.drop_left]

theorem indexOf?_append {before after : TokenStream} {t : Token}
    (h : ∀ u ∈ before, u.id ≠ t.id) :
    indexOf? (before ++ t :: after) t.id = some before.length := by
  have hnone : before.findIdx? (fun u => u.id == t.id) = none :=
    List.findIdx?_eq_none_iff.mpr fun u hu => by simpa using h u hu
  unfold indexOf?
  simp [List.findIdx?_append, hnone, List.findIdx?_cons]

end TokenStream

namespace ClassWrapper

theorem nextIndex?_append {p : Token → Bool} {before skipped after : List Token} {t : Token}
    {i : Nat} (hi : i = before.length) (hskipped : ∀ u ∈ skipped, p u = false) (ht : p t = true) :
    nextIndex? p i (before ++ (skipped ++ t :: after)) = some (before.length + skipped.length) := by
  have hnone : skipped.findIdx? p = none := List.findIdx?_eq_none_iff.mpr hskipped
  unfold nextIndex?
  rw [hi, List.drop_left]
  simp [List.findIdx?_append, hnone, List.findIdx?_cons, ht]

theorem lastIndex?_append {p : Token → Bool} {before after : List Token} {t : Token}
    (hafter : ∀ u ∈ after, p u = false) (ht : p t = true) :
    lastIndex? p (before ++ t :: after) = some before.length := by
  have hnone : after.reverse.findIdx? p = none :=
    List.findIdx?_eq_none_iff.mpr fun u hu => hafter u (List.mem_reverse.mp hu)
  have hback : (before ++ t :: after).reverse.findIdx? p = some after.length := by
    rw [List.reverse_append, List.reverse_cons, List.append_assoc, List.findIdx?_append, hnone]
    simp [List.findIdx?_cons, ht]
  unfold lastIndex?
  rw [hback, Option.map_some, List.length_append, List.length_cons]
  congr 1
  omega

theorem joinValues_append (xs ys : List Token) :
    joinValues (xs ++ ys) = joinValues xs ++ joinValues ys := by
  unfold joinValues
  induction xs with
  | nil => simp
  | cons t xs ih => rw [List.cons_append, List.foldr_cons, ih, List.foldr_cons, String.append_assoc]

theorem dropEnding?_append (text ending : String) : dropEnding? (text ++ ending) ending = some text := by
  unfold dropEnding?
  have hsuffix : ending.toList.isSuffixOf (text ++ ending).toList = true := by
    rw [String.toList_append]
    exact List.isSuffixOf_iff_suffix.mpr (List.suffix_append _ _)
  rw [if_pos hsuffix, String.toList_append, List.length_append, Nat.add_sub_cancel, List.take_left,
    String.ofList_toList]

end ClassWrapper

end ClosureReady
