import ClosureReady.Pass.ClassWrapper

/-!
The imprint of a token: its identity, its class and the lines of its two ends.  No edit of a stream
changes the imprint of a token that it keeps.  Shifting, dedenting and rewriting keep the imprints in
their order, relocating permutes them, and excising takes out those of one range.
-/

set_option autoImplicit false
set_option relaxedAutoImplicit false

namespace ClosureReady

/-- What is left of a token when its text and its columns are forgotten. -/
structure Imprint where
  id : Nat
  kind : TokenKind
  line : Nat
  stopLine : Nat
  deriving DecidableEq, Repr, Inhabited

def Token.imprint (t : Token) : Imprint :=
  ⟨t.id, t.kind, t.region.start.line, t.region.stop.line⟩

def TokenStream.imprints (s : TokenStream) : List Imprint := s.map Token.imprint

namespace Token

@[simp] theorem imprint_id (t : Token) : t.imprint.id = t.id := rfl

@[simp] theorem imprint_line (t : Token) : t.imprint.line = t.line := rfl

@[simp] theorem imprint_withValue (t : Token) (value : String) :
    (t.withValue value).imprint = t.imprint := rfl

theorem checkedSub_eq_some_iff {a b d : Nat} : checkedSub a b = some d ↔ b ≤ a ∧ d = a - b := by
  unfold checkedSub
  by_cases hle : b ≤ a
  · rw [if_pos hle, Option.some.injEq]
    exact ⟨fun h => ⟨hle, h.symm⟩, fun h => h.2.symm⟩
  · rw [if_neg hle]
    exact ⟨fun h => absurd h (by simp), fun h => absurd h.1 hle⟩

theorem shiftColumns?_imprint {t u : Token} {columns : Nat} (h : t.shiftColumns? columns = some u) :
    u.imprint = t.imprint := by
  unfold shiftColumns? at h
  split at h
  · simp at h
  · split at h
    · split at h
      · simp at h
      · simp only [Option.some.injEq] at h
        subst h
        rfl
    · simp only [Option.some.injEq] at h
      subst h
      rfl

theorem shiftBytes?_imprint {t u : Token} {bytes : Nat} (h : t.shiftBytes? bytes = some u) :
    u.imprint = t.imprint := by
  unfold shiftBytes? at h
  split at h
  · simp only [Option.some.injEq] at h
    subst h
    rfl
  · simp at h

end Token

namespace TokenStream

@[simp] theorem imprints_nil : imprints [] = [] := rfl

@[simp] theorem imprints_cons (t : Token) (s : TokenStream) :
    imprints (t :: s) = t.imprint :: imprints s := rfl

@[simp] theorem imprints_append (s t : TokenStream) : imprints (s ++ t) = imprints s ++ imprints t :=
  List.map_append

theorem drop_length_takeWhile (p : Token → Bool) (ts : List Token) :
    ts.drop (ts.takeWhile p).length = ts.dropWhile p := by
  induction ts with
  | nil => rfl
  | cons t ts ih => by_cases ht : p t <;> simp [ht, ih]

theorem shiftAll?_imprints {bytes columns : Nat} {ts us : List Token}
    (h : shiftAll? bytes columns ts = some us) : imprints us = imprints ts := by
  induction ts generalizing us with
  | nil =>
    simp only [shiftAll?, Option.some.injEq] at h
    simp [← h]
  | cons t ts ih =>
    unfold shiftAll? at h
    split at h
    · rename_i u us' hu hus
      obtain ⟨v, hv, hu⟩ := Option.bind_eq_some_iff.mp hu
      simp only [Option.some.injEq] at h
      subst h
      simp [Token.shiftColumns?_imprint hu, Token.shiftBytes?_imprint hv, ih hus]
    · simp at h

theorem shiftColumnsAll?_imprints {columns : Nat} {ts us : List Token}
    (h : shiftColumnsAll? columns ts = some us) : imprints us = imprints ts := by
  induction ts generalizing us with
  | nil =>
    simp only [shiftColumnsAll?, Option.some.injEq] at h
    simp [← h]
  | cons t ts ih =>
    unfold shiftColumnsAll? at h
    split at h
    · rename_i u us' hu hus
      simp only [Option.some.injEq] at h
      subst h
      simp [Token.shiftColumns?_imprint hu, ih hus]
    · simp at h

/-- What an excision that succeeds has found, and the stream it leaves: the tokens before the range,
the rest of the line moved left, and the tokens of the lines after it. -/
theorem excise?_eq_some {s s' : TokenStream} {start count : Nat}
    (h : s.excise? start count = some s') :
    ∃ first last bytes columns moved,
      s[start]? = some first ∧ s[start + count - 1]? = some last ∧
      Token.checkedSub last.span.stop first.span.start = some bytes ∧
      Token.checkedSub last.region.stop.column first.region.start.column = some columns ∧
      shiftAll? bytes columns
        ((s.drop (start + count)).takeWhile fun t => t.line == last.line) = some moved ∧
      s' = s.take start ++ moved ++ (s.drop (start + count)).dropWhile fun t => t.line == last.line := by
  unfold excise? at h
  split at h
  · simp at h
  · split at h
    next first last hfirst hlast =>
      split at h
      next bytes columns hbytes hcolumns =>
        obtain ⟨moved, hmoved, rfl⟩ := Option.map_eq_some_iff.mp h
        refine ⟨first, last, bytes, columns, moved, hfirst, hlast, hbytes, hcolumns, hmoved, ?_⟩
        rw [drop_length_takeWhile]
      next => simp at h
    next => simp at h

/-- Excising takes out the imprints of the excised range and keeps all others in order. -/
theorem excise?_imprints {s s' : TokenStream} {start count : Nat}
    (h : s.excise? start count = some s') :
    imprints s' = imprints (s.take start) ++ imprints (s.drop (start + count)) := by
  obtain ⟨first, last, bytes, columns, moved, -, -, -, -, hmoved, rfl⟩ := excise?_eq_some h
  rw [imprints_append, imprints_append, shiftAll?_imprints hmoved, List.append_assoc,
    ← imprints_append, List.takeWhile_append_dropWhile]

theorem relocate?_perm {s s' : TokenStream} {run : IndexRange} {target : Nat}
    (h : s.relocate? run target = some s') : s'.Perm s := by
  unfold relocate? at h
  split at h
  · rename_i bounds
    simp only [Option.some.injEq] at h
    subst h
    have hfront : s.take target ++ (s.take run.start).drop target = s.take run.start := by
      have := List.take_append_drop target (s.take run.start)
      rwa [List.take_take, Nat.min_eq_left bounds.1] at this
    have hmiddle : s.take run.start ++ (s.take run.stop).drop run.start = s.take run.stop := by
      have := List.take_append_drop run.start (s.take run.stop)
      rwa [List.take_take, Nat.min_eq_left bounds.2.1] at this
    calc s.take target ++ (s.take run.stop).drop run.start ++ (s.take run.start).drop target ++
          s.drop run.stop
        |>.Perm (s.take target ++ (s.take run.start).drop target ++
          (s.take run.stop).drop run.start ++ s.drop run.stop) := by
          simp only [List.append_assoc]
          exact (List.perm_append_comm_assoc _ _ _).append_left _
      _ = s := by rw [hfront, hmiddle, List.take_append_drop]
  · simp at h

theorem dedentLine?_imprints {s s' : TokenStream} {i unit : Nat}
    (h : s.dedentLine? i unit = some s') : imprints s' = imprints s := by
  unfold dedentLine? at h
  split at h
  · simp at h
  · dsimp only at h
    split at h
    · simp only [Option.some.injEq] at h
      rw [h]
    · obtain ⟨moved, hmoved, rfl⟩ := Option.map_eq_some_iff.mp h
      rename_i t _ _
      generalize 1 + ((s.drop (i + 1)).takeWhile fun u => u.line == t.line).length = count at hmoved
      rw [imprints_append, imprints_append, shiftColumnsAll?_imprints hmoved, ← imprints_append,
        ← imprints_append, List.append_assoc, ← List.drop_drop, List.take_append_drop,
        List.take_append_drop]

theorem setValue?_imprints {s s' : TokenStream} {i : Nat} {value : String}
    (h : s.setValue? i value = some s') : imprints s' = imprints s := by
  unfold setValue? at h
  split at h
  · simp only [Option.some.injEq] at h
    subst h
    apply List.ext_getElem
    · simp [imprints]
    · intro n h₁ h₂
      simp only [imprints, List.getElem_map, List.getElem_modify]
      split <;> simp
  · simp at h

end TokenStream

end ClosureReady
