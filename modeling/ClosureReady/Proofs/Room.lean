import ClosureReady.Proofs.Edits

/-!
Room for an edit.  A token can be moved left as far as its offsets and columns allow, a list of tokens
as far as each of them can, and an edit that moves part of a line answers a stream exactly when every
token of that part has the room.  So what an edit fails on can be read off the tokens.
-/

set_option autoImplicit false
set_option relaxedAutoImplicit false

namespace ClosureReady

namespace Token

theorem hasRoom_iff {bytes columns : Nat} {t : Token} :
    t.HasRoom bytes columns ↔ bytes ≤ t.span.start ∧ bytes ≤ t.span.stop ∧ columns ≤ t.column ∧
      (t.isSingleLine = true → columns ≤ t.region.stop.column) :=
  ⟨fun h => ⟨h.start, h.stop, h.column, h.stopColumn⟩, fun ⟨a, b, c, d⟩ => ⟨a, b, c, d⟩⟩

instance (bytes columns : Nat) (t : Token) : Decidable (t.HasRoom bytes columns) :=
  decidable_of_iff _ hasRoom_iff.symm

theorem hasRoom_zero (t : Token) : t.HasRoom 0 0 :=
  ⟨Nat.zero_le _, Nat.zero_le _, Nat.zero_le _, fun _ => Nat.zero_le _⟩

theorem shiftColumns?_eq_some_iff {t u : Token} {columns : Nat} :
    t.shiftColumns? columns = some u ↔ t.HasRoom 0 columns ∧ u = t.movedLeft 0 columns := by
  constructor
  · intro h
    have hroom : t.HasRoom 0 columns := by
      unfold shiftColumns? at h
      split at h
      · simp at h
      · rename_i start hstart
        have hcolumn := (checkedSub_eq_some_iff.mp hstart).1
        refine ⟨Nat.zero_le _, Nat.zero_le _, hcolumn, fun hsingle => ?_⟩
        simp only [hsingle, if_true] at h
        split at h
        · simp at h
        · rename_i stop hstop
          exact (checkedSub_eq_some_iff.mp hstop).1
    rw [shiftColumns?_eq_some hroom.column hroom.stopColumn, Option.some.injEq] at h
    exact ⟨hroom, h.symm⟩
  · rintro ⟨hroom, rfl⟩
    exact shiftColumns?_eq_some hroom.column hroom.stopColumn

theorem shift_eq_some_iff {t u : Token} {bytes columns : Nat} :
    (t.shiftBytes? bytes).bind (·.shiftColumns? columns) = some u ↔
      t.HasRoom bytes columns ∧ u = t.movedLeft bytes columns := by
  constructor
  · intro h
    have hroom : t.HasRoom bytes columns := by
      obtain ⟨v, hv, hu⟩ := Option.bind_eq_some_iff.mp h
      unfold shiftBytes? at hv
      split at hv
      · rename_i start stop hstart hstop
        obtain rfl := Option.some.inj hv
        obtain ⟨-, -, hcolumn, hstopColumn⟩ := (shiftColumns?_eq_some_iff.mp hu).1
        exact ⟨(checkedSub_eq_some_iff.mp hstart).1, (checkedSub_eq_some_iff.mp hstop).1, hcolumn,
          hstopColumn⟩
      · simp at hv
    rw [hroom.shift, Option.some.injEq] at h
    exact ⟨hroom, h.symm⟩
  · rintro ⟨hroom, rfl⟩
    exact hroom.shift

end Token

namespace TokenStream

theorem shiftAll?_eq_some_iff {bytes columns : Nat} {ts us : List Token} :
    shiftAll? bytes columns ts = some us ↔
      (∀ t ∈ ts, t.HasRoom bytes columns) ∧ us = ts.map (·.movedLeft bytes columns) := by
  constructor
  · intro h
    have hroom : ∀ t ∈ ts, t.HasRoom bytes columns := by
      induction ts generalizing us with
      | nil => simp
      | cons t ts ih =>
        unfold shiftAll? at h
        split at h
        · rename_i u later hu hlater
          exact List.forall_mem_cons.mpr ⟨(Token.shift_eq_some_iff.mp hu).1, ih hlater⟩
        · simp at h
    rw [shiftAll?_eq_some hroom, Option.some.injEq] at h
    exact ⟨hroom, h.symm⟩
  · rintro ⟨hroom, rfl⟩
    exact shiftAll?_eq_some hroom

theorem shiftColumnsAll?_eq_some_iff {columns : Nat} {ts us : List Token} :
    shiftColumnsAll? columns ts = some us ↔
      (∀ t ∈ ts, t.HasRoom 0 columns) ∧ us = ts.map (·.movedLeft 0 columns) := by
  constructor
  · intro h
    have hroom : ∀ t ∈ ts, t.HasRoom 0 columns := by
      induction ts generalizing us with
      | nil => simp
      | cons t ts ih =>
        unfold shiftColumnsAll? at h
        split at h
        · rename_i u later hu hlater
          exact List.forall_mem_cons.mpr ⟨(Token.shiftColumns?_eq_some_iff.mp hu).1, ih hlater⟩
        · simp at h
    rw [shiftColumnsAll?_eq_some hroom, Option.some.injEq] at h
    exact ⟨hroom, h.symm⟩
  · rintro ⟨hroom, rfl⟩
    exact shiftColumnsAll?_eq_some hroom

/-- A line is dedented exactly when each of its tokens can go as far as the first one. -/
theorem dedentLine?_eq_some_iff {t : Token} {ts s : List Token} {unit : Nat} :
    dedentLine? (t :: ts) 0 unit = some s ↔
      (∀ u ∈ t :: ts.takeWhile (fun u => u.line == t.line), u.HasRoom 0 (min t.column unit)) ∧
        s = (t :: ts.takeWhile fun u => u.line == t.line).map (·.movedLeft 0 (min t.column unit)) ++
          ts.dropWhile fun u => u.line == t.line := by
  constructor
  · intro h
    have hroom : ∀ u ∈ t :: ts.takeWhile (fun u => u.line == t.line),
        u.HasRoom 0 (min t.column unit) := by
      have htake : ts.take (ts.takeWhile fun u => u.line == t.line).length =
          ts.takeWhile fun u => u.line == t.line :=
        (List.prefix_iff_eq_take.mp (List.takeWhile_prefix _)).symm
      unfold dedentLine? at h
      simp only [List.getElem?_cons_zero, List.drop_zero, List.drop_one, Nat.zero_add,
        List.tail_cons] at h
      split at h
      · rename_i hnone
        intro u _
        rw [hnone]
        exact u.hasRoom_zero
      · obtain ⟨moved, hmoved, -⟩ := Option.map_eq_some_iff.mp h
        rw [Nat.add_comm 1, List.take_succ_cons, htake] at hmoved
        exact (shiftColumnsAll?_eq_some_iff.mp hmoved).1
    rw [dedentLine?_cons hroom, Option.some.injEq] at h
    exact ⟨hroom, h.symm⟩
  · rintro ⟨hroom, rfl⟩
    exact dedentLine?_cons hroom

/-- Two neighbours are excised exactly when the second one ends right of where the first one starts,
and the rest of its line can follow by as much. -/
theorem excise?_pair_eq_some_iff {before after s : TokenStream} {a b : Token} :
    excise? (before ++ a :: b :: after) before.length 2 = some s ↔
      (a.span.start ≤ b.span.stop ∧ a.column ≤ b.region.stop.column ∧
        ∀ u ∈ after.takeWhile (fun u => u.line == b.line),
          u.HasRoom (b.span.stop - a.span.start) (b.region.stop.column - a.column)) ∧
      s = before ++ (after.takeWhile fun u => u.line == b.line).map
          (·.movedLeft (b.span.stop - a.span.start) (b.region.stop.column - a.column)) ++
        after.dropWhile fun u => u.line == b.line := by
  have hsplit : before ++ a :: b :: after = before ++ a :: b ::
      (after.takeWhile (fun u => u.line == b.line) ++ after.dropWhile fun u => u.line == b.line) := by
    rw [List.takeWhile_append_dropWhile]
  have hsucceeds : a.span.start ≤ b.span.stop → a.column ≤ b.region.stop.column →
      (∀ u ∈ after.takeWhile (fun u => u.line == b.line),
        u.HasRoom (b.span.stop - a.span.start) (b.region.stop.column - a.column)) →
      excise? (before ++ a :: b :: after) before.length 2 =
        some (before ++ (after.takeWhile fun u => u.line == b.line).map
          (·.movedLeft (b.span.stop - a.span.start) (b.region.stop.column - a.column)) ++
        after.dropWhile fun u => u.line == b.line) := by
    intro hbytes hcolumns hroom
    rw [hsplit]
    refine excise?_append hbytes hcolumns (fun u hu => ⟨?_, hroom u hu⟩) (fun u hu => ?_)
    · simpa using List.mem_takeWhile_imp hu
    · have hhead := List.head?_dropWhile_not (fun u => u.line == b.line) after
      rw [hu] at hhead
      simpa using hhead
  constructor
  · intro h
    obtain ⟨first, last, bytes, columns, moved, hfirst, hlast, hbytes, hcolumns, hmoved, -⟩ :=
      excise?_eq_some h
    obtain rfl : a = first := by simpa using hfirst
    obtain rfl : b = last := by simpa using hlast
    obtain ⟨hle, rfl⟩ := Token.checkedSub_eq_some_iff.mp hbytes
    obtain ⟨hwidth, rfl⟩ := Token.checkedSub_eq_some_iff.mp hcolumns
    have hdrop : (before ++ a :: b :: after).drop (before.length + 2) = after := by
      rw [← List.drop_drop, List.drop_left]
      rfl
    rw [hdrop] at hmoved
    have hroom := (shiftAll?_eq_some_iff.mp hmoved).1
    rw [hsucceeds hle hwidth hroom, Option.some.injEq] at h
    exact ⟨⟨hle, hwidth, hroom⟩, h.symm⟩
  · rintro ⟨⟨hbytes, hcolumns, hroom⟩, rfl⟩
    exact hsucceeds hbytes hcolumns hroom

end TokenStream

end ClosureReady
