import ClosureReady.Proofs.WrapperSearch

/-!
Streams whose lines are each in one place.  The lines of a stream that was read ascend, so their tokens
follow each other; a run of whole lines that moves up keeps that, and it keeps the order of the tokens on
every line.
-/

set_option autoImplicit false
set_option relaxedAutoImplicit false

namespace ClosureReady

namespace Token

theorem movedLeft_zero (t : Token) : t.movedLeft 0 0 = t := by
  rw [movedLeft]
  split <;> rfl

/-- The token moved left if it is on a line. -/
def movedOn (l columns : Nat) (t : Token) : Token := if t.line = l then t.movedLeft 0 columns else t

@[simp] theorem movedOn_line (l columns : Nat) (t : Token) : (t.movedOn l columns).line = t.line := by
  unfold movedOn
  split <;> rfl

theorem movedOn_word (l columns : Nat) (t : Token) : (t.movedOn l columns).word = t.word := by
  unfold movedOn
  split <;> rfl

end Token

namespace TokenStream

/-! ### Lines in one place -/

/-- Whether the tokens of a line are all at the front, if there are any. -/
def FrontOnly (l : Nat) (ts : List Token) : Prop :=
  ∀ u ∈ ts.dropWhile fun t => t.line == l, u.line ≠ l

/-- Whether the tokens of each line follow each other. -/
def Gathered : List Token → Prop
  | [] => True
  | t :: ts => FrontOnly t.line ts ∧ Gathered ts

/-- Whether a line ends at an index. -/
def BreaksAt (s : TokenStream) (k : Nat) : Prop :=
  ∀ t ∈ (s.take k).getLast?, ∀ u ∈ s[k]?, t.line ≠ u.line

instance (s : TokenStream) (k : Nat) : Decidable (s.BreaksAt k) :=
  inferInstanceAs (Decidable (∀ t ∈ (s.take k).getLast?, ∀ u ∈ s[k]?, t.line ≠ u.line))

section Gathered

variable {l : Nat} {t : Token} {xs ys ts : List Token}

theorem frontOnly_append (hxs : FrontOnly l xs) (hys : ∀ y ∈ ys, y.line ≠ l) :
    FrontOnly l (xs ++ ys) := by
  intro u hu
  rw [List.dropWhile_append] at hu
  split at hu
  · exact hys u ((List.dropWhile_sublist _).mem hu)
  · rcases List.mem_append.mp hu with hu | hu
    · exact hxs u hu
    · exact hys u hu

/-- Gathered lines may follow others. -/
theorem Gathered.append (hxs : Gathered xs) (hys : Gathered ys)
    (hdisjoint : ∀ x ∈ xs, ∀ y ∈ ys, x.line ≠ y.line) : Gathered (xs ++ ys) := by
  induction xs with
  | nil => exact hys
  | cons t xs ih =>
    obtain ⟨ht, hlater⟩ := List.forall_mem_cons.mp hdisjoint
    exact ⟨frontOnly_append hxs.1 fun y hy => (ht y hy).symm, ih hxs.2 hlater⟩

/-- Ascending lines are gathered. -/
theorem gathered_of_ordered (h : ts.Pairwise fun t u => t.line ≤ u.line) : Gathered ts := by
  induction ts with
  | nil => trivial
  | cons t ts ih =>
    obtain ⟨ht, hts⟩ := List.pairwise_cons.mp h
    refine ⟨?_, ih hts⟩
    have hrest := hts.sublist (List.dropWhile_sublist fun u => u.line == t.line)
    have hhead := List.head?_dropWhile_not (fun u : Token => u.line == t.line) ts
    unfold FrontOnly
    cases hdrop : ts.dropWhile fun u => u.line == t.line with
    | nil => simp
    | cons v vs =>
      rw [hdrop] at hrest hhead
      have hv := ht v ((List.dropWhile_sublist _).mem (hdrop ▸ List.mem_cons_self))
      have hne : v.line ≠ t.line := by simpa using hhead
      obtain ⟨hvs, -⟩ := List.pairwise_cons.mp hrest
      refine List.forall_mem_cons.mpr ⟨hne, fun u hu => ?_⟩
      have := hvs u hu
      omega

/-- What is moved on a line at the front is what is moved on the line. -/
theorem map_front_append (h : FrontOnly l ts) (columns : Nat) :
    (ts.takeWhile fun t => t.line == l).map (·.movedLeft 0 columns) ++
      ts.dropWhile (fun t => t.line == l) = ts.map (·.movedOn l columns) := by
  conv_rhs => rw [← List.takeWhile_append_dropWhile (p := fun t : Token => t.line == l) (l := ts)]
  rw [List.map_append]
  congr 1
  · refine List.map_congr_left fun u hu => ?_
    have hline : u.line = l := by simpa using List.mem_takeWhile_imp hu
    rw [Token.movedOn, if_pos hline]
  · conv_lhs => rw [← List.map_id (ts.dropWhile fun t => t.line == l)]
    refine List.map_congr_left fun u hu => ?_
    rw [Token.movedOn, if_neg (h u hu)]
    rfl

theorem frontOnly_map {f : Token → Token} (hf : ∀ t, (f t).line = t.line) (h : FrontOnly l ts) :
    FrontOnly l (ts.map f) := by
  have hlines : (fun t : Token => t.line == l) ∘ f = fun t => t.line == l := by
    funext t
    simp [hf]
  intro u hu
  rw [List.dropWhile_map, hlines] at hu
  obtain ⟨v, hv, rfl⟩ := List.mem_map.mp hu
  rw [hf]
  exact h v hv

theorem Gathered.map {f : Token → Token} (hf : ∀ t, (f t).line = t.line) (h : Gathered ts) :
    Gathered (ts.map f) := by
  induction ts with
  | nil => trivial
  | cons t ts ih =>
    refine ⟨?_, ih h.2⟩
    rw [hf]
    exact frontOnly_map hf h.1

/-- The last token before an index. -/
theorem getLast?_take_eq {s : TokenStream} {k : Nat} (h : 0 < k) (hk : k ≤ s.length) :
    (s.take k).getLast? = s[k - 1]? := by
  rw [List.getLast?_eq_getElem?, List.length_take, Nat.min_eq_left hk,
    List.getElem?_take_of_lt (by omega)]

/-- Where a line of an ascending stream ends, all lines before are above those after. -/
theorem BreaksAt.line_lt {s : TokenStream} {k : Nat} (h : s.BreaksAt k)
    (hs : s.Pairwise fun t u => t.line ≤ u.line) :
    ∀ t ∈ s.take k, ∀ u ∈ s.drop k, t.line < u.line := by
  intro t ht u hu
  obtain ⟨i, hi⟩ := List.mem_iff_getElem?.mp ht
  obtain ⟨j, hj⟩ := List.mem_iff_getElem?.mp hu
  rw [List.getElem?_take] at hi
  rw [List.getElem?_drop] at hj
  split at hi
  · rename_i hik
    have hlength := (List.getElem?_eq_some_iff.mp hj).1
    have hlast := getLast?_take_eq (show 0 < k by omega) (show k ≤ s.length by omega)
    have hbefore := List.getElem?_eq_getElem (show k - 1 < s.length by omega)
    have hafter := List.getElem?_eq_getElem (show k < s.length by omega)
    have hne := h _ (hlast.trans hbefore) _ hafter
    have hle := line_le_of_pairwise hs hi hbefore (by omega)
    have hge := line_le_of_pairwise hs hafter hj (by omega)
    have hmid := line_le_of_pairwise hs hbefore hafter (by omega)
    omega
  · simp at hi

end Gathered

/-! ### Moving whole lines -/

/-- Nothing is on a line that no token is on. -/
theorem filter_line_eq_nil {l : Nat} {ts : List Token} (h : ∀ t ∈ ts, t.line ≠ l) :
    ts.filter (fun t => t.line == l) = [] := by
  rw [List.filter_eq_nil_iff]
  intro t ht
  simpa using h t ht

theorem between_sublist {s : TokenStream} {a b : Nat} : (s.between a b).Sublist s :=
  (List.take_sublist _ _).trans (List.drop_sublist _ _)

theorem mem_take_of_mem_between {s : TokenStream} {a b : Nat} {t : Token} (h : t ∈ s.between a b) :
    t ∈ s.take b := by
  obtain ⟨k, -, hk, hget⟩ := mem_between_iff.mp h
  exact List.mem_of_getElem? ((List.getElem?_take_of_lt hk).trans hget)

/-- A stream with tokens between two ends in another order, each line still in one place. -/
structure Regrouped (start stop : Nat) (s s' : TokenStream) : Prop where
  front : s'.take (start + 1) = s.take (start + 1)
  back : s'.drop stop = s.drop stop
  perm : s'.Perm s
  lines : ∀ l, s'.filter (fun t => t.line == l) = s.filter fun t => t.line == l
  gathered : Gathered (s'.drop (start + 1))

theorem regrouped_refl {s : TokenStream} (hs : s.Pairwise fun t u => t.line ≤ u.line)
    (start stop : Nat) : Regrouped start stop s s :=
  ⟨rfl, rfl, .refl s, fun _ => rfl, gathered_of_ordered (hs.sublist (List.drop_sublist _ s))⟩

/-- Moving whole lines up regroups an ascending stream. -/
theorem regrouped_of_breaksAt {s : TokenStream} (hs : s.Pairwise fun t u => t.line ≤ u.line)
    {start stop a b c : Nat} (hstart : start < a) (hab : a ≤ b) (hbc : b ≤ c) (hstop : c ≤ stop)
    (hlength : c ≤ s.length) (ha : s.BreaksAt a) (hb : s.BreaksAt b) (hc : s.BreaksAt c) :
    Regrouped start stop s (s.take a ++ s.between b c ++ s.between a b ++ s.drop c) := by
  have hafter : s.between b c ++ s.drop c = s.drop b := between_append_drop hbc
  have hbody : s.between a b ++ s.drop b = s.drop a := between_append_drop hab
  -- The lines of the four parts are different.
  have hfront : ∀ t ∈ s.take a, ∀ u ∈ s.drop a, t.line ≠ u.line :=
    fun t ht u hu => (ha.line_lt hs t ht u hu).ne
  have hskipped : ∀ t ∈ s.between a b, ∀ u ∈ s.drop b, t.line ≠ u.line :=
    fun t ht u hu => (hb.line_lt hs t (mem_take_of_mem_between ht) u hu).ne
  have hmoved : ∀ t ∈ s.between b c, ∀ u ∈ s.drop c, t.line ≠ u.line :=
    fun t ht u hu => (hc.line_lt hs t (mem_take_of_mem_between ht) u hu).ne
  have hsplit : s.take a ++ (s.between a b ++ (s.between b c ++ s.drop c)) = s := by
    rw [hafter, hbody, List.take_append_drop]
  have hswapped : ∀ t ∈ s.between b c, ∀ u ∈ s.between a b, t.line ≠ u.line := fun t ht u hu =>
    (hskipped u hu t (hafter ▸ List.mem_append_left _ ht)).symm
  have hlast : ∀ t ∈ s.between a b, ∀ u ∈ s.drop c, t.line ≠ u.line := fun t ht u hu =>
    hskipped t ht u (hafter ▸ List.mem_append_right _ hu)
  have hsub : ∀ {xs : List Token}, xs.Sublist s → Gathered xs := fun hxs =>
    gathered_of_ordered (hs.sublist hxs)
  have hlen : (s.take a).length = a := by
    rw [List.length_take]
    omega
  have hlen' : (s.take a ++ s.between b c ++ s.between a b).length = c := by
    simp only [List.length_append, between, List.length_take, List.length_drop]
    omega
  refine ⟨?_, ?_, ?_, fun l => ?_, ?_⟩
  · simp only [List.append_assoc]
    rw [List.take_append_of_le_length (by omega), List.take_take, Nat.min_eq_left hstart]
  · rw [List.drop_append, List.drop_eq_nil_of_le (by omega), List.nil_append, hlen', List.drop_drop,
      Nat.add_sub_cancel' hstop]
  · conv_rhs => rw [← hsplit]
    simp only [List.append_assoc]
    refine List.Perm.append_left _ ?_
    rw [← List.append_assoc, ← List.append_assoc]
    exact List.perm_append_comm.append_right _
  · conv_rhs => rw [← hsplit]
    simp only [List.filter_append, List.append_assoc]
    congr 1
    -- One of the two parts has nothing on the line.
    by_cases hon : ∃ t ∈ s.between b c, t.line = l
    · obtain ⟨t, ht, rfl⟩ := hon
      rw [filter_line_eq_nil fun u hu => (hswapped t ht u hu).symm, List.nil_append, List.nil_append]
    · have hnone := filter_line_eq_nil fun u hu hline => hon ⟨u, hu, hline⟩
      rw [hnone, List.nil_append, List.nil_append]
  · simp only [List.append_assoc]
    rw [List.drop_append_of_le_length (by omega)]
    refine Gathered.append (hsub ((List.drop_sublist _ _).trans (List.take_sublist _ _))) ?_ ?_
    · refine Gathered.append (hsub between_sublist) (Gathered.append (hsub between_sublist)
        (hsub (List.drop_sublist _ _)) hlast) fun t ht u hu => ?_
      rcases List.mem_append.mp hu with hu | hu
      · exact hswapped t ht u hu
      · exact hmoved t ht u hu
    · intro t ht u hu
      refine hfront t ((List.drop_sublist _ _).mem ht) u ?_
      rw [← hbody, ← hafter]
      simp only [List.mem_append] at hu ⊢
      tauto

namespace Regrouped

variable {s s' : TokenStream} {start stop : Nat}

private theorem split (hle : start + 1 ≤ stop) (s : TokenStream) :
    s = s.take (start + 1) ++ (s.between (start + 1) stop ++ s.drop stop) := by
  rw [between_append_drop hle, List.take_append_drop]

theorem between_filter (h : Regrouped start stop s s') (hle : start + 1 ≤ stop) (l : Nat) :
    (s'.between (start + 1) stop).filter (fun t => t.line == l) =
      (s.between (start + 1) stop).filter fun t => t.line == l := by
  have hlines := h.lines l
  rw [split hle s', split hle s, h.front, h.back] at hlines
  simp only [List.filter_append] at hlines
  exact List.append_cancel_right (List.append_cancel_left hlines)

theorem between_perm (h : Regrouped start stop s s') (hle : start + 1 ≤ stop) :
    (s'.between (start + 1) stop).Perm (s.between (start + 1) stop) := by
  have hperm := h.perm
  rw [split hle s', split hle s, h.front, h.back] at hperm
  exact (List.perm_append_right_iff _).mp ((List.perm_append_left_iff _).mp hperm)

/-- A token between the ends comes from there, and the others stay. -/
theorem getElem? (h : Regrouped start stop s s') {k : Nat} {t : Token} (ht : s'[k]? = some t) :
    ∃ j, s[j]? = some t ∧
      ((start < k ∧ k < stop) ∧ (start < j ∧ j < stop) ∨ ¬ (start < k ∧ k < stop) ∧ j = k) := by
  by_cases hin : start < k ∧ k < stop
  · have hmem := (h.between_perm (by omega)).mem_iff.mp (mem_between_iff.mpr ⟨k, hin.1, hin.2, ht⟩)
    obtain ⟨j, hlow, hhigh, hj⟩ := mem_between_iff.mp hmem
    exact ⟨j, hj, Or.inl ⟨hin, hlow, hhigh⟩⟩
  · refine ⟨k, ?_, Or.inr ⟨hin, rfl⟩⟩
    rcases Nat.lt_or_ge start k with hlow | hhigh
    · have hback := congrArg (fun ts => ts[k - stop]?) h.back
      simp only [List.getElem?_drop, Nat.add_sub_cancel' (show stop ≤ k by omega)] at hback
      exact hback.symm.trans ht
    · have hfront := congrArg (fun ts => ts[k]?) h.front
      simp only [List.getElem?_take_of_lt (Nat.lt_succ_of_le hhigh)] at hfront
      exact hfront.symm.trans ht

end Regrouped

end TokenStream

end ClosureReady
