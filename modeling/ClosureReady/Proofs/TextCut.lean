import ClosureReady.Proofs.Edits
import ClosureReady.Source
import ClosureReady.Token.Print
import Mathlib.Data.List.Chain

/-!
Excising tokens out of a line that is in order is a cut in the printed text: the text of the tokens goes,
and what was printed before and behind them closes up.  The tokens behind them keep their distances, since
their starts and ends move together; the end of a token that reaches over the end of the line stays, and
no token of the line follows it.
-/

set_option autoImplicit false
set_option relaxedAutoImplicit false

namespace ClosureReady

/-! ### Lines in order -/

/-- Tokens that start on one line, from left to right: none ends before it starts, one that ends on the
line ends at or before the start of the next, and one that ends on a later line is the last. -/
structure LineInOrder (ts : List Token) : Prop where
  upright : ∀ t ∈ ts, t.line ≤ t.region.stop.line ∧ t.span.start ≤ t.span.stop ∧
    (t.isSingleLine = true → t.column ≤ t.region.stop.column)
  apart : ts.IsChain fun t u =>
    t.isSingleLine = true → t.region.stop.column ≤ u.column ∧ t.span.stop ≤ u.span.start
  ended : ts.IsChain fun t _ => ¬ t.line < t.region.stop.line

instance (ts : List Token) : Decidable (LineInOrder ts) :=
  decidable_of_iff ((∀ t ∈ ts, t.line ≤ t.region.stop.line ∧ t.span.start ≤ t.span.stop ∧
      (t.isSingleLine = true → t.column ≤ t.region.stop.column)) ∧
    (ts.IsChain fun t u =>
      t.isSingleLine = true → t.region.stop.column ≤ u.column ∧ t.span.stop ≤ u.span.start) ∧
    ts.IsChain fun t _ => ¬ t.line < t.region.stop.line)
    ⟨fun ⟨hupright, hapart, hended⟩ => ⟨hupright, hapart, hended⟩,
      fun h => ⟨h.upright, h.apart, h.ended⟩⟩

namespace LineInOrder

variable {t u : Token} {xs ts : List Token}

theorem of_append (xs : List Token) (h : LineInOrder (xs ++ ts)) : LineInOrder ts :=
  ⟨fun t ht => h.upright t (List.mem_append_right xs ht), (List.isChain_append.mp h.apart).2.1,
    (List.isChain_append.mp h.ended).2.1⟩

theorem of_prefix (h : LineInOrder ts) (hfront : xs <+: ts) : LineInOrder xs :=
  ⟨fun t ht => h.upright t (hfront.subset ht), h.apart.prefix hfront, h.ended.prefix hfront⟩

theorem tail (h : LineInOrder (t :: ts)) : LineInOrder ts :=
  h.of_append [t]

/-- A token that another one of the line follows ends on the line, before that one starts. -/
theorem follows (h : LineInOrder (t :: u :: ts)) : t.isSingleLine = true ∧
    t.region.stop.column ≤ u.column ∧ t.span.stop ≤ u.span.start := by
  have hended := (List.isChain_cons_cons.mp h.ended).1
  have hle := (h.upright t List.mem_cons_self).1
  have hsingle : t.isSingleLine = true := by
    refine beq_iff_eq.mpr ?_
    unfold Token.line at hended hle
    omega
  exact ⟨hsingle, (List.isChain_cons_cons.mp h.apart).1 hsingle⟩

/-- In a line in order no later token starts before the end of an earlier one. -/
theorem le_of_mem (h : LineInOrder (t :: ts)) (hu : u ∈ ts) :
    t.region.stop.column ≤ u.column ∧ t.span.stop ≤ u.span.start := by
  induction ts generalizing t with
  | nil => simp at hu
  | cons v vs ih =>
    obtain ⟨-, hcolumn, hspan⟩ := h.follows
    rcases List.mem_cons.mp hu with rfl | hu
    · exact ⟨hcolumn, hspan⟩
    · obtain ⟨w, ws, rfl⟩ := List.exists_cons_of_ne_nil (List.ne_nil_of_mem hu)
      have hsingle := h.tail.follows.1
      obtain ⟨-, hlong, hwide⟩ := h.tail.upright v List.mem_cons_self
      have hlater := ih h.tail hu
      have hv := hwide hsingle
      omega

/-- The tokens of a line in order have room to move as far left as an earlier one ends. -/
theorem hasRoom (h : LineInOrder (t :: ts)) (hu : u ∈ ts) {bytes columns : Nat}
    (hbytes : bytes ≤ t.span.stop) (hcolumns : columns ≤ t.region.stop.column) :
    u.HasRoom bytes columns := by
  obtain ⟨hcolumn, hspan⟩ := h.le_of_mem hu
  obtain ⟨-, hlong, hwide⟩ := h.upright u (List.mem_cons_of_mem t hu)
  refine ⟨by omega, by omega, by omega, fun hsingle => ?_⟩
  have := hwide hsingle
  omega

end LineInOrder

/-! ### Moved tokens print as before -/

namespace Token

variable {t u : Token} {bytes columns : Nat}

@[simp] theorem movedLeft_written : (t.movedLeft bytes columns).written = t.written := rfl

@[simp] theorem movedLeft_column : (t.movedLeft bytes columns).column = t.column - columns := rfl

@[simp] theorem movedLeft_span :
    (t.movedLeft bytes columns).span = ⟨t.span.start - bytes, t.span.stop - bytes⟩ := rfl

@[simp] theorem movedLeft_stop_line :
    (t.movedLeft bytes columns).region.stop.line = t.region.stop.line := by
  unfold movedLeft
  split <;> rfl

@[simp] theorem movedLeft_isSingleLine :
    (t.movedLeft bytes columns).isSingleLine = t.isSingleLine := by
  unfold isSingleLine
  rw [movedLeft_stop_line]
  rfl

theorem movedLeft_stop_column (h : t.isSingleLine = true) :
    (t.movedLeft bytes columns).region.stop.column = t.region.stop.column - columns := by
  unfold movedLeft
  rw [if_pos h]

theorem movedLeft_stop (h : t.isSingleLine = false) :
    (t.movedLeft bytes columns).region.stop = t.region.stop := by
  unfold movedLeft
  rw [if_neg (by simp [h])]

/-- Tokens of one line are set apart by the distance of their columns. -/
theorem separator_of_line_eq (h : u.line = t.region.stop.line) :
    separator t u = spaces (u.column - t.region.stop.column) :=
  if_pos h

/-- What is written in front of a token on another line does not depend on where the line ended. -/
theorem separator_of_line_ne {t' : Token} (h : u.line ≠ t.region.stop.line)
    (hline : t'.region.stop.line = t.region.stop.line) : separator t' u = separator t u := by
  unfold line at h
  unfold separator
  rw [hline, if_neg h, if_neg h]

end Token

theorem spaces_add (m n : Nat) : spaces (m + n) = spaces m ++ spaces n := by
  unfold spaces
  rw [← String.ofList_append, List.replicate_append_replicate]

namespace TokenStream

theorem printAfter_split (q p : Token) (xs ys : List Token) :
    printAfter q (xs ++ p :: ys) = printAfter q (xs ++ [p]) ++ printAfter p ys := by
  induction xs generalizing q with
  | nil => simp [printAfter]
  | cons x xs ih => simp only [List.cons_append, printAfter, ih x, String.append_assoc]

/-- The text of a stream is the text up to one of its tokens and what is printed after that token. -/
theorem print_split (p : Token) (xs ys : List Token) :
    print (xs ++ p :: ys) = print (xs ++ [p]) ++ printAfter p ys := by
  cases xs with
  | nil => simp [print, printAfter]
  | cons x xs =>
    rw [List.cons_append, List.cons_append, print, print, printAfter_split, String.append_assoc]

variable {line bytes columns : Nat} {t : Token} {ts after : List Token}

/-- A line in order that is moved as a whole is printed as before. -/
theorem printAfter_movedLeft (horder : LineInOrder (t :: ts)) (hline : ∀ u ∈ t :: ts, u.line = line)
    (hroom : ∀ u ∈ t :: ts, u.HasRoom bytes columns) (hafter : ∀ u ∈ after.head?, u.line ≠ line) :
    printAfter (t.movedLeft bytes columns) (ts.map (·.movedLeft bytes columns) ++ after) =
      printAfter t (ts ++ after) := by
  induction ts generalizing t with
  | nil =>
    cases after with
    | nil => rfl
    | cons u us =>
      -- The next token starts another line, or stands where the moved one still ends.
      have hseparator : Token.separator (t.movedLeft bytes columns) u = Token.separator t u := by
        cases hsingle : t.isSingleLine with
        | true =>
          have hstop : t.line = t.region.stop.line := beq_iff_eq.mp hsingle
          have hne : u.line ≠ t.region.stop.line := by
            rw [← hstop, hline t List.mem_cons_self]
            exact hafter u rfl
          exact Token.separator_of_line_ne hne Token.movedLeft_stop_line
        | false =>
          unfold Token.separator
          rw [Token.movedLeft_stop hsingle]
      simp only [List.map_nil, List.nil_append, printAfter, hseparator]
  | cons u us ih =>
    obtain ⟨hsingle, -, -⟩ := horder.follows
    have hstop : t.line = t.region.stop.line := beq_iff_eq.mp hsingle
    have hsame : u.line = t.region.stop.line := by
      rw [← hstop, hline t (by simp), hline u (by simp)]
    have hseparator : Token.separator (t.movedLeft bytes columns) (u.movedLeft bytes columns) =
        Token.separator t u := by
      have htstop := (hroom t (by simp)).stopColumn hsingle
      have hustart := (hroom u (by simp)).column
      rw [Token.separator_of_line_eq hsame, Token.separator_of_line_eq (by simpa using hsame),
        Token.movedLeft_column, Token.movedLeft_stop_column hsingle]
      congr 1
      omega
    have hus := ih horder.tail (fun v hv => hline v (List.mem_cons_of_mem t hv))
      (fun v hv => hroom v (List.mem_cons_of_mem t hv))
    simp only [List.map_cons, List.cons_append, printAfter, hseparator, Token.movedLeft_written, hus]

end TokenStream

/-! ### The cut -/

namespace LineInOrder

variable {p r last n : Token} {xs removed rest : List Token} {line : Nat}

/-- Width and length of tokens removed from a line in order, between a token before and one behind. -/
theorem removed_between (h : LineInOrder (p :: (removed ++ n :: rest)))
    (hfirst : removed.head? = some r) (hlast : removed.getLast? = some last) :
    (p.region.stop.column ≤ r.column ∧ p.span.stop ≤ r.span.start) ∧
    (r.column ≤ last.region.stop.column ∧ r.span.start ≤ last.span.stop) ∧
    LineInOrder (last :: n :: rest) := by
  obtain ⟨front, rfl⟩ := List.getLast?_eq_some_iff.mp hlast
  have hbehind : LineInOrder (last :: n :: rest) := by
    refine of_append front ?_
    simpa using h.tail
  have hlong := (hbehind.upright last List.mem_cons_self).2.1
  have hwide := (hbehind.upright last List.mem_cons_self).2.2 hbehind.follows.1
  have hmem : r ∈ front ++ [last] := List.mem_of_head? hfirst
  refine ⟨h.le_of_mem (List.mem_append_left _ hmem), ?_, hbehind⟩
  cases front with
  | nil =>
    obtain rfl : last = r := by simpa using hfirst
    exact ⟨hwide, hlong⟩
  | cons f front =>
    obtain rfl : f = r := by simpa using hfirst
    have hf : LineInOrder (f :: (front ++ last :: n :: rest)) := by simpa using h.tail
    have hfl := hf.le_of_mem (u := last) (by simp)
    obtain ⟨-, hflong, hfwide⟩ := hf.upright f List.mem_cons_self
    have hfsingle : f.isSingleLine = true := by
      cases front with
      | nil => exact hf.follows.1
      | cons g front => exact hf.follows.1
    have := hfwide hfsingle
    omega

end LineInOrder

namespace TokenStream

variable {removed rest after : TokenStream} {p r last n : Token} {line : Nat}

/-- What is printed between the tokens before and behind a cut is what was printed in front of the first
removed token and behind the last. -/
theorem separator_cut (horder : LineInOrder (p :: (removed ++ n :: rest)))
    (hline : ∀ u ∈ p :: (removed ++ n :: rest), u.line = line)
    (hfirst : removed.head? = some r) (hlast : removed.getLast? = some last) :
    Token.separator p (n.movedLeft (last.span.stop - r.span.start)
      (last.region.stop.column - r.column)) = Token.separator p r ++ Token.separator last n := by
  obtain ⟨⟨hleft, -⟩, ⟨hwidth, -⟩, hbehind⟩ := horder.removed_between hfirst hlast
  obtain ⟨hsingle, hright, -⟩ := hbehind.follows
  have hstop : last.line = last.region.stop.line := beq_iff_eq.mp hsingle
  have hpstop : p.line = p.region.stop.line := by
    cases removed with
    | nil => simp at hfirst
    | cons r' rs => exact beq_iff_eq.mp horder.follows.1
  have hp := hline p (by simp)
  have hn := hline n (by simp)
  have hr := hline r (by simp [List.mem_of_head? hfirst])
  have hl := hline last (by simp [List.mem_of_getLast? hlast])
  rw [Token.separator_of_line_eq (by simp [hn, ← hpstop, hp]),
    Token.separator_of_line_eq (by rw [hr, ← hpstop, hp]),
    Token.separator_of_line_eq (by rw [hn, ← hstop, hl]), ← spaces_add, Token.movedLeft_column]
  congr 1
  omega

/-- The tokens behind the removed ones have room to follow. -/
theorem hasRoom_cut (horder : LineInOrder (p :: (removed ++ n :: rest)))
    (hfirst : removed.head? = some r) (hlast : removed.getLast? = some last) :
    ∀ u ∈ n :: rest, u.HasRoom (last.span.stop - r.span.start)
      (last.region.stop.column - r.column) := by
  obtain ⟨-, -, hbehind⟩ := horder.removed_between hfirst hlast
  exact fun u hu => hbehind.hasRoom hu (Nat.sub_le _ _) (Nat.sub_le _ _)

theorem excise?_line (before : TokenStream) (horder : LineInOrder (p :: (removed ++ n :: rest)))
    (hline : ∀ u ∈ p :: (removed ++ n :: rest), u.line = line)
    (hafter : ∀ u ∈ after.head?, u.line ≠ line)
    (hfirst : removed.head? = some r) (hlast : removed.getLast? = some last) :
    excise? (before ++ (removed ++ (n :: rest ++ after))) before.length removed.length =
      some (before ++ (n :: rest).map (·.movedLeft
        (last.span.stop - r.span.start) (last.region.stop.column - r.column)) ++ after) := by
  obtain ⟨-, ⟨hwidth, hlength⟩, -⟩ := horder.removed_between hfirst hlast
  have hl : last.line = line := hline last (by simp [List.mem_of_getLast? hlast])
  refine excise?_run hfirst hlast hlength hwidth (fun u hu => ⟨?_, ?_⟩) (hl ▸ hafter)
  · rw [hl, hline u (by simp only [List.mem_cons, List.mem_append] at hu ⊢; tauto)]
  · exact hasRoom_cut horder hfirst hlast u hu

/-- The text without the removed tokens is the text with theirs cut out. -/
theorem print_cut (before : TokenStream) (horder : LineInOrder (p :: (removed ++ n :: rest)))
    (hline : ∀ u ∈ p :: (removed ++ n :: rest), u.line = line)
    (hafter : ∀ u ∈ after.head?, u.line ≠ line)
    (hfirst : removed.head? = some r) (hlast : removed.getLast? = some last) :
    ∃ A B, print (before ++ p :: (removed ++ (n :: rest ++ after))) = A ++ print removed ++ B ∧
      print (before ++ p :: ((n :: rest).map (·.movedLeft (last.span.stop - r.span.start)
        (last.region.stop.column - r.column)) ++ after)) = A ++ B := by
  refine ⟨print (before ++ [p]) ++ Token.separator p r, printAfter last (n :: rest ++ after), ?_, ?_⟩
  · have hfront : printAfter p (removed ++ (n :: rest ++ after)) =
        Token.separator p r ++ print (removed ++ (n :: rest ++ after)) := by
      cases removed with
      | nil => simp at hfirst
      | cons r' rs =>
        obtain rfl : r' = r := by simpa using hfirst
        rw [List.cons_append, printAfter, print, String.append_assoc]
    have hback : print (removed ++ (n :: rest ++ after)) =
        print removed ++ printAfter last (n :: rest ++ after) := by
      obtain ⟨rs, rfl⟩ := List.getLast?_eq_some_iff.mp hlast
      rw [List.append_assoc, List.singleton_append, print_split]
    rw [print_split, hfront, hback]
    simp only [String.append_assoc]
  · have hrest : ∀ u ∈ n :: rest, u.line = line := fun u hu =>
      hline u (by simp only [List.mem_cons, List.mem_append] at hu ⊢; tauto)
    have hmoved := printAfter_movedLeft (horder.removed_between hfirst hlast).2.2.tail hrest
      (hasRoom_cut horder hfirst hlast) hafter
    rw [print_split, List.map_cons, List.cons_append, printAfter, hmoved,
      separator_cut horder hline hfirst hlast, List.cons_append, printAfter, Token.movedLeft_written]
    simp only [String.append_assoc]

end TokenStream

namespace LineInOrder

variable {p r last n t u : Token} {xs ys removed rest ts : List Token} {bytes columns : Nat}

theorem append_overlap (hfront : LineInOrder (xs ++ [p])) (hback : LineInOrder (p :: ys)) :
    LineInOrder (xs ++ p :: ys) := by
  have happend : xs ++ p :: ys = xs ++ [p] ++ ys := by simp
  refine ⟨fun t ht => ?_, ?_, ?_⟩
  · rcases List.mem_append.mp ht with ht | ht
    · exact hfront.upright t (List.mem_append_left _ ht)
    · exact hback.upright t ht
  · exact happend ▸ hfront.apart.append_overlap hback.apart (by simp)
  · exact happend ▸ hfront.ended.append_overlap hback.ended (by simp)

/-- A line in order stays so when one token is put in front of it. -/
theorem cons_of_follows (h : LineInOrder (u :: ts)) (hupright : LineInOrder [t])
    (hsingle : t.isSingleLine = true) (hcolumn : t.region.stop.column ≤ u.column)
    (hspan : t.span.stop ≤ u.span.start) : LineInOrder (t :: u :: ts) := by
  have hstop : t.line = t.region.stop.line := beq_iff_eq.mp hsingle
  refine ⟨?_, List.isChain_cons_cons.mpr ⟨fun _ => ⟨hcolumn, hspan⟩, h.apart⟩,
    List.isChain_cons_cons.mpr ⟨by omega, h.ended⟩⟩
  rintro v (_ | ⟨_, hv⟩)
  · exact hupright.upright t List.mem_cons_self
  · exact h.upright v hv

theorem singleton (h : LineInOrder ts) (ht : t ∈ ts) : LineInOrder [t] :=
  ⟨by simpa using h.upright t ht, List.isChain_singleton t, List.isChain_singleton t⟩

theorem movedLeft_singleton (h : LineInOrder [t]) : LineInOrder [t.movedLeft bytes columns] := by
  obtain ⟨hle, hlong, hwide⟩ := h.upright t List.mem_cons_self
  refine ⟨?_, List.isChain_singleton _, List.isChain_singleton _⟩
  simp only [List.mem_singleton, forall_eq, Token.movedLeft_line, Token.movedLeft_stop_line,
    Token.movedLeft_span, Token.movedLeft_isSingleLine, Token.movedLeft_column]
  refine ⟨hle, by omega, fun hsingle => ?_⟩
  have := hwide hsingle
  rw [Token.movedLeft_stop_column hsingle]
  omega

/-- A line in order that is moved as a whole stays in order. -/
theorem movedLeft (h : LineInOrder ts) : LineInOrder (ts.map (·.movedLeft bytes columns)) := by
  induction ts with
  | nil => exact h
  | cons t ts ih =>
    cases ts with
    | nil => exact movedLeft_singleton h
    | cons u us =>
      obtain ⟨hsingle, hcolumn, hspan⟩ := h.follows
      refine cons_of_follows (ih h.tail) (movedLeft_singleton (h.singleton List.mem_cons_self))
        (Token.movedLeft_isSingleLine.trans hsingle) ?_ ?_
      · rw [Token.movedLeft_stop_column hsingle, Token.movedLeft_column]
        omega
      · simp only [Token.movedLeft_span]
        omega

/-- A line in order is in order after the cut. -/
theorem cut (h : LineInOrder (p :: (removed ++ n :: rest)))
    (hfirst : removed.head? = some r) (hlast : removed.getLast? = some last) :
    LineInOrder (p :: (n :: rest).map (·.movedLeft (last.span.stop - r.span.start)
      (last.region.stop.column - r.column))) := by
  obtain ⟨⟨hleft, hnear⟩, ⟨hwidth, hlength⟩, hbehind⟩ := h.removed_between hfirst hlast
  obtain ⟨-, hright, hfar⟩ := hbehind.follows
  have hsingle : p.isSingleLine = true := by
    cases removed with
    | nil => simp at hfirst
    | cons r' rs => exact h.follows.1
  refine cons_of_follows hbehind.tail.movedLeft (h.singleton List.mem_cons_self) hsingle ?_ ?_
  · rw [Token.movedLeft_column]
    omega
  · simp only [Token.movedLeft_span]
    omega

end LineInOrder

/-! ### Streams -/

namespace TokenStream

/-- The tokens from an index on that start on a line, up to the first that does not. -/
def lineFrom (s : TokenStream) (line i : Nat) : List Token :=
  (s.drop i).takeWhile fun t => t.line == line

theorem lineFrom_append (before : TokenStream) {ts after : TokenStream} {line : Nat}
    (hts : ∀ u ∈ ts, u.line = line) (hafter : ∀ u ∈ after.head?, u.line ≠ line) :
    lineFrom (before ++ (ts ++ after)) line before.length = ts := by
  unfold lineFrom
  rw [List.drop_left, takeWhile_append_of_head? (by simpa using hafter)]
  exact List.takeWhile_eq_self_iff.mpr fun u hu => by simp [hts u hu]

/-- The rest of the line behind a token is where the line goes on. -/
theorem restOfLine?_append {before ts after : TokenStream} {last : Token} {i : Nat}
    (hlast : before.getLast? = some last) (hi : i + 1 = before.length)
    (hts : ∀ u ∈ ts, u.line = last.line) (hafter : ∀ u ∈ after.head?, u.line ≠ last.line) :
    restOfLine? (before ++ (ts ++ after)) i =
      some ⟨before.length, before.length + ts.length⟩ := by
  have hget : (before ++ (ts ++ after))[i]? = some last := by
    rw [List.getElem?_append_left (by omega), ← hlast, List.getLast?_eq_getElem?, ← hi,
      Nat.add_sub_cancel]
  have hline := lineFrom_append before hts hafter
  unfold lineFrom at hline
  unfold restOfLine?
  rw [hget, Option.map_some, hi, hline]

theorem length_lineFrom_ge {s : TokenStream} {line i k : Nat}
    (h : ∀ j < k, ∃ t, s[i + j]? = some t ∧ t.line = line) : k ≤ (s.lineFrom line i).length := by
  unfold lineFrom
  induction k generalizing i with
  | zero => exact Nat.zero_le _
  | succ k ih =>
    obtain ⟨t, ht, hline⟩ := h 0 (Nat.succ_pos k)
    have hdrop : s.drop i = t :: s.drop (i + 1) := List.drop_eq_getElem?_toList_append ▸ by
      rw [← Nat.add_zero i, ht]
      rfl
    have hrest := ih (i := i + 1) fun j hj => by
      obtain ⟨u, hu, huline⟩ := h (j + 1) (by omega)
      exact ⟨u, by rw [← hu]; congr 1; omega, huline⟩
    rw [hdrop, List.takeWhile_cons_of_pos (by simp [hline]), List.length_cons]
    omega

/-- A list parted at one of its elements. -/
theorem exists_parted {α : Type} (xs : List α) {i : Nat} (h : i < xs.length) :
    ∃ front x back, xs = front ++ x :: back ∧ front.length = i :=
  ⟨xs.take i, xs[i], xs.drop (i + 1), by simp, by simp; omega⟩

/-- What stands before, in and behind a run of a list. -/
theorem around_run {α : Type} {xs front run back : List α} (h : xs = front ++ (run ++ back)) :
    xs.take front.length = front ∧ (xs.drop front.length).take run.length = run ∧
      xs.drop (front.length + run.length) = back := by
  subst h
  rw [← List.drop_drop, List.take_left, List.drop_left, List.take_left, List.drop_left]
  exact ⟨rfl, rfl, rfl⟩

variable {s : TokenStream} {first start count line : Nat}

/-- Tokens that stand together on a line, with another before and one behind, and the stream around
them. -/
theorem exists_line_parts (hfirst : first < start)
    (hline : ∀ i, first ≤ i → i ≤ start + count → ∃ t, s[i]? = some t ∧ t.line = line) :
    ∃ before front p removed n rest after,
      s = before ++ (front ++ p :: (removed ++ n :: rest)) ++ after ∧
      before.length = first ∧ first + front.length + 1 = start ∧ removed.length = count ∧
      s.lineFrom line first = front ++ p :: (removed ++ n :: rest) ∧
      ∀ u ∈ after.head?, u.line ≠ line := by
  have hlong : start + count + 1 - first ≤ (s.lineFrom line first).length :=
    length_lineFrom_ge fun j hj => hline (first + j) (by omega) (by omega)
  have hlength : first < s.length := by
    obtain ⟨t, ht, -⟩ := hline first (Nat.le_refl _) (by omega)
    exact (List.getElem?_eq_some_iff.mp ht).1
  obtain ⟨front, p, back, hfront, hfrontLength⟩ :=
    exists_parted (s.lineFrom line first) (i := start - first - 1) (by omega)
  have hback : start - first + back.length = (s.lineFrom line first).length := by
    rw [hfront, List.length_append, List.length_cons]
    omega
  obtain ⟨removed, n, rest, rfl, hremoved⟩ := exists_parted back (i := count) (by omega)
  refine ⟨s.take first, front, p, removed, n, rest, (s.drop first).dropWhile fun t => t.line == line,
    ?_, by simp; omega, by omega, hremoved, hfront, fun u hu => ?_⟩
  · rw [← hfront, List.append_assoc]
    unfold lineFrom
    rw [List.takeWhile_append_dropWhile, List.take_append_drop]
  · have hfalse := List.head?_dropWhile_not (fun t : Token => t.line == line) (s.drop first)
    rw [hu] at hfalse
    simpa using hfalse

end TokenStream

/-- Excising tokens that stand together on a line in order, with a token of the line before them and one
behind, is a cut in the text: it succeeds, the text of the tokens goes and what stood around it stays as
it was, the tokens before them and those behind the line are untouched, those that remain keep their
identities, classes and texts, and the line is in order again. -/
theorem excise_cuts_text {s : TokenStream} {first start count line : Nat} (hfirst : first < start)
    (hcount : 1 ≤ count)
    (hline : ∀ i, first ≤ i → i ≤ start + count → ∃ t, s[i]? = some t ∧ t.line = line)
    (horder : LineInOrder (s.lineFrom line first)) :
    ∃ s', s.excise? start count = some s' ∧
      (∃ A B, s.print = A ++ TokenStream.print ((s.drop start).take count) ++ B ∧
        s'.print = A ++ B) ∧
      s'.take start = s.take start ∧
      (∃ rest, s.restOfLine? (start + count - 1) = some rest ∧
        s'.drop (rest.stop - count) = s.drop rest.stop) ∧
      (s'.map fun t => (t.id, t.kind, t.value)) =
        ((s.take start ++ s.drop (start + count)).map fun t => (t.id, t.kind, t.value)) ∧
      LineInOrder (s'.lineFrom line first) := by
  obtain ⟨before, front, p, removed, n, rest, after, hs, hbefore, hstart, hremoved, hfrom, hafter⟩ :=
    TokenStream.exists_line_parts hfirst hline
  have hmem : ∀ u ∈ front ++ p :: (removed ++ n :: rest), u.line = line := by
    intro u hu
    rw [← hfrom] at hu
    simpa using List.mem_takeWhile_imp hu
  rw [hfrom] at horder
  have hcut : LineInOrder (p :: (removed ++ n :: rest)) := horder.of_append front
  have hcutLine : ∀ u ∈ p :: (removed ++ n :: rest), u.line = line :=
    fun u hu => hmem u (List.mem_append_right front hu)
  have hrestLine : ∀ u ∈ n :: rest, u.line = line :=
    fun u hu => hcutLine u (by simp only [List.mem_cons, List.mem_append] at hu ⊢; tauto)
  have hne : removed ≠ [] := by
    rintro rfl
    simp at hremoved
    omega
  have hhead := List.head?_eq_some_head hne
  have hlast := List.getLast?_eq_some_getLast hne
  have hlastLine : (removed.getLast hne).line = line :=
    hcutLine _ (by simp [List.mem_of_getLast? hlast])
  -- The stream up to the tokens to go, those tokens, and the stream behind them.
  have hlength : (before ++ front ++ [p]).length = start := by
    simp only [List.length_append, List.length_singleton]
    omega
  have hparts : s = before ++ front ++ [p] ++ (removed ++ (n :: rest ++ after)) := by
    simp [hs]
  obtain ⟨htake, hgone, hdrop⟩ := TokenStream.around_run hparts
  rw [hlength] at htake hgone hdrop
  rw [hremoved] at hgone hdrop
  have hexcise := TokenStream.excise?_line (before ++ front ++ [p]) hcut hcutLine hafter
    hhead hlast
  rw [hlength, hremoved, ← hparts] at hexcise
  refine ⟨_, hexcise, ?_, ?_, ?_, ?_, ?_⟩
  · obtain ⟨A, B, hwith, hwithout⟩ :=
      TokenStream.print_cut (before ++ front) hcut hcutLine hafter hhead hlast
    refine ⟨A, B, ?_, ?_⟩
    · rw [hgone, ← hwith, hparts, List.append_assoc, List.singleton_append]
    · rw [← hwithout, List.append_assoc, List.append_assoc, List.singleton_append]
  · rw [htake, List.append_assoc, ← hlength, List.take_left]
  · have hbehind : (before ++ front ++ [p] ++ removed).length = start + count := by
      rw [List.length_append, hlength, hremoved]
    have hrest := TokenStream.restOfLine?_append (i := start + count - 1)
      (List.getLast?_append_of_ne_nil (before ++ front ++ [p]) hne ▸ hlast) (by omega)
      (hlastLine ▸ hrestLine) (hlastLine ▸ hafter)
    rw [List.append_assoc, ← hparts, hbehind] at hrest
    refine ⟨_, hrest, ?_⟩
    have hwidth : start + count + (n :: rest).length - count = start + (n :: rest).length := by omega
    rw [← List.drop_drop, hdrop, List.drop_left, hwidth]
    exact List.drop_left' (by rw [List.length_append, hlength, List.length_map])
  · rw [htake, hdrop, ← List.append_assoc]
    simp only [List.map_append, List.map_map]
    rfl
  · rw [show ∀ ts, before ++ front ++ [p] ++ ts ++ after = before ++ (front ++ p :: ts ++ after) by
      simp, ← hbefore, TokenStream.lineFrom_append before ?_ hafter]
    · exact (horder.of_prefix ⟨removed ++ n :: rest, by simp⟩).append_overlap (hcut.cut hhead hlast)
    · intro u hu
      rcases List.mem_append.mp hu with hu | hu
      · exact hmem u (List.mem_append_left _ hu)
      · rcases List.mem_cons.mp hu with rfl | hu
        · exact hcutLine u List.mem_cons_self
        · obtain ⟨v, hv, rfl⟩ := List.mem_map.mp hu
          exact hrestLine v hv

/-- A declarator and the comma before it go; the comment behind them, which reaches into the next line,
follows the comma. -/
theorem excise_cuts_text_declarator :
    ∃ tokens comments s', splitSource (LineIndex.ofChars "var Bar, Foo, /*\n*/ x;".toList) [] [⟨14, 19⟩]
        "var Bar, Foo, /*\n*/ x;".toList = some (tokens, comments) ∧
      (TokenStream.prepare tokens comments).excise? 2 2 = some s' ∧
      (∃ A B, (TokenStream.prepare tokens comments).print = A ++ ", Foo" ++ B ∧ s'.print = A ++ B) ∧
      s'.print = "var Bar, /*\n*/ x;" ∧ LineInOrder (s'.lineFrom 1 0) := by
  have hrun : ((splitSource (LineIndex.ofChars "var Bar, Foo, /*\n*/ x;".toList) [] [⟨14, 19⟩]
      "var Bar, Foo, /*\n*/ x;".toList).any fun parts =>
        decide (∀ i < 5, ((TokenStream.prepare parts.1 parts.2)[i]?.any (·.line == 1)) = true) &&
        decide (LineInOrder ((TokenStream.prepare parts.1 parts.2).lineFrom 1 0) ∧
          TokenStream.print (((TokenStream.prepare parts.1 parts.2).drop 2).take 2) = ", Foo" ∧
          ((TokenStream.prepare parts.1 parts.2).excise? 2 2).map TokenStream.print =
            some "var Bar, /*\n*/ x;")) = true := by
    decide +kernel
  obtain ⟨⟨tokens, comments⟩, hsplit, hparts⟩ := (Option.any_eq_true _ _).mp hrun
  obtain ⟨hline, hfacts⟩ := Bool.and_eq_true_iff.mp hparts
  obtain ⟨horder, hgone, hprint⟩ := of_decide_eq_true hfacts
  have hfive : ∀ i, 0 ≤ i → i ≤ 2 + 2 →
      ∃ t, (TokenStream.prepare tokens comments)[i]? = some t ∧ t.line = 1 := by
    intro i _ hi
    obtain ⟨t, ht, htline⟩ := (Option.any_eq_true _ _).mp (of_decide_eq_true hline i (by omega))
    exact ⟨t, ht, beq_iff_eq.mp htline⟩
  obtain ⟨s', hs', hcut, -, -, -, horder'⟩ :=
    excise_cuts_text (by decide) (by decide) hfive horder
  refine ⟨tokens, comments, s', hsplit, hs', hgone ▸ hcut, ?_, horder'⟩
  simpa [hs'] using hprint

end ClosureReady
