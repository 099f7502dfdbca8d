import ClosureReady.Proofs.PassFlags
import Mathlib.Data.List.TakeWhile

/-!
The first pass as a whole.  In a stream with ascending lines the range of a line holds all its tokens, so
closing a first line rewrites the last token that starts there.  The walk closes the first lines of the
split declarations one after the other, and ends at the first that does not end in a comma at that moment;
a line that was closed before ends in a semicolon, so no line is closed twice.
-/

set_option autoImplicit false
set_option relaxedAutoImplicit false

namespace ClosureReady

/-! ### The tokens of a line -/

namespace TokenStream

/-- The last token that starts on a line. -/
def lastOnLine? (s : TokenStream) (line : Nat) : Option Token :=
  (s.filter fun t => t.line == line).getLast?

theorem lastOnLine?_cons (t : Token) (ts : TokenStream) (line : Nat) :
    lastOnLine? (t :: ts) line = (lastOnLine? ts line).or (if t.line = line then some t else none) := by
  unfold lastOnLine?
  by_cases ht : t.line = line
  · rw [List.filter_cons_of_pos (by simp [ht]), List.getLast?_cons, if_pos ht]
    cases (ts.filter fun u => u.line == line).getLast? <;> rfl
  · rw [List.filter_cons_of_neg (by simp [ht]), if_neg ht, Option.or_none]

theorem lastOnLine?_eq_none_iff {s : TokenStream} {line : Nat} :
    s.lastOnLine? line = none ↔ ∀ t ∈ s, t.line ≠ line := by
  unfold lastOnLine?
  simp

/-- A condition that passes from a later element to the earlier ones holds of a front of the list. -/
theorem takeWhile_eq_filter {p : Token → Bool} {s : TokenStream}
    (h : s.Pairwise fun t u => p u = true → p t = true) :
    s.takeWhile p = s.filter p ∧ s.dropWhile p = s.filter fun t => !p t := by
  induction s with
  | nil => exact ⟨rfl, rfl⟩
  | cons t ts ih =>
    obtain ⟨hhead, htail⟩ := List.pairwise_cons.mp h
    cases ht : p t with
    | true => simp [ht, ih htail]
    | false =>
      have hnone : ∀ u ∈ ts, p u = false := fun u hu => by
        cases hpu : p u with
        | false => rfl
        | true => exact absurd (hhead u hu hpu) (by simp [ht])
      have hkept : ts.filter p = [] := List.filter_eq_nil_iff.mpr fun u hu => by simp [hnone u hu]
      have hdropped : (ts.filter fun u => !p u) = ts :=
        List.filter_eq_self.mpr fun u hu => by simp [hnone u hu]
      simp [ht, hkept, hdropped]

/-- In a stream whose lines ascend, the range of a line holds the tokens that start on it. -/
theorem exists_lineRange {s : TokenStream} (hs : s.Pairwise fun t u => t.line ≤ u.line) (line : Nat) :
    ∃ before after, s = before ++ ((s.filter fun t => t.line == line) ++ after) ∧
      (∀ t ∈ before ++ after, t.line ≠ line) ∧ s.lineRange line =
        ⟨before.length, before.length + (s.filter fun t => t.line == line).length⟩ := by
  set rest := s.dropWhile fun t => decide (t.line < line) with hrest
  obtain ⟨hbefore, hdrop⟩ := takeWhile_eq_filter (p := fun t => decide (t.line < line))
    (hs.imp fun hle hlt => by simp only [decide_eq_true_eq] at hlt ⊢; omega)
  have hlow : ∀ t ∈ rest, line ≤ t.line := fun t ht => by
    rw [hrest, hdrop] at ht
    simpa using (List.mem_filter.mp ht).2
  have hordered : rest.Pairwise fun t u => (u.line == line) = true → (t.line == line) = true := by
    refine (hs.sublist (List.dropWhile_sublist _)).imp_of_mem fun ht _ hle hu => ?_
    have := hlow _ ht
    simp only [beq_iff_eq] at hu ⊢
    omega
  obtain ⟨hon, hafter⟩ := takeWhile_eq_filter hordered
  have hsame : (rest.filter fun t => t.line == line) = s.filter fun t => t.line == line := by
    rw [hrest, hdrop, List.filter_filter]
    refine List.filter_congr fun t _ => ?_
    by_cases ht : t.line = line <;> simp [ht]
  refine ⟨s.takeWhile fun t => decide (t.line < line), rest.dropWhile fun t => t.line == line,
    ?_, ?_, ?_⟩
  · rw [← hsame, ← hon, List.takeWhile_append_dropWhile, List.takeWhile_append_dropWhile]
  · intro t ht
    rcases List.mem_append.mp ht with ht | ht
    · rw [hbefore] at ht
      have := (List.mem_filter.mp ht).2
      simp only [decide_eq_true_eq] at this
      omega
    · rw [hafter] at ht
      simpa using (List.mem_filter.mp ht).2
  · unfold lineRange
    simp only [drop_length_takeWhile]
    rw [← hrest, hon, hsame]

/-- A token as it stands in front of others when lines are closed: the last one of such a line becomes a
semicolon. -/
def closing (lines : List Nat) (t : Token) (ts : TokenStream) : Token :=
  if t.line ∈ lines ∧ ∀ u ∈ ts, u.line ≠ t.line then t.withValue ";" else t

/-- Closes lines: the last token that starts on each of them becomes a semicolon. -/
def closeLines (lines : List Nat) : TokenStream → TokenStream
  | [] => []
  | t :: ts => closing lines t ts :: closeLines lines ts

variable {lines more : List Nat} {line : Nat} {t : Token} {ts : TokenStream}

@[simp] theorem closing_line : (closing lines t ts).line = t.line := by
  unfold closing
  split <;> rfl

theorem closing_of_last (h : ∀ u ∈ ts, u.line ≠ t.line) :
    closing lines t ts = if t.line ∈ lines then t.withValue ";" else t := by
  unfold closing
  simp only [eq_true h, and_true]

theorem closing_of_mem {u : Token} (hu : u ∈ ts) (hline : u.line = t.line) : closing lines t ts = t :=
  if_neg fun h => h.2 u hu hline

theorem closeLines_lines (lines : List Nat) (s : TokenStream) :
    (closeLines lines s).map Token.line = s.map Token.line := by
  induction s with
  | nil => rfl
  | cons t ts ih => rw [closeLines, List.map_cons, List.map_cons, ih, closing_line]

theorem exists_line_closeLines {s : TokenStream} :
    (∃ u ∈ closeLines lines s, u.line = line) ↔ ∃ u ∈ s, u.line = line := by
  have hmap := congrArg (line ∈ ·) (closeLines_lines lines s)
  simpa using hmap

@[simp] theorem closeLines_nil (s : TokenStream) : closeLines [] s = s := by
  induction s with
  | nil => rfl
  | cons t ts ih => simp [closeLines, closing, ih]

/-- Lines are closed one after the other as they are at once. -/
theorem closeLines_closeLines (s : TokenStream) :
    closeLines more (closeLines lines s) = closeLines (lines ++ more) s := by
  induction s with
  | nil => rfl
  | cons t ts ih =>
    rw [closeLines, closeLines, closeLines, ih]
    congr 1
    by_cases hlast : ∃ u ∈ ts, u.line = t.line
    · obtain ⟨v, hv, hvline⟩ : ∃ v ∈ closeLines lines ts, v.line = t.line :=
        exists_line_closeLines.mpr hlast
      obtain ⟨u, hu, hline⟩ := hlast
      rw [closing_of_mem hu hline, closing_of_mem hu hline, closing_of_mem hv hvline]
    · have hclosed : ∀ u ∈ closeLines lines ts, u.line ≠ (closing lines t ts).line :=
        fun u hu hline => hlast (exists_line_closeLines.mp ⟨u, hu, hline.trans closing_line⟩)
      have hopen : ∀ u ∈ ts, u.line ≠ t.line := fun u hu hline => hlast ⟨u, hu, hline⟩
      rw [closing_of_last hclosed, closing_line, closing_of_last hopen, closing_of_last hopen]
      by_cases hmore : t.line ∈ more <;> by_cases hlines : t.line ∈ lines <;>
        simp [hmore, hlines, Token.withValue]

/-- The last token of a line is the one it was, or a semicolon if the line was closed. -/
theorem lastOnLine?_closeLines (s : TokenStream) : (closeLines lines s).lastOnLine? line =
    (s.lastOnLine? line).map fun t => if line ∈ lines then t.withValue ";" else t := by
  induction s with
  | nil => rfl
  | cons t ts ih =>
    rw [closeLines, lastOnLine?_cons, lastOnLine?_cons, ih, closing_line]
    cases hlast : lastOnLine? ts line with
    | some u => rfl
    | none =>
      by_cases ht : t.line = line
      · subst ht
        rw [closing_of_last (lastOnLine?_eq_none_iff.mp hlast)]
        simp
      · simp [ht]

theorem ascending_closeLines {s : TokenStream} (hs : s.Pairwise fun t u => t.line ≤ u.line) :
    (closeLines lines s).Pairwise fun t u => t.line ≤ u.line := by
  have hmap : ((closeLines lines s).map Token.line).Pairwise (· ≤ ·) := by
    rw [closeLines_lines]
    exact List.pairwise_map.mpr hs
  exact List.pairwise_map.mp hmap

theorem closeLines_eq_self {s : TokenStream} (h : ∀ u ∈ s, u.line ≠ line) :
    closeLines [line] s = s := by
  induction s with
  | nil => rfl
  | cons u us ih =>
    obtain ⟨hu, hus⟩ := List.forall_mem_cons.mp h
    rw [closeLines, ih hus, closing, if_neg (by simp [hu])]

/-- Closing one line rewrites its last token. -/
theorem closeLines_append {front after : TokenStream} (ht : t.line = line)
    (hafter : ∀ u ∈ after, u.line ≠ line) :
    closeLines [line] (front ++ t :: after) = front ++ t.withValue ";" :: after := by
  induction front with
  | nil =>
    subst ht
    rw [List.nil_append, closeLines, closeLines_eq_self hafter, closing_of_last hafter]
    simp
  | cons u us ih =>
    have hu : closing [line] u (us ++ t :: after) = u := by
      by_cases hline : u.line = line
      · exact closing_of_mem (u := t) (by simp) (ht.trans hline.symm)
      · exact if_neg (by simp [hline])
    rw [List.cons_append, closeLines, hu, ih, List.cons_append]

end TokenStream

namespace HelperDeclarations

open TokenStream

/-- Whether the last token that starts on a line is a comma. -/
def EndsInComma (s : TokenStream) (line : Nat) : Prop :=
  ∃ t, s.lastOnLine? line = some t ∧ t.isPunctuator "," = true

/-- The text of the last token that starts on a line. -/
def endOfLine (s : TokenStream) (line : Nat) : String := (s.lastOnLine? line).elim "" Token.value

/-- A first line that ends in a comma is closed, and any other is reported with its end. -/
theorem closeFirstLine_eq {s : TokenStream} (hs : s.Pairwise fun t u => t.line ≤ u.line) (line : Nat) :
    (EndsInComma s line ∧ closeFirstLine s line = .ok (closeLines [line] s)) ∨
      (¬ EndsInComma s line ∧
        closeFirstLine s line = .error (.malformedDeclaration line (endOfLine s line))) := by
  obtain ⟨before, after, hparts, hother, hrange⟩ := exists_lineRange hs line
  unfold closeFirstLine EndsInComma endOfLine
  simp only [hrange]
  cases hlast : s.lastOnLine? line with
  | none =>
    have hnone : (s.filter fun t => t.line == line) = [] := List.getLast?_eq_none_iff.mp hlast
    exact Or.inr ⟨by simp, by simp [hnone]⟩
  | some t =>
    obtain ⟨front, hfront⟩ := List.getLast?_eq_some_iff.mp hlast
    have ht : t.line = line := by
      have hmem : t ∈ s.filter fun t => t.line == line := by rw [hfront]; simp
      simpa using (List.mem_filter.mp hmem).2
    have hwhole : s = before ++ front ++ t :: after := by
      rw [hfront] at hparts
      simpa using hparts
    have hindex : before.length + (front ++ [t]).length - 1 = (before ++ front).length := by
      simp only [List.length_append, List.length_singleton]
      omega
    have hget : s[(before ++ front).length]? = some t := by
      rw [hwhole]
      simp
    have hclose : s.modify (before ++ front).length (·.withValue ";") = closeLines [line] s := by
      rw [hwhole, closeLines_append ht fun u hu => hother u (List.mem_append_right before hu)]
      generalize before ++ front = xs
      rw [List.modify_eq_take_cons_drop (by simp)]
      simp
    rw [hfront, hindex, if_pos (by simp), hget, hclose]
    by_cases hcomma : t.isPunctuator "," = true
    · exact Or.inl ⟨⟨t, rfl, hcomma⟩, by simp [hcomma]⟩
    · exact Or.inr ⟨by simpa using hcomma, by simp [hcomma]⟩

/-! ### Split declarations -/

/-- A helper declaration whose first line stays: it ends on a later line and no name on the first is that
of a helper. -/
def Splits (s : TokenStream) (n : SyntaxNode) : Prop :=
  declaresHelper n = true ∧ n.region.start.line < n.region.stop.line ∧
    ∀ t ∈ s, t.kind = .identifier → t.line = n.region.start.line → isInjectedHelper t.value = false

instance (s : TokenStream) (n : SyntaxNode) : Decidable (Splits s n) :=
  inferInstanceAs (Decidable (_ ∧ _ ∧ _))

/-- The first lines of the split declarations among some nodes. -/
def splitLines (s : TokenStream) (ns : List SyntaxNode) : List Nat :=
  (ns.filter fun n => decide (Splits s n)).map (·.region.start.line)

theorem splitLines_append (s : TokenStream) (ns ms : List SyntaxNode) :
    splitLines s (ns ++ ms) = splitLines s ns ++ splitLines s ms := by
  unfold splitLines
  rw [List.filter_append, List.map_append]

theorem splitLines_singleton (s : TokenStream) (n : SyntaxNode) :
    splitLines s [n] = if Splits s n then [n.region.start.line] else [] := by
  unfold splitLines
  by_cases hn : Splits s n <;> simp [hn]

variable {s s₀ : TokenStream} {n : SyntaxNode}

theorem splits_congr (h : s.map readingOf = s₀.map readingOf) : Splits s n ↔ Splits s₀ n := by
  have hread : ∀ ts : TokenStream, (∀ t ∈ ts, t.kind = .identifier →
      t.line = n.region.start.line → isInjectedHelper t.value = false) ↔
        ∀ r ∈ ts.map readingOf, r.1.line = n.region.start.line →
          ∀ name ∈ r.2, isInjectedHelper name = false := by
    intro ts
    simp only [List.forall_mem_map]
    refine forall₂_congr fun t _ => ?_
    by_cases hkind : t.kind = .identifier <;> simp [readingOf, hkind]
  unfold Splits
  rw [hread s, hread s₀, h]

/-- The walk keeps the first line of the split declarations and of no other. -/
theorem keepsFirstLine_iff (hs : s.Pairwise fun t u => t.line ≤ u.line) (hn : declaresHelper n = true) :
    keepsFirstLine s n.region.start.line n.region.stop.line = true ↔ Splits s n := by
  obtain ⟨before, after, hparts, hother, hrange⟩ := exists_lineRange hs n.region.start.line
  have honLine : ((s.take (s.lineRange n.region.start.line).stop).drop
      (s.lineRange n.region.start.line).start) = s.filter fun t => t.line == n.region.start.line := by
    rw [hrange]
    generalize (s.filter fun t => t.line == n.region.start.line) = on at hparts
    rw [hparts, ← List.append_assoc, ← List.length_append, List.take_left, List.drop_left]
  unfold keepsFirstLine namesHelper Splits
  simp only [honLine, hn, true_and, Bool.and_eq_true, decide_eq_true_eq, Bool.not_eq_true',
    List.any_eq_false, List.mem_filter, beq_iff_eq, Bool.and_eq_true, not_and, and_imp]
  refine and_congr_right fun _ => forall₂_congr fun t _ => ?_
  rw [forall_comm]
  simp

theorem firstLine_eq (hs : s.Pairwise fun t u => t.line ≤ u.line) (hn : declaresHelper n = true) :
    firstLine s n =
      if Splits s n then n.region.start.line + 1 else n.region.start.line := by
  unfold firstLine
  simp only [keepsFirstLine_iff hs hn]

theorem markDeclaration_cases (hs : s.Pairwise fun t u => t.line ≤ u.line)
    (hn : declaresHelper n = true) (marked : MarkedLines) :
    (¬ (Splits s n ∧ ¬ EndsInComma s n.region.start.line) ∧
      ∃ m, markDeclaration n s marked = .ok m ∧ m.stream = closeLines (splitLines s [n]) s) ∨
    (Splits s n ∧ ¬ EndsInComma s n.region.start.line ∧ markDeclaration n s marked =
      .error (.malformedDeclaration n.region.start.line (endOfLine s n.region.start.line))) := by
  have hkeeps := keepsFirstLine_iff hs hn
  unfold markDeclaration
  rw [splitLines_singleton]
  by_cases hsplit : Splits s n
  · simp only [hkeeps.mpr hsplit, if_true, hsplit, true_and]
    rcases closeFirstLine_eq hs n.region.start.line with ⟨hcomma, hclose⟩ | ⟨hcomma, hclose⟩
    · exact Or.inl ⟨by simpa using hcomma, by simp [hclose]⟩
    · exact Or.inr ⟨hcomma, by simp [hclose]⟩
  · exact Or.inl ⟨fun h => hsplit h.1, by simp [mt hkeeps.mp hsplit, hsplit]⟩

/-! ### The walk -/

/-- The walk ends at a node after others: it is split, and its first line, with those of the nodes before
it closed, does not end in a comma. -/
def Refuses (s : TokenStream) (earlier : List SyntaxNode) (n : SyntaxNode) : Prop :=
  Splits s n ∧ ¬ EndsInComma (closeLines (splitLines s earlier) s) n.region.start.line

/-- None of the nodes that follow others ends the walk. -/
def Passes (s : TokenStream) (earlier ns : List SyntaxNode) : Prop :=
  ∀ front n back, ns = front ++ n :: back → ¬ Refuses s (earlier ++ front) n

theorem passes_nil (s : TokenStream) (earlier : List SyntaxNode) : Passes s earlier [] := by
  intro front n back hparts
  simp at hparts

theorem passes_cons {earlier ns : List SyntaxNode} :
    Passes s earlier (n :: ns) ↔ ¬ Refuses s earlier n ∧ Passes s (earlier ++ [n]) ns := by
  constructor
  · intro h
    refine ⟨by simpa using h [] n ns rfl, fun front m back hparts => ?_⟩
    simpa using h (n :: front) m back (by rw [hparts, List.cons_append])
  · rintro ⟨hn, hns⟩ front m back hparts
    cases front with
    | nil =>
      obtain ⟨rfl, -⟩ := List.cons.inj hparts
      simpa using hn
    | cons f front =>
      obtain ⟨rfl, hback⟩ := List.cons.inj hparts
      simpa using hns front m back hback

/-- What the walk reports at a node it ends at. -/
def refusal (s : TokenStream) (earlier : List SyntaxNode) (n : SyntaxNode) : Fault :=
  .malformedDeclaration n.region.start.line
    (endOfLine (closeLines (splitLines s earlier) s) n.region.start.line)

/-- The walk has come past some nodes: their first lines are closed, and no name was touched. -/
structure Past (s : TokenStream) (earlier : List SyntaxNode) (sweep : Sweep) : Prop where
  stream : sweep.stream = closeLines (splitLines s earlier) s
  reading : sweep.stream.map readingOf = s.map readingOf
  fault : sweep.fault = none

/-- One step of the walk passes its node or refuses it. -/
theorem Past.visit {sweep : Sweep} {earlier : List SyntaxNode} (h : Past s earlier sweep)
    (hs : s.Pairwise fun t u => t.line ≤ u.line) (n : SyntaxNode) :
    (¬ Refuses s earlier n ∧ ∃ next, visit sweep n = .proceed next ∧ Past s (earlier ++ [n]) next) ∨
      (Refuses s earlier n ∧
        visit sweep n = .halt { sweep with fault := some (refusal s earlier n) }) := by
  obtain ⟨hstream, hreading, hfault⟩ := h
  have hordered : sweep.stream.Pairwise fun t u => t.line ≤ u.line := hstream ▸ ascending_closeLines hs
  have hlines : closeLines (splitLines s (earlier ++ [n])) s =
      closeLines (splitLines sweep.stream [n]) sweep.stream := by
    have hsame : splitLines sweep.stream [n] = splitLines s [n] := by
      rw [splitLines_singleton, splitLines_singleton]
      simp only [splits_congr hreading]
    rw [splitLines_append, ← closeLines_closeLines, ← hstream, hsame]
  have hrefuses : Refuses s earlier n ↔
      Splits sweep.stream n ∧ ¬ EndsInComma sweep.stream n.region.start.line := by
    unfold Refuses
    rw [← hstream, splits_congr hreading]
  unfold refusal
  rw [hrefuses, ← hstream]
  cases hn : declaresHelper n with
  | false =>
    have hsplit : ¬ Splits sweep.stream n := fun h => by simp [h.1] at hn
    refine Or.inl ⟨fun h => hsplit h.1, sweep, by simp [HelperDeclarations.visit, hn], ?_, hreading,
      hfault⟩
    rw [hlines, splitLines_singleton, if_neg hsplit, closeLines_nil]
  | true =>
    rcases markDeclaration_cases hordered hn sweep.marked with ⟨hpass, m, hm, hclosed⟩ |
      ⟨hsplit, hcomma, hm⟩
    · refine Or.inl ⟨hpass, ⟨m.stream, m.marked, true,
        sweep.notices ++ [.declarationMarked m.startLine m.stopLine], sweep.fault⟩,
        by simp only [HelperDeclarations.visit, hn, hm, if_true], hclosed.trans hlines.symm,
        (markDeclaration_ok hm).1.trans hreading, hfault⟩
    · exact Or.inr ⟨⟨hsplit, hcomma⟩, by simp only [HelperDeclarations.visit, hn, hm, if_true]⟩

/-- The walk through a list of nodes comes past all of them, or ends at the first it refuses. -/
theorem Past.through {sweep : Sweep} {earlier : List SyntaxNode} (h : Past s earlier sweep)
    (hs : s.Pairwise fun t u => t.line ≤ u.line) (ns : List SyntaxNode) :
    (Passes s earlier ns ∧ Past s (earlier ++ ns) (Step.through HelperDeclarations.visit sweep ns).state) ∨
      ∃ front n back, ns = front ++ n :: back ∧ Passes s earlier front ∧
        Refuses s (earlier ++ front) n ∧
        (Step.through HelperDeclarations.visit sweep ns).state.fault =
          some (refusal s (earlier ++ front) n) := by
  induction ns generalizing sweep earlier with
  | nil => exact Or.inl ⟨passes_nil s earlier, by simpa [Step.through, Step.state] using h⟩
  | cons n ns ih =>
    rcases h.visit hs n with ⟨hpass, next, hvisit, hnext⟩ | ⟨hrefuses, hvisit⟩
    · rw [Step.through, hvisit, Step.andThen]
      rcases ih hnext with ⟨hpasses, hpast⟩ | ⟨front, m, back, rfl, hfront, hrefuses, hfault⟩
      · exact Or.inl ⟨passes_cons.mpr ⟨hpass, hpasses⟩, by simpa using hpast⟩
      · exact Or.inr ⟨n :: front, m, back, rfl, passes_cons.mpr ⟨hpass, hfront⟩,
          by simpa using hrefuses, by simpa using hfault⟩
    · refine Or.inr ⟨[], n, ns, rfl, passes_nil s earlier, by simpa using hrefuses, ?_⟩
      simp [Step.through, hvisit, Step.andThen, Step.state]

theorem endsInComma_closeLines {lines : List Nat} {line : Nat} :
    EndsInComma (closeLines lines s) line ↔ line ∉ lines ∧ EndsInComma s line := by
  unfold EndsInComma
  rw [lastOnLine?_closeLines]
  by_cases hline : line ∈ lines
  · simp [hline, Token.isPunctuator, Token.withValue]
  · simp [hline]

/-- When no node is refused, the first lines of the split declarations end in commas and are all
different: a line closed before ends in a semicolon. -/
theorem Passes.nodup_splitLines {earlier ns : List SyntaxNode} (h : Passes s earlier ns)
    (hnodup : (splitLines s earlier).Nodup) (hcomma : ∀ l ∈ splitLines s earlier, EndsInComma s l) :
    (splitLines s (earlier ++ ns)).Nodup ∧ ∀ l ∈ splitLines s (earlier ++ ns), EndsInComma s l := by
  induction ns generalizing earlier with
  | nil => simpa using ⟨hnodup, hcomma⟩
  | cons n ns ih =>
    obtain ⟨hn, hns⟩ := passes_cons.mp h
    rw [List.append_cons]
    by_cases hsplit : Splits s n
    · have hlines : splitLines s (earlier ++ [n]) = splitLines s earlier ++ [n.region.start.line] := by
        rw [splitLines_append, splitLines_singleton, if_pos hsplit]
      obtain ⟨hfresh, hend⟩ := endsInComma_closeLines.mp (not_not.mp fun hend => hn ⟨hsplit, hend⟩)
      refine ih hns ?_ ?_
      · rw [hlines]
        exact List.nodup_append.mpr ⟨hnodup, List.nodup_singleton _, fun l hl m hm heq =>
          hfresh (List.mem_singleton.mp hm ▸ heq ▸ hl)⟩
      · simpa [hlines, or_imp, forall_and] using ⟨hcomma, hend⟩
    · have hlines : splitLines s (earlier ++ [n]) = splitLines s earlier := by
        rw [splitLines_append, splitLines_singleton, if_neg hsplit, List.append_nil]
      exact ih hns (hlines ▸ hnodup) (hlines ▸ hcomma)

/-- The pass closes the first lines of the split declarations, or fails at the first it refuses. -/
theorem run_cases {w : Workspace} (hlines : w.stream.Pairwise fun t u => t.line ≤ u.line) :
    (Passes w.stream [] w.tree.preorder ∧ ∃ marked modified, (run w).outcome = .ok ⟨{ w with
      stream := closeLines (splitLines w.stream w.tree.preorder) w.stream
      marked := marked }, modified⟩) ∨
    ∃ earlier n later, w.tree.preorder = earlier ++ n :: later ∧ Passes w.stream [] earlier ∧
      Refuses w.stream earlier n ∧ (run w).outcome = .error (refusal w.stream earlier n) := by
  have hstart : Past w.stream [] ⟨w.stream, w.marked, false, [], none⟩ :=
    ⟨(closeLines_nil _).symm, rfl, rfl⟩
  unfold run
  rw [SyntaxNode.walk_eq_through]
  rcases hstart.through hlines w.tree.preorder with ⟨hpasses, hpast⟩ |
    ⟨earlier, n, later, hparts, hearlier, hrefuses, hfault⟩
  · simp only [hpast.fault, hpast.stream, List.nil_append]
    exact Or.inl ⟨hpasses, _, _, rfl⟩
  · exact Or.inr ⟨earlier, n, later, hparts, hearlier, hrefuses, by simp only [hfault, List.nil_append]⟩

end HelperDeclarations

open HelperDeclarations in
/-- The first pass on a stream with ascending lines.  If it succeeds, it marks the lines of the helper
declarations, less the first of each split one, closes the first lines of the split ones, which are all
different and ended in commas, touches nothing else, and reports a change exactly when there is a helper
declaration.  It fails exactly when it comes to a split declaration whose first line does not end in a
comma by then, and reports the first such line with its end. -/
theorem helper_declarations_swept {w : Workspace}
    (hlines : w.stream.Pairwise fun t u => t.line ≤ u.line) :
    (∀ r, (run w).outcome = .ok r →
      (∀ l, r.workspace.marked.contains l = true ↔ w.marked.contains l = true ∨
        ∃ n ∈ w.tree.preorder, declaresHelper n = true ∧ 0 < l ∧
          (if Splits w.stream n then n.region.start.line + 1 else n.region.start.line) ≤ l ∧
          l ≤ n.region.stop.line) ∧
      (splitLines w.stream w.tree.preorder).Nodup ∧
      (∀ l ∈ splitLines w.stream w.tree.preorder, EndsInComma w.stream l) ∧
      r.workspace = { w with
        stream := TokenStream.closeLines (splitLines w.stream w.tree.preorder) w.stream
        marked := r.workspace.marked } ∧
      (r.modified = true ↔ ∃ n ∈ w.tree.preorder, declaresHelper n = true)) ∧
    ((∃ fault, (run w).outcome = .error fault) ↔
      ∃ earlier n later, w.tree.preorder = earlier ++ n :: later ∧ Refuses w.stream earlier n) ∧
    ∀ fault, (run w).outcome = .error fault →
      ∃ earlier n later, w.tree.preorder = earlier ++ n :: later ∧ Passes w.stream [] earlier ∧
        Refuses w.stream earlier n ∧ fault = refusal w.stream earlier n := by
  rcases run_cases hlines with ⟨hpasses, marked, modified, hrun⟩ |
    ⟨earlier, n, later, hparts, hearlier, hrefuses, hrun⟩
  · refine ⟨fun r hr => ?_, ⟨fun ⟨fault, hf⟩ => by simp [hrun] at hf, ?_⟩, fun fault hf => by
      simp [hrun] at hf⟩
    · obtain ⟨hnodup, hcomma⟩ := hpasses.nodup_splitLines List.nodup_nil (by simp [splitLines])
      refine ⟨fun l => ?_, hnodup, hcomma, ?_, run_modified_iff hr⟩
      · rw [(run_ok hr).2 l]
        refine or_congr_right (exists_congr fun n => and_congr_right fun _ => and_congr_right
          fun hn => ?_)
        rw [firstLine_eq hlines hn]
      · obtain rfl := Except.ok.inj (hrun.symm.trans hr)
        rfl
    · rintro ⟨earlier, n, later, hparts, hrefuses⟩
      exact absurd hrefuses (hpasses earlier n later hparts)
  · refine ⟨fun r hr => by simp [hrun] at hr, ⟨fun _ => ⟨earlier, n, later, hparts, hrefuses⟩,
      fun _ => ⟨_, hrun⟩⟩, fun fault hf => ?_⟩
    obtain rfl := Except.error.inj (hrun.symm.trans hf)
    exact ⟨earlier, n, later, hparts, hearlier, hrefuses, rfl⟩

/-- A helper on the second line of a statement: the first line is closed, and the second goes. -/
theorem helper_declarations_swept_second_line :
    ∃ p r, ParsedSource.parse .script "var a,\n  __slice = [].slice;\n" = .ok p ∧
      (HelperDeclarations.run (.start p.tree p.stream)).outcome = .ok r ∧
      HelperDeclarations.splitLines p.stream p.tree.preorder = [1] ∧
      r.workspace.stream = p.stream.closeLines [1] ∧ HelperDeclarations.EndsInComma p.stream 1 ∧
      r.modified = true ∧ r.workspace.marked.lines = [2] := by
  have hrun : ((ParsedSource.parse .script "var a,\n  __slice = [].slice;\n").toOption.any fun p =>
      (HelperDeclarations.run (.start p.tree p.stream)).outcome.toOption.any fun r =>
        decide ((p.stream.Pairwise fun t u => t.line ≤ u.line) ∧
          HelperDeclarations.splitLines p.stream p.tree.preorder = [1] ∧
          r.workspace.marked.lines = [2] ∧ r.modified = true)) = true := by
    decide +kernel
  obtain ⟨p, hp, hp'⟩ := (Option.any_eq_true _ _).mp hrun
  obtain ⟨r, hr, hfacts⟩ := (Option.any_eq_true _ _).mp hp'
  obtain ⟨hlines, hsplit, hmarked, hmodified⟩ := of_decide_eq_true hfacts
  have hok := except_eq_ok_of_toOption hr
  obtain ⟨-, -, hcomma, hworkspace, -⟩ :=
    (helper_declarations_swept (w := .start p.tree p.stream) hlines).1 r hok
  have hstream := congrArg Workspace.stream hworkspace
  refine ⟨p, r, except_eq_ok_of_toOption hp, hok, hsplit, ?_, hcomma 1 ?_, hmodified, hmarked⟩
  · rw [hstream]
    exact congrArg (TokenStream.closeLines · p.stream) hsplit
  · exact hsplit ▸ List.mem_singleton_self 1

end ClosureReady
