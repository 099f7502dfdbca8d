import ClosureReady.Pipeline
import ClosureReady.Proofs.CrampedClasses
import ClosureReady.Proofs.DeclarationLines
import ClosureReady.Proofs.SourceTiling
import Mathlib.Data.List.Nodup

/-!
When the layout breaks.  A run breaks the layout exactly when some class it comes to is cramped.  In a
stream in order no class is, unless its constructor shares a line with the start of its body, and the
stream that was read from a source is in order.  But a class leaves the stream out of order for those
that follow: its constructor moves up past other lines, and the line of its head is dedented from the
second token on, which then may stand left of the first.
-/

set_option autoImplicit false
set_option relaxedAutoImplicit false

namespace ClosureReady

/-! ### Streams in order -/

/-- A token without its text: what it is and where it stands. -/
def Token.blank (t : Token) : Token := t.withValue ""

theorem Token.blank_modify (s : TokenStream) (i : Nat) (value : String) :
    (s.modify i (·.withValue value)).map Token.blank = s.map Token.blank := by
  apply List.ext_getElem
  · simp
  · intro n h₁ h₂
    simp only [List.getElem_map, List.getElem_modify]
    split <;> rfl

namespace TokenStream

/-- What holds between tokens whatever their texts are holds between tokens that stand the same way. -/
theorem pairwise_of_blank {R : Token → Token → Prop} (hR : ∀ t u, R t.blank u.blank ↔ R t u)
    {s s' : TokenStream} (hsame : s'.map Token.blank = s.map Token.blank) (hs : s.Pairwise R) :
    s'.Pairwise R := by
  have hs' : (s.map Token.blank).Pairwise R := List.pairwise_map.mpr (hs.imp (hR _ _).mpr)
  rw [← hsame, List.pairwise_map] at hs'
  exact hs'.imp (hR _ _).mp

theorem rel_of_pairwise {R : Token → Token → Prop} {s : TokenStream} (h : s.Pairwise R) {i j : Nat}
    {t u : Token} (ht : s[i]? = some t) (hu : s[j]? = some u) (hij : i < j) : R t u := by
  obtain ⟨hi, rfl⟩ := List.getElem?_eq_some_iff.mp ht
  obtain ⟨hj, rfl⟩ := List.getElem?_eq_some_iff.mp hu
  exact List.pairwise_iff_getElem.mp h i j hi hj hij

theorem line_le_of_pairwise {s : TokenStream} (h : s.Pairwise fun t u => t.line ≤ u.line) {i j : Nat}
    {t u : Token} (ht : s[i]? = some t) (hu : s[j]? = some u) (hij : i ≤ j) : t.line ≤ u.line := by
  rcases Nat.lt_or_eq_of_le hij with hlt | rfl
  · exact rel_of_pairwise h ht hu hlt
  · rw [Option.some.inj (ht.symm.trans hu)]

/-- A stream in order: lines ascend, each token of a line starts where the one before it has ended or
later, and names and punctuators do not reach over the end of a line. -/
structure InOrder (s : TokenStream) : Prop where
  lines : s.Pairwise fun t u => t.line ≤ u.line
  columns : s.Pairwise fun t u => t.line = u.line → t.column < u.column ∧
    t.span.stop ≤ u.span.start ∧ (t.isSingleLine = true → t.region.stop.column ≤ u.column)
  spans : ∀ t ∈ s, t.span.start ≤ t.span.stop
  regions : ∀ t ∈ s, t.isSingleLine = true → t.column ≤ t.region.stop.column
  names : ∀ t ∈ s, t.kind = .identifier ∨ t.kind = .punctuator → t.isSingleLine = true

namespace InOrder

variable {s : TokenStream}

theorem sublist {s' : TokenStream} (h : s.InOrder) (hsub : s'.Sublist s) : s'.InOrder :=
  ⟨h.lines.sublist hsub, h.columns.sublist hsub, fun t ht => h.spans t (hsub.mem ht),
    fun t ht => h.regions t (hsub.mem ht), fun t ht => h.names t (hsub.mem ht)⟩

/-- The texts of the tokens do not matter. -/
theorem of_blank {s' : TokenStream} (h : s.InOrder) (hsame : s'.map Token.blank = s.map Token.blank) :
    s'.InOrder := by
  have heach : ∀ {P : Token → Prop}, (∀ t, P t.blank ↔ P t) → (∀ t ∈ s, P t) → ∀ t ∈ s', P t := by
    intro P hP hs t ht
    have hmem : t.blank ∈ s.map Token.blank := hsame ▸ List.mem_map_of_mem ht
    obtain ⟨u, hu, heq⟩ := List.mem_map.mp hmem
    exact (hP t).mp (heq ▸ (hP u).mpr (hs u hu))
  exact ⟨pairwise_of_blank (fun _ _ => Iff.rfl) hsame h.lines,
    pairwise_of_blank (fun _ _ => Iff.rfl) hsame h.columns,
    heach (fun _ => Iff.rfl) h.spans, heach (fun _ => Iff.rfl) h.regions,
    heach (fun _ => Iff.rfl) h.names⟩

theorem line_le (h : s.InOrder) {i j : Nat} {t u : Token} (ht : s[i]? = some t)
    (hu : s[j]? = some u) (hij : i ≤ j) : t.line ≤ u.line :=
  line_le_of_pairwise h.lines ht hu hij

theorem column_lt (h : s.InOrder) {i j : Nat} {t u : Token} (ht : s[i]? = some t)
    (hu : s[j]? = some u) (hij : i < j) (hline : t.line = u.line) :
    t.column < u.column ∧ t.span.stop ≤ u.span.start ∧
      (t.isSingleLine = true → t.region.stop.column ≤ u.column) :=
  rel_of_pairwise h.columns ht hu hij hline

/-- The tokens of a line can be moved left as far as the first of them. -/
theorem hasRoom {t u : Token} {ts : List Token} (h : InOrder (t :: ts)) (hu : u ∈ t :: ts)
    (hline : u.line = t.line) : u.HasRoom 0 t.column := by
  have hcolumn : t.column ≤ u.column := by
    rcases List.mem_cons.mp hu with rfl | hlater
    · exact le_rfl
    · exact ((List.pairwise_cons.mp h.columns).1 u hlater hline.symm).1.le
  exact ⟨Nat.zero_le _, Nat.zero_le _, hcolumn, fun hsingle => hcolumn.trans (h.regions u hu hsingle)⟩

end InOrder

end TokenStream

/-- Comments that stand apart from the code tokens. -/
def ParsedSource.CommentsApart (p : ParsedSource) : Prop :=
  ∀ s ∈ p.comments, ∀ t ∈ p.tokens, t.span.stop ≤ s.span.start ∨ s.span.stop ≤ t.span.start

instance (p : ParsedSource) : Decidable p.CommentsApart :=
  inferInstanceAs (Decidable (∀ s ∈ p.comments, ∀ t ∈ p.tokens,
    t.span.stop ≤ s.span.start ∨ s.span.stop ≤ t.span.start))

/-- The stream that was read from a source is in order. -/
theorem ParsedSource.stream_inOrder {mode : Grammar.Mode} {source : String} {p : ParsedSource}
    (h : parse mode source = .ok p) (hapart : p.CommentsApart) : p.stream.InOrder := by
  have hplaced := stream_placed h
  obtain ⟨htiled, -, hcomments, -⟩ := parse_tiled h
  have hdistinct : p.stream.Pairwise fun t u => t ≠ u := List.Nodup.of_map Token.id hplaced.ids_nodup
  have hfollows : p.stream.Pairwise fun t u => t.span.stop ≤ u.span.start := by
    refine (hplaced.ordered.and hdistinct).imp_of_mem fun {t u} ht hu htu => ?_
    obtain ⟨hle, hne⟩ := htu
    have hpos := stream_nonempty h hu
    have hcases : t.span.stop ≤ u.span.start ∨ u.span.stop ≤ t.span.start := by
      rcases mem_stream.mp ht with ht | ht <;> rcases mem_stream.mp hu with hu | hu
      · exact Token.apart_of_pairwise htiled.ordered ht hu hne
      · exact hapart u hu t ht
      · exact (hapart t ht u hu).symm
      · exact Token.apart_of_pairwise hcomments ht hu hne
    omega
  refine ⟨hplaced.lines_ordered, ?_, hplaced.start_le_stop, fun t ht => hplaced.column_le_stop ht,
    hplaced.single⟩
  refine hfollows.imp_of_mem fun {t u} ht hu hle hline => ?_
  obtain ⟨hbelow, hright⟩ := hplaced.stop_le_column ht hu hle
  have hstop := hplaced.line_le_stop ht
  have hends : t.line = t.region.stop.line := by omega
  have hsingle : t.isSingleLine = true := by simpa [Token.isSingleLine, Token.line] using hends
  have hcolumn := hplaced.column_lt_stop ht (stream_nonempty h ht) hsingle
  have := hright (by omega)
  exact ⟨by omega, hle, fun _ => this⟩

namespace ClassWrapper

/-! ### Classes in a stream in order -/

/-- Lines in order may be followed by lines that can be dedented, if the last of the first is another
than the first of the last. -/
theorem linesFit_append {xs ys : List Token} (hxs : TokenStream.InOrder xs)
    (hys : ∀ count line, LinesFit count line ys)
    (hjoin : ∀ x ∈ xs.getLast?, ∀ y ∈ ys.head?, x.line ≠ y.line) (count : Nat) (line : Option Nat) :
    LinesFit count line (xs ++ ys) := by
  induction xs generalizing count line with
  | nil => exact hys count line
  | cons t xs ih =>
    cases count with
    | zero => exact trivial
    | succ count =>
      -- The line of the first token ends with the first part, if not before.
      have hends : (xs ++ ys).takeWhile (fun u => u.line == t.line) =
          xs.takeWhile fun u => u.line == t.line := by
        rw [List.takeWhile_append]
        split
        · rename_i hwhole
          have hall : xs.takeWhile (fun u => u.line == t.line) = xs :=
            (List.takeWhile_prefix _).eq_of_length hwhole
          have hlast : ((t :: xs).getLast (by simp)).line = t.line := by
            rcases List.mem_cons.mp (List.getLast_mem (List.cons_ne_nil t xs)) with heq | hmem
            · rw [heq]
            · simpa using List.takeWhile_eq_self_iff.mp hall _ hmem
          have hnone : ys.takeWhile (fun u => u.line == t.line) = [] := by
            cases ys with
            | nil => rfl
            | cons y ys =>
              have hne := hjoin _ (List.getLast?_eq_some_getLast (List.cons_ne_nil t xs)) y rfl
              rw [hlast] at hne
              simpa using fun heq => hne heq.symm
          rw [hnone, List.append_nil, hall]
        · rfl
      rw [List.cons_append, LinesFit, hends]
      refine ⟨Or.inr fun u hu => ?_, ih (hxs.sublist (List.sublist_cons_self t xs))
        (fun x hx y hy => hjoin x ?_ y hy) count _⟩
      · have hmem : u ∈ t :: xs := by
          rcases List.mem_cons.mp hu with rfl | hu
          · exact List.mem_cons_self
          · exact List.mem_cons_of_mem t ((List.takeWhile_prefix _).subset hu)
        have hline : u.line = t.line := by
          rcases List.mem_cons.mp hu with rfl | hu
          · rfl
          · simpa using List.mem_takeWhile_imp hu
        exact (hxs.hasRoom hmem hline).mono le_rfl (min_le_left _ _)
      · cases xs with
        | nil => simp at hx
        | cons x' xs => simpa [List.getLast?_cons_cons] using hx

theorem linesFit_of_inOrder {ts : List Token} (h : TokenStream.InOrder ts) (count : Nat)
    (line : Option Nat) : LinesFit count line ts := by
  have hnone : ∀ count line, LinesFit count line [] := by
    intro count line
    cases count <;> exact trivial
  simpa using linesFit_append h hnone (by simp) count line

/-- The index of the first token of the body, which is the first after the line of the head. -/
def Unwrapping.bodyIndex? (x : Unwrapping) : Option Nat :=
  nextIndex? (fun t => t.line != x.headLine) x.wrapper.start x.stream

/-- A class in a stream in order, whose declarator is cut out of one line, and whose constructor leads
its body or starts on a later line than that. -/
structure Unwrapping.WellPlaced (x : Unwrapping) : Prop where
  inOrder : x.stream.InOrder
  cut : ∀ a ∈ x.cut, ∀ b ∈ x.cut, a.line = b.line
  constructor : ∀ k ∈ x.bodyIndex?, k < x.index →
    ∀ f ∈ x.stream[k]?, ∀ o ∈ x.stream[x.index]?, f.line < o.line

/-- The first token of a wrapper is in its column. -/
theorem locate?_column {s : TokenStream} {i : Nat} {c : Constructor} {w : Wrapper}
    (h : locate? s i c = some w) : ∃ t, s[w.start]? = some t ∧ t.column = w.column := by
  unfold locate? at h
  simp only [Option.bind_eq_bind, Option.bind_eq_some_iff, Option.pure_def, Option.some.injEq] at h
  obtain ⟨opening, -, column, -, stop, -, closing, -, start, hstart, assign, -, path, -, rfl⟩ := h
  obtain ⟨back, hback, rfl⟩ := Option.map_eq_some_iff.mp hstart
  obtain ⟨hlt, hcolumn, -⟩ := List.findIdx?_eq_some_iff_getElem.mp hback
  rw [List.length_reverse] at hlt
  rw [List.getElem_reverse] at hcolumn
  refine ⟨(s.take i)[(s.take i).length - 1 - back], ?_, by simpa using hcolumn⟩
  rw [List.getElem_take]
  exact List.getElem?_eq_getElem _

theorem removalAt?_start {s : TokenStream} {d : DeclaratorSite} {k : Nat}
    (h : removalAt? s d = some (.pair k)) (hlt : d.varIndex < d.nameIndex) :
    k = d.nameIndex ∨ k + 1 = d.nameIndex := by
  obtain ⟨next, -, hcase⟩ := Option.map_eq_some_iff.mp h
  split at hcase
  · simp at hcase
  · split at hcase
    · obtain rfl := Removal.pair.inj hcase
      omega
    · exact Or.inl (Removal.pair.inj hcase).symm

/-- The declarator of a well placed class is cut out of a line above its wrapper. -/
private theorem Unwrapping.WellPlaced.pair {s : TokenStream} {c : Constructor} {x : Unwrapping}
    (h : unwrapping? s c = some x) (hx : x.WellPlaced) {k : Nat} (hk : x.removal = some (.pair k)) :
    ∃ a b head, x.stream[k]? = some a ∧ x.stream[k + 1]? = some b ∧
      x.stream[x.wrapper.start]? = some head ∧ a.line = b.line ∧ b.line < head.line ∧
      k + 1 < x.wrapper.start ∧ (b.kind = .identifier ∨ b.kind = .punctuator) := by
  obtain ⟨-, hs, -, hlocate, -, -, hsite⟩ := unwrapping?_eq_some h
  obtain ⟨head, hhead, hcolumn⟩ := locate?_column hlocate
  rw [← hs] at hhead hsite
  have hremoval := hk
  rw [Unwrapping.removal, hsite] at hremoval
  obtain ⟨d, hd, hpair⟩ := Option.bind_eq_some_iff.mp hremoval
  obtain ⟨hlt, v, n, hv, -, hleft, hn, hname, hvline, hnline⟩ := declaratorSite?_spec hd
  obtain ⟨a, b, htwo, hkinds⟩ := removalAt?_pair hd hpair
  have hvget : x.stream[d.varIndex]? = some v ∧ d.varIndex < x.wrapper.start := by
    have hmem := List.mem_zipIdx_iff_getElem?.mp (List.mem_reverse.mp hv)
    rw [List.getElem?_take] at hmem
    split at hmem
    · exact ⟨hmem, by assumption⟩
    · simp at hmem
  -- The `var` is above the wrapper, since on its line it would be left of it.
  have habove : v.line < head.line := by
    have hle := hx.inOrder.line_le hvget.1 hhead hvget.2.le
    rcases Nat.lt_or_eq_of_le hle with hlt | heq
    · exact hlt
    · have := (hx.inOrder.column_lt hvget.1 hhead hvget.2 heq).1
      omega
  have hget : ∀ m, (x.stream.drop k)[m]? = x.stream[k + m]? := fun m => List.getElem?_drop
  have ha : x.stream[k]? = some a := by
    have hfirst := congrArg (fun ts => ts[0]?) htwo
    simpa [hget] using hfirst
  have hb : x.stream[k + 1]? = some b := by
    have hsecond := congrArg (fun ts => ts[1]?) htwo
    simpa [hget] using hsecond
  have hsame : a.line = b.line := by
    have hcut : x.cut = [a, b] := by rw [Unwrapping.cut, hk, cutBy, htwo]
    exact hx.cut a (by simp [hcut]) b (by simp [hcut])
  have hbline : b.line = v.line := by
    rcases removalAt?_start hpair hlt with rfl | hprevious
    · obtain rfl := Option.some.inj (ha.symm.trans hn)
      omega
    · rw [hprevious] at hb
      obtain rfl := Option.some.inj (hb.symm.trans hn)
      omega
  refine ⟨a, b, head, ha, hb, hhead, hsame, by omega, ?_, ?_⟩
  · by_contra hafter
    have := hx.inOrder.line_le hhead hb (Nat.le_of_not_lt hafter)
    omega
  · rcases hkinds with ⟨-, hident⟩ | ⟨-, hkind⟩
    · simp only [Token.isIdentifier, Bool.and_eq_true, beq_iff_eq] at hident
      exact Or.inl hident.1
    · exact Or.inr hkind

private theorem Unwrapping.WellPlaced.pairFits {s : TokenStream} {c : Constructor} {x : Unwrapping}
    (h : unwrapping? s c = some x) (hx : x.WellPlaced) {k : Nat} (hk : x.removal = some (.pair k)) :
    PairFits x.stream k := by
  obtain ⟨a, b, -, ha, hb, -, hline, -, -, hkind⟩ := hx.pair h hk
  intro a' ha' b' hb'
  obtain rfl := Option.some.inj (ha.symm.trans ha')
  obtain rfl := Option.some.inj (hb.symm.trans hb')
  have hbmem := List.mem_of_getElem? hb
  have hsingle := hx.inOrder.names b hbmem hkind
  have hab := hx.inOrder.column_lt ha hb (Nat.lt_succ_self k) hline
  have haspan := hx.inOrder.spans a (List.mem_of_getElem? ha)
  have hbspan := hx.inOrder.spans b hbmem
  have hbcolumn := hx.inOrder.regions b hbmem hsingle
  refine ⟨by omega, by omega, fun u hu => ?_⟩
  have huline : u.line = b.line := by simpa using List.mem_takeWhile_imp hu
  have humem := (List.takeWhile_prefix _).subset hu
  obtain ⟨m, hm⟩ := List.mem_iff_getElem?.mp humem
  rw [List.getElem?_drop] at hm
  have hbu := hx.inOrder.column_lt hb hm (by omega) huline.symm
  have hstop := hbu.2.2 hsingle
  have huspan := hx.inOrder.spans u (List.mem_of_getElem? hm)
  have hucolumn := hx.inOrder.regions u (List.mem_of_getElem? hm)
  exact ⟨by omega, by omega, by omega, fun husingle => by have := hucolumn husingle; omega⟩

/-- Cutting the declarator of a well placed class leaves the wrapper and what follows it alone. -/
private theorem Unwrapping.WellPlaced.undeclared_drop {s undeclared : TokenStream} {c : Constructor}
    {x : Unwrapping} (h : unwrapping? s c = some x) (hx : x.WellPlaced)
    (hundeclared : x.undeclared? = some undeclared) :
    x.removed ≤ x.wrapper.start ∧
      undeclared.drop (x.wrapper.start - x.removed) = x.stream.drop x.wrapper.start := by
  unfold Unwrapping.undeclared? at hundeclared
  unfold Unwrapping.removed
  cases hremoval : x.removal with
  | none =>
    rw [hremoval] at hundeclared
    obtain rfl := Option.some.inj hundeclared
    exact ⟨Nat.zero_le _, rfl⟩
  | some removal =>
    cases removal with
    | line l =>
      rw [hremoval] at hundeclared
      obtain rfl := Option.some.inj hundeclared
      exact ⟨Nat.zero_le _, rfl⟩
    | pair k =>
      obtain ⟨a, b, head, ha, hb, hhead, -, habove, hk, -⟩ := hx.pair h hremoval
      refine ⟨show 2 ≤ x.wrapper.start by omega, ?_⟩
      rw [hremoval, withoutDeclarator?] at hundeclared
      obtain ⟨first, last, bytes, columns, moved, -, hlast, -, -, hmoved, rfl⟩ :=
        TokenStream.excise?_eq_some hundeclared
      obtain rfl : b = last := Option.some.inj (hb.symm.trans hlast)
      obtain ⟨-, rfl⟩ := TokenStream.shiftAll?_eq_some_iff.mp hmoved
      generalize hseg : (x.stream.drop (k + 2)).takeWhile (fun t => t.line == b.line) = seg
      -- The line that is pulled left ends before the wrapper.
      have hshort : k + 2 + seg.length ≤ x.wrapper.start := by
        by_contra hlong
        have hget : seg[x.wrapper.start - (k + 2)]? = some head := by
          have hprefix : seg <+: x.stream.drop (k + 2) := hseg ▸ List.takeWhile_prefix _
          rw [List.prefix_iff_eq_take.mp hprefix, List.getElem?_take_of_lt (by omega),
            List.getElem?_drop, Nat.add_sub_cancel' (by omega), hhead]
        have hmem : head ∈ (x.stream.drop (k + 2)).takeWhile (fun t => t.line == b.line) :=
          hseg ▸ List.mem_of_getElem? hget
        have hline : head.line = b.line := by simpa using List.mem_takeWhile_imp hmem
        omega
      have hrest : (x.stream.drop (k + 2)).dropWhile (fun t => t.line == b.line) =
          x.stream.drop (k + 2 + seg.length) := by
        rw [← TokenStream.drop_length_takeWhile, hseg, List.drop_drop]
      have hfront : (x.stream.take k ++ seg.map (·.movedLeft bytes columns)).length =
          k + seg.length := by
        have hlength := (List.getElem?_eq_some_iff.mp ha).1
        rw [List.length_append, List.length_take, List.length_map]
        omega
      show ((x.stream.take k ++ seg.map (·.movedLeft bytes columns)) ++
        (x.stream.drop (k + 2)).dropWhile (fun t => t.line == b.line)).drop (x.wrapper.start - 2) = _
      rw [List.drop_append, List.drop_eq_nil_of_le (by rw [hfront]; omega), List.nil_append, hfront,
        hrest, List.drop_drop]
      congr 1
      omega

theorem nextIndex?_eq_some {p : Token → Bool} {i : Nat} {before ts : List Token}
    (h : nextIndex? p i (before ++ ts) = some before.length) :
    (∃ t ∈ ts.head?, p t = true) ∧ ∀ u ∈ before.drop i, p u = false := by
  have hle := (nextIndex?_bounds h).1
  obtain ⟨j, hj, hij⟩ := Option.map_eq_some_iff.mp h
  obtain rfl : j = (before.drop i).length := by
    rw [List.length_drop]
    omega
  rw [List.drop_append_of_le_length hle, List.findIdx?_append, Option.or_eq_some_iff] at hj
  rcases hj with hfront | ⟨hnone, hrest⟩
  · exact absurd (List.findIdx?_eq_some_iff_getElem.mp hfront).1 (lt_irrefl _)
  · obtain ⟨m, hm, hzero⟩ := Option.map_eq_some_iff.mp hrest
    obtain rfl : m = 0 := by omega
    obtain ⟨hlt, hp, -⟩ := List.findIdx?_eq_some_iff_getElem.mp hm
    refine ⟨⟨ts[0], ?_, hp⟩, List.findIdx?_eq_none_iff.mp hnone⟩
    rw [List.head?_eq_getElem?, List.getElem?_eq_getElem hlt]
    rfl

/-- What moving the constructor does: nothing, or it swaps the run of the constructor with what stands
between it and the line of the head. -/
theorem leadWithConstructor_cases {s led : TokenStream} {i start : Nat} {c : Constructor}
    (h : (leadWithConstructor s i start c).outcome = .ok led) (hi : i < s.length) :
    led = s ∨ ∃ head before skipped moved after, s[start]? = some head ∧
      s = before ++ (skipped ++ (moved ++ after)) ∧ led = before ++ (moved ++ (skipped ++ after)) ∧
      nextIndex? (fun t => t.line != head.line) start s = some before.length ∧ skipped ≠ [] ∧
      before.length + skipped.length ≤ i ∧ i < before.length + skipped.length + moved.length := by
  unfold leadWithConstructor at h
  obtain ⟨head, hhead, h⟩ := Traced.bind_outcome_eq_ok_iff.mp h
  obtain ⟨found, -, h⟩ := Traced.bind_outcome_eq_ok_iff.mp h
  split at h
  · exact Or.inl (Except.ok.inj h).symm
  · rename_i k hk
    split at h
    · exact Or.inl (Except.ok.inj h).symm
    · rename_i run hrun
      obtain ⟨-, -, h⟩ := Traced.bind_outcome_eq_ok_iff.mp h
      have hrelocate := Traced.ofEdit_outcome_eq_ok_iff.mp h
      have hbounds := constructorRun?_bounds hrun hi
      rw [TokenStream.relocate?, if_pos (by omega)] at hrelocate
      have hbefore : (s.take k).length = k := by
        rw [List.length_take]
        omega
      refine Or.inr ⟨head, s.take k, (s.take run.start).drop k, (s.take run.stop).drop run.start,
        s.drop run.stop, Traced.ofEdit_outcome_eq_ok_iff.mp hhead, ?_, ?_, by rw [hbefore]; exact hk,
        ?_, ?_, ?_⟩
      · have hfront : s.take k ++ (s.take run.start).drop k = s.take run.start := by
          have := List.take_append_drop k (s.take run.start)
          rwa [List.take_take, Nat.min_eq_left (by omega)] at this
        have hmiddle : s.take run.start ++ (s.take run.stop).drop run.start = s.take run.stop := by
          have := List.take_append_drop run.start (s.take run.stop)
          rwa [List.take_take, Nat.min_eq_left (by omega)] at this
        rw [← List.append_assoc, ← List.append_assoc, hfront, hmiddle, List.take_append_drop]
      · rw [← Option.some.inj hrelocate]
        simp only [List.append_assoc]
      · rw [← List.length_pos_iff, List.length_drop, List.length_take]
        omega
      · rw [hbefore, List.length_drop, List.length_take]
        omega
      · rw [hbefore, List.length_drop, List.length_take, List.length_drop, List.length_take]
        omega

/-- A run of tokens can be moved up past the first line of a body, when the token it is moved for stands
below that line. -/
private theorem linesFit_swap {front skipped lead tail after : List Token} {first opening : Token}
    (hordered : TokenStream.InOrder
      (front ++ (first :: skipped ++ (lead ++ opening :: tail ++ after))))
    (hfront : ∀ t ∈ front, t.line < first.line) (hopening : first.line < opening.line) (count : Nat)
    (line : Option Nat) :
    LinesFit count line (front ++ (lead ++ opening :: tail ++ (first :: skipped ++ after))) := by
  obtain ⟨-, hbody, -⟩ := List.pairwise_append.mp hordered.lines
  refine linesFit_append (hordered.sublist (List.sublist_append_left _ _)) (fun count line =>
    linesFit_append (hordered.sublist ?_) (linesFit_of_inOrder (hordered.sublist ?_)) ?_ count line)
    ?_ count line
  · exact ((List.sublist_append_left _ after).trans (List.sublist_append_right _ _)).trans
      (List.sublist_append_right _ _)
  · exact ((List.Sublist.refl _).append (List.sublist_append_right _ after)).trans
      (List.sublist_append_right _ _)
  · -- The run ends below the line it is moved to.
    intro t ht u hu
    obtain rfl : first = u := by simpa using hu
    have hmem : t ∈ opening :: tail := by
      rw [List.getLast?_append, List.getLast?_cons, Option.some_or] at ht
      exact List.mem_of_getLast? (List.getLast?_cons.trans ht)
    have hrun : (opening :: tail).Pairwise fun t u => t.line ≤ u.line :=
      hbody.sublist (((List.sublist_append_right lead _).trans (List.sublist_append_left _ after)).trans
        (List.sublist_append_right _ _))
    have hend : opening.line ≤ t.line := by
      rcases List.mem_cons.mp hmem with rfl | hmem
      · exact le_rfl
      · exact (List.pairwise_cons.mp hrun).1 t hmem
    omega
  · intro t ht u hu
    have habove := hfront t (List.mem_of_getLast? ht)
    have hbelow : first.line ≤ u.line := by
      have hmem : u ∈ first :: skipped ++ (lead ++ opening :: tail ++ after) := by
        have := List.mem_of_mem_head? hu
        simp only [List.mem_append] at this ⊢
        tauto
      rcases List.mem_cons.mp hmem with rfl | hmem
      · exact le_rfl
      · exact (List.pairwise_cons.mp hbody).1 u hmem
    omega

/-- With the lines from the head of a class on in order, the lines of its body can be dedented, unless
the constructor moves on the line it shares with the start of the body. -/
private theorem leadWithConstructor_linesFit {s led : TokenStream} {i start : Nat} {c : Constructor}
    (hlead : (leadWithConstructor s i start c).outcome = .ok led) (hi : i < s.length)
    (hordered : TokenStream.InOrder (s.drop start))
    (hctor : ∀ head ∈ s[start]?, ∀ k ∈ nextIndex? (fun t => t.line != head.line) start s, k < i →
      ∀ first ∈ s[k]?, ∀ opening ∈ s[i]?, first.line < opening.line) (count : Nat) :
    LinesFit count none (led.drop (start + 1)) := by
  rcases leadWithConstructor_cases hlead hi with rfl |
    ⟨head, before, skipped, moved, after, hhead, rfl, rfl, hk, hskipped, hle, hlt⟩
  · have hsub := List.drop_sublist_drop_left led (Nat.le_succ start)
    exact linesFit_of_inOrder (hordered.sublist hsub) count none
  · obtain ⟨⟨first, hfirst, hother⟩, hsame⟩ := nextIndex?_eq_some hk
    obtain ⟨skipped, rfl⟩ : ∃ ts, skipped = first :: ts := by
      cases skipped with
      | nil => exact absurd rfl hskipped
      | cons t ts => exact ⟨ts, by simpa using hfirst⟩
    have hstart : start < before.length := by
      rcases Nat.lt_or_eq_of_le (nextIndex?_bounds hk).1 with hlt | rfl
      · exact hlt
      · obtain rfl : first = head := by simpa using hhead
        simp at hother
    obtain ⟨opening, hopening⟩ : ∃ opening, moved[i - (before.length + (first :: skipped).length)]? =
        some opening := ⟨_, List.getElem?_eq_getElem (by omega)⟩
    have hlater : first.line < opening.line := by
      refine hctor head hhead _ hk (by simp at hle; omega) first (by simp) opening ?_
      rw [List.getElem?_append_right (by omega), List.getElem?_append_right (by omega),
        List.getElem?_append_left (by omega), Nat.sub_sub, hopening]
      rfl
    obtain ⟨lead, tail, rfl⟩ := List.append_of_mem (List.mem_of_getElem? hopening)
    rw [List.drop_append_of_le_length hstart.le] at hordered
    have hfront := List.drop_sublist_drop_left before (Nat.le_succ start)
    rw [List.drop_append_of_le_length hstart]
    refine linesFit_swap (hordered.sublist (hfront.append (List.Sublist.refl _))) ?_ hlater count none
    -- The line of the head ends where the body starts.
    intro t ht
    have hmem := hfront.mem ht
    have hline : t.line = head.line := by simpa using hsame t hmem
    have hle := (List.pairwise_append.mp hordered.lines).2.2 t hmem first (by simp)
    have hother : first.line ≠ head.line := by simpa using hother
    omega

theorem writeHead?_blank {s s' : TokenStream} {i : Nat} {w : Wrapper} {c : Constructor}
    {declared : Bool} (h : writeHead? s i w c declared = some s') :
    s'.map Token.blank = s.map Token.blank := by
  have hset : ∀ {t t' : TokenStream} {k : Nat} {value : String}, t.setValue? k value = some t' →
      t'.map Token.blank = t.map Token.blank := by
    intro t t' k value hset
    unfold TokenStream.setValue? at hset
    split at hset
    · rw [← Option.some.inj hset]
      exact Token.blank_modify t k value
    · simp at hset
  obtain ⟨u, hu, h⟩ := Option.bind_eq_some_iff.mp h
  rw [hset h, hset hu]

theorem nextIndex?_line (l i : Nat) (ts : List Token) :
    nextIndex? (fun t => t.line != l) i ts =
      (((ts.drop i).map Token.line).findIdx? (· != l)).map (i + ·) := by
  rw [List.findIdx?_map]
  rfl

/-- With the texts of the tokens changed, the constructor of a well placed class is still below the start
of its body. -/
private theorem Unwrapping.WellPlaced.constructor_below {s headed : TokenStream} {c : Constructor}
    {x : Unwrapping} (h : unwrapping? s c = some x) (hx : x.WellPlaced) {start i : Nat}
    (hblank : (headed.drop start).map Token.blank = (x.stream.drop x.wrapper.start).map Token.blank)
    (hi : i + x.wrapper.start = x.index + start) :
    ∀ head ∈ headed[start]?, ∀ k ∈ nextIndex? (fun t => t.line != head.line) start headed, k < i →
      ∀ first ∈ headed[k]?, ∀ opening ∈ headed[i]?, first.line < opening.line := by
  have hbounds := unwrapping?_bounds h
  obtain ⟨-, hs, -, -, hheadLine, -⟩ := unwrapping?_eq_some h
  rw [← hs] at hheadLine
  have hlines : (headed.drop start).map Token.line = (x.stream.drop x.wrapper.start).map Token.line := by
    have := congrArg (List.map Token.line) hblank
    rw [List.map_map, List.map_map] at this
    exact this
  -- A token from the head on is found in the stream, on the line it has now.
  have hline : ∀ (j : Nat) {t : Token}, headed[start + j]? = some t →
      ∃ u, x.stream[x.wrapper.start + j]? = some u ∧ u.line = t.line := by
    intro j t ht
    have hsame := congrArg (fun lines => lines[j]?) hlines
    rw [List.getElem?_map, List.getElem?_map, List.getElem?_drop, List.getElem?_drop, ht] at hsame
    exact Option.map_eq_some_iff.mp hsame.symm
  intro head hhead k hk hlt first hfirst opening hopening
  obtain ⟨u, hu, huline⟩ := hline 0 hhead
  have hhead : x.headLine = head.line := by
    rw [Nat.add_zero] at hu
    rw [hu, Option.map_some, Option.some.injEq] at hheadLine
    omega
  rw [nextIndex?_line, hlines, ← hhead] at hk
  obtain ⟨j, hj, rfl⟩ := Option.map_eq_some_iff.mp hk
  have hbody : x.bodyIndex? = some (x.wrapper.start + j) := by
    rw [Unwrapping.bodyIndex?, nextIndex?_line, hj, Option.map_some]
  have hto : start + (x.index - x.wrapper.start) = i := by omega
  obtain ⟨f, hf, hfline⟩ := hline j hfirst
  obtain ⟨o, ho, holine⟩ := hline (x.index - x.wrapper.start) (hto ▸ hopening)
  rw [Nat.add_sub_cancel' hbounds.1.le] at ho
  have := hx.constructor _ hbody (by omega) f hf o ho
  omega

/-- A class that is well placed is not cramped. -/
private theorem Unwrapping.WellPlaced.not_cramped {s : TokenStream} {c : Constructor} {x : Unwrapping}
    (h : unwrapping? s c = some x) (hx : x.WellPlaced) : ¬ x.Cramped := by
  rintro ⟨-, hcramped⟩
  have hbounds := unwrapping?_bounds h
  obtain ⟨undeclared, hundeclared⟩ : ∃ undeclared, x.undeclared? = some undeclared := by
    cases hundeclared : x.undeclared? with
    | none =>
      obtain ⟨k, hk, hfits⟩ := (undeclared?_eq_none_iff h).mp hundeclared
      exact absurd (hx.pairFits h hk) hfits
    | some undeclared => exact ⟨undeclared, rfl⟩
  obtain ⟨hroom, hdrop⟩ := hx.undeclared_drop h hundeclared
  rcases hcramped with hclose | ⟨k, hk, hfits⟩ | ⟨led, hled, hfits⟩
  · omega
  · exact hfits (hx.pairFits h hk)
  · obtain ⟨headed, led', hheaded, hlead, hled'⟩ := led?_isSome h hroom hundeclared
    obtain rfl := Option.some.inj (hled.symm.trans hled')
    have hlength := undeclared?_length h hundeclared
    have hblank : (headed.drop (x.wrapper.start - x.removed)).map Token.blank =
        (x.stream.drop x.wrapper.start).map Token.blank := by
      rw [List.map_drop, writeHead?_blank hheaded, ← List.map_drop, hdrop]
    have hindex : x.index - x.removed < headed.length := by
      have := congrArg List.length (writeHead?_blank hheaded)
      rw [List.length_map, List.length_map] at this
      omega
    refine hfits (leadWithConstructor_linesFit hlead hindex ?_ ?_ _)
    · exact (hx.inOrder.sublist (List.drop_sublist _ _)).of_blank hblank
    · exact hx.constructor_below h hblank (by omega)

/-! ### The whole run -/

/-- The records of the classes that are come to for the given constructors, the one that fails
included. -/
def attempts (s : TokenStream) (marked : MarkedLines) : List Constructor → List Unwrapping
  | [] => []
  | c :: cs =>
    (unwrapping? s c).toList ++
      match (unwrap s marked c).outcome with
      | .ok u => attempts u.stream u.marked cs
      | .error _ => []

theorem mem_attempts {s : TokenStream} {marked : MarkedLines} {cs : List Constructor}
    {x : Unwrapping} (h : x ∈ attempts s marked cs) : unwrapping? x.stream x.constructor = some x := by
  induction cs generalizing s marked with
  | nil => simp [attempts] at h
  | cons c cs ih =>
    unfold attempts at h
    rcases List.mem_append.mp h with hx | hx
    · have hrecord : unwrapping? s c = some x := by simpa using hx
      obtain ⟨hc, hs, -⟩ := unwrapping?_eq_some hrecord
      rwa [hc, hs]
    · split at hx
      · exact ih hx
      · simp at hx

/-- A constructor without a wrapper is passed over. -/
theorem unwrap_of_none {s : TokenStream} {c : Constructor} (h : unwrapping? s c = none)
    (marked : MarkedLines) : (unwrap s marked c).outcome = .ok ⟨s, marked, false⟩ := by
  unfold unwrap
  cases hindex : s.indexOf? c.token with
  | none => rfl
  | some i =>
    cases hlocate : locate? s i c with
    | none =>
      have hi : i < s.length := (List.findIdx?_eq_some_iff_getElem.mp hindex).1
      simp only [hlocate, List.getElem?_eq_getElem hi]
      rfl
    | some w =>
      have hbounds := locate?_bounds hlocate
      rw [unwrapping?, hindex, Option.bind_some, hlocate, Option.bind_some,
        List.getElem?_eq_getElem (by omega), Option.bind_some,
        List.getElem?_eq_getElem hbounds.2.2] at h
      simp at h

/-- The first class is found in the stream as it is given. -/
theorem attempts_head {s : TokenStream} {marked : MarkedLines} {cs : List Constructor}
    {x : Unwrapping} (h : x ∈ (attempts s marked cs).head?) : x.stream = s := by
  induction cs with
  | nil => simp [attempts] at h
  | cons c cs ih =>
    unfold attempts at h
    cases hrecord : unwrapping? s c with
    | none =>
      rw [hrecord, unwrap_of_none hrecord] at h
      exact ih h
    | some y =>
      rw [hrecord] at h
      obtain rfl : y = x := by simpa using h
      exact (unwrapping?_eq_some hrecord).2.1

theorem unwrapAll_broken_iff {u : Unwrapped} {cs : List Constructor} :
    (unwrapAll u cs).outcome = .error .brokenLayout ↔
      ∃ x ∈ attempts u.stream u.marked cs, x.Cramped := by
  induction cs generalizing u with
  | nil => simp [unwrapAll, attempts]
  | cons c cs ih =>
    unfold unwrapAll attempts
    rw [Traced.bind_outcome]
    cases hrecord : unwrapping? u.stream c with
    | none =>
      rw [unwrap_of_none hrecord]
      simpa [Except.bind] using ih
    | some x =>
      have hbroken := outcome_broken_iff hrecord u.marked
      rw [unwrap_outcome hrecord]
      cases houtcome : x.outcome u.marked with
      | ok v =>
        have hroomy : ¬ x.Cramped := by
          rw [← hbroken, houtcome]
          simp
        simp only [Except.bind, Option.toList_some, List.singleton_append, List.mem_cons,
          exists_eq_or_imp, hroomy, false_or]
        exact ih
      | error fault =>
        rw [houtcome] at hbroken
        simp [Except.bind, hbroken]

end ClassWrapper

namespace HelperDeclarations

private theorem markDeclaration_fault {n : SyntaxNode} {s : TokenStream} {marked : MarkedLines}
    {fault : Fault} (h : markDeclaration n s marked = .error fault) :
    ∃ line found, fault = .malformedDeclaration line found := by
  have hclose : ∀ {line : Nat}, closeFirstLine s line = .error fault →
      ∃ found, fault = .malformedDeclaration line found := by
    intro line hclose
    unfold closeFirstLine at hclose
    dsimp only at hclose
    split at hclose
    · split at hclose
      · split at hclose
        · simp at hclose
        · exact ⟨_, (Except.error.inj hclose).symm⟩
      · exact ⟨_, (Except.error.inj hclose).symm⟩
    · exact ⟨_, (Except.error.inj hclose).symm⟩
  unfold markDeclaration at h
  dsimp only at h
  split at h
  · split at h
    · rename_i fault' hfault
      obtain rfl := Except.error.inj h
      exact ⟨_, hclose hfault⟩
    · simp at h
  · simp at h

/-- A declaration that is not in order is no broken layout. -/
private theorem through_fault {s : Sweep} {ns : List SyntaxNode}
    (h : s.fault ≠ some .brokenLayout) :
    (Step.through visit s ns).state.fault ≠ some .brokenLayout := by
  induction ns generalizing s with
  | nil => exact h
  | cons n ns ih =>
    unfold Step.through visit
    split
    · split
      · rename_i fault hfault
        obtain ⟨line, found, rfl⟩ := markDeclaration_fault hfault
        simp [Step.andThen, Step.state]
      · exact ih h
    · exact ih h

theorem run_not_broken (w : Workspace) : (run w).outcome ≠ .error .brokenLayout := by
  unfold run
  dsimp only
  rw [SyntaxNode.walk_eq_through]
  split
  · rename_i fault hfault
    rintro hbroken
    obtain rfl := Except.error.inj hbroken
    exact through_fault (by simp) hfault
  · simp

private theorem markDeclaration_blank {n : SyntaxNode} {s : TokenStream} {marked : MarkedLines}
    {m : Marking} (h : markDeclaration n s marked = .ok m) :
    m.stream.map Token.blank = s.map Token.blank := by
  unfold markDeclaration at h
  dsimp only at h
  split at h
  · split at h
    · simp at h
    · rename_i s' hclose
      obtain rfl := Except.ok.inj h
      unfold closeFirstLine at hclose
      dsimp only at hclose
      split at hclose
      · split at hclose
        · split at hclose
          · rw [← Except.ok.inj hclose]
            exact Token.blank_modify s _ _
          · simp at hclose
        · simp at hclose
      · simp at hclose
  · rw [← Except.ok.inj h]

/-- One call moves no token, whether the walk goes on after it or not. -/
theorem visit_blank (s : Sweep) (n : SyntaxNode) :
    (visit s n).state.stream.map Token.blank = s.stream.map Token.blank := by
  rcases visit_cases s n with ⟨-, hvisit⟩ | ⟨-, fault, hvisit⟩ | ⟨-, m, hm, hvisit⟩
  · rw [hvisit, Step.state]
  · rw [hvisit, Step.state]
  · rw [hvisit, Step.state]
    exact markDeclaration_blank hm

private theorem through_blank {s : Sweep} {ns : List SyntaxNode} :
    (Step.through visit s ns).state.stream.map Token.blank = s.stream.map Token.blank := by
  induction ns generalizing s with
  | nil => rfl
  | cons n ns ih =>
    have hcall := visit_blank s n
    rw [Step.through]
    cases hvisit : visit s n with
    | proceed t =>
      rw [hvisit] at hcall
      exact ih.trans hcall
    | halt t =>
      rw [hvisit] at hcall
      exact hcall

/-- The pass moves no token. -/
theorem run_blank {w : Workspace} {r : PassResult} (h : (run w).outcome = .ok r) :
    r.workspace.stream.map Token.blank = w.stream.map Token.blank := by
  unfold run at h
  dsimp only at h
  rw [SyntaxNode.walk_eq_through] at h
  split at h
  · simp at h
  · rw [← Except.ok.inj h]
    exact through_blank

end HelperDeclarations

/-- The classes that the second pass comes to in a source, the one that fails included. -/
def ParsedSource.attemptedClasses (p : ParsedSource) : List ClassWrapper.Unwrapping :=
  if isLeftAlone p.tokens then []
  else
    match (HelperDeclarations.run (.start p.tree p.stream)).outcome with
    | .error _ => []
    | .ok r => ClassWrapper.attempts r.workspace.stream r.workspace.marked
        (ClassWrapper.findConstructors r.workspace.stream)

theorem ParsedSource.attemptedClasses_inOrder {mode : Grammar.Mode} {source : String}
    {p : ParsedSource} (h : parse mode source = .ok p) (hapart : p.CommentsApart)
    {x : ClassWrapper.Unwrapping} (hx : x ∈ p.attemptedClasses.head?) : x.stream.InOrder := by
  unfold attemptedClasses at hx
  split at hx
  · simp at hx
  · split at hx
    · simp at hx
    · rename_i r hr
      rw [ClassWrapper.attempts_head hx]
      exact (stream_inOrder h hapart).of_blank (HelperDeclarations.run_blank hr)

theorem Traced.bind_outcome_eq_error_iff {α β : Type} {t : Traced α} {next : α → Traced β}
    {fault : Fault} :
    (t >>= next).outcome = .error fault ↔ t.outcome = .error fault ∨
      ∃ a, t.outcome = .ok a ∧ (next a).outcome = .error fault := by
  rw [Traced.bind_outcome]
  cases t.outcome with
  | error fault' => simp [Except.bind]
  | ok a => simp [Except.bind]

private theorem runAll_cons_error_iff {r : PassResult} {p : Pass} {ps : List Pass} {fault : Fault} :
    (Pass.runAll r (p :: ps)).outcome = .error fault ↔ (p.run r.workspace).outcome = .error fault ∨
      ∃ next, (p.run r.workspace).outcome = .ok next ∧
        (Pass.runAll ⟨next.workspace, r.modified || next.modified⟩ ps).outcome = .error fault := by
  rw [Pass.runAll, Traced.bind_outcome_eq_error_iff]
  refine or_congr_right (exists_congr fun next => and_congr_right fun _ => ?_)
  cases next.modified with
  | false => simp
  | true => simp [Traced.bind_outcome_eq_error_iff]

/-- A source that is read breaks the layout exactly when a class it comes to is cramped. -/
private theorem fix_broken_iff {options : FixOptions} {source : String} {p : ParsedSource}
    (hparse : ParsedSource.parse options.mode source = .ok p) :
    (fix options source).outcome = .error .brokenLayout ↔ ∃ x ∈ p.attemptedClasses, x.Cramped := by
  have hlines : ∀ w fault, (MarkedLineRemoval.run w).outcome ≠ .error fault := by
    intro w fault hfault
    obtain ⟨r, hr, -⟩ := MarkedLineRemoval.run_succeeds w
    simp [hr] at hfault
  have huses : ∀ w fault, (HelperUses.run w).outcome ≠ .error fault := by
    intro w fault hfault
    simp [HelperUses.run] at hfault
  have hclasses : ∀ w, (ClassWrapper.run w).outcome = .error .brokenLayout ↔
      ∃ x ∈ ClassWrapper.attempts w.stream w.marked (ClassWrapper.findConstructors w.stream),
        x.Cramped := by
    intro w
    rw [← ClassWrapper.unwrapAll_broken_iff (u := ⟨w.stream, w.marked, false⟩), ClassWrapper.run,
      Traced.bind_outcome_eq_error_iff]
    simp
  rw [fix, Traced.bind_outcome_eq_error_iff]
  simp only [Traced.ofExcept_outcome, hparse, reduceCtorEq, false_or, Except.ok.injEq,
    exists_eq_left']
  unfold ParsedSource.attemptedClasses
  cases isLeftAlone p.tokens with
  | true => simp [Traced.bind_outcome_eq_error_iff]
  | false =>
    simp only [Bool.false_eq_true, if_false, Traced.bind_outcome_eq_error_iff, Pass.all,
      runAll_cons_error_iff, Pass.run, hlines, huses, HelperDeclarations.run_not_broken, hclasses]
    cases (HelperDeclarations.run (.start p.tree p.stream)).outcome with
    | error fault => simp
    | ok r => simp [Pass.runAll]

theorem ParsedSource.mem_attemptedClasses {p : ParsedSource} {x : ClassWrapper.Unwrapping}
    (h : x ∈ p.attemptedClasses) : ClassWrapper.unwrapping? x.stream x.constructor = some x := by
  unfold attemptedClasses at h
  split at h
  · simp at h
  · split at h
    · simp at h
    · exact ClassWrapper.mem_attempts h

/-- A run breaks the layout exactly when a class it comes to is cramped, which no well placed one is.
The first class is found in a stream in order, where no comment reaches into the code. -/
theorem layout_broken_iff {options : FixOptions} {source : String} {p : ParsedSource}
    (hparse : ParsedSource.parse options.mode source = .ok p) :
    ((fix options source).outcome = .error .brokenLayout ↔ ∃ x ∈ p.attemptedClasses, x.Cramped) ∧
    (∀ x ∈ p.attemptedClasses, x.WellPlaced → ¬ x.Cramped) ∧
    (p.CommentsApart → ∀ x ∈ p.attemptedClasses.head?, x.stream.InOrder) := by
  refine ⟨fix_broken_iff hparse, fun x hx hplaced => ?_, fun hapart x hx => ?_⟩
  · exact hplaced.not_cramped (ParsedSource.mem_attemptedClasses hx)
  · exact ParsedSource.attemptedClasses_inOrder hparse hapart hx

/-- A class inside of another one, in front of its constructor: nothing is cut out, the first class is
in order, and the layout breaks. -/
theorem layout_broken_inner_class :
    ∃ p, ParsedSource.parse .script
        "Foo = (function() \x7b\n  A.B = (function() \x7b\n    function B() \x7b\x7d\n\n    return B;\n\n  \x7d)();\n\n  function Foo() \x7b\x7d\n\n  return Foo;\n\n\x7d)();\n" = .ok p ∧
      (∀ x ∈ p.attemptedClasses, x.cut = []) ∧
      (∀ x ∈ p.attemptedClasses.head?, x.stream.InOrder) ∧ ∃ x ∈ p.attemptedClasses, x.Cramped := by
  have hrun : ((ParsedSource.parse .script
        "Foo = (function() \x7b\n  A.B = (function() \x7b\n    function B() \x7b\x7d\n\n    return B;\n\n  \x7d)();\n\n  function Foo() \x7b\x7d\n\n  return Foo;\n\n\x7d)();\n").toOption.any
      fun p => decide (p.CommentsApart ∧ ∀ x ∈ p.attemptedClasses, x.cut = [])) = true := by
    decide +kernel
  have hbroken : (fix ⟨false, .script⟩
        "Foo = (function() \x7b\n  A.B = (function() \x7b\n    function B() \x7b\x7d\n\n    return B;\n\n  \x7d)();\n\n  function Foo() \x7b\x7d\n\n  return Foo;\n\n\x7d)();\n").outcome =
      .error .brokenLayout := by
    decide +kernel
  obtain ⟨p, hp, hp'⟩ := (Option.any_eq_true _ _).mp hrun
  obtain ⟨hapart, hcut⟩ := of_decide_eq_true hp'
  have hparse := except_eq_ok_of_toOption hp
  obtain ⟨hiff, -, hfirst⟩ := @layout_broken_iff ⟨false, .script⟩ _ p hparse
  exact ⟨p, hparse, hcut, hfirst hapart, hiff.mp hbroken⟩

end ClosureReady
