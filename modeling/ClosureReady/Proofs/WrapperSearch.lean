import ClosureReady.Proofs.ConstructorRun

/-!
Which functions are taken for constructors.  The wrapper of a function is found by columns alone: by the
nearest two tokens around the function that are one level left of it, if the text from the first of
them to the first `=` ends with the function's name.  What stands after the sign and on the closing
line is not looked at, so a function that is declared inside of anything else with such an assignment
in front of it is unwrapped too.
-/

set_option autoImplicit false
set_option relaxedAutoImplicit false

namespace ClosureReady

/-- What is read of a token: its class and its text. -/
def Token.lexical (t : Token) : TokenKind × String := (t.kind, t.value)

theorem TokenStream.mem_between_iff {s : TokenStream} {a b : Nat} {t : Token} :
    t ∈ s.between a b ↔ ∃ k, a ≤ k ∧ k < b ∧ s[k]? = some t := by
  rw [between, List.mem_iff_getElem?]
  constructor
  · rintro ⟨k, hk⟩
    rw [List.getElem?_take, List.getElem?_drop] at hk
    split at hk
    · exact ⟨a + k, by omega, by omega, hk⟩
    · simp at hk
  · rintro ⟨k, hak, hkb, hk⟩
    refine ⟨k - a, ?_⟩
    rw [List.getElem?_take, if_pos (by omega), List.getElem?_drop, Nat.add_sub_cancel' hak, hk]

theorem TokenStream.between_append_drop {s : TokenStream} {a b : Nat} (h : a ≤ b) :
    s.between a b ++ s.drop b = s.drop a := by
  have hrest : s.drop b = (s.drop a).drop (b - a) := by rw [List.drop_drop, Nat.add_sub_cancel' h]
  rw [between, hrest, List.take_append_drop]

namespace ClassWrapper

/-! ### The searches -/

private theorem findIdx?_eq_some_iff_getElem? {p : Token → Bool} {j : Nat} {ts : List Token} :
    ts.findIdx? p = some j ↔ (∃ t, ts[j]? = some t ∧ p t = true) ∧
      ∀ k t, k < j → ts[k]? = some t → p t = false := by
  rw [List.findIdx?_eq_some_iff_getElem]
  constructor
  · rintro ⟨hj, hp, hbefore⟩
    refine ⟨⟨ts[j], List.getElem?_eq_getElem hj, hp⟩, fun k t hk ht => ?_⟩
    obtain ⟨hvalid, rfl⟩ := List.getElem?_eq_some_iff.mp ht
    simpa using hbefore k hk
  · rintro ⟨⟨t, ht, hp⟩, hbefore⟩
    obtain ⟨hj, rfl⟩ := List.getElem?_eq_some_iff.mp ht
    refine ⟨hj, hp, fun k hk => ?_⟩
    simp [hbefore k ts[k] hk (List.getElem?_eq_getElem (hk.trans hj))]

theorem nextIndex?_eq_some_iff {p : Token → Bool} {i j : Nat} {ts : List Token} :
    nextIndex? p i ts = some j ↔ i ≤ j ∧ (∃ t, ts[j]? = some t ∧ p t = true) ∧
      ∀ k t, i ≤ k → k < j → ts[k]? = some t → p t = false := by
  rw [nextIndex?, Option.map_eq_some_iff]
  constructor
  · rintro ⟨m, hm, rfl⟩
    obtain ⟨hfound, hbefore⟩ := findIdx?_eq_some_iff_getElem?.mp hm
    simp only [List.getElem?_drop] at hfound hbefore
    refine ⟨Nat.le_add_right i m, hfound, fun k t hik hk ht => ?_⟩
    exact hbefore (k - i) t (by omega) (by rwa [Nat.add_sub_cancel' hik])
  · rintro ⟨hij, hfound, hbefore⟩
    refine ⟨j - i, findIdx?_eq_some_iff_getElem?.mpr ⟨?_, fun k t hk ht => ?_⟩, by omega⟩
    · rwa [List.getElem?_drop, Nat.add_sub_cancel' hij]
    · rw [List.getElem?_drop] at ht
      exact hbefore (i + k) t (by omega) (by omega) ht

theorem lastIndex?_eq_some_iff {p : Token → Bool} {j : Nat} {ts : List Token} :
    lastIndex? p ts = some j ↔ (∃ t, ts[j]? = some t ∧ p t = true) ∧
      ∀ k t, j < k → ts[k]? = some t → p t = false := by
  rw [lastIndex?, Option.map_eq_some_iff]
  constructor
  · rintro ⟨m, hm, rfl⟩
    obtain ⟨⟨u, hu, hp⟩, hbefore⟩ := findIdx?_eq_some_iff_getElem?.mp hm
    have hlt : m < ts.length := by simpa using (List.getElem?_eq_some_iff.mp hu).1
    rw [List.getElem?_reverse hlt] at hu
    refine ⟨⟨u, hu, hp⟩, fun k t hk ht => ?_⟩
    have hvalid := (List.getElem?_eq_some_iff.mp ht).1
    refine hbefore (ts.length - 1 - k) t (by omega) ?_
    rw [List.getElem?_reverse (by omega), ← ht]
    congr 1
    omega
  · rintro ⟨⟨u, hu, hp⟩, hafter⟩
    have hj := (List.getElem?_eq_some_iff.mp hu).1
    refine ⟨ts.length - 1 - j, findIdx?_eq_some_iff_getElem?.mpr ⟨⟨u, ?_, hp⟩, ?_⟩, by omega⟩
    · rw [List.getElem?_reverse (by omega), ← hu]
      congr 1
      omega
    · intro k t hk ht
      rw [List.getElem?_reverse (by omega)] at ht
      exact hafter _ t (by omega) ht

theorem dropEnding?_eq_some_iff {text ending path : String} :
    dropEnding? text ending = some path ↔ text = path ++ ending := by
  constructor
  · intro h
    unfold dropEnding? at h
    split at h
    · rename_i hsuffix
      obtain ⟨front, hfront⟩ := List.isSuffixOf_iff_suffix.mp hsuffix
      rw [← hfront, List.length_append, Nat.add_sub_cancel, List.take_left] at h
      rw [← Option.some.inj h, ← String.toList_inj, ← hfront]
      simp
    · simp at h
  · rintro rfl
    exact dropEnding?_append path ending

/-- The tokens before the first `=`. -/
def assigned? (ts : List Token) : Option (List Token) :=
  (ts.findIdx? (·.isPunctuator "=")).map ts.take

/-! ### The lines around a function -/

/-- Two tokens that frame the one at an index: both are in a column one level left of it, and nothing
between them is. -/
structure Frames (s : TokenStream) (column i : Nat) (b : IndexRange) : Prop where
  around : b.start < i ∧ i < b.stop
  opening : ∃ t ∈ s[i]?, t.column = column + indentUnit
  first : ∃ t ∈ s[b.start]?, t.column = column
  last : ∃ t ∈ s[b.stop]?, t.column = column
  inside : ∀ t ∈ s.between (b.start + 1) b.stop, t.column ≠ column

instance (s : TokenStream) (column i : Nat) (b : IndexRange) : Decidable (Frames s column i b) :=
  decidable_of_iff ((b.start < i ∧ i < b.stop) ∧ (∃ t ∈ s[i]?, t.column = column + indentUnit) ∧
      (∃ t ∈ s[b.start]?, t.column = column) ∧ (∃ t ∈ s[b.stop]?, t.column = column) ∧
      ∀ t ∈ s.between (b.start + 1) b.stop, t.column ≠ column)
    ⟨fun ⟨h₁, h₂, h₃, h₄, h₅⟩ => ⟨h₁, h₂, h₃, h₄, h₅⟩,
      fun ⟨h₁, h₂, h₃, h₄, h₅⟩ => ⟨h₁, h₂, h₃, h₄, h₅⟩⟩

section Frames

variable {s : TokenStream} {column i : Nat} {b : IndexRange}

/-- A frame is what the searches for the two lines find. -/
theorem frames_iff : Frames s column i b ↔
    (∃ t, s[i]? = some t ∧ Token.checkedSub t.column indentUnit = some column) ∧
      nextIndex? (fun t => t.column == column) (i + 1) s = some b.stop ∧
      lastIndex? (fun t => t.column == column) (s.take i) = some b.start := by
  simp only [nextIndex?_eq_some_iff, lastIndex?_eq_some_iff, Token.checkedSub_eq_some_iff, beq_iff_eq,
    beq_eq_false_iff_ne]
  constructor
  · rintro ⟨⟨hstart, hstop⟩, ⟨t, ht, hlevel⟩, ⟨head, hhead, hfirst⟩, ⟨foot, hfoot, hlast⟩, hinside⟩
    have hbetween : ∀ k u, b.start < k → k < b.stop → s[k]? = some u → u.column ≠ column :=
      fun k u hlow hhigh hu => hinside u (TokenStream.mem_between_iff.mpr ⟨k, hlow, hhigh, hu⟩)
    refine ⟨⟨t, ht, by omega, by omega⟩, ⟨hstop, ⟨foot, hfoot, hlast⟩, fun k u hk => ?_⟩,
      ⟨head, ?_, hfirst⟩, fun k u hk hu => ?_⟩
    · exact hbetween k u (by omega)
    · rw [List.getElem?_take, if_pos hstart]
      exact hhead
    · rw [List.getElem?_take] at hu
      split at hu
      · exact hbetween k u hk (by omega) hu
      · simp at hu
  · rintro ⟨⟨t, ht, hle, hcolumn⟩, ⟨hstop, ⟨foot, hfoot, hlast⟩, hafter⟩, ⟨head, hhead, hfirst⟩, hbefore⟩
    rw [List.getElem?_take] at hhead
    split at hhead
    · rename_i hstart
      refine ⟨⟨hstart, hstop⟩, ⟨t, ht, by omega⟩, ⟨head, hhead, hfirst⟩, ⟨foot, hfoot, hlast⟩, ?_⟩
      intro u hu
      obtain ⟨k, hlow, hhigh, hk⟩ := TokenStream.mem_between_iff.mp hu
      rcases Nat.lt_trichotomy k i with hlt | rfl | hgt
      · exact hbefore k u hlow (by rwa [List.getElem?_take, if_pos hlt])
      · -- The token itself is one level to the right.
        obtain rfl := Option.some.inj (ht.symm.trans hk)
        have : 0 < indentUnit := by decide
        omega
      · exact hafter k u hgt hhigh hk
    · simp at hhead

/-- A token has one frame. -/
theorem Frames.unique (h : Frames s column i b) {column' : Nat} {b' : IndexRange}
    (h' : Frames s column' i b') : column' = column ∧ b' = b := by
  obtain ⟨⟨t, ht, hcolumn⟩, hstop, hstart⟩ := frames_iff.mp h
  obtain ⟨⟨t', ht', hcolumn'⟩, hstop', hstart'⟩ := frames_iff.mp h'
  obtain rfl := Option.some.inj (ht.symm.trans ht')
  obtain rfl := Option.some.inj (hcolumn.symm.trans hcolumn')
  obtain ⟨start, stop⟩ := b
  obtain ⟨start', stop'⟩ := b'
  obtain rfl := Option.some.inj (hstop.symm.trans hstop')
  obtain rfl := Option.some.inj (hstart.symm.trans hstart')
  exact ⟨rfl, rfl⟩

end Frames

/-- What is assigned, by the index of the sign. -/
theorem assigned?_between_eq_some_iff {s : TokenStream} {start i : Nat} {target : List Token} :
    assigned? (s.between start i) = some target ↔
      ∃ assign, nextIndex? (·.isPunctuator "=") start (s.take i) = some assign ∧
        (s.take assign).drop start = target := by
  have hbetween : (s.take i).drop start = s.between start i := List.drop_take
  have htake : ∀ {k}, (s.between start i).findIdx? (·.isPunctuator "=") = some k →
      (s.take (start + k)).drop start = (s.between start i).take k := by
    intro k hk
    have hlt := (List.findIdx?_eq_some_iff_getElem.mp hk).1
    rw [TokenStream.between, List.length_take] at hlt
    rw [List.drop_take, Nat.add_sub_cancel_left, TokenStream.between, List.take_take,
      Nat.min_eq_left (by omega)]
  rw [assigned?, nextIndex?, hbetween]
  simp only [Option.map_eq_some_iff]
  constructor
  · rintro ⟨k, hk, rfl⟩
    exact ⟨start + k, ⟨k, hk, rfl⟩, htake hk⟩
  · rintro ⟨_, ⟨k, hk, rfl⟩, rfl⟩
    exact ⟨k, hk, (htake hk).symm⟩

/-- The wrapper of a constructor is its frame, if the name ends what is assigned. -/
theorem locate?_eq_some_iff {s : TokenStream} {i : Nat} {c : Constructor} {w : Wrapper} :
    locate? s i c = some w ↔ Frames s w.column i ⟨w.start, w.stop⟩ ∧
      (assigned? (s.between w.start i)).map joinValues = some (w.path ++ c.className) ∧
      ∃ closing ∈ s[w.stop]?, parentPath (s.drop w.stop) closing.line = w.parent := by
  rw [frames_iff]
  unfold locate?
  simp only [Option.bind_eq_bind, Option.bind_eq_some_iff, Option.pure_def, Option.some.injEq,
    Option.map_eq_some_iff, assigned?_between_eq_some_iff, dropEnding?_eq_some_iff]
  constructor
  · rintro ⟨opening, hopening, column, hcolumn, stop, hstop, closing, hclosing, start, hstart, assign,
      hassign, path, hpath, rfl⟩
    exact ⟨⟨⟨opening, hopening, hcolumn⟩, hstop, hstart⟩, ⟨_, ⟨assign, hassign, rfl⟩, hpath⟩,
      closing, hclosing, rfl⟩
  · rintro ⟨⟨⟨opening, hopening, hcolumn⟩, hstop, hstart⟩, ⟨_, ⟨assign, hassign, rfl⟩, hpath⟩, closing,
      hclosing, hparent⟩
    exact ⟨opening, hopening, w.column, hcolumn, w.stop, hstop, closing, hclosing, w.start, hstart,
      assign, hassign, w.path, hpath, by rw [hparent]⟩

/-- Whether lines are those of a class wrapper: `(function(` follows the first `=`, and the closing line
starts with `})(`. -/
structure IsWrapper (s : TokenStream) (b : IndexRange) : Prop where
  called : ((((s.drop b.start).dropWhile fun t => !t.isPunctuator "=").drop 1).take 3).map
    Token.lexical = [(.punctuator, "("), (.keyword, "function"), (.punctuator, "(")]
  closed : (s.between b.stop (b.stop + 3)).map Token.lexical =
    [(.punctuator, "\x7d"), (.punctuator, ")"), (.punctuator, "(")]
  line : ∀ foot ∈ s[b.stop]?, (∀ t ∈ s.take b.stop, t.line ≠ foot.line) ∧
    ∀ t ∈ s.between b.stop (b.stop + 3), t.line = foot.line

instance (s : TokenStream) (b : IndexRange) : Decidable (IsWrapper s b) :=
  decidable_of_iff
    (((((s.drop b.start).dropWhile fun t => !t.isPunctuator "=").drop 1).take 3).map
        Token.lexical = [(.punctuator, "("), (.keyword, "function"), (.punctuator, "(")] ∧
      (s.between b.stop (b.stop + 3)).map Token.lexical =
        [(.punctuator, "\x7d"), (.punctuator, ")"), (.punctuator, "(")] ∧
      ∀ foot ∈ s[b.stop]?, (∀ t ∈ s.take b.stop, t.line ≠ foot.line) ∧
        ∀ t ∈ s.between b.stop (b.stop + 3), t.line = foot.line)
    ⟨fun ⟨h₁, h₂, h₃⟩ => ⟨h₁, h₂, h₃⟩, fun ⟨h₁, h₂, h₃⟩ => ⟨h₁, h₂, h₃⟩⟩

/-- A frame is the wrapper of a constructor whose name ends what is assigned there. -/
theorem Frames.locate? {s : TokenStream} {column i : Nat} {b : IndexRange}
    (h : Frames s column i b) {c : Constructor} {path : String}
    (hpath : (assigned? (s.between b.start i)).map joinValues = some (path ++ c.className)) :
    ∃ w, ClassWrapper.locate? s i c = some w ∧ (⟨w.start, w.stop⟩ : IndexRange) = b := by
  obtain ⟨closing, hclosing, -⟩ := h.last
  exact ⟨⟨b.start, b.stop, column, path, parentPath (s.drop b.stop) closing.line⟩,
    locate?_eq_some_iff.mpr ⟨h, hpath, closing, hclosing, rfl⟩, rfl⟩

/-- The wrapper of a constructor is the frame it has. -/
theorem Frames.of_locate? {s : TokenStream} {column i : Nat} {b : IndexRange}
    (h : Frames s column i b) {c : Constructor} {w : Wrapper}
    (hw : ClassWrapper.locate? s i c = some w) :
    (⟨w.start, w.stop⟩ : IndexRange) = b ∧
      (assigned? (s.between b.start i)).map joinValues = some (w.path ++ c.className) := by
  obtain ⟨hframes, hpath, -⟩ := locate?_eq_some_iff.mp hw
  obtain ⟨-, hb⟩ := h.unique hframes
  exact ⟨hb, hb ▸ hpath⟩

/-- A class that is located is unwrapped, or its unwrapping fails. -/
theorem unwrap_of_locate? {s : TokenStream} {i : Nat} {c : Constructor} {w : Wrapper}
    (hi : s.indexOf? c.token = some i) (hw : ClassWrapper.locate? s i c = some w)
    (marked : MarkedLines) :
    (∃ u, (unwrap s marked c).outcome = .ok u ∧ u.modified = true) ∨
      ∃ fault, (unwrap s marked c).outcome = .error fault := by
  cases houtcome : (unwrap s marked c).outcome with
  | error fault => exact Or.inr ⟨fault, rfl⟩
  | ok u =>
    rcases unwrap_ok houtcome with ⟨hnone, -⟩ | ⟨x, -, hmodified, -⟩
    · have hbounds := locate?_bounds hw
      rw [unwrapping?, hi, Option.bind_some, hw, Option.bind_some,
        List.getElem?_eq_getElem (by omega), Option.bind_some,
        List.getElem?_eq_getElem hbounds.2.2] at hnone
      simp at hnone
    · exact Or.inl ⟨u, rfl, hmodified⟩

theorem unwrap_of_locate?_none {s : TokenStream} {i : Nat} {c : Constructor}
    (hi : s.indexOf? c.token = some i) (hw : ClassWrapper.locate? s i c = none) (marked : MarkedLines) :
    (unwrap s marked c).outcome = .ok ⟨s, marked, false⟩ :=
  unwrap_of_none (by rw [unwrapping?, hi, Option.bind_some, hw, Option.bind_none]) marked

end ClassWrapper

open ClassWrapper

/-- A function that no two lines frame is left alone.  One with a frame is left alone exactly when the
text before the first `=` in the frame does not end with its name, and only a wrapper is unwrapped there
exactly when that text does not end so, the frame is a wrapper or the unwrapping fails. -/
theorem only_wrappers_unwrapped_iff {s : TokenStream} {c : Constructor} {i : Nat}
    (hi : s.indexOf? c.token = some i) (marked : MarkedLines) :
    ((∀ column b, ¬ Frames s column i b) → (unwrap s marked c).outcome = .ok ⟨s, marked, false⟩) ∧
    ∀ column b, Frames s column i b →
      ((unwrap s marked c).outcome = .ok ⟨s, marked, false⟩ ↔
        ∀ path, (assigned? (s.between b.start i)).map joinValues ≠ some (path ++ c.className)) ∧
      ((∀ u, (unwrap s marked c).outcome = .ok u → u.modified = true →
          ∃ w, locate? s i c = some w ∧ IsWrapper s ⟨w.start, w.stop⟩) ↔
        ∀ path, (assigned? (s.between b.start i)).map joinValues = some (path ++ c.className) →
          IsWrapper s b ∨ ∃ fault, (unwrap s marked c).outcome = .error fault) := by
  refine ⟨fun hnone => ?_, fun column b hframes => ⟨⟨fun houtcome path hpath => ?_, fun hnone => ?_⟩,
    fun honly path hpath => ?_, fun hall u hu hmodified => ?_⟩⟩
  · refine unwrap_of_locate?_none hi (Option.eq_none_iff_forall_ne_some.mpr fun w hw => ?_) marked
    exact hnone w.column _ (locate?_eq_some_iff.mp hw).1
  · obtain ⟨w, hw, -⟩ := hframes.locate? hpath
    rcases unwrap_of_locate? hi hw marked with ⟨u, hu, hmodified⟩ | ⟨fault, hfault⟩
    · rw [← Except.ok.inj (houtcome.symm.trans hu)] at hmodified
      simp at hmodified
    · simp [houtcome] at hfault
  · refine unwrap_of_locate?_none hi (Option.eq_none_iff_forall_ne_some.mpr fun w hw => ?_) marked
    exact hnone w.path (hframes.of_locate? hw).2
  · obtain ⟨w, hw, hb⟩ := hframes.locate? hpath
    rcases unwrap_of_locate? hi hw marked with ⟨u, hu, hmodified⟩ | hfault
    · obtain ⟨v, hv, hwrapper⟩ := honly u hu hmodified
      obtain rfl := Option.some.inj (hw.symm.trans hv)
      exact Or.inl (hb ▸ hwrapper)
    · exact Or.inr hfault
  · cases hw : locate? s i c with
    | none =>
      rw [unwrap_of_locate?_none hi hw marked] at hu
      rw [← Except.ok.inj hu] at hmodified
      simp at hmodified
    | some w =>
      obtain ⟨hb, hpath⟩ := hframes.of_locate? hw
      rcases hall w.path hpath with hwrapper | ⟨fault, hfault⟩
      · exact ⟨w, rfl, hb ▸ hwrapper⟩
      · simp [hu] at hfault

/-- A function inside of another one that is assigned to a variable of the same name. -/
theorem only_wrappers_unwrapped_function :
    ∃ p, ParsedSource.parse .script "f = function() \x7b\n  function f() \x7b\x7d\n  return f;\n\x7d;\n" = .ok p ∧
      ∃ c ∈ findConstructors p.stream, ∃ i b u, p.stream.indexOf? c.token = some i ∧
        Frames p.stream 0 i b ∧ ¬ IsWrapper p.stream b ∧
        (unwrap p.stream .empty c).outcome = .ok u ∧ u.modified = true ∧
        ¬ ∀ u, (unwrap p.stream .empty c).outcome = .ok u → u.modified = true →
          ∃ w, locate? p.stream i c = some w ∧ IsWrapper p.stream ⟨w.start, w.stop⟩ := by
  have hrun : ((ParsedSource.parse .script "f = function() \x7b\n  function f() \x7b\x7d\n  return f;\n\x7d;\n").toOption.any
      fun p => (findConstructors p.stream).any fun c => (p.stream.indexOf? c.token).any fun i =>
        decide (Frames p.stream 0 i ⟨0, 15⟩ ∧ ¬ IsWrapper p.stream ⟨0, 15⟩ ∧
          (assigned? (p.stream.between 0 i)).map joinValues = some ("" ++ c.className)) &&
        ((unwrap p.stream .empty c).outcome.toOption.any (·.modified))) = true := by
    decide +kernel
  obtain ⟨p, hp, hp'⟩ := (Option.any_eq_true _ _).mp hrun
  obtain ⟨c, hc, hc'⟩ := List.any_eq_true.mp hp'
  obtain ⟨i, hi, hi'⟩ := (Option.any_eq_true _ _).mp hc'
  obtain ⟨hfacts, hok⟩ := Bool.and_eq_true_iff.mp hi'
  obtain ⟨hframes, hwrapper, hpath⟩ := of_decide_eq_true hfacts
  obtain ⟨u, hu, hmodified⟩ := (Option.any_eq_true _ _).mp hok
  have hunwrap := except_eq_ok_of_toOption hu
  refine ⟨p, except_eq_ok_of_toOption hp, c, hc, i, ⟨0, 15⟩, u, hi, hframes, hwrapper, hunwrap,
    hmodified, fun honly => ?_⟩
  obtain ⟨-, hiff⟩ := (only_wrappers_unwrapped_iff hi .empty).2 0 _ hframes
  rcases hiff.mp honly "" hpath with h | ⟨fault, hfault⟩
  · exact hwrapper h
  · simp [hunwrap] at hfault

end ClosureReady
