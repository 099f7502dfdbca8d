import ClosureReady.Proofs.ClassStages

/-!
Room to unwrap a class.  Of its edits only two can push a token past the start of its line: cutting out
the declarator pulls the rest of its line left, and dedenting the body moves each line as far as its
first token allows.  Whether every token can follow is read off the columns of the stream, and a class
for which some token cannot is cramped: unwrapping it breaks the layout, and that of no other class does.
-/

set_option autoImplicit false
set_option relaxedAutoImplicit false

namespace ClosureReady

theorem Token.HasRoom.mono {t : Token} {bytes bytes' columns columns' : Nat}
    (h : t.HasRoom bytes columns) (hbytes : bytes' ≤ bytes) (hcolumns : columns' ≤ columns) :
    t.HasRoom bytes' columns' :=
  ⟨hbytes.trans h.start, hbytes.trans h.stop, hcolumns.trans h.column,
    fun hline => hcolumns.trans (h.stopColumn hline)⟩

namespace ClassWrapper

/-! ### Dedenting a body -/

/-- Whether each line that starts among the first `count` tokens can be dedented: all of its tokens can
go as far as the first one.  The given line is under way. -/
def LinesFit : (count : Nat) → (line : Option Nat) → List Token → Prop
  | 0, _, _ => True
  | _ + 1, _, [] => True
  | count + 1, line, t :: rest =>
    (line = some t.line ∨ ∀ u ∈ t :: rest.takeWhile (fun u => u.line == t.line),
      u.HasRoom 0 (min t.column indentUnit)) ∧ LinesFit count (some t.line) rest

instance LinesFit.decidable : (count : Nat) → (line : Option Nat) → (ts : List Token) →
    Decidable (LinesFit count line ts)
  | 0, _, _ => .isTrue trivial
  | _ + 1, _, [] => .isTrue trivial
  | count + 1, line, t :: rest =>
    have := LinesFit.decidable count (some t.line) rest
    inferInstanceAs (Decidable ((line = some t.line ∨
      ∀ u ∈ t :: rest.takeWhile (fun u => u.line == t.line),
        u.HasRoom 0 (min t.column indentUnit)) ∧ LinesFit count (some t.line) rest))

/-- The rest of a line under way asks for nothing. -/
theorem linesFit_append_of_line {count l : Nat} {seg rest : List Token}
    (h : ∀ t ∈ seg, t.line = l) :
    LinesFit count (some l) (seg ++ rest) ↔ LinesFit (count - seg.length) (some l) rest := by
  induction seg generalizing count with
  | nil => simp
  | cons t seg ih =>
    obtain ⟨rfl, hseg⟩ := List.forall_mem_cons.mp h
    cases count with
    | zero => simp [LinesFit]
    | succ count =>
      rw [List.cons_append, LinesFit, ih hseg, List.length_cons, Nat.add_sub_add_right]
      simp

/-- Moving the rest of a line under way changes nothing. -/
theorem linesFit_moved {count l columns : Nat} {rest : List Token} :
    LinesFit count (some l) ((rest.takeWhile (fun u => u.line == l)).map (·.movedLeft 0 columns) ++
        rest.dropWhile fun u => u.line == l) ↔ LinesFit count (some l) rest := by
  have hline : ∀ t ∈ rest.takeWhile (fun u => u.line == l), t.line = l := by
    intro t ht
    simpa using List.mem_takeWhile_imp ht
  have hmoved : ∀ t ∈ (rest.takeWhile (fun u => u.line == l)).map (·.movedLeft 0 columns),
      t.line = l := by
    intro t ht
    obtain ⟨u, hu, rfl⟩ := List.mem_map.mp ht
    exact hline u hu
  rw [linesFit_append_of_line hmoved, List.length_map, ← linesFit_append_of_line hline,
    List.takeWhile_append_dropWhile]

theorem adaptToken_eq_withValue (w : Wrapper) (c : Constructor) (previous t : Token) :
    adaptToken w c previous t = t.withValue (adaptToken w c previous t).value := by
  unfold adaptToken
  dsimp only
  split <;> split <;> split <;> rfl

/-- A body is adapted exactly when each of its lines can be dedented. -/
theorem adaptBody_isSome_iff {w : Wrapper} {c : Constructor} {count : Nat} {previous : Token}
    {line : Option Nat} {ts : List Token} (hcount : count ≤ ts.length) :
    (adaptBody w c count previous line ts).isSome = true ↔ LinesFit count line ts := by
  induction count generalizing previous line ts with
  | zero => simp [adaptBody, LinesFit]
  | succ count ih =>
    cases ts with
    | nil => simp at hcount
    | cons t rest =>
      rw [List.length_cons, Nat.add_le_add_iff_right] at hcount
      unfold adaptBody
      dsimp only
      generalize hv : (adaptToken w c previous t).value = v
      rw [adaptToken_eq_withValue w c previous t, hv]
      have hlines : (t.withValue v).line = t.line := rfl
      by_cases hline : line = some t.line
      · simp only [hlines, hline, if_true, Option.isSome_map, LinesFit, true_or, true_and]
        exact ih hcount
      · simp only [hlines, hline, if_false, LinesFit, false_or]
        have hroom_iff : (∀ u ∈ t.withValue v :: rest.takeWhile (fun u => u.line == t.line),
            u.HasRoom 0 (min t.column indentUnit)) ↔
              ∀ u ∈ t :: rest.takeWhile (fun u => u.line == t.line),
                u.HasRoom 0 (min t.column indentUnit) := by
          rw [List.forall_mem_cons, List.forall_mem_cons, Token.hasRoom_iff, Token.hasRoom_iff]
          rfl
        by_cases hroom : ∀ u ∈ t :: rest.takeWhile (fun u => u.line == t.line),
            u.HasRoom 0 (min t.column indentUnit)
        · have hdedent : TokenStream.dedentLine? (t.withValue v :: rest) 0 indentUnit =
              some ((t.withValue v).movedLeft 0 (min t.column indentUnit) ::
                ((rest.takeWhile fun u => u.line == t.line).map
                  (·.movedLeft 0 (min t.column indentUnit)) ++
                rest.dropWhile fun u => u.line == t.line)) :=
            TokenStream.dedentLine?_cons (hroom_iff.mpr hroom)
          have hlength : ((rest.takeWhile fun u => u.line == t.line).map
              (·.movedLeft 0 (min t.column indentUnit)) ++
                rest.dropWhile fun u => u.line == t.line).length = rest.length := by
            rw [List.length_append, List.length_map, ← List.length_append,
              List.takeWhile_append_dropWhile]
          simp only [hdedent, Option.isSome_map, Token.movedLeft_line, hlines]
          rw [ih (by rw [hlength]; exact hcount), linesFit_moved]
          exact (and_iff_right hroom).symm
        · have hdedent : TokenStream.dedentLine? (t.withValue v :: rest) 0 indentUnit = none := by
            cases hsome : TokenStream.dedentLine? (t.withValue v :: rest) 0 indentUnit with
            | none => rfl
            | some s => exact absurd (hroom_iff.mp (TokenStream.dedentLine?_eq_some_iff.mp hsome).1) hroom
          simp only [hdedent, Option.isSome_none, Bool.false_eq_true, false_iff]
          exact fun hfit => hroom hfit.1

theorem adaptBetween?_isSome_iff {s : TokenStream} {start stop : Nat} {w : Wrapper}
    {c : Constructor} (hstart : start < s.length) (hstop : stop ≤ s.length) :
    (adaptBetween? s start stop w c).isSome = true ↔
      LinesFit (stop - (start + 1)) none (s.drop (start + 1)) := by
  unfold adaptBetween?
  split
  · rw [List.getElem?_eq_getElem hstart, Option.bind_some, Option.isSome_map]
    exact adaptBody_isSome_iff (by rw [List.length_drop]; omega)
  · rename_i hempty
    rw [Nat.sub_eq_zero_of_le (by omega)]
    simp [LinesFit]

/-! ### Cutting out a declarator -/

/-- Whether the rest of the line can follow when two neighbours are cut out. -/
def PairFits (s : TokenStream) (k : Nat) : Prop :=
  ∀ a ∈ s[k]?, ∀ b ∈ s[k + 1]?, a.span.start ≤ b.span.stop ∧ a.column ≤ b.region.stop.column ∧
    ∀ u ∈ (s.drop (k + 2)).takeWhile (fun u => u.line == b.line),
      u.HasRoom (b.span.stop - a.span.start) (b.region.stop.column - a.column)

theorem excise?_isSome_iff {s : TokenStream} {k : Nat} {a b : Token}
    (h : (s.drop k).take 2 = [a, b]) : (s.excise? k 2).isSome = true ↔ PairFits s k := by
  have hk : k < s.length := by
    have hlength := congrArg List.length h
    rw [List.length_take, List.length_drop, List.length_cons] at hlength
    omega
  have hsplit : s = s.take k ++ a :: b :: s.drop (k + 2) := by
    have hrest : s.drop k = [a, b] ++ s.drop (k + 2) := by
      rw [← h, ← List.drop_drop, List.take_append_drop]
    exact (List.take_append_drop k s).symm.trans (congrArg _ hrest)
  have htake : (s.take k).length = k := by
    rw [List.length_take]
    omega
  have ha : s[k]? = some a := by
    rw [hsplit, List.getElem?_append_right (by omega), htake]
    simp
  have hb : s[k + 1]? = some b := by
    rw [hsplit, List.getElem?_append_right (by omega), htake]
    simp
  have hiff := fun s' => @TokenStream.excise?_pair_eq_some_iff (s.take k) (s.drop (k + 2)) s' a b
  rw [← hsplit, htake] at hiff
  rw [Option.isSome_iff_exists]
  simp only [hiff, PairFits, ha, hb, Option.mem_some_iff, forall_eq']
  exact ⟨fun ⟨_, hfits, _⟩ => hfits, fun hfits => ⟨_, hfits, rfl⟩⟩

/-! ### One class -/

/-- Whether there is no room to unwrap a class: its wrapper stands too close to the start of the stream,
the line of its declarator cannot be pulled left, or a line of its body cannot be dedented. -/
def Unwrapping.Cramped (x : Unwrapping) : Prop :=
  x.malformed? = none ∧ (x.wrapper.start < x.removed ∨
    (∃ k, x.removal = some (.pair k) ∧ ¬ PairFits x.stream k) ∨
    ∃ led, x.led? = some led ∧ ¬ LinesFit (x.wrapper.stop - (x.wrapper.start + 1)) none
      (led.drop (x.wrapper.start - x.removed + 1)))

theorem undeclared?_eq_none_iff {s : TokenStream} {c : Constructor} {x : Unwrapping}
    (h : unwrapping? s c = some x) :
    x.undeclared? = none ↔ ∃ k, x.removal = some (.pair k) ∧ ¬ PairFits x.stream k := by
  obtain ⟨-, hs, -, -, -, -, hsite⟩ := unwrapping?_eq_some h
  unfold Unwrapping.undeclared?
  cases hremoval : x.removal with
  | none => simp [withoutDeclarator?]
  | some removal =>
    cases removal with
    | line l => simp [withoutDeclarator?]
    | pair k =>
      rw [Unwrapping.removal, hsite, hs] at hremoval
      obtain ⟨d, hd, hpair⟩ := Option.bind_eq_some_iff.mp hremoval
      obtain ⟨a, b, htwo, -⟩ := removalAt?_pair hd hpair
      have hfits := excise?_isSome_iff htwo
      rw [hs]
      simp only [withoutDeclarator?, Option.some.injEq, Removal.pair.injEq, exists_eq_left']
      rw [← hfits, Bool.not_eq_true, Option.isSome_eq_false_iff, Option.isNone_iff_eq_none]

private theorem led?_length {s led : TokenStream} {c : Constructor} {x : Unwrapping}
    (h : unwrapping? s c = some x) (hled : x.led? = some led) :
    led.length + x.removed = x.stream.length := by
  obtain ⟨undeclared, headed, hundeclared, hheaded, hperm⟩ := led?_eq_some hled
  have hlength := undeclared?_length h hundeclared
  have hsame : headed.length = undeclared.length := by
    simpa [TokenStream.imprints] using congrArg List.length (writeHead?_imprints hheaded)
  have hmoved := hperm.length_eq
  omega

/-- Unwrapping a class breaks the layout exactly when it is cramped. -/
theorem outcome_broken_iff {s : TokenStream} {c : Constructor} {x : Unwrapping}
    (h : unwrapping? s c = some x) (marked : MarkedLines) :
    x.outcome marked = .error .brokenLayout ↔ x.Cramped := by
  unfold Unwrapping.outcome Unwrapping.Cramped
  cases hmalformed : x.malformed? with
  | some fault =>
    unfold Unwrapping.malformed? at hmalformed
    split at hmalformed
    · obtain rfl := Option.some.inj hmalformed
      simp
    · simp at hmalformed
  | none =>
    by_cases hroom : x.removed ≤ x.wrapper.start
    · have hbounds := unwrapping?_bounds h
      simp only [if_pos hroom, Nat.not_lt.mpr hroom, true_and, false_or]
      cases hundeclared : x.undeclared? with
      | none =>
        have hnone : x.result? = none := by
          simp [Unwrapping.result?, Unwrapping.led?, Unwrapping.headed?, hundeclared]
        simp [hnone, (undeclared?_eq_none_iff h).mp hundeclared]
      | some undeclared =>
        obtain ⟨headed, led, -, -, hled⟩ := led?_isSome h hroom hundeclared
        have hlength := led?_length h hled
        have hpair : ¬ ∃ k, x.removal = some (.pair k) ∧ ¬ PairFits x.stream k := by
          rw [← undeclared?_eq_none_iff h, hundeclared]
          simp
        have hcount : x.wrapper.stop - x.removed - (x.wrapper.start - x.removed + 1) =
            x.wrapper.stop - (x.wrapper.start + 1) := by
          omega
        have hfits := @adaptBetween?_isSome_iff led (x.wrapper.start - x.removed)
          (x.wrapper.stop - x.removed) x.wrapper x.constructor (by omega) (by omega)
        rw [hcount] at hfits
        simp only [hpair, false_or, hled, Option.some.injEq, exists_eq_left', ← hfits,
          Unwrapping.result?, Option.bind_some]
        cases adaptBetween? led (x.wrapper.start - x.removed) (x.wrapper.stop - x.removed) x.wrapper
            x.constructor with
        | none => simp
        | some s' => simp
    · simp [hroom, Nat.lt_of_not_le hroom]

end ClassWrapper

end ClosureReady
