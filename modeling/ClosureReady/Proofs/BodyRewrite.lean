import ClosureReady.Proofs.LineGroups

/-!
What the rewriting of a class body changes.  The loop over the body renames tokens one by one and dedents
a line when it comes to its first token, so each line has to be all in one place for its tokens to move
together and once.  Hence every line of the body moves left by what its first token can, nothing else
moves but the rest of the line of the head, and the texts change as those of single tokens do.
-/

set_option autoImplicit false
set_option relaxedAutoImplicit false

namespace ClosureReady

namespace ClassWrapper

/-! ### The loop over the body -/

/-- The text of a token of a class body after the loop, by whether a dot stands before it: the name of
the class gets the path in front unless there is a dot, what reads as the parameter then becomes the
parent if there is one, and the lines of a block comment lose their indentation. -/
def adaptedText (w : Wrapper) (c : Constructor) (dotted : Bool) (t : Token) : String :=
  match t.kind with
  | .blockComment => String.ofList (dedentComment t.value.toList)
  | .identifier =>
    let name := if t.value = c.className ∧ dotted = false then w.path ++ c.className else t.value
    if name = parentParameter ∧ w.parent ≠ "" then w.parent else name
  | _ => t.value

theorem adaptToken_value (w : Wrapper) (c : Constructor) (previous t : Token) :
    (adaptToken w c previous t).value = adaptedText w c (previous.isPunctuator ".") t := by
  unfold adaptToken adaptedText
  by_cases hpath : w.path = ""
  · have hfull : w.path ++ c.className = c.className := by rw [hpath, String.empty_append]
    grind [Token.isIdentifier, Token.withValue]
  · grind [Token.isIdentifier, Token.withValue]

theorem adaptedText_congr {w : Wrapper} {c : Constructor} {dotted : Bool} {t u : Token}
    (hkind : t.kind = u.kind) (hvalue : t.value = u.value) :
    adaptedText w c dotted t = adaptedText w c dotted u := by
  rw [adaptedText, adaptedText, hkind, hvalue]

/-- One step of the loop: the token is adapted, and if its line is not the one under way, the line is
moved left as far as the token can go. -/
theorem adaptBody_step {w : Wrapper} {c : Constructor} {count : Nat} {previous t : Token}
    {line : Option Nat} {ts us : List Token}
    (h : adaptBody w c (count + 1) previous line (t :: ts) = some us)
    (hfront : TokenStream.FrontOnly t.line ts) :
    ∃ u vs ts', us = u :: vs ∧ adaptBody w c count u (some t.line) ts' = some vs ∧
      u = (adaptToken w c previous t).movedLeft 0
        (if line = some t.line then 0 else min t.column indentUnit) ∧
      ts' = ts.map (·.movedOn t.line
        (if line = some t.line then 0 else min t.column indentUnit)) := by
  have hadapted := adaptToken_eq_withValue w c previous t
  have hline : (adaptToken w c previous t).line = t.line := by rw [hadapted]; rfl
  have hcolumn : (adaptToken w c previous t).column = t.column := by rw [hadapted]; rfl
  rw [adaptBody] at h
  simp only [hline] at h
  by_cases hsame : line = some t.line
  · simp only [hsame, if_true] at h ⊢
    obtain ⟨vs, hvs, rfl⟩ := Option.map_eq_some_iff.mp h
    refine ⟨_, vs, ts, rfl, ?_, ?_, ?_⟩
    · rwa [hline] at hvs
    · rw [Token.movedLeft_zero]
    · simp [Token.movedOn, Token.movedLeft_zero]
  · simp only [hsame, if_false] at h ⊢
    split at h
    · rename_i u rest hdedent
      obtain ⟨vs, hvs, rfl⟩ := Option.map_eq_some_iff.mp h
      obtain ⟨-, hmoved⟩ := TokenStream.dedentLine?_eq_some_iff.mp hdedent
      rw [hline, hcolumn, List.map_cons, List.cons_append, TokenStream.map_front_append hfront] at hmoved
      obtain ⟨rfl, rfl⟩ := List.cons.inj hmoved
      refine ⟨_, vs, _, rfl, ?_, rfl, rfl⟩
      rwa [Token.movedLeft_line, hline] at hvs
    · simp at h

/-- How far a line moves with the tokens of a body: as far as its first one can, up to a level. -/
def lineShift (body : List Token) (l : Nat) : Nat :=
  (body.find? fun t => t.line == l).elim 0 fun t => min t.column indentUnit

theorem lineShift_cons_self (t : Token) (ts : List Token) :
    lineShift (t :: ts) t.line = min t.column indentUnit := by
  rw [lineShift, List.find?_cons_of_pos (by simp)]
  rfl

theorem lineShift_cons_of_ne {t : Token} {l : Nat} (h : t.line ≠ l) (ts : List Token) :
    lineShift (t :: ts) l = lineShift ts l := by
  rw [lineShift, List.find?_cons_of_neg (by simpa using h), lineShift]

theorem lineShift_map {f : Token → Token} (hf : ∀ t, (f t).line = t.line) {l : Nat}
    (hcolumn : ∀ t, t.line = l → (f t).column = t.column) (ts : List Token) :
    lineShift (ts.map f) l = lineShift ts l := by
  induction ts with
  | nil => rfl
  | cons t ts ih =>
    rw [List.map_cons]
    by_cases hline : t.line = l
    · subst hline
      rw [lineShift_cons_self, ← hf t, lineShift_cons_self, hcolumn t rfl]
    · rw [lineShift_cons_of_ne hline, lineShift_cons_of_ne (by rwa [hf]), ih]

/-- The loop moves the tokens of each line together, once and by the same amount. -/
theorem adaptBody_blank {w : Wrapper} {c : Constructor} {count : Nat} {previous : Token}
    {line : Option Nat} {ts us : List Token} (h : adaptBody w c count previous line ts = some us)
    (hts : TokenStream.Gathered ts) (hline : ∀ l ∈ line, TokenStream.FrontOnly l ts) :
    us.map Token.blank = ts.map fun t => (t.movedLeft 0
      (if line = some t.line then 0 else lineShift (ts.take count) t.line)).blank := by
  induction count generalizing previous line ts us with
  | zero =>
    obtain rfl := Option.some.inj h
    refine List.map_congr_left fun t _ => ?_
    rw [List.take_zero, show lineShift [] t.line = 0 from rfl, ite_self, Token.movedLeft_zero]
  | succ count ih =>
    cases ts with
    | nil => simp [adaptBody] at h
    | cons t ts =>
      obtain ⟨u, vs, ts', rfl, hvs, hu, hts'⟩ := adaptBody_step h hts.1
      generalize hn : (if line = some t.line then 0 else min t.column indentUnit) = n at hu hts'
      rw [List.map_cons, List.map_cons]
      congr 1
      · rw [List.take_succ_cons, lineShift_cons_self, hn, hu, adaptToken_eq_withValue]
        rfl
      · subst hts'
        have hfront : ∀ l ∈ some t.line, TokenStream.FrontOnly l
            (ts.map (·.movedOn t.line n)) := by
          intro l hl
          obtain rfl := Option.some.inj hl
          exact TokenStream.frontOnly_map (Token.movedOn_line _ _) hts.1
        rw [ih hvs (hts.2.map (Token.movedOn_line _ _)) hfront, List.map_map]
        refine List.map_congr_left fun v hv => ?_
        by_cases hsame : v.line = t.line
        · -- The line is under way for the rest of the loop.
          have hrest : (if line = some v.line then 0 else
              lineShift ((t :: ts).take (count + 1)) v.line) = n := by
            rw [List.take_succ_cons, hsame, lineShift_cons_self, hn]
          rw [Function.comp_apply, Token.movedOn_line, hrest, hsame, if_pos rfl, Token.movedLeft_zero,
            Token.movedOn, if_pos hsame]
        · have hother : line ≠ some v.line := by
            intro hl
            have hout := hline v.line hl v
            rw [List.dropWhile_cons_of_neg (by simpa using Ne.symm hsame)] at hout
            exact hout (List.mem_cons_of_mem t hv) rfl
          have hcolumns : ∀ y : Token, y.line = v.line →
              (y.movedOn t.line n).column = y.column := by
            intro y hy
            rw [Token.movedOn, if_neg (hy ▸ hsame)]
          rw [Function.comp_apply, Token.movedOn_line, if_neg (by simpa using Ne.symm hsame),
            if_neg hother, List.take_succ_cons, lineShift_cons_of_ne (Ne.symm hsame), ← List.map_take,
            lineShift_map (Token.movedOn_line _ _) hcolumns, Token.movedOn, if_neg hsame]

/-- The loop changes the texts of the tokens it goes through, each by the one before it. -/
theorem adaptBody_texts {w : Wrapper} {c : Constructor} {count : Nat} {previous : Token}
    {line : Option Nat} {ts us : List Token} (h : adaptBody w c count previous line ts = some us)
    (hts : TokenStream.Gathered ts) {k : Nat} {t u : Token} (ht : ts[k]? = some t)
    (hu : us[k]? = some u) :
    u.value = if k < count then
      adaptedText w c ((previous :: us)[k]?.any (·.isPunctuator ".")) t else t.value := by
  induction count generalizing previous line ts us k t u with
  | zero =>
    obtain rfl := Option.some.inj h
    rw [if_neg (Nat.not_lt_zero k), Option.some.inj (ht.symm.trans hu)]
  | succ count ih =>
    cases ts with
    | nil => simp at ht
    | cons first ts =>
      obtain ⟨first', vs, ts', rfl, hvs, hfirst, hts'⟩ := adaptBody_step h hts.1
      cases k with
      | zero =>
        obtain rfl : first = t := by simpa using ht
        obtain rfl : first' = u := by simpa using hu
        rw [if_pos (Nat.succ_pos count), hfirst]
        exact adaptToken_value w c previous first
      | succ k =>
        generalize (if line = some first.line then 0 else min first.column indentUnit) = n at hts'
        subst hts'
        rw [List.getElem?_cons_succ] at ht hu
        have ht' : (ts.map (·.movedOn first.line n))[k]? = some (t.movedOn first.line n) := by
          rw [List.getElem?_map, ht, Option.map_some]
        obtain ⟨-, hkind, hvalue⟩ := Token.word_eq_iff.mp (Token.movedOn_word first.line n t)
        rw [ih hvs (hts.2.map (Token.movedOn_line _ _)) ht' hu, List.getElem?_cons_succ,
          adaptedText_congr hkind hvalue, hvalue]
        simp only [Nat.add_lt_add_iff_right]

/-- What the loop leaves of each token between the ends of a wrapper and around them. -/
theorem adaptBetween?_getElem? {led result : TokenStream} {start stop : Nat} {w : Wrapper}
    {c : Constructor} (h : adaptBetween? led start stop w c = some result) (hlt : start + 1 < stop)
    (hled : TokenStream.Gathered (led.drop (start + 1))) {k : Nat} {u : Token}
    (hu : result[k]? = some u) :
    ∃ t, led[k]? = some t ∧
      u.blank = (t.movedLeft 0 (if k ≤ start then 0 else
        lineShift (led.between (start + 1) stop) t.line)).blank ∧
      u.value = if start < k ∧ k < stop then
        adaptedText w c (result[k - 1]?.any (·.isPunctuator ".")) t else t.value := by
  rw [adaptBetween?, if_pos hlt] at h
  obtain ⟨head, hhead, h⟩ := Option.bind_eq_some_iff.mp h
  obtain ⟨us, hus, rfl⟩ := Option.map_eq_some_iff.mp h
  have hlength : (led.take (start + 1)).length = start + 1 := by
    have := (List.getElem?_eq_some_iff.mp hhead).1
    rw [List.length_take]
    omega
  by_cases hk : k ≤ start
  · rw [List.getElem?_append_left (by omega), List.getElem?_take_of_lt (by omega)] at hu
    refine ⟨u, hu, ?_, ?_⟩
    · rw [if_pos hk, Token.movedLeft_zero]
    · rw [if_neg (by omega)]
  · obtain ⟨m, rfl⟩ : ∃ m, k = start + 1 + m := ⟨k - (start + 1), by omega⟩
    rw [List.getElem?_append_right (by omega), hlength, Nat.add_sub_cancel_left] at hu
    have hblank := adaptBody_blank hus hled (by simp)
    have hget := congrArg (fun ts => ts[m]?) hblank
    simp only [List.getElem?_map, hu, Option.map_some, List.getElem?_drop] at hget
    obtain ⟨t, ht, hmoved⟩ := Option.map_eq_some_iff.mp hget.symm
    have htext := adaptBody_texts hus hled ((List.getElem?_drop).trans ht) hu
    have hprevious : (led.take (start + 1) ++ us)[start + 1 + m - 1]? = (head :: us)[m]? := by
      cases m with
      | zero =>
        rw [List.getElem?_append_left (by omega), List.getElem?_take_of_lt (by omega)]
        simpa using hhead
      | succ m =>
        rw [List.getElem?_append_right (by omega), hlength, List.getElem?_cons_succ]
        congr 1
        omega
    refine ⟨t, ht, ?_, ?_⟩
    · rw [if_neg hk, ← hmoved]
      rfl
    · rw [hprevious, htext]
      congr 1
      rw [eq_iff_iff]
      omega

/-! ### How far a line of the body moves -/

/-- How far a line moves when a class is unwrapped: as far as its first token can, up to a level, if it
has a token between the ends of the wrapper. -/
def bodyShift (s : TokenStream) (start stop l : Nat) : Nat :=
  if (s.between (start + 1) stop).any (fun t => t.line == l) then lineShift s l else 0

theorem lineShift_of_filter {xs ys : List Token} {l : Nat}
    (h : xs.filter (fun t => t.line == l) = ys.filter fun t => t.line == l) :
    lineShift xs l = lineShift ys l := by
  rw [lineShift, lineShift, ← List.head?_filter, ← List.head?_filter, h]

theorem lineShift_of_blank {xs ys : List Token} (h : xs.map Token.blank = ys.map Token.blank)
    (l : Nat) : lineShift xs l = lineShift ys l := by
  have hblank := fun ts : List Token =>
    lineShift_map (f := Token.blank) (l := l) (fun _ => rfl) (fun _ _ => rfl) ts
  rw [← hblank xs, ← hblank ys, h]

section Shift

variable {s : TokenStream} {start stop l : Nat} {head : Token}

theorem line_le_of_mem_between (hs : s.Pairwise fun t u => t.line ≤ u.line)
    (hhead : s[start]? = some head) {t : Token} (ht : t ∈ s.between (start + 1) stop) :
    head.line ≤ t.line := by
  obtain ⟨k, hk, -, hget⟩ := TokenStream.mem_between_iff.mp ht
  exact TokenStream.line_le_of_pairwise hs hhead hget (by omega)

/-- Below the line of the head the lines of the body are whole. -/
theorem lineShift_between (hs : s.Pairwise fun t u => t.line ≤ u.line) (hhead : s[start]? = some head)
    (hl : l ≠ head.line) :
    lineShift (s.between (start + 1) stop) l = bodyShift s start stop l := by
  rw [bodyShift]
  split
  · rename_i hany
    obtain ⟨t, ht, hline⟩ := List.any_eq_true.mp hany
    replace hline : t.line = l := by simpa using hline
    have hle := line_le_of_mem_between hs hhead ht
    have hstop : start + 1 ≤ stop := by
      obtain ⟨k, hk, hkstop, -⟩ := TokenStream.mem_between_iff.mp ht
      omega
    have hfront : (s.take (start + 1)).find? (fun t => t.line == l) = none := by
      rw [List.find?_eq_none]
      intro u hu
      obtain ⟨k, hk⟩ := List.mem_iff_getElem?.mp hu
      rw [List.getElem?_take] at hk
      split at hk
      · have := TokenStream.line_le_of_pairwise hs hk hhead (by omega)
        simp
        omega
      · simp at hk
    have hfound : ((s.between (start + 1) stop).find? fun t => t.line == l).isSome = true := by
      rw [List.find?_isSome]
      exact ⟨t, ht, by simpa using hline⟩
    obtain ⟨first, hfirst⟩ := Option.isSome_iff_exists.mp hfound
    have hwhole : s.find? (fun t => t.line == l) = some first := by
      conv_lhs => rw [← List.take_append_drop (start + 1) s,
        ← TokenStream.between_append_drop hstop]
      rw [List.find?_append, List.find?_append, hfront, hfirst]
      rfl
    rw [lineShift, lineShift, hfirst, hwhole]
  · rename_i hany
    have hnone : (s.between (start + 1) stop).find? (fun t => t.line == l) = none := by
      rw [List.find?_eq_none]
      exact fun t ht hline => hany (List.any_eq_true.mpr ⟨t, ht, hline⟩)
    rw [lineShift, hnone]
    rfl

/-- A line above the head does not move. -/
theorem bodyShift_of_lt (hs : s.Pairwise fun t u => t.line ≤ u.line) (hhead : s[start]? = some head)
    (hl : l < head.line) : bodyShift s start stop l = 0 := by
  rw [bodyShift, if_neg]
  intro hany
  obtain ⟨t, ht, hline⟩ := List.any_eq_true.mp hany
  replace hline : t.line = l := by simpa using hline
  have := line_le_of_mem_between hs hhead ht
  omega

end Shift

/-! ### The whole class -/

theorem ordered_of_imprints {s s' : TokenStream} (h : s'.imprints.Sublist s.imprints)
    (hs : s.Pairwise fun t u => t.line ≤ u.line) : s'.Pairwise fun t u => t.line ≤ u.line := by
  have himprints : s.imprints.Pairwise fun a b => a.line ≤ b.line := List.pairwise_map.mpr hs
  have hsub : s'.imprints.Pairwise fun a b => a.line ≤ b.line := himprints.sublist h
  rw [TokenStream.imprints, List.pairwise_map] at hsub
  exact hsub

/-- Moving a run of whole lines regroups the stream. -/
theorem leadWithConstructor_regrouped {s led : TokenStream} {i start stop : Nat} {c : Constructor}
    (h : (leadWithConstructor s i start c).outcome = .ok led)
    (hs : s.Pairwise fun t u => t.line ≤ u.line)
    (hruns : ∀ run target, relocation? s i start = some (run, target) →
      s.BreaksAt run.start ∧ s.BreaksAt run.stop ∧ run.stop ≤ stop) :
    TokenStream.Regrouped start stop s led := by
  cases hmoves : relocation? s i start with
  | none =>
    have hsame : led = s := by
      unfold leadWithConstructor at h
      obtain ⟨head, hhead, h⟩ := Traced.bind_outcome_eq_ok_iff.mp h
      obtain ⟨opening, hopening, h⟩ := Traced.bind_outcome_eq_ok_iff.mp h
      rw [Traced.ofEdit_outcome_eq_ok_iff] at hhead hopening
      rw [relocation?, hhead, Option.bind_some, hopening, Option.bind_some] at hmoves
      split at h
      · exact (Except.ok.inj h).symm
      · rename_i first hfirst
        rw [hfirst, Option.bind_some, Option.map_eq_none_iff] at hmoves
        rw [hmoves] at h
        exact (Except.ok.inj h).symm
    rw [hsame]
    exact TokenStream.regrouped_refl hs start stop
  | some moves =>
    obtain ⟨run, target⟩ := moves
    obtain ⟨hstarts, hstops, hstop⟩ := hruns run target hmoves
    obtain ⟨head, opening, hhead, hopening, hfirst, hrun⟩ := relocation?_eq_some hmoves
    have hbounds := constructorRun?_bounds hrun (List.getElem?_eq_some_iff.mp hopening).1
    have hlt : start < target := lt_nextIndex? hhead (by simp) hfirst
    -- The line of the head ends where the run moves to.
    have hbreak : s.BreaksAt target := by
      obtain ⟨-, ⟨first, hget, hother⟩, hbefore⟩ := nextIndex?_eq_some_iff.mp hfirst
      intro t ht u hu
      obtain rfl := Option.some.inj (hget.symm.trans hu)
      have htarget := (List.getElem?_eq_some_iff.mp hget).1
      rw [TokenStream.getLast?_take_eq (by omega) htarget.le] at ht
      have hon : t.line = head.line := by
        simpa using hbefore (target - 1) t (by omega) (by omega) ht
      have hoff : first.line ≠ head.line := by simpa using hother
      exact fun hline => hoff (hline.symm.trans hon)
    rw [leadWithConstructor_of_relocation hmoves, Except.ok.injEq] at h
    rw [← h]
    exact TokenStream.regrouped_of_breaksAt hs hlt (by omega) (by omega) hstop hbounds.2.2.2 hbreak
      hstarts hstops

/-- Writing the head changes the texts of two tokens. -/
theorem writeHead?_texts {s s' : TokenStream} {i : Nat} {w : Wrapper} {c : Constructor}
    {declared : Bool} (h : writeHead? s i w c declared = some s') {j : Nat} {u : Token}
    (hu : s'[j]? = some u) :
    ∃ t, s[j]? = some t ∧ u = t.withValue u.value ∧
      (j = i → u.value = (if declared && w.path == "" then "var " else "") ++ w.path ++ c.className ++
        " =") ∧
      (j = i + 1 → u.value = "function") ∧ (j ≠ i → j ≠ i + 1 → u.value = t.value) := by
  obtain ⟨v, hv, h⟩ := Option.bind_eq_some_iff.mp h
  rw [TokenStream.setValue?] at hv h
  split at hv
  · split at h
    · rw [← Option.some.inj h, ← Option.some.inj hv, List.getElem?_modify, List.getElem?_modify,
        Option.map_eq_map, Option.map_eq_map, Option.map_map] at hu
      obtain ⟨t, ht, rfl⟩ := Option.map_eq_some_iff.mp hu
      refine ⟨t, ht, ?_⟩
      rw [Function.comp_apply]
      by_cases hname : j = i + 1
      · simp [hname, Token.withValue]
      · by_cases hopening : j = i
        · simp [hopening, Token.withValue]
        · simp [hname, hopening, Ne.symm hname, Ne.symm hopening, Token.withValue]
    · simp at h
  · simp at hv

/-- Cutting the declarator out leaves the lines alone that no cut token is on. -/
theorem undeclared?_filter {x : Unwrapping} {s : TokenStream} (h : x.undeclared? = some s) {l : Nat}
    (hl : ∀ t ∈ x.cut, t.line ≠ l) :
    s.filter (fun t => t.line == l) = x.stream.filter fun t => t.line == l := by
  by_cases hpair : ∃ k, x.removal = some (.pair k)
  · obtain ⟨k, hk⟩ := hpair
    rw [Unwrapping.cut, hk, cutBy] at hl
    rw [Unwrapping.undeclared?, hk, withoutDeclarator?] at h
    obtain ⟨first, last, bytes, columns, moved, -, hlast, -, -, hmoved, rfl⟩ :=
      TokenStream.excise?_eq_some h
    obtain ⟨-, rfl⟩ := TokenStream.shiftAll?_eq_some_iff.mp hmoved
    have hother : last.line ≠ l := by
      refine hl last (List.mem_of_getElem? (i := 1) ?_)
      rw [List.getElem?_take_of_lt (by omega), List.getElem?_drop]
      exact hlast
    have hrest : ∀ t ∈ (x.stream.drop (k + 2)).takeWhile (fun t => t.line == last.line),
        t.line ≠ l := by
      intro t ht
      have hline : t.line = last.line := by simpa using List.mem_takeWhile_imp ht
      rwa [hline]
    have hsplit : x.stream = x.stream.take k ++ ((x.stream.drop k).take 2 ++
        ((x.stream.drop (k + 2)).takeWhile (fun t => t.line == last.line) ++
          (x.stream.drop (k + 2)).dropWhile fun t => t.line == last.line)) := by
      rw [List.takeWhile_append_dropWhile, ← List.drop_drop, List.take_append_drop,
        List.take_append_drop]
    have hpulled : (((x.stream.drop (k + 2)).takeWhile fun t => t.line == last.line).map
        (·.movedLeft bytes columns)).filter (fun t => t.line == l) = [] := by
      refine TokenStream.filter_line_eq_nil fun t ht => ?_
      obtain ⟨u, hu, rfl⟩ := List.mem_map.mp ht
      exact hrest u hu
    conv_rhs => rw [hsplit]
    simp only [List.filter_append, TokenStream.filter_line_eq_nil hl,
      TokenStream.filter_line_eq_nil hrest, hpulled, List.nil_append, List.append_assoc]
  · rw [(undeclared?_of_not_pair h fun k hk => hpair ⟨k, hk⟩).1]

theorem findConstructors_name {s : TokenStream} {c : Constructor} (h : c ∈ findConstructors s) :
    ∃ t ∈ s, t.kind = .identifier ∧ t.value = c.className := by
  induction s with
  | nil => simp [findConstructors] at h
  | cons t rest ih =>
    cases rest with
    | nil => simp [findConstructors] at h
    | cons next rest =>
      have descend : c ∈ findConstructors (next :: rest) →
          ∃ u ∈ t :: next :: rest, u.kind = .identifier ∧ u.value = c.className := by
        intro hlater
        obtain ⟨u, hu, hname⟩ := ih hlater
        exact ⟨u, List.mem_cons_of_mem t hu, hname⟩
      unfold findConstructors at h
      split at h
      · rename_i hopens
        rcases List.mem_cons.mp h with rfl | h
        · simp only [opensConstructor, Bool.and_eq_true, beq_iff_eq] at hopens
          exact ⟨next, by simp, hopens.1.2, rfl⟩
        · exact descend h
      · exact descend h

theorem undeclared?_imprints_sublist {x : Unwrapping} {s : TokenStream} (h : x.undeclared? = some s) :
    s.imprints.Sublist x.stream.imprints := by
  by_cases hpair : ∃ k, x.removal = some (.pair k)
  · obtain ⟨k, hk⟩ := hpair
    rw [undeclared?_imprints_pair h hk]
    conv_rhs => rw [← List.take_append_drop k x.stream.imprints]
    exact (List.drop_sublist_drop_left _ (Nat.le_add_right k 2)).append_left _
  · rw [(undeclared?_of_not_pair h fun k hk => hpair ⟨k, hk⟩).1]

namespace Unwrapping

/-- Whether an index is between the ends of the wrapper, once the declarator is gone. -/
def Encloses (x : Unwrapping) (j : Nat) : Prop :=
  x.wrapper.start - x.removed < j ∧ j < x.wrapper.stop - x.removed

/-- What becomes of a token when its class is unwrapped, by its index in the stream without the
declarator: its line moves as a whole, but for the line of the head, and its text changes if it opens the
constructor, names it or is enclosed by the wrapper. -/
structure Rewrites (x : Unwrapping) (s : TokenStream) (head : Token) (dotted : Bool) (j : Nat)
    (t u : Token) : Prop where
  id_eq : u.id = t.id
  kind_eq : u.kind = t.kind
  span_eq : u.span = t.span
  region : t.line ≠ head.line → u.region = (t.movedLeft 0 (bodyShift s
    (x.wrapper.start - x.removed) (x.wrapper.stop - x.removed) t.line)).region
  opening : j = x.index - x.removed → u.value = x.headText
  name : j = x.index - x.removed + 1 → u.value = "function"
  inside : j ≠ x.index - x.removed → j ≠ x.index - x.removed + 1 → x.Encloses j →
    u.value = adaptedText x.wrapper x.constructor dotted t
  outside : j ≠ x.index - x.removed → j ≠ x.index - x.removed + 1 → ¬ x.Encloses j →
    u.value = t.value

end Unwrapping

/-- The texts that are written over the head of a constructor are not adapted. -/
theorem adaptedText_head {w : Wrapper} {c : Constructor} {dotted : Bool} {t : Token}
    (h : t.kind = .keyword ∨ t.value = "function" ∧ c.className ≠ "function") :
    adaptedText w c dotted t = t.value := by
  unfold adaptedText
  rcases h with hkind | ⟨hvalue, hname⟩
  · rw [hkind]
  · rw [hvalue]
    split
    · decide
    · have hother : ¬ ("function" = c.className ∧ dotted = false) := fun hsame => hname hsame.1.symm
      have hparameter : ¬ ("function" = parentParameter ∧ w.parent ≠ "") := fun hsame =>
        absurd hsame.1 (by decide)
      simp only [if_neg hother, if_neg hparameter]
    · rfl

/-- Between the ends of a wrapper a line moves as far with the constructor in front as without. -/
theorem lineShift_regrouped {d headed led : TokenStream} {start stop : Nat} {head : Token} {l : Nat}
    (hled : TokenStream.Regrouped start stop headed led) (hle : start + 1 ≤ stop)
    (hblank : headed.map Token.blank = d.map Token.blank)
    (hd : d.Pairwise fun t u => t.line ≤ u.line) (hhead : d[start]? = some head)
    (hl : l ≠ head.line) :
    lineShift (led.between (start + 1) stop) l = bodyShift d start stop l := by
  have hbetween : (headed.between (start + 1) stop).map Token.blank =
      (d.between (start + 1) stop).map Token.blank := by
    rw [TokenStream.between, TokenStream.between, List.map_take, List.map_drop, hblank, List.map_take,
      List.map_drop]
  rw [lineShift_of_filter (hled.between_filter hle l), lineShift_of_blank hbetween,
    lineShift_between hd hhead hl]

/-- The constructor keeps its class where the declarator is cut out. -/
theorem undeclared?_opening {s d : TokenStream} {c : Constructor} {x : Unwrapping}
    (h : unwrapping? s c = some x) (hs : VarsLead s) (hd : x.undeclared? = some d) {opening : Token}
    (hopening : s[x.index]? = some opening) :
    ∃ t, d[x.index - x.removed]? = some t ∧ t.kind = opening.kind := by
  obtain ⟨-, hstream, -⟩ := unwrapping?_eq_some h
  have hbounds := unwrapping?_bounds h
  have himprint : d.imprints[x.index - x.removed]? = x.stream.imprints[x.index]? := by
    refine undeclared?_imprint h hs hd fun k hk => ?_
    have := pair_above h hs hk
    omega
  rw [hstream] at himprint
  obtain ⟨t, ht, hsame⟩ := getElem?_of_imprints himprint hopening
  exact ⟨t, ht, congrArg Imprint.kind hsame⟩

/-- The stream after a class, token by token. -/
theorem result?_rewrites {s result headed : TokenStream} {c : Constructor} {x : Unwrapping}
    (h : unwrapping? s c = some x) (hs : VarsLead s) (hroom : x.removed ≤ x.wrapper.start)
    (hresult : x.result? = some result) (hheaded : x.headed? = some headed)
    (hruns : ∀ run target,
      relocation? headed (x.index - x.removed) (x.wrapper.start - x.removed) = some (run, target) →
      headed.BreaksAt run.start ∧ headed.BreaksAt run.stop ∧
        run.stop ≤ x.wrapper.stop - x.removed)
    {opening : Token} (hopening : s[x.index]? = some opening) (hkeyword : opening.kind = .keyword)
    (hname : c.className ≠ "function") :
    ∃ d head, x.undeclared? = some d ∧ d[x.wrapper.start - x.removed]? = some head ∧
      (result.map Token.id).Perm (d.map Token.id) ∧
      ∀ k u, result[k]? = some u → ∃ j t, d[j]? = some t ∧
        x.Rewrites d head (result[k - 1]?.any (·.isPunctuator ".")) j t u := by
  obtain ⟨hc, hstream, -⟩ := unwrapping?_eq_some h
  have hbounds := unwrapping?_bounds h
  obtain ⟨led, hled, hadapt⟩ := Option.bind_eq_some_iff.mp hresult
  obtain ⟨d, hd, hwrite⟩ := Option.bind_eq_some_iff.mp hheaded
  obtain ⟨headed', led', hwrite', hlead, hled'⟩ := led?_isSome h hroom hd
  obtain rfl := Option.some.inj (hwrite.symm.trans hwrite')
  obtain rfl := Option.some.inj (hled.symm.trans hled')
  obtain ⟨head, hhead, -⟩ := undeclared?_head h hs hd hroom
  have hblank := writeHead?_blank hwrite
  have hdlines : d.Pairwise fun t u => t.line ≤ u.line :=
    ordered_of_imprints (undeclared?_imprints_sublist hd) (hstream ▸ hs.lines)
  have hlines : headed.Pairwise fun t u => t.line ≤ u.line :=
    ordered_of_imprints (by rw [writeHead?_imprints hwrite]) hdlines
  have hregrouped := leadWithConstructor_regrouped hlead hlines hruns
  refine ⟨d, head, hd, hhead, ?_, fun k u hu => ?_⟩
  · rw [ids_eq_of_imprints (adaptBetween?_imprints hadapt),
      ← ids_eq_of_imprints (writeHead?_imprints hwrite)]
    exact hregrouped.perm.map _
  · obtain ⟨v, hv, hmoved, hvalue⟩ :=
      adaptBetween?_getElem? hadapt (by omega) hregrouped.gathered hu
    obtain ⟨j, hj, hplace⟩ := hregrouped.getElem? hv
    obtain ⟨t, ht, hvt, hhead', hname', hother⟩ := writeHead?_texts hwrite hj
    have hinside : x.Encloses j ↔
        x.wrapper.start - x.removed < k ∧ k < x.wrapper.stop - x.removed := by
      unfold Unwrapping.Encloses
      omega
    have hshift : t.line ≠ head.line → (if k ≤ x.wrapper.start - x.removed then 0 else lineShift
          (led.between (x.wrapper.start - x.removed + 1) (x.wrapper.stop - x.removed)) t.line) =
        bodyShift d (x.wrapper.start - x.removed) (x.wrapper.stop - x.removed) t.line := by
      intro hline
      split
      · rename_i hk
        have hle := TokenStream.line_le_of_pairwise hdlines ht hhead (by omega)
        rw [bodyShift_of_lt hdlines hhead (by omega)]
      · exact lineShift_regrouped hregrouped (by omega) hblank hdlines hhead hline
    have hline : v.line = t.line := by rw [hvt]; rfl
    have hkind : v.kind = t.kind := by rw [hvt]; rfl
    rw [hline, hvt] at hmoved
    obtain ⟨hid, hkind', -, hspan, hregion⟩ := Token.mk.inj hmoved
    refine ⟨j, t, ht, hid, hkind', hspan, fun hbelow => ?_, fun hopens => ?_, fun hnames => ?_,
      fun hopens hnames hin => ?_, fun hopens hnames hout => ?_⟩
    · rw [← hshift hbelow, hregion]
      rfl
    · obtain ⟨found, hfound, hsame⟩ := undeclared?_opening h hs hd hopening
      rw [← hopens] at hfound
      obtain rfl := Option.some.inj (ht.symm.trans hfound)
      rw [hvalue, adaptedText_head (Or.inl (hkind.trans (hsame.trans hkeyword))), ite_self,
        hhead' hopens]
      rfl
    · rw [hvalue, adaptedText_head (Or.inr ⟨hname' hnames, hc ▸ hname⟩), ite_self, hname' hnames]
    · rw [hvalue, if_pos (hinside.mp hin)]
      exact adaptedText_congr hkind (hother hopens hnames)
    · rw [hvalue, if_neg fun hin => hout (hinside.mpr hin), hother hopens hnames]

end ClassWrapper

open ClassWrapper

/-- When a class of a source is unwrapped and the run that moves is one of whole lines before the end of
the wrapper, the stream without the declarator has the same lines but for those of the cut tokens, and
each of its tokens is rewritten as the class says: below the line of the head it moves left with its line
by what the first token of the line can, up to a level, if the line has a token in the wrapper and not at
all otherwise; and its text changes only if it belongs to the head of the constructor or is in the
wrapper and is the name of the class without a dot before it, the parameter for the parent, or a block
comment. -/
theorem body_rewritten {mode : Grammar.Mode} {source : String} {p : ParsedSource}
    (hparse : ParsedSource.parse mode source = .ok p) {c : Constructor}
    (hc : c ∈ findConstructors p.stream) {marked : MarkedLines} {u : Unwrapped}
    (hunwrap : (unwrap p.stream marked c).outcome = .ok u) {x : Unwrapping}
    (hx : unwrapping? p.stream c = some x) {headed : TokenStream} (hheaded : x.headed? = some headed)
    (hruns : ∀ run target,
      relocation? headed (x.index - x.removed) (x.wrapper.start - x.removed) = some (run, target) →
      headed.BreaksAt run.start ∧ headed.BreaksAt run.stop ∧
        run.stop ≤ x.wrapper.stop - x.removed) :
    ∃ d head, x.undeclared? = some d ∧ d[x.wrapper.start - x.removed]? = some head ∧
      (∀ l, (∀ t ∈ x.cut, t.line ≠ l) →
        d.filter (fun t => t.line == l) = p.stream.filter fun t => t.line == l) ∧
      (u.stream.map Token.id).Perm (d.map Token.id) ∧
      ∀ k t', u.stream[k]? = some t' → ∃ j t, d[j]? = some t ∧
        x.Rewrites d head (u.stream[k - 1]?.any (·.isPunctuator ".")) j t t' := by
  have hplaced := ParsedSource.stream_placed hparse
  obtain ⟨-, hstream, hindex, -⟩ := unwrapping?_eq_some hx
  obtain ⟨hlt, hmatch, -⟩ := List.findIdx?_eq_some_iff_getElem.mp hindex
  have hid : p.stream[x.index].id = c.token := by simpa using hmatch
  have hkeyword : p.stream[x.index].kind = .keyword := by
    obtain ⟨t, ht, htid, hkind⟩ := findConstructors_keyword hc
    have hsame : t = p.stream[x.index] := List.inj_on_of_nodup_map hplaced.ids_nodup ht
      (List.getElem_mem hlt) (htid.trans hid.symm)
    rw [← hsame, hkind]
  have hname : c.className ≠ "function" := by
    obtain ⟨t, ht, hkind, hvalue⟩ := findConstructors_name hc
    intro hsame
    exact hplaced.names t ht hkind (by rw [hvalue, hsame]; decide)
  rw [unwrap_outcome hx] at hunwrap
  obtain ⟨hroom, hresult⟩ := Unwrapping.outcome_eq_ok hunwrap
  obtain ⟨d, head, hd, hhead, hperm, hrewrites⟩ :=
    result?_rewrites hx (ParsedSource.stream_varsLead hparse) hroom hresult hheaded hruns
      (List.getElem?_eq_getElem hlt) hkeyword hname
  refine ⟨d, head, hd, hhead, fun l hl => ?_, hperm, hrewrites⟩
  rw [undeclared?_filter hd hl, hstream]

/-- A class of a namespace with a parent, a declarator of its own and a comment on its constructor, which
moves. -/
theorem body_rewritten_namespaced :
    ∃ p, ParsedSource.parse .script "var Foo, a;\n\nA.Foo = (function(_super) \x7b\n  __extends(Foo, _super);\n\n  A.Foo.x = 1;\n\n  /** Doc\n   * of it. */\n  function Foo() \x7b\x7d\n\n  return Foo;\n\n\x7d)(Bar);\n" = .ok p ∧
      ∃ c ∈ findConstructors p.stream, ∃ u x d head, (unwrap p.stream .empty c).outcome = .ok u ∧
        unwrapping? p.stream c = some x ∧ x.wrapper.path = "A." ∧ x.wrapper.parent = "Bar" ∧
        x.undeclared? = some d ∧ d.length + 2 = p.stream.length ∧
        (u.stream.map Token.id).Perm (d.map Token.id) ∧ u.stream.map Token.id ≠ d.map Token.id ∧
        ∀ k t', u.stream[k]? = some t' → ∃ j t, d[j]? = some t ∧
          x.Rewrites d head (u.stream[k - 1]?.any (·.isPunctuator ".")) j t t' := by
  have hrun : ((ParsedSource.parse .script "var Foo, a;\n\nA.Foo = (function(_super) \x7b\n  __extends(Foo, _super);\n\n  A.Foo.x = 1;\n\n  /** Doc\n   * of it. */\n  function Foo() \x7b\x7d\n\n  return Foo;\n\n\x7d)(Bar);\n").toOption.any
      fun p => (findConstructors p.stream).any fun c =>
        (unwrap p.stream .empty c).outcome.toOption.any fun u =>
          (unwrapping? p.stream c).any fun x => x.headed?.any fun headed => x.undeclared?.any fun d =>
            ((relocation? headed (x.index - x.removed) (x.wrapper.start - x.removed)).all fun m =>
              decide (headed.BreaksAt m.1.start ∧ headed.BreaksAt m.1.stop ∧
                m.1.stop ≤ x.wrapper.stop - x.removed)) &&
            decide (x.wrapper.path = "A." ∧ x.wrapper.parent = "Bar" ∧
              d.length + 2 = p.stream.length ∧
              u.stream.map Token.id ≠ d.map Token.id)) = true := by
    decide +kernel
  obtain ⟨p, hp, hp'⟩ := (Option.any_eq_true _ _).mp hrun
  obtain ⟨c, hc, hc'⟩ := List.any_eq_true.mp hp'
  obtain ⟨u, hu, hu'⟩ := (Option.any_eq_true _ _).mp hc'
  obtain ⟨x, hx, hx'⟩ := (Option.any_eq_true _ _).mp hu'
  obtain ⟨headed, hheaded, hheaded'⟩ := (Option.any_eq_true _ _).mp hx'
  obtain ⟨d, hd, hfacts⟩ := (Option.any_eq_true _ _).mp hheaded'
  obtain ⟨hruns, hparts⟩ := Bool.and_eq_true_iff.mp hfacts
  obtain ⟨hpath, hparent, hlength, hmoved⟩ := of_decide_eq_true hparts
  have hparse := except_eq_ok_of_toOption hp
  have hunwrap := except_eq_ok_of_toOption hu
  obtain ⟨d', head, hd', -, -, hperm, hrewrites⟩ := body_rewritten hparse hc hunwrap hx hheaded
    fun run target hmoves => by
      rw [hmoves] at hruns
      exact of_decide_eq_true hruns
  obtain rfl := Option.some.inj (hd.symm.trans hd')
  exact ⟨p, hparse, c, hc, u, x, d, head, hunwrap, hx, hpath, hparent, hd, hlength, hperm, hmoved,
    hrewrites⟩

end ClosureReady
