import ClosureReady.Proofs.BrokenLayout
import ClosureReady.Proofs.ClassWords

/-!
The constructor leads the body of its class.  The run that is moved starts with the constructor or with
a block comment right before it, and where nothing is moved, the constructor or its comment already
stands at the front.  The declarator of the class is cut out above the line of the head, so the stages
before agree with the record on where the constructor is, and those after keep order, lines and
keywords.
-/

set_option autoImplicit false
set_option relaxedAutoImplicit false

namespace ClosureReady

/-! ### Tokens that a token leads -/

/-- The tokens after the one at an index, from the first that is on another line than that one. -/
def TokenStream.below (s : TokenStream) (i : Nat) : TokenStream :=
  match s[i]? with
  | none => []
  | some head => (s.drop (i + 1)).dropWhile fun t => t.line == head.line

/-- Tokens of which the given one is the first, or the second after a block comment. -/
def TokenStream.LedBy (ts : TokenStream) (t : Token) : Prop :=
  ∃ rest, ts = t :: rest ∨ ∃ comment : Token, comment.kind = .blockComment ∧ ts = comment :: t :: rest

/-- What is below a line that ends a stream's front starts after that front. -/
theorem TokenStream.below_append {front rest : List Token} {i : Nat} {head : Token}
    (hhead : front[i]? = some head) (hsame : ∀ u ∈ front.drop i, u.line = head.line) :
    below (front ++ rest) i = rest.dropWhile fun t => t.line == head.line := by
  have hi := (List.getElem?_eq_some_iff.mp hhead).1
  rw [below, List.getElem?_append_left hi, hhead]
  dsimp only
  rw [List.drop_append_of_le_length hi]
  refine List.dropWhile_append_of_pos fun u hu => ?_
  have hmem := (List.drop_sublist_drop_left front (Nat.le_succ i)).mem hu
  simpa using hsame u hmem

namespace TokenStream.LedBy

variable {ts : TokenStream} {t : Token}

theorem append (h : ts.LedBy t) (us : List Token) : LedBy (ts ++ us) t := by
  obtain ⟨rest, rfl | ⟨comment, hkind, rfl⟩⟩ := h
  · exact ⟨rest ++ us, Or.inl rfl⟩
  · exact ⟨rest ++ us, Or.inr ⟨comment, hkind, rfl⟩⟩

theorem dropWhile (h : ts.LedBy t) {p : Token → Bool} (ht : p t = false) :
    LedBy (ts.dropWhile p) t := by
  obtain ⟨rest, rfl | ⟨comment, hkind, rfl⟩⟩ := h
  · rw [List.dropWhile_cons_of_neg (by simp [ht])]
    exact ⟨rest, Or.inl rfl⟩
  · rw [List.dropWhile_cons]
    split
    · rw [List.dropWhile_cons_of_neg (by simp [ht])]
      exact ⟨rest, Or.inl rfl⟩
    · exact ⟨rest, Or.inr ⟨comment, hkind, rfl⟩⟩

end TokenStream.LedBy

/-- What adapting a body keeps of a token: its imprint, and its text if it is a keyword. -/
structure Token.Keeps (t u : Token) : Prop where
  imprint_eq : u.imprint = t.imprint
  value_eq : t.kind = .keyword → u.value = t.value

namespace Token.Keeps

variable {t u : Token}

theorem line_eq (h : t.Keeps u) : u.line = t.line := congrArg Imprint.line h.imprint_eq

theorem id_eq (h : t.Keeps u) : u.id = t.id := congrArg Imprint.id h.imprint_eq

theorem kind_eq (h : t.Keeps u) : u.kind = t.kind := congrArg Imprint.kind h.imprint_eq

theorem dropWhile {ts us : List Token} (h : List.Forall₂ Token.Keeps ts us) (line : Nat) :
    List.Forall₂ Token.Keeps (ts.dropWhile fun t => t.line == line)
      (us.dropWhile fun t => t.line == line) := by
  induction h with
  | nil => exact .nil
  | @cons t u ts us htu hrest ih =>
    rw [List.dropWhile_cons, List.dropWhile_cons, htu.line_eq]
    split
    · exact ih
    · exact .cons htu hrest

theorem below {s s' : TokenStream} (h : List.Forall₂ Token.Keeps s s') (i : Nat) :
    List.Forall₂ Token.Keeps (s.below i) (s'.below i) := by
  have hlength := h.length_eq
  rw [TokenStream.below, TokenStream.below]
  by_cases hi : i < s.length
  · have hhead := h.get hi (hlength ▸ hi)
    rw [List.get_eq_getElem, List.get_eq_getElem] at hhead
    rw [List.getElem?_eq_getElem hi, List.getElem?_eq_getElem (hlength ▸ hi)]
    dsimp only
    rw [hhead.line_eq]
    exact dropWhile (List.forall₂_drop (i + 1) h) _
  · rw [List.getElem?_eq_none (by omega), List.getElem?_eq_none (by omega)]
    exact .nil

theorem ledBy {ts us : List Token} (h : List.Forall₂ Token.Keeps ts us) {t : Token}
    (hled : TokenStream.LedBy ts t) : ∃ u, t.Keeps u ∧ TokenStream.LedBy us u := by
  obtain ⟨rest, rfl | ⟨comment, hkind, rfl⟩⟩ := hled
  · cases h with
    | @cons _ u _ us htu hrest => exact ⟨u, htu, us, Or.inl rfl⟩
  · cases h with
    | @cons _ comment' _ _ hcomment hrest =>
      cases hrest with
      | @cons _ u _ us htu hrest =>
        exact ⟨u, htu, us, Or.inr ⟨comment', hcomment.kind_eq.trans hkind, rfl⟩⟩

end Token.Keeps

namespace ClassWrapper

/-! ### Moving the constructor -/

/-- Where the run of the constructor at an index starts: with the block comment before it, if there is
one. -/
def runStart (s : TokenStream) (i : Nat) : Nat :=
  if (decide (0 < i) && (s[i - 1]?.map (·.kind == .blockComment)).getD false) = true then i - 1 else i

theorem runStart_cases (s : TokenStream) (i : Nat) :
    runStart s i = i ∨ ∃ comment, runStart s i + 1 = i ∧ s[runStart s i]? = some comment ∧
      comment.kind = .blockComment := by
  rw [runStart]
  split
  · rename_i hcomment
    rw [Bool.and_eq_true, decide_eq_true_eq] at hcomment
    obtain ⟨hpos, hkind⟩ := hcomment
    cases hget : s[i - 1]? with
    | none => simp [hget] at hkind
    | some comment => exact Or.inr ⟨comment, by omega, rfl, by simpa [hget] using hkind⟩
  · exact Or.inl rfl

theorem constructorRun?_none {s : TokenStream} {i firstInBody column : Nat}
    (h : constructorRun? s i firstInBody column = none) : runStart s i ≤ firstInBody := by
  by_contra hlate
  rw [constructorRun?] at h
  change (if runStart s i ≤ firstInBody then none else _) = none at h
  rw [if_neg hlate] at h
  split at h <;> simp at h

theorem constructorRun?_start {s : TokenStream} {i firstInBody column : Nat} {run : IndexRange}
    (h : constructorRun? s i firstInBody column = some run) : run.start = runStart s i := by
  rw [constructorRun?] at h
  change (if runStart s i ≤ firstInBody then none else _) = some run at h
  split at h
  · simp at h
  · split at h
    · rw [← Option.some.inj h]
      rfl
    · rw [← Option.some.inj h]
      rfl

/-- From its run on, the constructor leads. -/
theorem ledBy_of_runStart {s : TokenStream} {i : Nat} {opening : Token} (h : s[i]? = some opening) :
    TokenStream.LedBy (s.drop (runStart s i)) opening := by
  obtain ⟨hi, rfl⟩ := List.getElem?_eq_some_iff.mp h
  rcases runStart_cases s i with hstart | ⟨comment, hstart, hcomment, hkind⟩
  · rw [hstart, List.drop_eq_getElem_cons hi]
    exact ⟨_, Or.inl rfl⟩
  · obtain ⟨hlt, hget⟩ := List.getElem?_eq_some_iff.mp hcomment
    rw [List.drop_eq_getElem_cons hlt, hget]
    simp only [hstart]
    rw [List.drop_eq_getElem_cons hi]
    exact ⟨_, Or.inr ⟨comment, hkind, rfl⟩⟩

theorem nextIndex?_le {p : Token → Bool} {i j : Nat} {ts : List Token} {t : Token}
    (ht : ts[j]? = some t) (hp : p t = true) (hij : i ≤ j) :
    ∃ k, nextIndex? p i ts = some k ∧ k ≤ j := by
  have hget : (ts.drop i)[j - i]? = some t := by
    rw [List.getElem?_drop, Nat.add_sub_cancel' hij, ht]
  cases hfind : (ts.drop i).findIdx? p with
  | none =>
    have hnone := List.findIdx?_eq_none_iff.mp hfind t (List.mem_of_getElem? hget)
    simp [hp] at hnone
  | some m =>
    refine ⟨i + m, by rw [nextIndex?, hfind, Option.map_some], ?_⟩
    by_contra hlate
    obtain ⟨hlt, -, hbefore⟩ := List.findIdx?_eq_some_iff_getElem.mp hfind
    have hnot := hbefore (j - i) (by omega)
    obtain ⟨hvalid, rfl⟩ := List.getElem?_eq_some_iff.mp hget
    exact hnot hp

theorem lt_nextIndex? {p : Token → Bool} {i j : Nat} {ts : List Token} {t : Token}
    (ht : ts[i]? = some t) (hp : p t = false) (h : nextIndex? p i ts = some j) : i < j := by
  obtain ⟨n, hn, rfl⟩ := Option.map_eq_some_iff.mp h
  obtain ⟨hlt, hfound, -⟩ := List.findIdx?_eq_some_iff_getElem.mp hn
  cases n with
  | zero =>
    obtain ⟨hi, rfl⟩ := List.getElem?_eq_some_iff.mp ht
    rw [List.getElem_drop] at hfound
    simp [hp] at hfound
  | succ n => omega

/-- A constructor that is not on the line of the head leads what is below that line. -/
theorem leadWithConstructor_ledBy {s led : TokenStream} {i start : Nat} {c : Constructor}
    (h : (leadWithConstructor s i start c).outcome = .ok led) (hstart : start < i)
    {opening head : Token} (hopening : s[i]? = some opening) (hhead : s[start]? = some head)
    (hline : opening.line ≠ head.line) : (led.below start).LedBy opening := by
  have hi := (List.getElem?_eq_some_iff.mp hopening).1
  obtain ⟨k, hk, hle⟩ : ∃ k, nextIndex? (fun t => t.line != head.line) start s = some k ∧ k ≤ i :=
    nextIndex?_le hopening (by simpa using hline) hstart.le
  have hfront : (s.take k).length = k := by
    rw [List.length_take]
    omega
  obtain ⟨-, hsame⟩ :=
    @nextIndex?_eq_some (fun t => t.line != head.line) start (s.take k) (s.drop k)
      (by rw [List.take_append_drop, hfront, hk])
  have hlt : start < k := lt_nextIndex? hhead (by simp) hk
  -- What is in front of the body is on the line of the head, and stays where it is.
  have hbelow : ∀ rest : TokenStream, rest.LedBy opening →
      (TokenStream.below (s.take k ++ rest) start).LedBy opening := by
    intro rest hrest
    have hkept : (s.take k)[start]? = some head := by rw [List.getElem?_take_of_lt hlt, hhead]
    rw [TokenStream.below_append hkept fun u hu => by simpa using hsame u hu]
    exact hrest.dropWhile (by simpa using hline)
  rw [leadWithConstructor] at h
  obtain ⟨head', hhead', h⟩ := Traced.bind_outcome_eq_ok_iff.mp h
  obtain ⟨found, hfound, h⟩ := Traced.bind_outcome_eq_ok_iff.mp h
  obtain rfl := Option.some.inj (hhead.symm.trans (Traced.ofEdit_outcome_eq_ok_iff.mp hhead'))
  obtain rfl := Option.some.inj (hopening.symm.trans (Traced.ofEdit_outcome_eq_ok_iff.mp hfound))
  simp only [hk] at h
  have hrunStart := ledBy_of_runStart hopening
  split at h
  · rename_i hrun
    have hearly := constructorRun?_none hrun
    obtain rfl := Except.ok.inj h
    have hrest : TokenStream.LedBy (s.drop k) opening := by
      by_cases hat : k = runStart s i
      · rw [hat]
        exact hrunStart
      · have hctor : k = i := by
          rcases runStart_cases s i with hstart | ⟨-, hstart, -⟩ <;> omega
        rw [hctor, List.drop_eq_getElem_cons hi]
        exact ⟨_, Or.inl (by rw [(List.getElem?_eq_some_iff.mp hopening).2])⟩
    have hled := hbelow (s.drop k) hrest
    rwa [List.take_append_drop] at hled
  · rename_i run hrun
    obtain ⟨-, -, h⟩ := Traced.bind_outcome_eq_ok_iff.mp h
    have hrelocate := Traced.ofEdit_outcome_eq_ok_iff.mp h
    have hbounds := constructorRun?_bounds hrun hi
    rw [TokenStream.relocate?, if_pos (by omega)] at hrelocate
    rw [← Option.some.inj hrelocate, List.append_assoc, List.append_assoc]
    refine hbelow _ (TokenStream.LedBy.append ?_ _)
    rw [constructorRun?_start hrun]
    have hget : (s.take run.stop)[i]? = some opening := by
      rw [List.getElem?_take_of_lt hbounds.2.2.1, hopening]
    have hsameStart : runStart (s.take run.stop) i = runStart s i := by
      rw [runStart, runStart, List.getElem?_take_of_lt (by omega)]
    rw [← hsameStart]
    exact ledBy_of_runStart hget

theorem leadWithConstructor_start {s led : TokenStream} {i start : Nat} {c : Constructor}
    (h : (leadWithConstructor s i start c).outcome = .ok led) (hi : i < s.length) :
    led[start]? = s[start]? := by
  rcases leadWithConstructor_cases h hi with rfl |
    ⟨head, before, skipped, moved, after, hhead, rfl, rfl, hk, hskipped, hle, hlt⟩
  · rfl
  · have hstart : start < before.length := lt_nextIndex? hhead (by simp) hk
    rw [List.getElem?_append_left hstart, List.getElem?_append_left hstart]

theorem getElem?_of_imprints {s s' : TokenStream} {i j : Nat} {t : Token}
    (h : s'.imprints[i]? = s.imprints[j]?) (ht : s[j]? = some t) :
    ∃ u, s'[i]? = some u ∧ u.imprint = t.imprint := by
  rw [TokenStream.imprints, TokenStream.imprints, List.getElem?_map, List.getElem?_map, ht,
    Option.map_some] at h
  exact Option.map_eq_some_iff.mp h

theorem adaptBetween?_keeps {s s' : TokenStream} {start stop : Nat} {w : Wrapper} {c : Constructor}
    (h : adaptBetween? s start stop w c = some s') : List.Forall₂ Token.Keeps s s' := by
  have himprints := adaptBetween?_imprints h
  have hlength : s.length = s'.length := by
    have := congrArg List.length himprints
    rw [TokenStream.imprints, TokenStream.imprints, List.length_map, List.length_map] at this
    exact this.symm
  refine List.forall₂_iff_get.mpr ⟨hlength, fun k hk hk' => ?_⟩
  have ht := List.getElem?_eq_getElem hk
  have hu := List.getElem?_eq_getElem hk'
  obtain ⟨u, hget, himprint⟩ := getElem?_of_imprints (congrArg (fun ps => ps[k]?) himprints) ht
  obtain rfl := Option.some.inj (hu.symm.trans hget)
  obtain ⟨hinside, houtside⟩ := adaptBetween?_values h ht hu
  refine ⟨himprint, fun hkind => ?_⟩
  by_cases hin : start < k ∧ k < stop
  · obtain ⟨before, hvalue⟩ := hinside hin
    rw [List.get_eq_getElem] at hkind
    rw [List.get_eq_getElem, hvalue]
    exact adaptToken_value_of_kind w c before (by simp [hkind]) (by simp [hkind])
  · exact houtside hin

/-! ### The stages before -/

/-- A stream whose lines ascend, and in which each `var` is left of all that follows it on its line. -/
structure VarsLead (s : TokenStream) : Prop where
  lines : s.Pairwise fun t u => t.line ≤ u.line
  vars : s.Pairwise fun t u => t.isKeyword "var" = true → t.line = u.line → t.column < u.column

theorem VarsLead.line_le {s : TokenStream} (h : VarsLead s) {i j : Nat} {t u : Token}
    (ht : s[i]? = some t) (hu : s[j]? = some u) (hij : i ≤ j) : t.line ≤ u.line :=
  TokenStream.line_le_of_pairwise h.lines ht hu hij

theorem VarsLead.column_lt {s : TokenStream} (h : VarsLead s) {i j : Nat} {t u : Token}
    (ht : s[i]? = some t) (hu : s[j]? = some u) (hij : i < j) (hvar : t.isKeyword "var" = true)
    (hline : t.line = u.line) : t.column < u.column :=
  TokenStream.rel_of_pairwise h.vars ht hu hij hvar hline

/-- The name of a declarator is above the line of the wrapper: its `var` is not left of the wrapper, so
it cannot stand before it on that line. -/
theorem declarator_above {s : TokenStream} {c : Constructor} {x : Unwrapping}
    (h : unwrapping? s c = some x) (hs : VarsLead s) {d : DeclaratorSite} (hd : x.site = some d) :
    d.nameIndex < x.wrapper.start := by
  obtain ⟨-, -, -, hlocate, -, -, hsite⟩ := unwrapping?_eq_some h
  obtain ⟨head, hhead, hcolumn⟩ := locate?_column hlocate
  rw [hd] at hsite
  obtain ⟨-, v, n, hv, hvar, hleft, hn, -, hvline, hnline⟩ := declaratorSite?_spec hsite.symm
  obtain ⟨hbefore, hvget⟩ := mem_before_iff.mp hv
  have habove : v.line < head.line := by
    rcases Nat.lt_or_eq_of_le (hs.line_le hvget hhead hbefore.le) with hlt | heq
    · exact hlt
    · have := hs.column_lt hvget hhead hbefore hvar heq
      omega
  by_contra hafter
  have := hs.line_le hhead hn (Nat.le_of_not_lt hafter)
  omega

theorem pair_above {s : TokenStream} {c : Constructor} {x : Unwrapping}
    (h : unwrapping? s c = some x) (hs : VarsLead s) {k : Nat} (hk : x.removal = some (.pair k)) :
    k < x.wrapper.start := by
  obtain ⟨-, -, -, -, -, -, hsite⟩ := unwrapping?_eq_some h
  obtain ⟨d, hd, hpair⟩ := Option.bind_eq_some_iff.mp hk
  have hname := declarator_above h hs hd
  rw [hd] at hsite
  have hlt := (declaratorSite?_spec hsite.symm).1
  rcases removalAt?_start hpair hlt with hstart | hstart <;> omega

/-- Without its declarator a stream has the imprints before and after the cut ones. -/
theorem undeclared?_imprints_pair {x : Unwrapping} {s : TokenStream} (h : x.undeclared? = some s)
    {k : Nat} (hk : x.removal = some (.pair k)) :
    s.imprints = x.stream.imprints.take k ++ x.stream.imprints.drop (k + 2) := by
  rw [Unwrapping.undeclared?, hk] at h
  rw [TokenStream.excise?_imprints h, TokenStream.imprints, TokenStream.imprints,
    TokenStream.imprints, List.map_take, List.map_drop]

theorem undeclared?_of_not_pair {x : Unwrapping} {s : TokenStream} (h : x.undeclared? = some s)
    (hpair : ∀ k, x.removal ≠ some (.pair k)) : s = x.stream ∧ x.removed = 0 := by
  rw [Unwrapping.undeclared?, withoutDeclarator?] at h
  · refine ⟨(Option.some.inj h).symm, ?_⟩
    rw [Unwrapping.removed]
    split
    · rename_i k hk
      exact absurd hk (hpair k)
    · rfl
  · exact hpair

/-- A token after the cut ones is found further up, by their number, when they are gone. -/
theorem undeclared?_imprint {s undeclared : TokenStream} {c : Constructor} {x : Unwrapping}
    (h : unwrapping? s c = some x) (hs : VarsLead s) (hundeclared : x.undeclared? = some undeclared)
    {j : Nat} (hj : ∀ k, x.removal = some (.pair k) → k + 2 ≤ j) :
    undeclared.imprints[j - x.removed]? = x.stream.imprints[j]? := by
  by_cases hpair : ∃ k, x.removal = some (.pair k)
  · obtain ⟨k, hk⟩ := hpair
    have hremoved : x.removed = 2 := by rw [Unwrapping.removed, hk]
    have hle := hj k hk
    have hbounds := unwrapping?_bounds h
    have habove := pair_above h hs hk
    have hlength : (x.stream.imprints.take k).length = k := by
      rw [List.length_take, TokenStream.imprints, List.length_map]
      omega
    rw [undeclared?_imprints_pair hundeclared hk, hremoved, List.getElem?_append_right (by omega),
      hlength, List.getElem?_drop]
    congr 1
    omega
  · obtain ⟨rfl, hremoved⟩ := undeclared?_of_not_pair hundeclared fun k hk => hpair ⟨k, hk⟩
    rw [hremoved]
    rfl

/-- What stands in the place of the wrapper's first token is on its line or above. -/
theorem undeclared?_head {s undeclared : TokenStream} {c : Constructor} {x : Unwrapping}
    (h : unwrapping? s c = some x) (hs : VarsLead s) (hundeclared : x.undeclared? = some undeclared)
    (hroom : x.removed ≤ x.wrapper.start) :
    ∃ head, undeclared[x.wrapper.start - x.removed]? = some head ∧ head.line ≤ x.headLine := by
  obtain ⟨-, hstream, -, -, hhead, -, -⟩ := unwrapping?_eq_some h
  obtain ⟨t, ht, hline⟩ := Option.map_eq_some_iff.mp hhead
  -- The place of a token of the stream that is not below the wrapper's first one.
  have hfound : ∀ j, j ≤ x.wrapper.start →
      undeclared.imprints[x.wrapper.start - x.removed]? = x.stream.imprints[j]? →
      ∃ head, undeclared[x.wrapper.start - x.removed]? = some head ∧ head.line ≤ x.headLine := by
    intro j hj hsame
    rw [hstream] at hsame
    have hlt : j < s.length := by
      have := (List.getElem?_eq_some_iff.mp ht).1
      omega
    obtain ⟨head, hget, himprint⟩ := getElem?_of_imprints hsame (List.getElem?_eq_getElem hlt)
    have hle := hs.line_le (List.getElem?_eq_getElem hlt) ht hj
    have hsameLine : head.line = s[j].line := congrArg Imprint.line himprint
    exact ⟨head, hget, by omega⟩
  by_cases hlast : ∃ k, x.removal = some (.pair k) ∧ k + 1 = x.wrapper.start
  · -- The wrapper's first token is cut out with the name before it.
    obtain ⟨k, hk, hstart⟩ := hlast
    have hremoved : x.removed = 2 := by rw [Unwrapping.removed, hk]
    have hbounds := unwrapping?_bounds h
    refine hfound (k - 1) (by omega) ?_
    have hlength : (x.stream.imprints.take k).length = k := by
      rw [List.length_take, TokenStream.imprints, List.length_map]
      omega
    rw [undeclared?_imprints_pair hundeclared hk, List.getElem?_append_left (by omega),
      List.getElem?_take_of_lt (by omega)]
    congr 1
    omega
  · refine hfound x.wrapper.start le_rfl (undeclared?_imprint h hs hundeclared fun k hk => ?_)
    have habove := pair_above h hs hk
    have : k + 1 ≠ x.wrapper.start := fun hstart => hlast ⟨k, hk, hstart⟩
    omega

/-- The head of the constructor goes to the token that opens it. -/
theorem writeHead?_getElem? {s s' : TokenStream} {i : Nat} {w : Wrapper} {c : Constructor}
    {declared : Bool} (h : writeHead? s i w c declared = some s') :
    s'[i]? = s[i]?.map (·.withValue ((if declared && w.path == "" then "var " else "") ++ w.path ++
      c.className ++ " =")) := by
  obtain ⟨u, hu, h⟩ := Option.bind_eq_some_iff.mp h
  rw [TokenStream.setValue?] at hu h
  split at hu
  · split at h
    · rw [← Option.some.inj h, ← Option.some.inj hu, List.getElem?_modify, List.getElem?_modify]
      cases s[i]? with
      | none => rfl
      | some t => simp
    · simp at h
  · simp at hu

/-! ### The whole class -/

theorem Unwrapping.outcome_eq_ok {x : Unwrapping} {marked : MarkedLines} {u : Unwrapped}
    (h : x.outcome marked = .ok u) :
    x.removed ≤ x.wrapper.start ∧ x.result? = some u.stream := by
  rw [outcome] at h
  split at h
  · simp at h
  · split at h
    · rename_i hroom
      split at h
      · simp at h
      · rename_i s hs
        rw [hs, ← Except.ok.inj h]
        exact ⟨hroom, rfl⟩
    · simp at h

/-- A class that is unwrapped has its constructor below the line of its head, if it was not on it. -/
theorem result?_ledBy {s result : TokenStream} {c : Constructor} {x : Unwrapping}
    (h : unwrapping? s c = some x) (hs : VarsLead s) (hroom : x.removed ≤ x.wrapper.start)
    (hresult : x.result? = some result) {opening : Token} (hopening : s[x.index]? = some opening)
    (hkeyword : opening.kind = .keyword) (hline : opening.line ≠ x.headLine) :
    ∃ constructor : Token, constructor.id = c.token ∧ constructor.value = x.headText ∧
      (result.below (x.wrapper.start - x.removed)).LedBy constructor := by
  obtain ⟨-, hstream, hindex, -, hhead, -, -⟩ := unwrapping?_eq_some h
  obtain ⟨t, ht, htline⟩ := Option.map_eq_some_iff.mp hhead
  have hbounds := unwrapping?_bounds h
  obtain ⟨led, hled, hadapt⟩ := Option.bind_eq_some_iff.mp hresult
  obtain ⟨undeclared, -, hundeclared, -⟩ := led?_eq_some hled
  obtain ⟨headed, led', hheaded, hlead, hled'⟩ := led?_isSome h hroom hundeclared
  obtain rfl := Option.some.inj (hled.symm.trans hled')
  -- The constructor after the head is written, and what stands in the place of the wrapper's start.
  have hsame : undeclared.imprints[x.index - x.removed]? = x.stream.imprints[x.index]? := by
    refine undeclared?_imprint h hs hundeclared fun k hk => ?_
    have := pair_above h hs hk
    omega
  rw [hstream] at hsame
  obtain ⟨found, hfound, himprint⟩ := getElem?_of_imprints hsame hopening
  have hwritten : headed[x.index - x.removed]? = some (found.withValue x.headText) := by
    rw [writeHead?_getElem? hheaded, hfound]
    rfl
  obtain ⟨first, hfirst, hfirstLine⟩ := undeclared?_head h hs hundeclared hroom
  have hblank := congrArg (fun ts => ts[x.wrapper.start - x.removed]?) (writeHead?_blank hheaded)
  simp only [List.getElem?_map, hfirst, Option.map_some] at hblank
  obtain ⟨head, hget, hheadBlank⟩ := Option.map_eq_some_iff.mp hblank
  have hheadLine : head.line = first.line := by
    have : head.blank.line = first.blank.line := by rw [hheadBlank]
    exact this
  have hbelow : (found.withValue x.headText).line ≠ head.line := by
    have hctor : found.line = opening.line := congrArg Imprint.line himprint
    have hascend := hs.line_le ht hopening hbounds.1.le
    show found.line ≠ head.line
    omega
  have hleads := leadWithConstructor_ledBy hlead (by omega) hwritten hget hbelow
  obtain ⟨constructor, hkeeps, hfinal⟩ :=
    Token.Keeps.ledBy (Token.Keeps.below (adaptBetween?_keeps hadapt) _) hleads
  have hkind : found.kind = opening.kind := congrArg Imprint.kind himprint
  refine ⟨constructor, ?_, hkeeps.value_eq (hkind.trans hkeyword), hfinal⟩
  have hid : found.id = opening.id := congrArg Imprint.id himprint
  obtain ⟨hlt, hmatch, -⟩ := List.findIdx?_eq_some_iff_getElem.mp hindex
  obtain ⟨hvalid, rfl⟩ := List.getElem?_eq_some_iff.mp hopening
  exact hkeeps.id_eq.trans (hid.trans (by simpa using hmatch))

/-- The wrapper's first token keeps its place, unless it is cut out with the declarator. -/
theorem result?_start {s result : TokenStream} {c : Constructor} {x : Unwrapping}
    (h : unwrapping? s c = some x) (hs : VarsLead s) (hroom : x.removed ≤ x.wrapper.start)
    (hresult : x.result? = some result) {head : Token} (hhead : s[x.wrapper.start]? = some head)
    (hkept : head ∉ x.cut) :
    ∃ t, result[x.wrapper.start - x.removed]? = some t ∧ t.id = head.id := by
  obtain ⟨-, hstream, -⟩ := unwrapping?_eq_some h
  have hbounds := unwrapping?_bounds h
  obtain ⟨led, hled, hadapt⟩ := Option.bind_eq_some_iff.mp hresult
  obtain ⟨undeclared, -, hundeclared, -⟩ := led?_eq_some hled
  obtain ⟨headed, led', hheaded, hlead, hled'⟩ := led?_isSome h hroom hundeclared
  obtain rfl := Option.some.inj (hled.symm.trans hled')
  have himprint : undeclared.imprints[x.wrapper.start - x.removed]? =
      x.stream.imprints[x.wrapper.start]? := by
    refine undeclared?_imprint h hs hundeclared fun k hk => ?_
    have habove := pair_above h hs hk
    by_contra hcut
    refine hkept ?_
    rw [Unwrapping.cut, hk, cutBy, hstream]
    refine List.mem_of_getElem? (i := 1) ?_
    rw [List.getElem?_take_of_lt (by omega), List.getElem?_drop, ← hhead]
    congr 1
    omega
  rw [← writeHead?_imprints hheaded, hstream] at himprint
  obtain ⟨t, ht, hsame⟩ := getElem?_of_imprints himprint hhead
  have hlength : x.index - x.removed < headed.length := by
    have := undeclared?_length h hundeclared
    have hsameLength := congrArg List.length (writeHead?_blank hheaded)
    rw [List.length_map, List.length_map] at hsameLength
    omega
  rw [← leadWithConstructor_start hlead hlength] at ht
  obtain ⟨hi, rfl⟩ := List.getElem?_eq_some_iff.mp ht
  have hkeeps := adaptBetween?_keeps hadapt
  have hi' : x.wrapper.start - x.removed < result.length := hkeeps.length_eq ▸ hi
  refine ⟨_, List.getElem?_eq_getElem hi', ?_⟩
  exact (hkeeps.get hi hi').id_eq.trans (congrArg Imprint.id hsame)

end ClassWrapper

/-! ### Sources that are read -/

/-- A keyword starts before everything that follows it: no comment starts inside of it. -/
theorem ParsedSource.keyword_start_lt {mode : Grammar.Mode} {source : String} {p : ParsedSource}
    (h : parse mode source = .ok p) :
    p.stream.Pairwise fun t u => t.kind = .keyword → t.span.start < u.span.start := by
  have hplaced := stream_placed h
  obtain ⟨htiled, -, -, hcomments⟩ := parse_tiled h
  have hdistinct : p.stream.Pairwise fun t u => t ≠ u := List.Nodup.of_map Token.id hplaced.ids_nodup
  refine (hplaced.ordered.and hdistinct).imp_of_mem fun {t u} ht hu htu hkind => ?_
  obtain ⟨hle, hne⟩ := htu
  have htpos := stream_nonempty h ht
  have hupos := stream_nonempty h hu
  have htoken : t ∈ p.tokens := by
    rcases mem_stream.mp ht with ht | ht
    · exact ht
    · obtain ⟨text, -, -, hcomment, -⟩ := hcomments t ht
      unfold commentParts at hcomment
      split at hcomment <;> simp [hkind] at hcomment
  rcases mem_stream.mp hu with hu | hu
  · rcases Token.apart_of_pairwise htiled.ordered htoken hu hne with happart | happart <;> omega
  · rcases htiled.apart u.span (List.mem_map_of_mem hu) (Nat.zero_le _) with
      ⟨v, hv, hvstart, hvstop, hinside⟩ | houtside
    · by_contra hlate
      have hsame : v = t := by
        by_contra hother
        rcases Token.apart_of_pairwise htiled.ordered hv htoken hother with happart | happart <;> omega
      subst hsame
      rcases hinside with hliteral | hstrict
      · simp [hkind, TokenKind.isLiteral] at hliteral
      · omega
    · rcases houtside t htoken with happart | happart <;> omega

theorem ParsedSource.stream_varsLead {mode : Grammar.Mode} {source : String} {p : ParsedSource}
    (h : parse mode source = .ok p) : ClassWrapper.VarsLead p.stream := by
  have hplaced := stream_placed h
  refine ⟨hplaced.lines_ordered, ?_⟩
  refine (keyword_start_lt h).imp_of_mem fun {t u} ht hu hstart hvar hline => ?_
  have hkind : t.kind = .keyword := by
    simp only [Token.isKeyword, Bool.and_eq_true, beq_iff_eq] at hvar
    exact hvar.1
  exact hplaced.column_lt ht hu (hstart hkind) hline

/-- The constructor of a class comes first: it leads what is below the line of the wrapper's first
token, itself or behind a block comment, unless it was on that line before.  That first token is where
the wrapper starts afterwards, unless it was cut out with the declarator. -/
theorem constructor_first {mode : Grammar.Mode} {source : String} {p : ParsedSource}
    (hparse : ParsedSource.parse mode source = .ok p) {c : ClassWrapper.Constructor}
    (hc : c ∈ ClassWrapper.findConstructors p.stream) {marked : MarkedLines}
    {u : ClassWrapper.Unwrapped} (hunwrap : (ClassWrapper.unwrap p.stream marked c).outcome = .ok u)
    (hmodified : u.modified = true) :
    ∃ x opening head, ClassWrapper.unwrapping? p.stream c = some x ∧
      p.stream[x.index]? = some opening ∧ opening.id = c.token ∧
      p.stream[x.wrapper.start]? = some head ∧
      (opening.line ≠ head.line →
        ∃ constructor : Token, constructor.id = c.token ∧ constructor.value = x.headText ∧
          (u.stream.below (x.wrapper.start - x.removed)).LedBy constructor) ∧
      (head ∉ x.cut →
        ∃ t, u.stream[x.wrapper.start - x.removed]? = some t ∧ t.id = head.id) := by
  have hlead := ParsedSource.stream_varsLead hparse
  cases hx : ClassWrapper.unwrapping? p.stream c with
  | none =>
    rw [ClassWrapper.unwrap_of_none hx] at hunwrap
    rw [← Except.ok.inj hunwrap] at hmodified
    simp at hmodified
  | some x =>
    rw [ClassWrapper.unwrap_outcome hx] at hunwrap
    obtain ⟨hroom, hresult⟩ := ClassWrapper.Unwrapping.outcome_eq_ok hunwrap
    obtain ⟨-, -, hindex, -, hheadLine, -, -⟩ := ClassWrapper.unwrapping?_eq_some hx
    obtain ⟨hlt, hid, -⟩ := List.findIdx?_eq_some_iff_getElem.mp hindex
    obtain ⟨head, hhead, hline⟩ := Option.map_eq_some_iff.mp hheadLine
    have hopening := List.getElem?_eq_getElem hlt
    have hid : p.stream[x.index].id = c.token := by simpa using hid
    refine ⟨x, p.stream[x.index], head, rfl, hopening, hid, hhead, fun hbelow => ?_, ?_⟩
    · have hkeyword : p.stream[x.index].kind = .keyword := by
        obtain ⟨t, ht, htid, hkind⟩ := ClassWrapper.findConstructors_keyword hc
        have hsame : t = p.stream[x.index] := List.inj_on_of_nodup_map
          (ParsedSource.stream_ids_nodup hparse) ht (List.getElem_mem hlt) (htid.trans hid.symm)
        rw [← hsame, hkind]
      exact ClassWrapper.result?_ledBy hx hlead hroom hresult hopening hkeyword (hline ▸ hbelow)
    · exact ClassWrapper.result?_start hx hlead hroom hresult hhead

/-- A constructor with a comment, behind another statement, of a class that is declared with another
variable. -/
theorem constructor_first_commented :
    ∃ p, ParsedSource.parse .script "var Foo, a;\n\nFoo = (function() \x7b\n  Foo.x = 1;\n\n  /** Doc */\n  function Foo() \x7b\x7d\n\n  return Foo;\n\n\x7d)();\n" = .ok p ∧
      ∃ c ∈ ClassWrapper.findConstructors p.stream, ∃ u,
        (ClassWrapper.unwrap p.stream .empty c).outcome = .ok u ∧
        ∃ start, ∃ constructor : Token, constructor.id = c.token ∧ constructor.value = "var Foo =" ∧
          (u.stream.below start).LedBy constructor := by
  have hrun : ((ParsedSource.parse .script "var Foo, a;\n\nFoo = (function() \x7b\n  Foo.x = 1;\n\n  /** Doc */\n  function Foo() \x7b\x7d\n\n  return Foo;\n\n\x7d)();\n").toOption.any
      fun p => (ClassWrapper.findConstructors p.stream).any fun c =>
        ((ClassWrapper.unwrap p.stream .empty c).outcome.toOption.any (·.modified)) &&
        (ClassWrapper.unwrapping? p.stream c).any fun x => decide (x.headText = "var Foo =" ∧
          p.stream[x.index]?.map Token.line ≠ p.stream[x.wrapper.start]?.map Token.line)) = true := by
    decide +kernel
  obtain ⟨p, hp, hp'⟩ := (Option.any_eq_true _ _).mp hrun
  obtain ⟨c, hc, hc'⟩ := List.any_eq_true.mp hp'
  obtain ⟨hok, hrecord⟩ := Bool.and_eq_true_iff.mp hc'
  obtain ⟨u, hu, hmodified⟩ := (Option.any_eq_true _ _).mp hok
  obtain ⟨y, hy, hfacts⟩ := (Option.any_eq_true _ _).mp hrecord
  obtain ⟨htext, hlines⟩ := of_decide_eq_true hfacts
  have hparse := except_eq_ok_of_toOption hp
  have hunwrap := except_eq_ok_of_toOption hu
  obtain ⟨x, opening, head, hx, hopening, -, hhead, hfirst, -⟩ :=
    constructor_first hparse hc hunwrap hmodified
  obtain rfl := Option.some.inj (hx.symm.trans hy)
  rw [hopening, hhead] at hlines
  obtain ⟨constructor, hid, hvalue, hled⟩ := hfirst fun hline => hlines (by rw [Option.map_some,
    Option.map_some, hline])
  exact ⟨p, hparse, c, hc, u, hunwrap, _, constructor, hid, hvalue.trans htext, hled⟩

end ClosureReady
