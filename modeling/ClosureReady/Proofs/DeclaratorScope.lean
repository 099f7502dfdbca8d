import ClosureReady.Proofs.Brackets
import ClosureReady.Proofs.BrokenLayout
import ClosureReady.Proofs.ClassWords
import ClosureReady.Proofs.ModifiedFlag

/-!
Which declarator of a class is removed.  The search goes by columns and lines alone: among all places
before the wrapper where a `var` is followed on its line by the name of the class, with nothing left of
the wrapper's column in between, it takes the nearest one.  So what is removed is a declarator of the
class, in the scope around its wrapper, exactly when no other place of that kind is nearer.
-/

set_option autoImplicit false
set_option relaxedAutoImplicit false

namespace ClosureReady

namespace ClassWrapper

/-! ### The search -/

/-- A place where the declarator of a class may be, for a wrapper that starts at `stop`. -/
structure IsCandidate (s : TokenStream) (column : Nat) (name : String) (stop : Nat)
    (d : DeclaratorSite) : Prop where
  before : d.varIndex < stop
  var : ∃ v, s[d.varIndex]? = some v ∧ v.isKeyword "var" = true ∧ v.line = d.line
  columns : ∀ j t, d.varIndex ≤ j → j < stop → s[j]? = some t → column ≤ t.column
  after : d.varIndex < d.nameIndex
  onLine : ∀ j t, d.varIndex < j → j ≤ d.nameIndex → s[j]? = some t → t.line = d.line
  named : ∃ n, s[d.nameIndex]? = some n ∧ n.isIdentifier name = true

/-- Whether a place is nearer to the wrapper: by a later `var`, or by an earlier name after the same
one. -/
def DeclaratorSite.Nearer (e d : DeclaratorSite) : Prop :=
  d.varIndex < e.varIndex ∨ e.varIndex = d.varIndex ∧ e.nameIndex < d.nameIndex

theorem getElem?_takeWhile_iff {p : Token → Bool} {ts : List Token} {k : Nat} {t : Token} :
    (ts.takeWhile p)[k]? = some t ↔
      ts[k]? = some t ∧ ∀ j u, j ≤ k → ts[j]? = some u → p u = true := by
  induction ts generalizing k with
  | nil => simp
  | cons u us ih =>
    rw [List.takeWhile_cons]
    split
    · rename_i hu
      cases k with
      | zero =>
        rw [List.getElem?_cons_zero, List.getElem?_cons_zero]
        refine ⟨fun h => ⟨h, fun j v hj hv => ?_⟩, And.left⟩
        obtain rfl := Nat.le_zero.mp hj
        rw [List.getElem?_cons_zero] at hv
        rw [← Option.some.inj hv, hu]
      | succ k =>
        rw [List.getElem?_cons_succ, List.getElem?_cons_succ, ih]
        refine and_congr_right fun _ => ⟨fun h j v hj hv => ?_, fun h j v hj hv => ?_⟩
        · cases j with
          | zero =>
            rw [List.getElem?_cons_zero] at hv
            rw [← Option.some.inj hv, hu]
          | succ j => exact h j v (Nat.le_of_succ_le_succ hj) hv
        · exact h (j + 1) v (Nat.succ_le_succ hj) hv
    · rename_i hu
      refine iff_of_false (by simp) fun h => hu ?_
      exact h.2 0 u (Nat.zero_le k) List.getElem?_cons_zero

private theorem getElem?_after {s : TokenStream} {i j : Nat} (h : i < j) :
    (s.drop (i + 1))[j - (i + 1)]? = s[j]? := by
  rw [List.getElem?_drop, Nat.add_sub_cancel' h]

/-- The first token with a property on the rest of a line. -/
theorem findIdx?_onLine {s : TokenStream} {i k line : Nat} {p : Token → Bool}
    (h : ((s.drop (i + 1)).takeWhile fun u => u.line == line).findIdx? p = some k) :
    (∃ n, s[i + 1 + k]? = some n ∧ p n = true) ∧
      (∀ j t, i < j → j ≤ i + 1 + k → s[j]? = some t → t.line = line) ∧
      ∀ j t, i < j → j < i + 1 + k → s[j]? = some t → p t = false := by
  obtain ⟨hlt, hp, hbefore⟩ := List.findIdx?_eq_some_iff_getElem.mp h
  obtain ⟨hn, hline⟩ := getElem?_takeWhile_iff.mp (List.getElem?_eq_getElem hlt)
  rw [List.getElem?_drop] at hn
  have hlines : ∀ j t, i < j → j ≤ i + 1 + k → s[j]? = some t → t.line = line := by
    intro j t hij hjk ht
    simpa using hline (j - (i + 1)) t (by omega) ((getElem?_after hij).trans ht)
  refine ⟨⟨_, hn, hp⟩, hlines, fun j t hij hjk ht => ?_⟩
  have hj : ((s.drop (i + 1)).takeWhile fun u => u.line == line)[j - (i + 1)]? = some t := by
    refine getElem?_takeWhile_iff.mpr ⟨(getElem?_after hij).trans ht, fun m u hm hu => ?_⟩
    rw [List.getElem?_drop] at hu
    simpa using hlines (i + 1 + m) u (by omega) (by omega) hu
  obtain ⟨hvalid, rfl⟩ := List.getElem?_eq_some_iff.mp hj
  simpa using hbefore (j - (i + 1)) (by omega)

/-- Where no token on the rest of a line has a property, no line reaches to one that has. -/
theorem findIdx?_onLine_none {s : TokenStream} {i line : Nat} {p : Token → Bool}
    (h : ((s.drop (i + 1)).takeWhile fun u => u.line == line).findIdx? p = none) {m : Nat} {n : Token}
    (him : i < m) (hn : s[m]? = some n)
    (hlines : ∀ j t, i < j → j ≤ m → s[j]? = some t → t.line = line) : p n = false := by
  have hm : ((s.drop (i + 1)).takeWhile fun u => u.line == line)[m - (i + 1)]? = some n := by
    refine getElem?_takeWhile_iff.mpr ⟨(getElem?_after him).trans hn, fun j u hj hu => ?_⟩
    rw [List.getElem?_drop] at hu
    simpa using hlines (i + 1 + j) u (by omega) (by omega) hu
  exact List.findIdx?_eq_none_iff.mp h n (List.mem_of_getElem? hm)

/-- What the search comes to: the nearest candidate, or nothing where there is none. -/
def Finds (s : TokenStream) (column : Nat) (name : String) (stop : Nat) :
    Option DeclaratorSite → Prop
  | none => ∀ e, ¬ IsCandidate s column name stop e
  | some d => IsCandidate s column name stop d ∧
      ∀ e, IsCandidate s column name stop e → ¬ e.Nearer d

section Search

variable {s : TokenStream} {column stop : Nat} {name : String} {d : DeclaratorSite} {t : Token}

theorem IsCandidate.extend (h : IsCandidate s column name stop d) (ht : s[stop]? = some t)
    (hcolumn : column ≤ t.column) : IsCandidate s column name (stop + 1) d := by
  refine ⟨Nat.lt_succ_of_lt h.before, h.var, fun j u hj hstop hu => ?_, h.after, h.onLine, h.named⟩
  rcases Nat.lt_or_eq_of_le (Nat.le_of_lt_succ hstop) with hlt | rfl
  · exact h.columns j u hj hlt hu
  · obtain rfl := Option.some.inj (ht.symm.trans hu)
    exact hcolumn

theorem IsCandidate.restrict (h : IsCandidate s column name (stop + 1) d) (hvar : d.varIndex ≠ stop) :
    IsCandidate s column name stop d := by
  have hbefore := h.before
  exact ⟨by omega, h.var, fun j u hj hstop => h.columns j u hj (by omega), h.after, h.onLine, h.named⟩

/-- The last token before the stop is passed when it is not left of the column and no candidate starts
with it. -/
theorem Finds.extend {o : Option DeclaratorSite} (h : Finds s column name stop o)
    (ht : s[stop]? = some t) (hcolumn : column ≤ t.column)
    (hnone : ∀ e, IsCandidate s column name (stop + 1) e → e.varIndex ≠ stop) :
    Finds s column name (stop + 1) o := by
  cases o with
  | none => exact fun e he => h e (he.restrict (hnone e he))
  | some d => exact ⟨h.1.extend ht hcolumn, fun e he => h.2 e (he.restrict (hnone e he))⟩

end Search

theorem declaratorSite?_finds (s : TokenStream) (column : Nat) (c : Constructor) {n : Nat}
    (hn : n ≤ s.length) :
    Finds s column c.className n (declaratorSite? s column c (s.take n).zipIdx.reverse) := by
  induction n with
  | zero => exact fun e he => absurd he.before (Nat.not_lt_zero _)
  | succ n ih =>
    have hlt : n < s.length := hn
    have ht := List.getElem?_eq_getElem hlt
    have hcons : (s.take (n + 1)).zipIdx.reverse = (s[n], n) :: (s.take n).zipIdx.reverse := by
      rw [List.take_succ_eq_append_getElem hlt, List.zipIdx_append, List.reverse_append]
      simp [Nat.min_eq_left hlt.le]
    rw [hcons, declaratorSite?]
    split
    · rename_i hleft
      intro e he
      have := he.columns n s[n] (Nat.le_of_lt_succ he.before) (Nat.lt_succ_self n) ht
      omega
    · rename_i hleft
      have hcolumn : column ≤ s[n].column := Nat.le_of_not_lt hleft
      split
      · rename_i hvar
        split
        · rename_i hnone
          refine (ih hlt.le).extend ht hcolumn fun e he hsame => ?_
          obtain ⟨v, hv, -, hline⟩ := he.var
          obtain ⟨m, hm, hname⟩ := he.named
          have hline' : s[n].line = e.line := by
            rw [hsame, ht] at hv
            rw [Option.some.inj hv, hline]
          have hmiss := findIdx?_onLine_none hnone (hsame ▸ he.after) hm
            (by rw [hline']; exact hsame ▸ he.onLine)
          simp [hname] at hmiss
        · rename_i k hk
          obtain ⟨hnamed, hlines, hfirst⟩ := findIdx?_onLine hk
          refine ⟨⟨Nat.lt_succ_self n, ⟨s[n], ht, hvar, rfl⟩, ?_, ?_, hlines, hnamed⟩, ?_⟩
          · intro j u hj hstop hu
            obtain rfl : j = n := by
              have : n ≤ j := hj
              omega
            obtain rfl := Option.some.inj (ht.symm.trans hu)
            exact hcolumn
          · show n < n + 1 + k
            omega
          · intro e he hnearer
            have hbefore := he.before
            rcases hnearer with hlater | ⟨hsame, hearlier⟩
            · have : n < e.varIndex := hlater
              omega
            · have hvar : e.varIndex = n := hsame
              have hafter := he.after
              obtain ⟨m, hm, hname⟩ := he.named
              have hmiss := hfirst e.nameIndex m (by omega) hearlier hm
              simp [hname] at hmiss
      · rename_i hvar
        refine (ih hlt.le).extend ht hcolumn fun e he hsame => hvar ?_
        obtain ⟨v, hv, hkeyword, -⟩ := he.var
        rw [hsame, ht] at hv
        rw [Option.some.inj hv, hkeyword]

/-- Of two candidates one is nearer. -/
theorem IsCandidate.eq_or_nearer {s : TokenStream} {column stop : Nat} {name : String}
    {d e : DeclaratorSite} (hd : IsCandidate s column name stop d)
    (he : IsCandidate s column name stop e) : d = e ∨ d.Nearer e ∨ e.Nearer d := by
  rcases Nat.lt_trichotomy d.varIndex e.varIndex with hlt | hvar | hlt
  · exact Or.inr (Or.inr (Or.inl hlt))
  · rcases Nat.lt_trichotomy d.nameIndex e.nameIndex with hlt | hname | hlt
    · exact Or.inr (Or.inl (Or.inr ⟨hvar, hlt⟩))
    · obtain ⟨v, hv, -, hline⟩ := hd.var
      obtain ⟨w, hw, -, hline'⟩ := he.var
      rw [hvar, hw] at hv
      obtain rfl := Option.some.inj hv
      obtain ⟨varIndex, nameIndex, line⟩ := d
      obtain ⟨varIndex', nameIndex', line'⟩ := e
      rw [DeclaratorSite.mk.injEq]
      exact Or.inl ⟨hvar, hname, hline.symm.trans hline'⟩
    · exact Or.inr (Or.inr (Or.inr ⟨hvar.symm, hlt⟩))
  · exact Or.inr (Or.inl (Or.inl hlt))

/-- A place where the declarator of the class of a record may be. -/
def Unwrapping.Candidate (x : Unwrapping) (d : DeclaratorSite) : Prop :=
  IsCandidate x.stream x.wrapper.column x.constructor.className x.wrapper.start d

theorem site_finds {s : TokenStream} {c : Constructor} {x : Unwrapping}
    (h : unwrapping? s c = some x) :
    Finds x.stream x.wrapper.column x.constructor.className x.wrapper.start x.site := by
  have hbounds := unwrapping?_bounds h
  obtain ⟨hc, hs, -, -, -, -, hsite⟩ := unwrapping?_eq_some h
  rw [hsite, ← hs, ← hc]
  exact declaratorSite?_finds x.stream x.wrapper.column x.constructor (by omega)

/-- What is removed is the name that was found: the line of its `var` goes when it is all that the
statement declares, or the name goes with one token next to it. -/
theorem removalAt?_cases {s : TokenStream} {d : DeclaratorSite} {removal : Removal}
    (hlt : d.varIndex < d.nameIndex) (h : removalAt? s d = some removal) :
    removal = .line d.line ∧ d.nameIndex = d.varIndex + 1 ∨
      ∃ k, removal = .pair k ∧ (k = d.nameIndex ∨ k + 1 = d.nameIndex) := by
  cases removal with
  | line l =>
    obtain ⟨next, -, hcase⟩ := Option.map_eq_some_iff.mp h
    split at hcase
    · rename_i hsole
      exact Or.inl ⟨hcase.symm, hsole.1⟩
    · split at hcase <;> simp at hcase
  | pair k => exact Or.inr ⟨k, rfl, removalAt?_start h hlt⟩

theorem attempts_ids_nodup {s : TokenStream} {marked : MarkedLines} {cs : List Constructor}
    {x : Unwrapping} (h : x ∈ attempts s marked cs) (hids : (s.map Token.id).Nodup) :
    (x.stream.map Token.id).Nodup := by
  induction cs generalizing s marked with
  | nil => simp [attempts] at h
  | cons c cs ih =>
    rw [attempts] at h
    rcases List.mem_append.mp h with hx | hx
    · obtain ⟨-, hs, -⟩ := unwrapping?_eq_some (show unwrapping? s c = some x by simpa using hx)
      rw [hs]
      exact hids
    · split at hx
      · rename_i u hu
        refine ih hx ?_
        rcases unwrap_result hu with ⟨-, rfl⟩ | ⟨y, hy, hresult⟩
        · exact hids
        · obtain ⟨-, hs, -⟩ := unwrapping?_eq_some hy
          exact result?_ids_nodup hresult (hs ▸ hids)
      · simp at hx

end ClassWrapper

theorem ParsedSource.attemptedClasses_ids_nodup {mode : Grammar.Mode} {source : String}
    {p : ParsedSource} (h : parse mode source = .ok p) {x : ClassWrapper.Unwrapping}
    (hx : x ∈ p.attemptedClasses) : (x.stream.map Token.id).Nodup := by
  rw [attemptedClasses] at hx
  split at hx
  · simp at hx
  · split at hx
    · simp at hx
    · rename_i r hr
      refine ClassWrapper.attempts_ids_nodup hx ?_
      rw [ClassWrapper.ids_eq_of_imprints (HelperDeclarations.run_ok hr).1]
      exact stream_ids_nodup h

/-! ### Declarators of the source -/

/-- Whether a name that comes after some tokens of a variable statement starts a declarator: it follows
the `var` or a comma outside of all brackets.  Comments do not count. -/
def TokenStream.StartsDeclarator (between : List Token) : Prop :=
  let code := between.filter fun t => !t.kind.isComment
  code = [] ∨ (∃ comma ∈ code.getLast?, comma.isPunctuator "," = true) ∧
    Balanced bracketPairs code.dropLast

/-- Whether a token of a source is the name of a declarator in the variable statement that starts with
another token: the statement reaches to it, and it starts a declarator there. -/
def ParsedSource.Binds (p : ParsedSource) (varId nameId : Nat) : Prop :=
  ∃ i j v n, p.stream[i]? = some v ∧ p.stream[j]? = some n ∧ v.id = varId ∧ n.id = nameId ∧
    TokenStream.StartsDeclarator ((p.stream.take j).drop (i + 1)) ∧
    ∃ node ∈ p.tree.preorder, node.isDeclaration = true ∧ node.region.start = v.region.start ∧
      (n.line < node.region.stop.line ∨
        n.line = node.region.stop.line ∧ n.column < node.region.stop.column)

/-- Whether a place is that of a declarator of the class in the scope around its wrapper: from its `var`
to the wrapper the depth of braces does not drop and ends where it was, and the name is that of a
declarator of the statement. -/
structure ClassWrapper.Unwrapping.Declares (p : ParsedSource) (x : Unwrapping) (d : DeclaratorSite) :
    Prop where
  level : TokenStream.SameLevel ((x.stream.take x.wrapper.start).drop d.varIndex)
  binds : ∃ v n, x.stream[d.varIndex]? = some v ∧ x.stream[d.nameIndex]? = some n ∧ p.Binds v.id n.id

/-- What the removal of a declarator takes is the name at the nearest candidate.  It is a declarator of
the class in the scope around the wrapper exactly when there is one with none but such ones nearer; and
its `var` is at the level of the wrapper exactly when the same braces are open at both. -/
theorem removed_declarator_iff {mode : Grammar.Mode} {source : String} {p : ParsedSource}
    (hparse : ParsedSource.parse mode source = .ok p) {x : ClassWrapper.Unwrapping}
    (hx : x ∈ p.attemptedClasses) {removal : ClassWrapper.Removal}
    (hremoval : x.removal = some removal) :
    ∃ d, x.site = some d ∧
      (removal = .line d.line ∧ d.nameIndex = d.varIndex + 1 ∨
        ∃ k, removal = .pair k ∧ (k = d.nameIndex ∨ k + 1 = d.nameIndex)) ∧
      x.Candidate d ∧ (∀ e, x.Candidate e → ¬ e.Nearer d) ∧
      (x.Declares p d ↔ ∃ e, x.Candidate e ∧ x.Declares p e ∧
        ∀ f, x.Candidate f → f.Nearer e → x.Declares p f) ∧
      ∀ stack, TokenStream.openAfter bracePairs [] (x.stream.take x.wrapper.start) = some stack →
        (TokenStream.SameLevel ((x.stream.take x.wrapper.start).drop d.varIndex) ↔
          TokenStream.openAfter bracePairs [] (x.stream.take d.varIndex) = some stack) := by
  have hrecord := ParsedSource.mem_attemptedClasses hx
  obtain ⟨d, hd, hat⟩ := Option.bind_eq_some_iff.mp hremoval
  have hfinds := ClassWrapper.site_finds hrecord
  rw [hd] at hfinds
  obtain ⟨hcandidate, hnearest⟩ := hfinds
  refine ⟨d, hd, ClassWrapper.removalAt?_cases hcandidate.after hat, hcandidate, hnearest, ?_, ?_⟩
  · constructor
    · intro hdeclares
      exact ⟨d, hcandidate, hdeclares, fun f hf hnearer => absurd hnearer (hnearest f hf)⟩
    · rintro ⟨e, he, hdeclares, hnearer⟩
      rcases hcandidate.eq_or_nearer he with rfl | hbefore | hafter
      · exact hdeclares
      · exact hnearer d hcandidate hbefore
      · exact absurd hafter (hnearest e he)
  · intro stack hstack
    have hsplit : x.stream.take x.wrapper.start =
        x.stream.take d.varIndex ++ (x.stream.take x.wrapper.start).drop d.varIndex := by
      have hfront : (x.stream.take x.wrapper.start).take d.varIndex = x.stream.take d.varIndex := by
        rw [List.take_take, Nat.min_eq_left hcandidate.before.le]
      rw [← hfront, List.take_append_drop]
    have hdistinct : (x.stream.take x.wrapper.start).Nodup :=
      (List.Nodup.of_map Token.id (ParsedSource.attemptedClasses_ids_nodup hparse hx)).sublist
        (List.take_sublist _ _)
    rw [hsplit] at hstack hdistinct
    rw [TokenStream.sameLevel_iff, TokenStream.balanced_iff_openAfter hstack hdistinct]

/-- A variable of another function, with the name of the class and nearer than its declarator. -/
theorem removed_declarator_of_inner_function :
    ∃ p, ParsedSource.parse .script "var f, Foo;\n\nf = function() \x7b\n  var Foo;\n  Foo = 1;\n  return Foo;\n\x7d;\n\nFoo = (function() \x7b\n  function Foo() \x7b\x7d\n\n  return Foo;\n\n\x7d)();\n" = .ok p ∧
      ∃ x ∈ p.attemptedClasses, x.removal = some (.line 4) ∧
        ∃ d, x.site = some d ∧ x.Candidate d ∧ (∀ e, x.Candidate e → ¬ e.Nearer d) ∧
          ¬ x.Declares p d := by
  have hrun : ((ParsedSource.parse .script "var f, Foo;\n\nf = function() \x7b\n  var Foo;\n  Foo = 1;\n  return Foo;\n\x7d;\n\nFoo = (function() \x7b\n  function Foo() \x7b\x7d\n\n  return Foo;\n\n\x7d)();\n").toOption.any
      fun p => p.attemptedClasses.any fun x => decide (x.removal = some (.line 4)) &&
        x.site.any fun d => decide (¬ TokenStream.SameLevel
          ((x.stream.take x.wrapper.start).drop d.varIndex))) = true := by
    decide +kernel
  obtain ⟨p, hp, hp'⟩ := (Option.any_eq_true _ _).mp hrun
  obtain ⟨x, hx, hx'⟩ := List.any_eq_true.mp hp'
  obtain ⟨hremoval, hsite⟩ := Bool.and_eq_true_iff.mp hx'
  obtain ⟨e, he, hlevel⟩ := (Option.any_eq_true _ _).mp hsite
  have hparse := except_eq_ok_of_toOption hp
  have hremoval := of_decide_eq_true hremoval
  obtain ⟨d, hd, -, hcandidate, hnearest, -, -⟩ := removed_declarator_iff hparse hx hremoval
  obtain rfl := Option.some.inj (hd.symm.trans he)
  refine ⟨p, hparse, x, hx, hremoval, d, hd, hcandidate, hnearest, fun hdeclares => ?_⟩
  exact of_decide_eq_true hlevel hdeclares.level

end ClosureReady
