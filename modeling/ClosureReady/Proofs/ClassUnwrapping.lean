import ClosureReady.Proofs.FixRun
import ClosureReady.Proofs.MarkedLines
import Mathlib.Data.List.TakeWhile

/-!
What unwrapping a class takes away.  The search for the declarator of a class is separated from its
removal, and an `Unwrapping` records, for one class, the stream it was found in, its wrapper, the
lines of the wrapper's two ends and the fate of the declarator.  A step of the pass keeps all imprints
but those of the two tokens it may cut, and marks the lines its record schedules; the whole pass is
the sequence of those records.
-/

set_option autoImplicit false
set_option relaxedAutoImplicit false

namespace ClosureReady.ClassWrapper

/-! ### The declarator of a class -/

/-- Where a declarator stands: the index of its `var`, the index of the name, and their line. -/
structure DeclaratorSite where
  varIndex : Nat
  nameIndex : Nat
  line : Nat
  deriving DecidableEq, Repr, Inhabited

/-- The declarator of a class among the given tokens, nearest to the wrapper first. -/
def declaratorSite? (s : TokenStream) (column : Nat) (c : Constructor) :
    List (Token × Nat) → Option DeclaratorSite
  | [] => none
  | (t, i) :: earlier =>
    if t.column < column then none
    else if t.isKeyword "var" then
      match ((s.drop (i + 1)).takeWhile fun u => u.line == t.line).findIdx?
          (·.isIdentifier c.className) with
      | none => declaratorSite? s column c earlier
      | some k => some ⟨i, i + 1 + k, t.line⟩
    else declaratorSite? s column c earlier

/-- How a declarator goes: its line is marked, or two tokens are cut out of the stream. -/
inductive Removal
  | line (line : Nat)
  | pair (start : Nat)
  deriving DecidableEq, Repr, Inhabited

/-- The removal of a declarator, or nothing when no punctuation follows it. -/
def removalAt? (s : TokenStream) (d : DeclaratorSite) : Option Removal :=
  (s[d.nameIndex + 1]?.filter fun t => t.kind == .punctuator).map fun next =>
    if d.nameIndex = d.varIndex + 1 ∧ next.value = ";" then .line d.line
    else if (s[d.nameIndex - 1]?.map (·.isPunctuator ",")).getD false then .pair (d.nameIndex - 1)
    else .pair d.nameIndex

theorem removeDeclarator_eq (s : TokenStream) (marked : MarkedLines) (column : Nat)
    (c : Constructor) (before : List (Token × Nat)) :
    removeDeclarator s marked column c before =
      match declaratorSite? s column c before with
      | none => .ok ⟨s, marked, none⟩
      | some d => dropDeclarator s marked d.varIndex d.nameIndex d.line c := by
  induction before with
  | nil => rfl
  | cons p earlier ih =>
    obtain ⟨t, i⟩ := p
    unfold removeDeclarator declaratorSite?
    by_cases hleft : t.column < column
    · simp [hleft]
    · by_cases hvar : t.isKeyword "var" = true
      · simp only [hleft, hvar, if_true, if_false]
        cases hname : ((s.drop (i + 1)).takeWhile fun u => u.line == t.line).findIdx?
            (·.isIdentifier c.className) with
        | none => exact ih
        | some k => rfl
      · simpa [hleft, hvar] using ih

theorem dropDeclarator_eq (s : TokenStream) (marked : MarkedLines) (d : DeclaratorSite)
    (c : Constructor) :
    dropDeclarator s marked d.varIndex d.nameIndex d.line c =
      match removalAt? s d with
      | none => .error (.malformedVarStatement d.line c.className)
      | some (.line l) => .ok ⟨s, marked.mark l, some 0⟩
      | some (.pair k) =>
        match s.excise? k 2 with
        | none => .error .brokenLayout
        | some s => .ok ⟨s, marked, some 2⟩ := by
  unfold dropDeclarator removalAt?
  cases s[d.nameIndex + 1]?.filter fun t => t.kind == .punctuator with
  | none => rfl
  | some next =>
    by_cases hsole : d.nameIndex = d.varIndex + 1 ∧ next.value = ";"
    · simp [hsole]
    · rw [Option.map_some]
      dsimp only
      rw [if_neg hsole, if_neg hsole]
      cases (s[d.nameIndex - 1]?.map (·.isPunctuator ",")).getD false with
      | true => rfl
      | false => rfl

theorem mem_before_iff {s : TokenStream} {n i : Nat} {t : Token} :
    (t, i) ∈ (s.take n).zipIdx.reverse ↔ i < n ∧ s[i]? = some t := by
  rw [List.mem_reverse, List.mem_zipIdx_iff_getElem?, List.getElem?_take]
  by_cases hi : i < n
  · simp [hi]
  · simp [hi]

/-- The declarator found is an identifier with the name of the class, on the line of a `var` before
it. -/
theorem declaratorSite?_spec {s : TokenStream} {column : Nat} {c : Constructor}
    {before : List (Token × Nat)} {d : DeclaratorSite}
    (h : declaratorSite? s column c before = some d) :
    d.varIndex < d.nameIndex ∧
      ∃ v n, (v, d.varIndex) ∈ before ∧ v.isKeyword "var" = true ∧ column ≤ v.column ∧
        s[d.nameIndex]? = some n ∧ n.isIdentifier c.className = true ∧
        v.line = d.line ∧ n.line = d.line := by
  induction before with
  | nil => simp [declaratorSite?] at h
  | cons p earlier ih =>
    obtain ⟨t, i⟩ := p
    unfold declaratorSite? at h
    split at h
    · simp at h
    · rename_i hleft
      have descend : declaratorSite? s column c earlier = some d →
          d.varIndex < d.nameIndex ∧
            ∃ v n, (v, d.varIndex) ∈ (t, i) :: earlier ∧ v.isKeyword "var" = true ∧
              column ≤ v.column ∧ s[d.nameIndex]? = some n ∧
              n.isIdentifier c.className = true ∧ v.line = d.line ∧ n.line = d.line := by
        intro hearlier
        obtain ⟨hlt, v, n, hmem, rest⟩ := ih hearlier
        exact ⟨hlt, v, n, List.mem_cons_of_mem _ hmem, rest⟩
      split at h
      · rename_i hvar
        split at h
        · exact descend h
        · rename_i k hk
          simp only [Option.some.injEq] at h
          subst h
          obtain ⟨hlt, hname, -⟩ := List.findIdx?_eq_some_iff_getElem.mp hk
          have hprefix := List.takeWhile_prefix (fun u : Token => u.line == t.line)
            (l := s.drop (i + 1))
          have hget := hprefix.getElem hlt
          have hline : (((s.drop (i + 1)).takeWhile fun u => u.line == t.line)[k]).line = t.line := by
            simpa using List.mem_takeWhile_imp (List.getElem_mem hlt)
          have hlen := hprefix.length_le
          simp only [List.length_drop] at hlen
          have hindex : s[i + 1 + k]? =
              some (((s.drop (i + 1)).takeWhile fun u => u.line == t.line)[k]) := by
            rw [hget, List.getElem_drop, List.getElem?_eq_getElem]
          exact ⟨by simp only; omega, t, _, List.mem_cons_self, hvar, by omega, hindex, hname, rfl, hline⟩
      · exact descend h

theorem removalAt?_pair {s : TokenStream} {column : Nat} {c : Constructor}
    {before : List (Token × Nat)} {d : DeclaratorSite} {k : Nat}
    (hsite : declaratorSite? s column c before = some d) (h : removalAt? s d = some (.pair k)) :
    ∃ a b, (s.drop k).take 2 = [a, b] ∧
      (a.isPunctuator "," = true ∧ b.isIdentifier c.className = true ∨
        a.isIdentifier c.className = true ∧ b.kind = .punctuator) := by
  obtain ⟨hlt, v, n, -, -, -, hn, hname, -, -⟩ := declaratorSite?_spec hsite
  obtain ⟨next, hnext, hcase⟩ := Option.map_eq_some_iff.mp h
  obtain ⟨hnext, hkind⟩ := Option.filter_eq_some_iff.mp hnext
  have pairAt : ∀ {i : Nat} {a b : Token}, s[i]? = some a → s[i + 1]? = some b →
      (s.drop i).take 2 = [a, b] := by
    intro i a b ha hb
    obtain ⟨hi, rfl⟩ := List.getElem?_eq_some_iff.mp ha
    obtain ⟨hj, rfl⟩ := List.getElem?_eq_some_iff.mp hb
    rw [List.drop_eq_getElem_cons hi, List.drop_eq_getElem_cons hj]
    rfl
  split at hcase
  · simp at hcase
  · split at hcase
    · rename_i hcomma
      obtain rfl := Removal.pair.inj hcase
      obtain ⟨a, ha, hcomma⟩ : ∃ a, s[d.nameIndex - 1]? = some a ∧ a.isPunctuator "," = true := by
        cases hget : s[d.nameIndex - 1]? with
        | none => simp [hget] at hcomma
        | some a => exact ⟨a, rfl, by simpa [hget] using hcomma⟩
      have hn' : s[d.nameIndex - 1 + 1]? = some n := by
        rwa [Nat.sub_add_cancel (by omega)]
      exact ⟨a, n, pairAt ha hn', Or.inl ⟨hcomma, hname⟩⟩
    · obtain rfl := Removal.pair.inj hcase
      exact ⟨n, next, pairAt hn hnext, Or.inr ⟨hname, by simpa using hkind⟩⟩

/-- The tokens that the removal of a declarator cuts out of a stream. -/
def cutBy (s : TokenStream) : Option Removal → List Token
  | some (.pair k) => (s.drop k).take 2
  | _ => []

/-! ### The record of one class -/

/-- What the unwrapping of one class started from and what it takes away. -/
structure Unwrapping where
  constructor : Constructor
  stream : TokenStream
  index : Nat
  wrapper : Wrapper
  headLine : Nat
  closeLine : Nat
  site : Option DeclaratorSite
  deriving DecidableEq, Repr, Inhabited

/-- The record of the class of a constructor, or nothing when it has no wrapper in the stream. -/
def unwrapping? (s : TokenStream) (c : Constructor) : Option Unwrapping :=
  (s.indexOf? c.token).bind fun i =>
    (locate? s i c).bind fun w =>
      s[w.start]?.bind fun opening =>
        s[w.stop]?.map fun closing =>
          ⟨c, s, i, w, opening.line, closing.line,
            declaratorSite? s w.column c (s.take w.start).zipIdx.reverse⟩

namespace Unwrapping

def removal (x : Unwrapping) : Option Removal := x.site.bind (removalAt? x.stream)

/-- The tokens cut out of the stream with the declarator. -/
def cut (x : Unwrapping) : List Token := cutBy x.stream x.removal

/-- The lines that are marked: the line of the wrapper's head, its closing line and the two lines
above that, and the line of a variable statement that declares nothing but the class. -/
def Schedules (x : Unwrapping) (l : Nat) : Prop :=
  0 < l ∧ (l = x.headLine ∨ (x.closeLine - 2 ≤ l ∧ l ≤ x.closeLine) ∨ x.removal = some (.line l))

end Unwrapping

theorem unwrapping?_eq_some {s : TokenStream} {c : Constructor} {x : Unwrapping}
    (h : unwrapping? s c = some x) :
    x.constructor = c ∧ x.stream = s ∧ s.indexOf? c.token = some x.index ∧
      locate? s x.index c = some x.wrapper ∧
      s[x.wrapper.start]?.map Token.line = some x.headLine ∧
      s[x.wrapper.stop]?.map Token.line = some x.closeLine ∧
      x.site = declaratorSite? s x.wrapper.column c (s.take x.wrapper.start).zipIdx.reverse := by
  obtain ⟨i, hi, h⟩ := Option.bind_eq_some_iff.mp h
  obtain ⟨w, hw, h⟩ := Option.bind_eq_some_iff.mp h
  obtain ⟨opening, hopening, h⟩ := Option.bind_eq_some_iff.mp h
  obtain ⟨closing, hclosing, rfl⟩ := Option.map_eq_some_iff.mp h
  exact ⟨rfl, rfl, hi, hw, by simp [hopening], by simp [hclosing], rfl⟩

theorem cut_cases {s : TokenStream} {c : Constructor} {x : Unwrapping}
    (h : unwrapping? s c = some x) :
    x.cut = [] ∨ ∃ a b, x.cut = [a, b] ∧
      (a.isPunctuator "," = true ∧ b.isIdentifier c.className = true ∨
        a.isIdentifier c.className = true ∧ b.kind = .punctuator) := by
  obtain ⟨-, hstream, -, -, -, -, hsite⟩ := unwrapping?_eq_some h
  unfold Unwrapping.cut cutBy
  split
  · rename_i k hk
    rw [Unwrapping.removal, hsite, hstream] at hk
    obtain ⟨d, hd, hpair⟩ := Option.bind_eq_some_iff.mp hk
    rw [hstream]
    exact Or.inr (removalAt?_pair hd hpair)
  · exact Or.inl rfl

/-! ### One step of the pass -/

@[simp] theorem adaptToken_imprint (w : Wrapper) (c : Constructor) (previous t : Token) :
    (adaptToken w c previous t).imprint = t.imprint := by
  unfold adaptToken
  dsimp only
  split <;> split <;> split <;> simp

theorem adaptBody_imprints {w : Wrapper} {c : Constructor} {count : Nat} {previous : Token}
    {line : Option Nat} {ts us : List Token} (h : adaptBody w c count previous line ts = some us) :
    TokenStream.imprints us = TokenStream.imprints ts := by
  induction count generalizing previous line ts us with
  | zero =>
    simp only [adaptBody, Option.some.injEq] at h
    rw [h]
  | succ count ih =>
    cases ts with
    | nil => simp [adaptBody] at h
    | cons t rest =>
      unfold adaptBody at h
      dsimp only at h
      split at h
      · rename_i u rest' hdedent
        obtain ⟨vs, hvs, rfl⟩ := Option.map_eq_some_iff.mp h
        have hsame : TokenStream.imprints (u :: rest') = TokenStream.imprints (t :: rest) := by
          split at hdedent
          · rw [← Option.some.inj hdedent]
            simp
          · rw [TokenStream.dedentLine?_imprints hdedent]
            simp
        rw [TokenStream.imprints_cons, ih hvs, ← TokenStream.imprints_cons, hsame]
      · simp at h

theorem adaptBetween?_imprints {s s' : TokenStream} {start stop : Nat} {w : Wrapper}
    {c : Constructor} (h : adaptBetween? s start stop w c = some s') :
    s'.imprints = s.imprints := by
  unfold adaptBetween? at h
  split at h
  · obtain ⟨head, -, h⟩ := Option.bind_eq_some_iff.mp h
    obtain ⟨body, hbody, rfl⟩ := Option.map_eq_some_iff.mp h
    rw [TokenStream.imprints_append, adaptBody_imprints hbody, ← TokenStream.imprints_append,
      List.take_append_drop]
  · rw [Option.some.inj h]

theorem writeHead?_imprints {s s' : TokenStream} {i : Nat} {w : Wrapper} {c : Constructor}
    {declared : Bool} (h : writeHead? s i w c declared = some s') : s'.imprints = s.imprints := by
  obtain ⟨u, hu, h⟩ := Option.bind_eq_some_iff.mp h
  rw [TokenStream.setValue?_imprints h, TokenStream.setValue?_imprints hu]

theorem leadWithConstructor_perm {s s' : TokenStream} {i start : Nat} {c : Constructor}
    (h : (leadWithConstructor s i start c).outcome = .ok s') : s'.Perm s := by
  unfold leadWithConstructor at h
  obtain ⟨opening, -, h⟩ := Traced.bind_outcome_eq_ok_iff.mp h
  obtain ⟨found, -, h⟩ := Traced.bind_outcome_eq_ok_iff.mp h
  split at h
  · rw [Except.ok.inj h]
  · split at h
    · rw [Except.ok.inj h]
    · obtain ⟨-, -, h⟩ := Traced.bind_outcome_eq_ok_iff.mp h
      exact TokenStream.relocate?_perm (Traced.ofEdit_outcome_eq_ok_iff.mp h)

def withoutDeclarator? (s : TokenStream) : Option Removal → Option TokenStream
  | some (.pair k) => s.excise? k 2
  | _ => some s

/-- Removing the declarator cuts its tokens out of the stream, or marks the line of a statement that
declares nothing else. -/
theorem removeDeclarator_ok {s : TokenStream} {marked : MarkedLines} {column : Nat} {c : Constructor}
    {before : List (Token × Nat)} {u : Undeclared}
    (h : removeDeclarator s marked column c before = .ok u) :
    withoutDeclarator? s ((declaratorSite? s column c before).bind (removalAt? s)) =
        some u.stream ∧
      ∀ l, u.marked.contains l = true ↔ marked.contains l = true ∨
        (0 < l ∧ (declaratorSite? s column c before).bind (removalAt? s) = some (.line l)) := by
  rw [removeDeclarator_eq] at h
  cases hsite : declaratorSite? s column c before with
  | none =>
    simp only [hsite, Except.ok.injEq] at h
    subst h
    simp [withoutDeclarator?]
  | some d =>
    simp only [hsite, dropDeclarator_eq] at h
    rw [Option.bind_some]
    cases hremoval : removalAt? s d with
    | none => simp [hremoval] at h
    | some removal =>
      cases removal with
      | line l =>
        simp only [hremoval, Except.ok.injEq] at h
        subst h
        refine ⟨rfl, fun k => ?_⟩
        rw [MarkedLines.contains_mark, Option.some.injEq, Removal.line.injEq, @eq_comm _ k]
      | pair k =>
        simp only [hremoval] at h
        split at h
        · simp at h
        · rename_i s' hcut
          simp only [Except.ok.injEq] at h
          subst h
          exact ⟨hcut, by simp⟩

theorem withoutDeclarator?_imprints {s s' : TokenStream} {removal : Option Removal}
    (h : withoutDeclarator? s removal = some s') :
    s.imprints.Perm (s'.imprints ++ TokenStream.imprints (cutBy s removal)) := by
  unfold cutBy
  unfold withoutDeclarator? at h
  split at h
  · rename_i k
    have hparts : s = s.take k ++ ((s.drop k).take 2 ++ s.drop (k + 2)) := by
      rw [← List.drop_drop, List.take_append_drop, List.take_append_drop]
    rw [congrArg TokenStream.imprints hparts, TokenStream.excise?_imprints h]
    simp only [TokenStream.imprints_append, List.append_assoc]
    exact List.perm_append_comm.append_left _
  · obtain rfl := Option.some.inj h
    simp

/-- Unwrapping one class keeps the imprints of all tokens but the cut ones, and marks the lines its
record schedules. -/
theorem unwrap_ok {s : TokenStream} {marked : MarkedLines} {c : Constructor} {u : Unwrapped}
    (h : (unwrap s marked c).outcome = .ok u) :
    (unwrapping? s c = none ∧ u = ⟨s, marked, false⟩) ∨
      ∃ x, unwrapping? s c = some x ∧ u.modified = true ∧
        (∃ s', withoutDeclarator? s x.removal = some s') ∧
        s.imprints.Perm (u.stream.imprints ++ TokenStream.imprints x.cut) ∧
        ∀ l, u.marked.contains l = true ↔ marked.contains l = true ∨ x.Schedules l := by
  unfold unwrap at h
  unfold unwrapping?
  split at h
  · rename_i hindex
    exact Or.inl ⟨by simp [hindex], (Except.ok.inj h).symm⟩
  · rename_i i hindex
    split at h
    · rename_i hlocate
      obtain ⟨opening, -, h⟩ := Traced.bind_outcome_eq_ok_iff.mp h
      obtain ⟨-, -, h⟩ := Traced.bind_outcome_eq_ok_iff.mp h
      exact Or.inl ⟨by simp [hindex, hlocate], (Except.ok.inj h).symm⟩
    · rename_i w hlocate
      unfold unwrapAt at h
      simp only [Traced.bind_outcome_eq_ok_iff, Traced.ofEdit_outcome_eq_ok_iff,
        Traced.ofExcept_outcome] at h
      obtain ⟨opening, hopening, closing, hclosing, v, hv, j, -, start, -, stop, -, s₁, hs₁, s₂, hs₂,
        s₃, hs₃, -, -, h⟩ := h
      obtain rfl := Except.ok.inj h
      obtain ⟨hstream, hmarked⟩ := removeDeclarator_ok hv
      refine Or.inr ⟨⟨c, s, i, w, opening.line, closing.line,
        declaratorSite? s w.column c (s.take w.start).zipIdx.reverse⟩,
        by simp [hindex, hlocate, hopening, hclosing], rfl, ⟨_, hstream⟩, ?_, ?_⟩
      · have hkept : s₃.imprints.Perm v.stream.imprints := by
          rw [adaptBetween?_imprints hs₃, ← writeHead?_imprints hs₁]
          exact (leadWithConstructor_perm hs₂).map _
        exact (withoutDeclarator?_imprints hstream).trans (hkept.symm.append_right _)
      · intro l
        rw [hmarked, MarkedLines.contains_mark, MarkedLines.contains_markRange]
        unfold Unwrapping.Schedules Unwrapping.removal
        tauto

/-! ### The whole pass -/

/-- The records of all classes unwrapped for the given constructors, one after the other. -/
def unwrappings (s : TokenStream) (marked : MarkedLines) : List Constructor → List Unwrapping
  | [] => []
  | c :: cs =>
    match (unwrap s marked c).outcome with
    | .ok u => (unwrapping? s c).toList ++ unwrappings u.stream u.marked cs
    | .error _ => []

def cutTokens (xs : List Unwrapping) : List Token := xs.flatMap Unwrapping.cut

theorem unwrapAll_ok {u v : Unwrapped} {cs : List Constructor}
    (h : (unwrapAll u cs).outcome = .ok v) :
    u.stream.imprints.Perm (v.stream.imprints ++
        TokenStream.imprints (cutTokens (unwrappings u.stream u.marked cs))) ∧
      ∀ l, v.marked.contains l = true ↔ u.marked.contains l = true ∨
        ∃ x ∈ unwrappings u.stream u.marked cs, x.Schedules l := by
  induction cs generalizing u with
  | nil =>
    obtain rfl := Except.ok.inj h
    simp [unwrappings, cutTokens]
  | cons c cs ih =>
    unfold unwrapAll at h
    obtain ⟨w, hw, h⟩ := Traced.bind_outcome_eq_ok_iff.mp h
    obtain ⟨hkept, hmarked⟩ := ih h
    simp only [unwrappings, hw]
    rcases unwrap_ok hw with ⟨hnone, rfl⟩ | ⟨x, hx, -, -, hstep, hlines⟩
    · simpa [hnone] using ⟨hkept, hmarked⟩
    · simp only [hx, Option.toList_some, List.singleton_append, cutTokens, List.flatMap_cons,
        TokenStream.imprints_append]
      constructor
      · refine hstep.trans ((hkept.append_right _).trans ?_)
        rw [List.append_assoc]
        exact List.perm_append_comm.append_left _
      · intro l
        rw [hmarked, hlines]
        simp [or_assoc]

/-- Each record belongs to one of the constructors, in the stream it was made for, and the edit that
removes its declarator succeeded. -/
theorem mem_unwrappings {s : TokenStream} {marked : MarkedLines} {cs : List Constructor}
    {x : Unwrapping} (h : x ∈ unwrappings s marked cs) :
    unwrapping? x.stream x.constructor = some x ∧
      ∃ s', withoutDeclarator? x.stream x.removal = some s' := by
  induction cs generalizing s marked with
  | nil => simp [unwrappings] at h
  | cons c cs ih =>
    unfold unwrappings at h
    split at h
    · rename_i u hu
      rcases List.mem_append.mp h with hx | hx
      · have hrecord : unwrapping? s c = some x := by simpa using hx
        obtain ⟨hc, hs, -⟩ := unwrapping?_eq_some hrecord
        rcases unwrap_ok hu with ⟨hnone, -⟩ | ⟨y, hy, -, hcut, -⟩
        · simp [hnone] at hrecord
        · obtain rfl := Option.some.inj (hy.symm.trans hrecord)
          rw [hc, hs]
          exact ⟨hrecord, hcut⟩
      · exact ih hx
    · simp at h

theorem unwrappings_sublist (s : TokenStream) (marked : MarkedLines) (cs : List Constructor) :
    ((unwrappings s marked cs).map Unwrapping.constructor).Sublist cs := by
  induction cs generalizing s marked with
  | nil => simp [unwrappings]
  | cons c cs ih =>
    unfold unwrappings
    split
    · cases hrecord : unwrapping? s c with
      | none => simpa using (ih _ _).cons c
      | some x =>
        obtain ⟨hc, -⟩ := unwrapping?_eq_some hrecord
        simpa [hc] using ih _ _
    · simp

theorem findConstructors_sublist (s : TokenStream) :
    ((findConstructors s).map Constructor.token).Sublist (s.map Token.id) := by
  induction s with
  | nil => simp [findConstructors]
  | cons t rest ih =>
    cases rest with
    | nil => simp [findConstructors]
    | cons next rest =>
      unfold findConstructors
      split
      · exact ih.cons_cons t.id
      · exact ih.cons t.id

theorem findConstructors_keyword {s : TokenStream} {c : Constructor}
    (h : c ∈ findConstructors s) : ∃ t ∈ s, t.id = c.token ∧ t.kind = .keyword := by
  induction s with
  | nil => simp [findConstructors] at h
  | cons t rest ih =>
    cases rest with
    | nil => simp [findConstructors] at h
    | cons next rest =>
      have descend : c ∈ findConstructors (next :: rest) →
          ∃ u ∈ t :: next :: rest, u.id = c.token ∧ u.kind = .keyword := by
        intro hrest
        obtain ⟨u, hu, hfound⟩ := ih hrest
        exact ⟨u, List.mem_cons_of_mem t hu, hfound⟩
      unfold findConstructors at h
      split at h
      · rename_i hopens
        rcases List.mem_cons.mp h with rfl | hrest
        · refine ⟨t, List.mem_cons_self, rfl, ?_⟩
          simp only [opensConstructor, Token.isKeyword, Bool.and_eq_true,
            beq_iff_eq] at hopens
          exact hopens.1.1.1
        · exact descend hrest
      · exact descend h

/-- A pass that succeeds keeps the imprints of all tokens but the cut ones, and marks the lines that
the records of its classes schedule. -/
theorem run_ok {w : Workspace} {r : PassResult} (h : (run w).outcome = .ok r) :
    w.stream.imprints.Perm (r.workspace.stream.imprints ++ TokenStream.imprints
        (cutTokens (unwrappings w.stream w.marked (findConstructors w.stream)))) ∧
      ∀ l, r.workspace.marked.contains l = true ↔ w.marked.contains l = true ∨
        ∃ x ∈ unwrappings w.stream w.marked (findConstructors w.stream), x.Schedules l := by
  unfold run at h
  obtain ⟨u, hu, h⟩ := Traced.bind_outcome_eq_ok_iff.mp h
  obtain rfl := Except.ok.inj h
  exact unwrapAll_ok hu

end ClosureReady.ClassWrapper
