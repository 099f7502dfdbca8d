import ClosureReady.Proofs.ClassUnwrapping
import ClosureReady.Proofs.Room

/-!
The stages of unwrapping one class.  The record of a class determines the stream after each edit: the
declarator is taken out, the head of the constructor is written, the constructor moves to the front of
the body, and the body is adapted.  Unwrapping answers the last of them, or fails where one of them is
missing; writing the head and moving the constructor never fail, since the ends of the wrapper enclose
the constructor.
-/

set_option autoImplicit false
set_option relaxedAutoImplicit false

namespace ClosureReady

namespace Traced

variable {α β : Type}

theorem bind_outcome (t : Traced α) (next : α → Traced β) :
    (t >>= next).outcome = t.outcome.bind fun a => (next a).outcome := by
  change (Traced.bind t next).outcome = _
  unfold Traced.bind
  cases t.outcome with
  | error fault => rfl
  | ok a => rfl

theorem ofEdit_outcome (r : Option α) :
    (ofEdit r).outcome = match r with
      | none => .error .brokenLayout
      | some a => .ok a := by
  cases r <;> rfl

end Traced

namespace ClassWrapper

namespace Unwrapping

/-- How many tokens before the wrapper are cut out. -/
def removed (x : Unwrapping) : Nat :=
  match x.removal with
  | some (.pair _) => 2
  | _ => 0

/-- The stream without the declarator. -/
def undeclared? (x : Unwrapping) : Option TokenStream := withoutDeclarator? x.stream x.removal

/-- The stream with the head of the constructor written. -/
def headed? (x : Unwrapping) : Option TokenStream :=
  x.undeclared?.bind fun s =>
    writeHead? s (x.index - x.removed) x.wrapper x.constructor x.site.isSome

/-- The stream with the constructor at the front of the body. -/
def led? (x : Unwrapping) : Option TokenStream :=
  x.headed?.bind fun s => (leadWithConstructor s (x.index - x.removed)
    (x.wrapper.start - x.removed) x.constructor).outcome.toOption

/-- The stream with the body adapted. -/
def result? (x : Unwrapping) : Option TokenStream :=
  x.led?.bind fun s => adaptBetween? s (x.wrapper.start - x.removed) (x.wrapper.stop - x.removed)
    x.wrapper x.constructor

/-- The lines marked after the class, given those marked before. -/
def marks (x : Unwrapping) (marked : MarkedLines) : MarkedLines :=
  let marked := (marked.markRange (x.closeLine - 2) x.closeLine).mark x.headLine
  match x.removal with
  | some (.line l) => marked.mark l
  | _ => marked

/-- The fault of a declarator without punctuation after it. -/
def malformed? (x : Unwrapping) : Option Fault :=
  match x.site, x.removal with
  | some d, none => some (.malformedVarStatement d.line x.constructor.className)
  | _, _ => none

/-- What unwrapping the class comes to. -/
def outcome (x : Unwrapping) (marked : MarkedLines) : Except Fault Unwrapped :=
  match x.malformed? with
  | some fault => .error fault
  | none =>
    if x.removed ≤ x.wrapper.start then
      match x.result? with
      | none => .error .brokenLayout
      | some s => .ok ⟨s, x.marks marked, true⟩
    else .error .brokenLayout

end Unwrapping

theorem nextIndex?_bounds {p : Token → Bool} {i k : Nat} {tokens : List Token}
    (h : nextIndex? p i tokens = some k) : i ≤ k ∧ k < tokens.length := by
  obtain ⟨j, hj, rfl⟩ := Option.map_eq_some_iff.mp h
  obtain ⟨hlt, -⟩ := List.findIdx?_eq_some_iff_getElem.mp hj
  rw [List.length_drop] at hlt
  omega

theorem lastIndex?_bound {p : Token → Bool} {k : Nat} {tokens : List Token}
    (h : lastIndex? p tokens = some k) : k < tokens.length := by
  obtain ⟨j, hj, rfl⟩ := Option.map_eq_some_iff.mp h
  obtain ⟨hlt, -⟩ := List.findIdx?_eq_some_iff_getElem.mp hj
  rw [List.length_reverse] at hlt
  omega

/-- The ends of a wrapper enclose its constructor. -/
theorem locate?_bounds {s : TokenStream} {i : Nat} {c : Constructor} {w : Wrapper}
    (h : locate? s i c = some w) : w.start < i ∧ i < w.stop ∧ w.stop < s.length := by
  unfold locate? at h
  simp only [Option.bind_eq_bind, Option.bind_eq_some_iff, Option.pure_def, Option.some.injEq] at h
  obtain ⟨opening, -, column, -, stop, hstop, closing, -, start, hstart, assign, -, path, -, rfl⟩ := h
  have hbefore := lastIndex?_bound hstart
  have hafter := nextIndex?_bounds hstop
  rw [List.length_take] at hbefore
  show start < i ∧ i < stop ∧ stop < s.length
  omega

theorem unwrapping?_bounds {s : TokenStream} {c : Constructor} {x : Unwrapping}
    (h : unwrapping? s c = some x) :
    x.wrapper.start < x.index ∧ x.index < x.wrapper.stop ∧ x.wrapper.stop < x.stream.length := by
  obtain ⟨-, hs, -, hlocate, -⟩ := unwrapping?_eq_some h
  rw [hs]
  exact locate?_bounds hlocate

/-- Removing the declarator of a class. -/
theorem removeDeclarator_outcome {s : TokenStream} {c : Constructor} {x : Unwrapping}
    (h : unwrapping? s c = some x) (marked : MarkedLines) :
    removeDeclarator s ((marked.markRange (x.closeLine - 2) x.closeLine).mark x.headLine)
        x.wrapper.column c (s.take x.wrapper.start).zipIdx.reverse =
      match x.malformed? with
      | some fault => .error fault
      | none =>
        match x.undeclared? with
        | none => .error .brokenLayout
        | some s => .ok ⟨s, x.marks marked, x.site.map fun _ => x.removed⟩ := by
  obtain ⟨hc, hs, -, -, -, -, hsite⟩ := unwrapping?_eq_some h
  rw [removeDeclarator_eq, ← hsite]
  unfold Unwrapping.malformed? Unwrapping.undeclared? Unwrapping.marks Unwrapping.removed
    Unwrapping.removal
  cases hx : x.site with
  | none => simp [withoutDeclarator?, hs]
  | some d =>
    dsimp only
    rw [dropDeclarator_eq, Option.bind_some, hs, hc]
    cases removalAt? s d with
    | none => rfl
    | some removal =>
      cases removal with
      | line l => simp [withoutDeclarator?]
      | pair k =>
        dsimp only [withoutDeclarator?]
        cases s.excise? k 2 with
        | none => rfl
        | some s' => simp

theorem undeclared?_length {s s' : TokenStream} {c : Constructor} {x : Unwrapping}
    (h : unwrapping? s c = some x) (hs' : x.undeclared? = some s') :
    s'.length + x.removed = x.stream.length := by
  obtain ⟨-, hs, -, -, -, -, hsite⟩ := unwrapping?_eq_some h
  have hlength := (withoutDeclarator?_imprints hs').length_eq
  simp only [TokenStream.imprints, List.length_append, List.length_map] at hlength
  have hcut : (cutBy x.stream x.removal).length = x.removed := by
    unfold Unwrapping.removed
    cases hremoval : x.removal with
    | none => rfl
    | some removal =>
      cases removal with
      | line l => rfl
      | pair k =>
        rw [Unwrapping.removal, hsite, hs] at hremoval
        obtain ⟨d, hd, hpair⟩ := Option.bind_eq_some_iff.mp hremoval
        obtain ⟨a, b, htwo, -⟩ := removalAt?_pair hd hpair
        rw [hs, cutBy, htwo]
        rfl
  omega

theorem writeHead?_isSome {s : TokenStream} {i : Nat} (hi : i + 1 < s.length) (w : Wrapper)
    (c : Constructor) (declared : Bool) : ∃ s', writeHead? s i w c declared = some s' := by
  unfold writeHead? TokenStream.setValue?
  dsimp only
  rw [if_pos (by omega), Option.bind_some, if_pos (by simpa using hi)]
  exact ⟨_, rfl⟩

theorem constructorRun?_bounds {s : TokenStream} {i firstInBody column : Nat} {run : IndexRange}
    (h : constructorRun? s i firstInBody column = some run) (hi : i < s.length) :
    firstInBody < run.start ∧ run.start ≤ i ∧ i < run.stop ∧ run.stop ≤ s.length := by
  unfold constructorRun? at h
  dsimp only at h
  generalize hstart : (if (decide (0 < i) &&
    (s[i - 1]?.map (·.kind == .blockComment)).getD false) = true then i - 1 else i) = start at h
  have hle : start ≤ i := by
    rw [← hstart]
    split <;> omega
  split at h
  · simp at h
  · split at h
    · obtain rfl := Option.some.inj h
      show firstInBody < start ∧ start ≤ i ∧ i < s.length ∧ s.length ≤ s.length
      omega
    · rename_i j hj
      have hbounds := nextIndex?_bounds hj
      obtain rfl := Option.some.inj h
      generalize (s[j]?.map fun t => t.kind == .punctuator || t.value == "\x7d").getD false = closes
      show firstInBody < start ∧ start ≤ i ∧ i < (if closes = true then j + 1 else j) ∧
        (if closes = true then j + 1 else j) ≤ s.length
      split <;> omega

/-- Moving the constructor always succeeds, with its wrapper around it. -/
theorem leadWithConstructor_isOk {s : TokenStream} {i start : Nat} (hstart : start < i)
    (hi : i < s.length) (c : Constructor) :
    ∃ s', (leadWithConstructor s i start c).outcome = .ok s' := by
  unfold leadWithConstructor
  simp only [Traced.bind_outcome_eq_ok_iff, Traced.ofEdit_outcome_eq_ok_iff]
  have hopening : s[start]? = some s[start] := List.getElem?_eq_getElem (by omega)
  have hopens : s[i]? = some s[i] := List.getElem?_eq_getElem hi
  cases hfirst : nextIndex? (fun t => t.line != s[start].line) start s with
  | none => exact ⟨s, _, hopening, _, hopens, by simp only [hfirst]; rfl⟩
  | some firstInBody =>
    cases hrun : constructorRun? s i firstInBody s[i].column with
    | none => exact ⟨s, _, hopening, _, hopens, by simp only [hfirst, hrun]; rfl⟩
    | some run =>
      have hbounds := constructorRun?_bounds hrun hi
      obtain ⟨s', hs'⟩ : ∃ s', s.relocate? run firstInBody = some s' := by
        unfold TokenStream.relocate?
        rw [if_pos ⟨by omega, by omega, hbounds.2.2.2⟩]
        exact ⟨_, rfl⟩
      refine ⟨s', _, hopening, _, hopens, ?_⟩
      simp only [hfirst, hrun, Traced.bind_outcome_eq_ok_iff, Traced.ofEdit_outcome_eq_ok_iff]
      exact ⟨(), rfl, hs'⟩

/-- With the declarator out of the way the constructor is put at the front of the body. -/
theorem led?_isSome {s undeclared : TokenStream} {c : Constructor} {x : Unwrapping}
    (h : unwrapping? s c = some x) (hroom : x.removed ≤ x.wrapper.start)
    (hundeclared : x.undeclared? = some undeclared) :
    ∃ headed led, writeHead? undeclared (x.index - x.removed) x.wrapper x.constructor x.site.isSome =
        some headed ∧
      (leadWithConstructor headed (x.index - x.removed) (x.wrapper.start - x.removed)
        x.constructor).outcome = .ok led ∧ x.led? = some led := by
  have hbounds := unwrapping?_bounds h
  have hlength := undeclared?_length h hundeclared
  have hname : x.index - x.removed + 1 < undeclared.length := by omega
  obtain ⟨headed, hheaded⟩ := writeHead?_isSome hname x.wrapper x.constructor x.site.isSome
  have hsame : headed.length = undeclared.length := by
    simpa [TokenStream.imprints] using congrArg List.length (writeHead?_imprints hheaded)
  have hstart : x.wrapper.start - x.removed < x.index - x.removed := by omega
  have hindex : x.index - x.removed < headed.length := by omega
  obtain ⟨led, hled⟩ := leadWithConstructor_isOk hstart hindex x.constructor
  refine ⟨headed, led, hheaded, hled, ?_⟩
  unfold Unwrapping.led? Unwrapping.headed?
  rw [hundeclared, Option.bind_some, hheaded, Option.bind_some, hled]
  rfl

/-- The streams on the way to the constructor at the front of the body. -/
theorem led?_eq_some {x : Unwrapping} {led : TokenStream} (h : x.led? = some led) :
    ∃ undeclared headed, x.undeclared? = some undeclared ∧
      writeHead? undeclared (x.index - x.removed) x.wrapper x.constructor x.site.isSome =
        some headed ∧ led.Perm headed := by
  obtain ⟨headed, hheaded, h⟩ := Option.bind_eq_some_iff.mp h
  obtain ⟨undeclared, hundeclared, hheaded⟩ := Option.bind_eq_some_iff.mp hheaded
  refine ⟨undeclared, headed, hundeclared, hheaded, ?_⟩
  cases hlead : (leadWithConstructor headed (x.index - x.removed) (x.wrapper.start - x.removed)
      x.constructor).outcome with
  | error fault => simp [hlead, Except.toOption] at h
  | ok s =>
    obtain rfl : s = led := by simpa [hlead, Except.toOption] using h
    exact leadWithConstructor_perm hlead

/-- Unwrapping a class comes to what its record says. -/
theorem unwrap_outcome {s : TokenStream} {c : Constructor} {x : Unwrapping}
    (h : unwrapping? s c = some x) (marked : MarkedLines) :
    (unwrap s marked c).outcome = x.outcome marked := by
  obtain ⟨hc, hs, hindex, hlocate, hhead, hclose, -⟩ := unwrapping?_eq_some h
  obtain ⟨opening, hopening, hheadLine⟩ := Option.map_eq_some_iff.mp hhead
  obtain ⟨closing, hclosing, hcloseLine⟩ := Option.map_eq_some_iff.mp hclose
  have hbounds := unwrapping?_bounds h
  have hremove := removeDeclarator_outcome h marked
  unfold unwrap
  simp only [hindex, hlocate]
  unfold unwrapAt
  simp only [Traced.bind_outcome, hopening, hclosing, Traced.ofEdit_outcome, Traced.ofExcept_outcome,
    Except.bind, hheadLine, hcloseLine, hremove]
  unfold Unwrapping.outcome
  cases hmalformed : x.malformed? with
  | some fault => rfl
  | none =>
    dsimp only
    cases hundeclared : x.undeclared? with
    | none =>
      have hnone : x.result? = none := by
        simp [Unwrapping.result?, Unwrapping.led?, Unwrapping.headed?, hundeclared]
      rw [hnone]
      exact (ite_self (Except.error Fault.brokenLayout)).symm
    | some undeclared =>
      have hremoved : (x.site.map fun _ => x.removed).getD 0 = x.removed := by
        cases hsite : x.site with
        | none => simp [Unwrapping.removed, Unwrapping.removal, hsite]
        | some d => rfl
      simp only [hremoved, Option.isSome_map]
      by_cases hroom : x.removed ≤ x.wrapper.start
      · obtain ⟨headed, led, hheaded, hled, hled?⟩ := led?_isSome h hroom hundeclared
        have hresult : x.result? = adaptBetween? led (x.wrapper.start - x.removed)
            (x.wrapper.stop - x.removed) x.wrapper x.constructor := by
          rw [Unwrapping.result?, hled?, Option.bind_some]
        have hsub : ∀ n, x.removed ≤ n → Token.checkedSub n x.removed = some (n - x.removed) :=
          fun n hn => Token.checkedSub_eq_some_iff.mpr ⟨hn, rfl⟩
        rw [hc] at hheaded hled hresult
        rw [if_pos hroom, hresult, hsub _ hroom, hsub x.index (by omega),
          hsub x.wrapper.stop (by omega)]
        simp only [hheaded, hled]
        cases adaptBetween? led (x.wrapper.start - x.removed) (x.wrapper.stop - x.removed)
            x.wrapper c with
        | none => rfl
        | some s' => rfl
      · have hsub : Token.checkedSub x.wrapper.start x.removed = none := by
          rw [Token.checkedSub, if_neg hroom]
        rw [if_neg hroom, hsub]
        cases Token.checkedSub x.index x.removed with
        | none => rfl
        | some i => rfl

end ClassWrapper

end ClosureReady
