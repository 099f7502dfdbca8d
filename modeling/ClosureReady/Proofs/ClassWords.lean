import ClosureReady.Proofs.ClassStages
import ClosureReady.Proofs.Conservation

/-!
What unwrapping a class does to the words of its stream.  A token is followed by its number through the
four edits of a class: cutting and moving keep the words, the head of the constructor is written over
two tokens, and the tokens between the ends of the wrapper are adapted.  Which tokens those are is read
off the record of the class.
-/

set_option autoImplicit false
set_option relaxedAutoImplicit false

namespace ClosureReady

/-- A token without its place. -/
def Token.word (t : Token) : Nat × TokenKind × String := (t.id, t.kind, t.value)

@[simp] theorem Token.movedLeft_word (bytes columns : Nat) (t : Token) :
    (t.movedLeft bytes columns).word = t.word := rfl

theorem Token.word_eq_iff {t u : Token} :
    t.word = u.word ↔ t.id = u.id ∧ t.kind = u.kind ∧ t.value = u.value := by
  simp [Token.word]

namespace TokenStream

theorem dedentLine?_words {t : Token} {ts s : List Token} {unit : Nat}
    (h : dedentLine? (t :: ts) 0 unit = some s) : s.map Token.word = (t :: ts).map Token.word := by
  obtain ⟨-, rfl⟩ := dedentLine?_eq_some_iff.mp h
  have hmoved : ∀ us : List Token,
      (us.map (·.movedLeft 0 (min t.column unit))).map Token.word = us.map Token.word := by
    intro us
    rw [List.map_map]
    rfl
  rw [List.map_append, hmoved, ← List.map_append, List.cons_append, List.takeWhile_append_dropWhile]

theorem excise?_words {s s' : TokenStream} {start count : Nat}
    (h : s.excise? start count = some s') :
    (s'.map Token.word).Sublist (s.map Token.word) := by
  obtain ⟨first, last, bytes, columns, moved, -, -, -, -, hmoved, rfl⟩ := excise?_eq_some h
  obtain ⟨-, rfl⟩ := shiftAll?_eq_some_iff.mp hmoved
  have hrest : ∀ us : List Token,
      (us.map (·.movedLeft bytes columns)).map Token.word = us.map Token.word := by
    intro us
    rw [List.map_map]
    rfl
  rw [List.map_append, List.map_append, hrest, List.append_assoc, ← List.map_append,
    List.takeWhile_append_dropWhile, ← List.map_append]
  refine List.Sublist.map Token.word ?_
  have hsub : (s.drop (start + count)).Sublist (s.drop start) :=
    List.drop_sublist_drop_left s (Nat.le_add_right start count)
  calc (s.take start ++ s.drop (start + count)).Sublist (s.take start ++ s.drop start) :=
        hsub.append_left _
    _ = s := List.take_append_drop start s

theorem setValue?_values {s s' : TokenStream} {i : Nat} {value : String}
    (h : s.setValue? i value = some s') {k : Nat} {u : Token} (hu : s'[k]? = some u) :
    ∃ t, s[k]? = some t ∧ u.id = t.id ∧ u.kind = t.kind ∧
      (u.value = t.value ∨ k = i ∧ u.value = value) := by
  unfold setValue? at h
  split at h
  · obtain rfl := Option.some.inj h
    rw [List.getElem?_modify] at hu
    obtain ⟨t, ht, rfl⟩ := Option.map_eq_some_iff.mp hu
    refine ⟨t, ht, ?_⟩
    split
    · rename_i hi
      exact ⟨rfl, rfl, Or.inr ⟨hi.symm, rfl⟩⟩
    · exact ⟨rfl, rfl, Or.inl rfl⟩
  · simp at h

end TokenStream

namespace ClassWrapper

theorem adaptToken_value_congr (w : Wrapper) (c : Constructor) (previous : Token) {t u : Token}
    (hkind : t.kind = u.kind) (hvalue : t.value = u.value) :
    (adaptToken w c previous t).value = (adaptToken w c previous u).value := by
  unfold adaptToken
  grind [Token.isIdentifier, Token.withValue]

/-- Tokens that are no names and no comments stay as they are. -/
theorem adaptToken_value_of_kind (w : Wrapper) (c : Constructor) (previous : Token) {t : Token}
    (hname : t.kind ≠ .identifier) (hcomment : t.kind ≠ .blockComment) :
    (adaptToken w c previous t).value = t.value := by
  unfold adaptToken
  grind [Token.isIdentifier, Token.withValue]

/-- The parameter becomes the parent, if there is one. -/
theorem adaptToken_value_of_parameter {w : Wrapper} {c : Constructor} (previous : Token) {t : Token}
    (ht : t.isIdentifier parentParameter = true) (hname : c.className ≠ parentParameter) :
    (adaptToken w c previous t).value = if w.parent = "" then parentParameter else w.parent := by
  unfold adaptToken
  grind [Token.isIdentifier, Token.withValue]

/-- Any other name stays, unless it is that of the class. -/
theorem adaptToken_value_of_name {w : Wrapper} {c : Constructor} (previous : Token) {t : Token}
    (ht : t.kind = .identifier) (hparameter : t.value ≠ parentParameter)
    (hname : w.path = "" ∨ t.value ≠ c.className) :
    (adaptToken w c previous t).value = t.value := by
  unfold adaptToken
  grind [Token.isIdentifier, Token.withValue]

/-- Adapting a body changes the texts of its tokens only: each of the first `count` tokens is adapted
by the one before it, and the others keep their texts. -/
theorem adaptBody_values {w : Wrapper} {c : Constructor} {count : Nat} {previous : Token}
    {line : Option Nat} {ts us : List Token} (h : adaptBody w c count previous line ts = some us)
    {k : Nat} {t u : Token} (ht : ts[k]? = some t) (hu : us[k]? = some u) :
    (k < count → ∃ before, u.value = (adaptToken w c before t).value) ∧
      (count ≤ k → u.value = t.value) := by
  induction count generalizing previous line ts us k t u with
  | zero =>
    obtain rfl := Option.some.inj h
    obtain rfl := Option.some.inj (ht.symm.trans hu)
    exact ⟨fun hlt => absurd hlt (Nat.not_lt_zero k), fun _ => rfl⟩
  | succ count ih =>
    cases ts with
    | nil => simp at ht
    | cons first rest =>
      unfold adaptBody at h
      dsimp only at h
      split at h
      · rename_i first' rest' hdedent
        obtain ⟨vs, hvs, rfl⟩ := Option.map_eq_some_iff.mp h
        have hwords : (first' :: rest').map Token.word =
            (adaptToken w c previous first :: rest).map Token.word := by
          split at hdedent
          · rw [← Option.some.inj hdedent]
          · exact TokenStream.dedentLine?_words hdedent
        rw [List.map_cons, List.map_cons, List.cons.injEq] at hwords
        cases k with
        | zero =>
          obtain rfl : first = t := by simpa using ht
          obtain rfl : first' = u := by simpa using hu
          exact ⟨fun _ => ⟨previous, (Token.word_eq_iff.mp hwords.1).2.2⟩, fun hle => by omega⟩
        | succ k =>
          rw [List.getElem?_cons_succ] at ht hu
          have hsame := congrArg (fun ws => ws[k]?) hwords.2
          simp only [List.getElem?_map, ht, Option.map_some] at hsame
          obtain ⟨t', ht', hword⟩ := Option.map_eq_some_iff.mp hsame
          obtain ⟨-, hkind, hvalue⟩ := Token.word_eq_iff.mp hword
          obtain ⟨hinside, hbeyond⟩ := ih hvs ht' hu
          refine ⟨fun hlt => ?_, fun hle => (hbeyond (by omega)).trans hvalue⟩
          obtain ⟨before, hbefore⟩ := hinside (by omega)
          exact ⟨before, hbefore.trans (adaptToken_value_congr w c before hkind hvalue)⟩
      · simp at h

theorem adaptBetween?_values {s s' : TokenStream} {start stop : Nat} {w : Wrapper} {c : Constructor}
    (h : adaptBetween? s start stop w c = some s') {k : Nat} {t u : Token} (ht : s[k]? = some t)
    (hu : s'[k]? = some u) :
    (start < k ∧ k < stop → ∃ before, u.value = (adaptToken w c before t).value) ∧
      (¬ (start < k ∧ k < stop) → u.value = t.value) := by
  unfold adaptBetween? at h
  split at h
  · obtain ⟨head, hhead, h⟩ := Option.bind_eq_some_iff.mp h
    obtain ⟨body, hbody, rfl⟩ := Option.map_eq_some_iff.mp h
    have hlength : (s.take (start + 1)).length = start + 1 := by
      have := (List.getElem?_eq_some_iff.mp hhead).1
      rw [List.length_take]
      omega
    by_cases hk : k < start + 1
    · rw [List.getElem?_append_left (by omega), List.getElem?_take_of_lt hk, ht] at hu
      obtain rfl := Option.some.inj hu
      exact ⟨fun hin => by omega, fun _ => rfl⟩
    · rw [List.getElem?_append_right (by omega), hlength] at hu
      have ht' : (s.drop (start + 1))[k - (start + 1)]? = some t := by
        rw [List.getElem?_drop, Nat.add_sub_cancel' (by omega), ht]
      obtain ⟨hinside, hbeyond⟩ := adaptBody_values hbody ht' hu
      exact ⟨fun hin => hinside (by omega), fun hout => hbeyond (by omega)⟩
  · obtain rfl := Option.some.inj h
    obtain rfl := Option.some.inj (ht.symm.trans hu)
    exact ⟨fun hin => by omega, fun _ => rfl⟩

namespace Unwrapping

/-- The two tokens that the head of the constructor is written over. -/
def headTokens (x : Unwrapping) : List Token :=
  match x.undeclared? with
  | some s => (s.drop (x.index - x.removed)).take 2
  | none => []

/-- The assignment in the head of the constructor. -/
def headText (x : Unwrapping) : String :=
  (if x.site.isSome && x.wrapper.path == "" then "var " else "") ++ x.wrapper.path ++
    x.constructor.className ++ " ="

/-- The tokens between the ends of the wrapper, with the constructor in front. -/
def body (x : Unwrapping) : List Token :=
  match x.led? with
  | some s => (s.take (x.wrapper.stop - x.removed)).drop (x.wrapper.start - x.removed + 1)
  | none => []

/-- Whether the token with the given number is between the ends of the wrapper. -/
def Holds (x : Unwrapping) (id : Nat) : Prop := ∃ t ∈ x.body, t.id = id

instance (x : Unwrapping) (id : Nat) : Decidable (x.Holds id) :=
  inferInstanceAs (Decidable (∃ t ∈ x.body, t.id = id))

/-- What a token turns into with its class: the head of the constructor may be written over it, and it
is adapted if it is between the ends of the wrapper. -/
structure Turns (x : Unwrapping) (t u : Token) : Prop where
  id_eq : u.id = t.id
  kind_eq : u.kind = t.kind
  value : ∃ v, (v = t.value ∨
      t.id ∈ x.headTokens.map Token.id ∧ (v = x.headText ∨ v = "function")) ∧
    (x.Holds t.id ∧
        (∃ before, u.value = (adaptToken x.wrapper x.constructor before (t.withValue v)).value) ∨
      ¬ x.Holds t.id ∧ u.value = v)

end Unwrapping

/-- Writing the head of a constructor changes the texts of two tokens. -/
theorem writeHead?_values {s s' : TokenStream} {i : Nat} {w : Wrapper} {c : Constructor}
    {declared : Bool} (h : writeHead? s i w c declared = some s') {u : Token} (hu : u ∈ s') :
    ∃ t ∈ s, u.id = t.id ∧ u.kind = t.kind ∧ (u.value = t.value ∨
      t ∈ (s.drop i).take 2 ∧ (u.value = (if declared && w.path == "" then "var " else "") ++ w.path ++
        c.className ++ " =" ∨ u.value = "function")) := by
  obtain ⟨mid, hmid, h⟩ := Option.bind_eq_some_iff.mp h
  obtain ⟨k, hk⟩ := List.mem_iff_getElem?.mp hu
  obtain ⟨v, hv, hid, hkind, hvalue⟩ := TokenStream.setValue?_values h hk
  obtain ⟨t, ht, hid', hkind', hvalue'⟩ := TokenStream.setValue?_values hmid hv
  have hpair : i ≤ k → k < i + 2 → t ∈ (s.drop i).take 2 := by
    intro hlow hhigh
    refine List.mem_iff_getElem?.mpr ⟨k - i, ?_⟩
    rw [List.getElem?_take_of_lt (by omega), List.getElem?_drop, Nat.add_sub_cancel' hlow, ht]
  refine ⟨t, List.mem_of_getElem? ht, hid.trans hid', hkind.trans hkind', ?_⟩
  rcases hvalue with hsame | ⟨rfl, hname⟩
  · rw [hsame]
    exact hvalue'.imp_right fun ⟨hat, hhead⟩ => ⟨hpair (by omega) (by omega), Or.inl hhead⟩
  · exact Or.inr ⟨hpair (by omega) (by omega), Or.inr hname⟩

private theorem undeclared?_words {x : Unwrapping} {s : TokenStream} (h : x.undeclared? = some s) :
    (s.map Token.word).Sublist (x.stream.map Token.word) := by
  unfold Unwrapping.undeclared? withoutDeclarator? at h
  split at h
  · exact TokenStream.excise?_words h
  · obtain rfl := Option.some.inj h
    exact List.Sublist.refl _

theorem ids_eq_of_words {s s' : TokenStream} (h : (s'.map Token.word).Sublist (s.map Token.word)) :
    (s'.map Token.id).Sublist (s.map Token.id) := by
  have hids := h.map Prod.fst
  rwa [List.map_map, List.map_map] at hids

theorem ids_eq_of_imprints {s s' : TokenStream} (h : s'.imprints = s.imprints) :
    s'.map Token.id = s.map Token.id := by
  have hids := congrArg (List.map Imprint.id) h
  rwa [TokenStream.imprints, TokenStream.imprints, List.map_map, List.map_map] at hids

theorem led?_ids_nodup {x : Unwrapping} {led : TokenStream} (h : x.led? = some led)
    (hids : (x.stream.map Token.id).Nodup) : (led.map Token.id).Nodup := by
  obtain ⟨undeclared, headed, hundeclared, hheaded, hperm⟩ := led?_eq_some h
  have hsub := ids_eq_of_words (undeclared?_words hundeclared)
  rw [← ids_eq_of_imprints (writeHead?_imprints hheaded)] at hsub
  exact (hperm.map Token.id).symm.nodup (hids.sublist hsub)

private theorem getElem?_between {s : TokenStream} {a b m : Nat} {t : Token} :
    ((s.take b).drop a)[m]? = some t ↔ a + m < b ∧ s[a + m]? = some t := by
  rw [List.getElem?_drop, List.getElem?_take]
  split
  · rename_i hlt
    simp [hlt]
  · rename_i hlt
    simp [hlt]

/-- A class holds a token exactly when that stands between the ends of the wrapper. -/
private theorem holds_iff {x : Unwrapping} {led : TokenStream} (h : x.led? = some led)
    (hnodup : (led.map Token.id).Nodup) {k : Nat} {v : Token} (hv : led[k]? = some v) {id : Nat}
    (hid : v.id = id) :
    x.Holds id ↔ x.wrapper.start - x.removed < k ∧ k < x.wrapper.stop - x.removed := by
  unfold Unwrapping.Holds Unwrapping.body
  rw [h]
  dsimp only
  constructor
  · rintro ⟨b, hb, hbid⟩
    obtain ⟨m, hm⟩ := List.mem_iff_getElem?.mp hb
    obtain ⟨hlt, hget⟩ := getElem?_between.mp hm
    have hsame : (led.map Token.id)[k]? =
        (led.map Token.id)[x.wrapper.start - x.removed + 1 + m]? := by
      simp [hv, hget, hid, hbid]
    have hk : k < (led.map Token.id).length := by
      rw [List.length_map]
      exact (List.getElem?_eq_some_iff.mp hv).1
    have := (List.getElem?_inj hk hnodup).mp hsame
    omega
  · rintro ⟨hlow, hhigh⟩
    refine ⟨v, List.mem_iff_getElem?.mpr ⟨k - (x.wrapper.start - x.removed + 1), ?_⟩, hid⟩
    rw [getElem?_between, Nat.add_sub_cancel' (by omega)]
    exact ⟨hhigh, hv⟩

/-- Every token of the stream after a class is one of the stream before it, turned by the class. -/
theorem result?_turns {x : Unwrapping} {result : TokenStream} (h : x.result? = some result)
    (hids : (x.stream.map Token.id).Nodup) {u : Token} (hu : u ∈ result) :
    ∃ t ∈ x.stream, x.Turns t u := by
  obtain ⟨led, hled, hadapt⟩ := Option.bind_eq_some_iff.mp h
  obtain ⟨undeclared, headed, hundeclared, hheaded, hperm⟩ := led?_eq_some hled
  have hnodup := led?_ids_nodup hled hids
  -- The token in the stream that was adapted, which stands at the same place.
  obtain ⟨k, hk⟩ := List.mem_iff_getElem?.mp hu
  have himprint := congrArg (fun ps => ps[k]?) (adaptBetween?_imprints hadapt)
  simp only [TokenStream.imprints, List.getElem?_map, hk, Option.map_some] at himprint
  obtain ⟨v, hv, hvu⟩ := Option.map_eq_some_iff.mp himprint.symm
  have hvid : v.id = u.id := congrArg Imprint.id hvu
  have hvkind : v.kind = u.kind := congrArg Imprint.kind hvu
  obtain ⟨hinside, houtside⟩ := adaptBetween?_values hadapt hv hk
  -- The token that the head was or was not written over, and the one it was cut around.
  obtain ⟨t', ht', hid, hkind, hvalue⟩ :=
    writeHead?_values hheaded (hperm.mem_iff.mp (List.mem_of_getElem? hv))
  obtain ⟨t, ht, hword⟩ := List.mem_map.mp
    ((undeclared?_words hundeclared).mem (List.mem_map_of_mem ht'))
  obtain ⟨htid, htkind, htvalue⟩ := Token.word_eq_iff.mp hword
  have hholds : x.Holds t.id ↔ x.wrapper.start - x.removed < k ∧ k < x.wrapper.stop - x.removed :=
    holds_iff hled hnodup hv (hid.trans htid.symm)
  refine ⟨t, ht, ?_, ?_, v.value, ?_, ?_⟩
  · rw [htid, ← hid, hvid]
  · rw [htkind, ← hkind, hvkind]
  · rw [htvalue, htid]
    rcases hvalue with hkept | ⟨hmem, hhead⟩
    · exact Or.inl hkept
    · refine Or.inr ⟨List.mem_map_of_mem ?_, hhead⟩
      rwa [Unwrapping.headTokens, hundeclared]
  · by_cases hin : x.wrapper.start - x.removed < k ∧ k < x.wrapper.stop - x.removed
    · obtain ⟨before, hbefore⟩ := hinside hin
      refine Or.inl ⟨hholds.mpr hin, before, hbefore.trans ?_⟩
      exact adaptToken_value_congr _ _ before (hkind.trans htkind.symm) rfl
    · exact Or.inr ⟨fun hx => hin (hholds.mp hx), houtside hin⟩

theorem result?_ids_nodup {x : Unwrapping} {result : TokenStream} (h : x.result? = some result)
    (hids : (x.stream.map Token.id).Nodup) : (result.map Token.id).Nodup := by
  obtain ⟨led, hled, hadapt⟩ := Option.bind_eq_some_iff.mp h
  rw [ids_eq_of_imprints (adaptBetween?_imprints hadapt)]
  exact led?_ids_nodup hled hids

/-! ### All classes -/

/-- What a token turns into with several classes, one after the other. -/
inductive TurnsThrough : List Unwrapping → Token → Token → Prop
  | nil (t : Token) : TurnsThrough [] t t
  | cons {x : Unwrapping} {xs : List Unwrapping} {t u v : Token} :
      x.Turns t u → TurnsThrough xs u v → TurnsThrough (x :: xs) t v

theorem TurnsThrough.id_eq {xs : List Unwrapping} {t u : Token} (h : TurnsThrough xs t u) :
    u.id = t.id := by
  induction h with
  | nil t => rfl
  | cons hturns _ ih => exact ih.trans hturns.id_eq

/-- A class that was unwrapped has a record, and the stream it leaves is that of the last stage. -/
theorem unwrap_result {s : TokenStream} {marked : MarkedLines} {c : Constructor} {u : Unwrapped}
    (h : (unwrap s marked c).outcome = .ok u) :
    (unwrapping? s c = none ∧ u = ⟨s, marked, false⟩) ∨
      ∃ x, unwrapping? s c = some x ∧ x.result? = some u.stream := by
  rcases unwrap_ok h with hnone | ⟨x, hx, -⟩
  · exact Or.inl hnone
  · refine Or.inr ⟨x, hx, ?_⟩
    rw [unwrap_outcome hx, Unwrapping.outcome] at h
    split at h
    · simp at h
    · split at h
      · split at h
        · simp at h
        · rename_i s' hs'
          rw [hs', ← Except.ok.inj h]
      · simp at h

/-- Every token of the stream after the classes is one of the stream before them, turned by all. -/
theorem unwrapAll_turns {u v : Unwrapped} {cs : List Constructor}
    (h : (unwrapAll u cs).outcome = .ok v) (hids : (u.stream.map Token.id).Nodup) {t' : Token}
    (ht' : t' ∈ v.stream) :
    ∃ t ∈ u.stream, TurnsThrough (unwrappings u.stream u.marked cs) t t' := by
  induction cs generalizing u with
  | nil =>
    obtain rfl := Except.ok.inj h
    exact ⟨t', ht', .nil t'⟩
  | cons c cs ih =>
    unfold unwrapAll at h
    obtain ⟨w, hw, h⟩ := Traced.bind_outcome_eq_ok_iff.mp h
    simp only [unwrappings, hw]
    rcases unwrap_result hw with ⟨hnone, rfl⟩ | ⟨x, hx, hresult⟩
    · simpa [hnone] using ih h hids
    · obtain ⟨-, hs, -⟩ := unwrapping?_eq_some hx
      rw [← hs] at hids ⊢
      obtain ⟨t₁, ht₁, hlater⟩ := ih h (result?_ids_nodup hresult hids)
      obtain ⟨t, ht, hturns⟩ := result?_turns hresult hids ht₁
      rw [hs, hx]
      exact ⟨t, hs ▸ ht, .cons hturns hlater⟩

/-- The stream a class is found in holds tokens of the first stream only, up to texts and columns. -/
theorem unwrappings_imprints {s : TokenStream} {marked : MarkedLines} {cs : List Constructor}
    {x : Unwrapping} (hx : x ∈ unwrappings s marked cs) : x.stream.imprints ⊆ s.imprints := by
  induction cs generalizing s marked with
  | nil => simp [unwrappings] at hx
  | cons c cs ih =>
    unfold unwrappings at hx
    split at hx
    · rename_i u hu
      rcases List.mem_append.mp hx with hx | hx
      · obtain ⟨-, hs, -⟩ := unwrapping?_eq_some (show unwrapping? s c = some x by simpa using hx)
        rw [hs]
        exact List.Subset.refl _
      · refine List.Subset.trans (ih hx) ?_
        rcases unwrap_ok hu with ⟨-, rfl⟩ | ⟨y, -, -, -, hperm, -⟩
        · exact List.Subset.refl _
        · exact fun p hp => hperm.mem_iff.mpr (List.mem_append_left _ hp)
    · simp at hx

end ClassWrapper

namespace FixRun

variable {mode : Grammar.Mode} {source : String}

theorem declarations_ids_nodup (run : FixRun mode source) :
    (run.declarationsMarked.workspace.stream.map Token.id).Nodup := by
  rw [ClassWrapper.ids_eq_of_imprints (HelperDeclarations.run_ok run.declarations_eq).1]
  exact ParsedSource.stream_ids_nodup run.parse_eq

/-- Every token of the stream after the classes of a run is one that they started from, turned by
all of them. -/
theorem unwrapped_turns (run : FixRun mode source) {u : Token} (hu : u ∈ run.unwrapped) :
    ∃ t ∈ run.declarationsMarked.workspace.stream, ClassWrapper.TurnsThrough run.classes t u := by
  have hclasses := run.classes_eq
  unfold ClassWrapper.run at hclasses
  obtain ⟨v, hv, hclasses⟩ := Traced.bind_outcome_eq_ok_iff.mp hclasses
  have hstream : run.unwrapped = v.stream := by
    rw [unwrapped, ← Except.ok.inj hclasses]
  rw [hstream] at hu
  exact ClassWrapper.unwrapAll_turns hv run.declarations_ids_nodup hu

end FixRun

end ClosureReady
