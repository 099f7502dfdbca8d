import ClosureReady.Proofs.ClassUnwrapping
import ClosureReady.Proofs.Edits
import ClosureReady.Proofs.Placement

/-!
The declarator of a class, before its wrapper.  The search goes backwards through the scope around the
wrapper and stops at the nearest variable statement that names the class on its line.  What is left of
the tokens before the wrapper is told without the search: all of them when the scope is silent, all but
a line when the statement declares nothing else, and otherwise all but the name and one sign beside it,
with the rest of the line closed up.
-/

set_option autoImplicit false
set_option relaxedAutoImplicit false

namespace ClosureReady.ClassWrapper

/-- No variable statement among some tokens goes on to name the class on the line of its `var`. -/
def Silent (name : String) : List Token → Prop
  | [] => True
  | t :: ts =>
    (t.isKeyword "var" = true →
        ∀ u ∈ ts.takeWhile fun u => u.line == t.line, u.isIdentifier name = false) ∧
      Silent name ts

instance decidableSilent (name : String) : (ts : List Token) → Decidable (Silent name ts)
  | [] => inferInstanceAs (Decidable True)
  | _ :: ts =>
    have := decidableSilent name ts
    inferInstanceAs (Decidable (_ ∧ Silent name ts))

/-- A variable statement `var front name sign rest` that names the class, all on one line, in the scope
around the wrapper and with nothing after it that names the class. -/
structure Declares (column : Nat) (name : String) (v : Token) (front : List Token) (n sign : Token)
    (rest scope : List Token) : Prop where
  isVar : v.isKeyword "var" = true
  isName : n.isIdentifier name = true
  isSign : sign.kind = .punctuator
  nearest : ∀ t ∈ front, t.isIdentifier name = false
  line : ∀ t ∈ front ++ n :: sign :: rest, t.line = v.line
  apart : ∀ t ∈ scope.head?, t.line ≠ v.line
  inScope : ∀ t ∈ v :: (front ++ n :: sign :: rest ++ scope), column ≤ t.column
  silent : Silent name (front ++ n :: sign :: rest ++ scope)

/-- What is left of the tokens before a wrapper without the declarator of its class, and whether there
was one. -/
inductive Undeclares (column : Nat) (name : String) : List Token → List Token → Bool → Prop
  | absent {outer scope : List Token} :
    (∀ t ∈ outer.getLast?, t.column < column) → (∀ t ∈ scope, column ≤ t.column) →
    Silent name scope → Undeclares column name (outer ++ scope) (outer ++ scope) false
  | sole {outer : List Token} {v n sign : Token} {rest scope : List Token} :
    Declares column name v [] n sign rest scope → sign.value = ";" →
    Undeclares column name (outer ++ v :: n :: sign :: (rest ++ scope))
      ((outer ++ v :: n :: sign :: (rest ++ scope)).filter fun t => t.line != v.line) true
  | afterComma {outer : List Token} {v : Token} {front : List Token} {comma n sign : Token}
      {rest scope : List Token} :
    Declares column name v (front ++ [comma]) n sign rest scope → comma.isPunctuator "," = true →
    (∀ t ∈ sign :: rest, n.span.stop ≤ t.span.start) →
    Undeclares column name (outer ++ v :: (front ++ comma :: n :: (sign :: rest ++ scope)))
      (outer ++ v :: (front ++ (sign :: rest).map (·.movedLeft (n.span.stop - comma.span.start)
        (n.region.stop.column - comma.column)) ++ scope)) true
  | beforeSign {outer : List Token} {v : Token} {front : List Token} {n sign : Token}
      {rest scope : List Token} :
    Declares column name v front n sign rest scope → (front = [] → sign.value ≠ ";") →
    (∀ t ∈ front.getLast?, t.isPunctuator "," = false) →
    (∀ t ∈ rest, sign.span.stop ≤ t.span.start) →
    Undeclares column name (outer ++ v :: (front ++ n :: sign :: (rest ++ scope)))
      (outer ++ v :: (front ++ rest.map (·.movedLeft (sign.span.stop - n.span.start)
        (sign.region.stop.column - n.column)) ++ scope)) true

/-! ### The search -/

theorem declaratorSite?_concat (s : TokenStream) (column : Nat) (c : Constructor)
    (before : List Token) (t : Token) :
    declaratorSite? s column c (before ++ [t]).zipIdx.reverse =
      declaratorSite? s column c ((t, before.length) :: before.zipIdx.reverse) := by
  rw [List.zipIdx_append, List.reverse_append]
  simp

theorem declaratorSite?_silent {column : Nat} {c : Constructor} (before : List Token)
    {scope : List Token} (after : List Token)
    (hcolumn : ∀ t ∈ scope, column ≤ t.column) (hsilent : Silent c.className scope)
    (hafter : ∀ u ∈ after.head?, ∀ t ∈ scope, u.line ≠ t.line) :
    declaratorSite? (before ++ scope ++ after) column c (before ++ scope).zipIdx.reverse =
      declaratorSite? (before ++ scope ++ after) column c before.zipIdx.reverse := by
  induction scope generalizing before with
  | nil => simp
  | cons t ts ih =>
    obtain ⟨ht, hts⟩ := List.forall_mem_cons.mp hcolumn
    obtain ⟨hquiet, hrest⟩ := hsilent
    have hstep := ih (before ++ [t]) hts hrest
      (fun u hu v hv => hafter u hu v (List.mem_cons_of_mem t hv))
    rw [declaratorSite?_concat] at hstep
    simp only [List.append_assoc, List.nil_append, List.cons_append] at hstep ⊢
    rw [hstep, declaratorSite?, if_neg (by omega)]
    by_cases hvar : t.isKeyword "var" = true
    · have hdrop : (before ++ t :: (ts ++ after)).drop (before.length + 1) = ts ++ after := by
        rw [← List.drop_drop, List.drop_left]
        rfl
      have honLine : (ts ++ after).takeWhile (fun u => u.line == t.line) =
          ts.takeWhile fun u => u.line == t.line :=
        takeWhile_append_of_head? fun u hu => by
          simpa using hafter u hu t List.mem_cons_self
      have hnone : (ts.takeWhile fun u => u.line == t.line).findIdx?
          (·.isIdentifier c.className) = none :=
        List.findIdx?_eq_none_iff.mpr (hquiet hvar)
      rw [if_pos hvar, hdrop, honLine, hnone]
    · rw [if_neg hvar]

theorem declaratorSite?_absent {column : Nat} {c : Constructor} {outer scope after : List Token}
    (houter : ∀ t ∈ outer.getLast?, t.column < column) (hcolumn : ∀ t ∈ scope, column ≤ t.column)
    (hsilent : Silent c.className scope)
    (hafter : ∀ u ∈ after.head?, ∀ t ∈ scope, u.line ≠ t.line) :
    declaratorSite? (outer ++ scope ++ after) column c (outer ++ scope).zipIdx.reverse = none := by
  rw [declaratorSite?_silent outer after hcolumn hsilent hafter]
  rcases List.eq_nil_or_concat outer with rfl | ⟨inner, t, rfl⟩
  · rfl
  · have ht : t.column < column := houter t (by simp)
    rw [List.concat_eq_append, declaratorSite?_concat, declaratorSite?, if_pos ht]

theorem Declares.line_ends {column : Nat} {name : String} {v : Token} {front : List Token}
    {n sign : Token} {rest scope after : List Token}
    (h : Declares column name v front n sign rest scope) (hafter : ∀ u ∈ after.head?, u.line ≠ v.line) :
    ∀ u ∈ (scope ++ after).head?, u.line ≠ v.line := by
  intro u hu
  cases scope with
  | nil => exact hafter u (by simpa using hu)
  | cons t ts => exact h.apart u (by simpa using hu)

theorem declaratorSite?_found {column : Nat} {c : Constructor} (outer : List Token) {v : Token}
    {front : List Token} {n sign : Token} {rest scope after : List Token}
    (h : Declares column c.className v front n sign rest scope)
    (hafter : ∀ u ∈ after.head?, ∀ t ∈ v :: (front ++ n :: sign :: rest ++ scope), u.line ≠ t.line) :
    declaratorSite? (outer ++ v :: (front ++ n :: sign :: rest ++ scope) ++ after) column c
        (outer ++ v :: (front ++ n :: sign :: rest ++ scope)).zipIdx.reverse =
      some ⟨outer.length, outer.length + 1 + front.length, v.line⟩ := by
  obtain ⟨hv, htail⟩ := List.forall_mem_cons.mp h.inScope
  have hsilent := declaratorSite?_silent (outer ++ [v]) after htail h.silent
    (fun u hu t ht => hafter u hu t (List.mem_cons_of_mem v ht))
  rw [declaratorSite?_concat] at hsilent
  simp only [List.append_assoc, List.nil_append, List.cons_append] at hsilent ⊢
  rw [hsilent, declaratorSite?, if_neg (by omega), if_pos h.isVar]
  have hdrop : (outer ++ v :: (front ++ n :: sign :: (rest ++ (scope ++ after)))).drop
      (outer.length + 1) = (front ++ n :: sign :: rest) ++ (scope ++ after) := by
    rw [← List.drop_drop, List.drop_left]
    simp
  have hbreak : ∀ u ∈ (scope ++ after).head?, (u.line == v.line) = false := by
    intro u hu
    have hends := h.line_ends fun u hu => hafter u hu v List.mem_cons_self
    simpa using hends u hu
  have honLine : ((front ++ n :: sign :: rest) ++ (scope ++ after)).takeWhile
      (fun u => u.line == v.line) = front ++ n :: sign :: rest := by
    rw [takeWhile_append_of_head? hbreak]
    exact List.takeWhile_eq_self_iff.mpr fun t ht => by simp [h.line t ht]
  have hfind : (front ++ n :: sign :: rest).findIdx? (·.isIdentifier c.className) =
      some front.length := by
    have hnone : front.findIdx? (·.isIdentifier c.className) = none :=
      List.findIdx?_eq_none_iff.mpr h.nearest
    simp [List.findIdx?_append, hnone, List.findIdx?_cons, h.isName]
  rw [hdrop, honLine, hfind]

/-! ### The removal -/

/-- Two neighbours of a line can be cut out of a stream that is placed in a text, where the tokens after
them start after they end. -/
theorem excise?_of_placed {text : List Char} {before rest after : TokenStream} {first last : Token}
    (hplaced : TokenStream.Placed text (before ++ first :: last :: (rest ++ after)))
    (hsingle : last.kind = .identifier ∨ last.kind = .punctuator) (hline : first.line = last.line)
    (hrest : ∀ u ∈ rest, u.line = last.line ∧ last.span.stop ≤ u.span.start)
    (hafter : ∀ u ∈ after.head?, u.line ≠ last.line) :
    TokenStream.excise? (before ++ first :: last :: (rest ++ after)) before.length 2 =
      some (before ++ rest.map (·.movedLeft (last.span.stop - first.span.start)
        (last.region.stop.column - first.column)) ++ after) := by
  have hlast : last ∈ before ++ first :: last :: (rest ++ after) := by simp
  have hown : last.line = last.region.stop.line := by
    simpa [Token.isSingleLine, Token.line] using hplaced.single last hlast hsingle
  have hpair : ∀ {R : Token → Token → Prop},
      (before ++ first :: last :: (rest ++ after)).Pairwise R → R first last := by
    intro R hR
    exact (List.pairwise_cons.mp (List.pairwise_append.mp hR).2.1).1 last List.mem_cons_self
  have hstart := hpair hplaced.ordered
  have hcolumn := hpair hplaced.columns_ordered hline
  have hstop := hplaced.start_le_stop last hlast
  have hend := hplaced.column_le_stop hlast (hplaced.single last hlast hsingle)
  refine TokenStream.excise?_append (by omega) (by omega) (fun u hu => ?_) hafter
  obtain ⟨huline, happart⟩ := hrest u hu
  have humem : u ∈ before ++ first :: last :: (rest ++ after) := by simp [hu]
  have hright : last.region.stop.column ≤ u.column :=
    (hplaced.stop_le_column hlast humem happart).2 (by rw [← hown, huline])
  have huspan := hplaced.start_le_stop u humem
  refine ⟨huline, by omega, by omega, by omega, fun husingle => ?_⟩
  have huend := hplaced.column_le_stop humem husingle
  omega

/-- How a declarator goes, by what stands around its name. -/
theorem removalAt?_eq (outer : List Token) (v : Token) (front : List Token) (n : Token) {sign : Token}
    (tail : List Token) (hsign : sign.kind = .punctuator) :
    removalAt? (outer ++ v :: (front ++ n :: sign :: tail))
        ⟨outer.length, outer.length + 1 + front.length, v.line⟩ =
      some (if front = [] ∧ sign.value = ";" then .line v.line
        else if ((v :: front).getLast?.map (·.isPunctuator ",")).getD false then
          .pair (outer.length + front.length)
        else .pair (outer.length + 1 + front.length)) := by
  have hnext : (outer ++ v :: (front ++ n :: sign :: tail))[outer.length + 1 + front.length + 1]? =
      some sign := by
    have hindex : outer.length + 1 + front.length + 1 - outer.length = front.length + 1 + 1 := by
      omega
    rw [List.getElem?_append_right (by omega), hindex, List.getElem?_cons_succ,
      List.getElem?_append_right (by omega), Nat.add_sub_cancel_left]
    rfl
  have hprevious : (outer ++ v :: (front ++ n :: sign :: tail))[outer.length + 1 + front.length - 1]? =
      (v :: front).getLast? := by
    have hindex : outer.length + 1 + front.length - 1 - outer.length = front.length := by omega
    rw [List.getElem?_append_right (by omega), hindex, List.getLast?_eq_getElem?, List.length_cons,
      Nat.add_sub_cancel, ← List.cons_append, List.getElem?_append_left (by simp)]
  have hstart : outer.length + 1 + front.length = outer.length + 1 ↔ front = [] := by
    rw [← List.length_eq_zero_iff]
    omega
  have hindex : outer.length + 1 + front.length - 1 = outer.length + front.length := by omega
  unfold removalAt?
  simp only [hnext, hprevious, hstart]
  simp [Option.filter, hsign, hindex]

theorem removeDeclarator_line {s : TokenStream} {column : Nat} {c : Constructor}
    {before : List (Token × Nat)} {d : DeclaratorSite} {l : Nat}
    (hsite : declaratorSite? s column c before = some d) (hremoval : removalAt? s d = some (.line l))
    (marked : MarkedLines) :
    removeDeclarator s marked column c before = .ok ⟨s, marked.mark l, some 0⟩ := by
  rw [removeDeclarator_eq, hsite]
  exact (dropDeclarator_eq s marked d c).trans (by rw [hremoval])

theorem removeDeclarator_pair {s s' : TokenStream} {column : Nat} {c : Constructor}
    {before : List (Token × Nat)} {d : DeclaratorSite} {k : Nat}
    (hsite : declaratorSite? s column c before = some d) (hremoval : removalAt? s d = some (.pair k))
    (hcut : s.excise? k 2 = some s') (marked : MarkedLines) :
    removeDeclarator s marked column c before = .ok ⟨s', marked, some 2⟩ := by
  rw [removeDeclarator_eq, hsite]
  refine (dropDeclarator_eq s marked d c).trans ?_
  rw [hremoval]
  simp only [hcut]

section Shared

variable {text : List Char} {column : Nat} {c : Constructor} {outer : List Token} {v : Token}
  {front : List Token} {comma n sign : Token} {rest scope after : List Token}

private theorem Declares.name_kind (h : Declares column c.className v front n sign rest scope) :
    n.kind = .identifier := by
  have hname := h.isName
  simp only [Token.isIdentifier, Bool.and_eq_true, beq_iff_eq] at hname
  exact hname.1

theorem Declares.removeDeclarator_afterComma
    (h : Declares column c.className v (front ++ [comma]) n sign rest scope)
    (hcomma : comma.isPunctuator "," = true) (happart : ∀ t ∈ sign :: rest, n.span.stop ≤ t.span.start)
    (hplaced : TokenStream.Placed text
      (outer ++ v :: (front ++ comma :: n :: (sign :: rest ++ scope)) ++ after))
    (hafter : ∀ u ∈ after.head?, ∀ t ∈ outer ++ v :: (front ++ comma :: n :: (sign :: rest ++ scope)),
      u.line ≠ t.line) (marked : MarkedLines) :
    removeDeclarator (outer ++ v :: (front ++ comma :: n :: (sign :: rest ++ scope)) ++ after) marked
        column c (outer ++ v :: (front ++ comma :: n :: (sign :: rest ++ scope))).zipIdx.reverse =
      .ok ⟨outer ++ v :: (front ++ (sign :: rest).map (·.movedLeft (n.span.stop - comma.span.start)
        (n.region.stop.column - comma.column)) ++ scope) ++ after, marked, some 2⟩ := by
  have hline : ∀ t ∈ comma :: n :: sign :: rest, t.line = v.line := by
    intro t ht
    refine h.line t ?_
    simp only [List.append_assoc, List.singleton_append]
    exact List.mem_append_right front ht
  have hnline : n.line = v.line := hline n (by simp)
  have hsite := declaratorSite?_found outer h
    (fun u hu t ht => hafter u hu t (List.mem_append_right _ (by simpa using ht)))
  have hremoval := removalAt?_eq outer v (front ++ [comma]) n (rest ++ scope ++ after) h.isSign
  rw [if_neg (by simp), if_pos (by simp [List.getLast?_cons, hcomma])] at hremoval
  have hcut : TokenStream.excise?
      ((outer ++ v :: front) ++ comma :: n :: (sign :: rest ++ (scope ++ after)))
        (outer ++ v :: front).length 2 =
      some ((outer ++ v :: front) ++ (sign :: rest).map
        (·.movedLeft (n.span.stop - comma.span.start) (n.region.stop.column - comma.column)) ++
          (scope ++ after)) := by
    refine excise?_of_placed (by simpa using hplaced) (Or.inl h.name_kind) ?_ ?_ ?_
    · rw [hnline, hline comma List.mem_cons_self]
    · intro u hu
      rw [hnline]
      exact ⟨hline u (List.mem_cons_of_mem _ (List.mem_cons_of_mem _ hu)), happart u hu⟩
    · rw [hnline]
      exact h.line_ends fun u hu => hafter u hu v (by simp)
  have hstart : outer.length + (front ++ [comma]).length = (outer ++ v :: front).length := by simp
  rw [hstart] at hremoval
  simp only [List.append_assoc, List.cons_append, List.nil_append] at hsite hremoval hcut ⊢
  exact removeDeclarator_pair hsite hremoval hcut marked

theorem Declares.removeDeclarator_beforeSign
    (h : Declares column c.className v front n sign rest scope) (hshared : front = [] → sign.value ≠ ";")
    (hfirst : ∀ t ∈ front.getLast?, t.isPunctuator "," = false)
    (happart : ∀ t ∈ rest, sign.span.stop ≤ t.span.start)
    (hplaced : TokenStream.Placed text
      (outer ++ v :: (front ++ n :: sign :: (rest ++ scope)) ++ after))
    (hafter : ∀ u ∈ after.head?, ∀ t ∈ outer ++ v :: (front ++ n :: sign :: (rest ++ scope)),
      u.line ≠ t.line) (marked : MarkedLines) :
    removeDeclarator (outer ++ v :: (front ++ n :: sign :: (rest ++ scope)) ++ after) marked
        column c (outer ++ v :: (front ++ n :: sign :: (rest ++ scope))).zipIdx.reverse =
      .ok ⟨outer ++ v :: (front ++ rest.map (·.movedLeft (sign.span.stop - n.span.start)
        (sign.region.stop.column - n.column)) ++ scope) ++ after, marked, some 2⟩ := by
  have hline : ∀ t ∈ n :: sign :: rest, t.line = v.line :=
    fun t ht => h.line t (List.mem_append_right front ht)
  have hsline : sign.line = v.line := hline sign (by simp)
  have hsite := declaratorSite?_found outer h
    (fun u hu t ht => hafter u hu t (List.mem_append_right _ (by simpa using ht)))
  have hnocomma : ((v :: front).getLast?.map (·.isPunctuator ",")).getD false = false := by
    rw [List.getLast?_cons]
    cases hlast : front.getLast? with
    | none =>
      have hvar := h.isVar
      simp only [Token.isKeyword, Bool.and_eq_true, beq_iff_eq] at hvar
      simp [Token.isPunctuator, hvar.1]
    | some t => simpa using hfirst t hlast
  have hremoval := removalAt?_eq outer v front n (rest ++ scope ++ after) h.isSign
  rw [if_neg (fun hsole => hshared hsole.1 hsole.2), hnocomma, if_neg (by simp)] at hremoval
  have hcut : TokenStream.excise?
      ((outer ++ v :: front) ++ n :: sign :: (rest ++ (scope ++ after)))
        (outer ++ v :: front).length 2 =
      some ((outer ++ v :: front) ++ rest.map
        (·.movedLeft (sign.span.stop - n.span.start) (sign.region.stop.column - n.column)) ++
          (scope ++ after)) := by
    refine excise?_of_placed (by simpa using hplaced) (Or.inr h.isSign) ?_ ?_ ?_
    · rw [hsline, hline n List.mem_cons_self]
    · intro u hu
      rw [hsline]
      exact ⟨hline u (List.mem_cons_of_mem _ (List.mem_cons_of_mem _ hu)), happart u hu⟩
    · rw [hsline]
      exact h.line_ends fun u hu => hafter u hu v (by simp)
  have hstart : outer.length + 1 + front.length = (outer ++ v :: front).length := by
    rw [List.length_append, List.length_cons]
    omega
  rw [← hstart] at hcut
  simp only [List.append_assoc, List.cons_append] at hsite hremoval hcut ⊢
  exact removeDeclarator_pair hsite hremoval hcut marked

private theorem closedUp_lines (bytes columns : Nat) (outer front back scope : List Token)
    (v a b : Token) :
    (outer ++ v :: (front ++ back.map (·.movedLeft bytes columns) ++ scope)).map Token.line ⊆
      (outer ++ v :: (front ++ a :: b :: (back ++ scope))).map Token.line := by
  have hback : (back.map (·.movedLeft bytes columns)).map Token.line = back.map Token.line := by
    rw [List.map_map]
    rfl
  intro l hl
  simp only [List.map_append, List.map_cons, hback, List.mem_append, List.mem_cons] at hl ⊢
  tauto

end Shared

/-- Removing the declarator of a class leaves what is told of the tokens before its wrapper: right
away, or once the line that is marked for it is gone. -/
theorem Undeclares.removeDeclarator {text : List Char} {column : Nat} {c : Constructor}
    {before kept after : List Token} {declared : Bool}
    (h : Undeclares column c.className before kept declared)
    (hplaced : TokenStream.Placed text (before ++ after))
    (hafter : ∀ u ∈ after.head?, ∀ t ∈ before, u.line ≠ t.line) (marked : MarkedLines) :
    ∃ (left : List Token) (line : Nat) (removed : Option Nat),
      ClassWrapper.removeDeclarator (before ++ after) marked column c before.zipIdx.reverse =
        .ok ⟨left ++ after, marked.mark line, removed⟩ ∧
      removed.isSome = declared ∧ before.length = left.length + removed.getD 0 ∧
      left.map Token.line ⊆ before.map Token.line ∧ (line = 0 ∨ line ∈ before.map Token.line) ∧
      left.filter (fun t => t.line != line) = kept := by
  have hunmarked : marked.mark 0 = marked := rfl
  -- No line is the zeroth, so marking it drops nothing.
  have hall : ∀ {left : List Token}, left.map Token.line ⊆ before.map Token.line →
      left.filter (fun t => t.line != 0) = left := by
    intro left hleft
    refine List.filter_eq_self.mpr fun t ht => ?_
    obtain ⟨u, hu, hline⟩ := List.mem_map.mp (hleft (List.mem_map_of_mem ht))
    have hpos := hplaced.line_pos (List.mem_append_left after hu)
    simp only [bne_iff_ne]
    omega
  cases h with
  | absent houter hcolumn hsilent =>
    rename_i outer scope
    refine ⟨outer ++ scope, 0, none, ?_, rfl, rfl, List.Subset.refl _, Or.inl rfl,
      hall (List.Subset.refl _)⟩
    rw [removeDeclarator_eq, declaratorSite?_absent houter hcolumn hsilent, hunmarked]
    intro u hu t ht
    exact hafter u hu t (List.mem_append_right _ ht)
  | sole hdeclares hsemicolon =>
    rename_i outer v n sign rest scope
    have hsite := declaratorSite?_found outer hdeclares
      (fun u hu t ht => hafter u hu t (List.mem_append_right _ (by simpa using ht)))
    have hremoval := removalAt?_eq outer v [] n (rest ++ scope ++ after) hdeclares.isSign
    rw [if_pos ⟨rfl, hsemicolon⟩] at hremoval
    simp only [List.nil_append, List.cons_append, List.append_assoc] at hsite hremoval ⊢
    refine ⟨_, v.line, some 0, ?_, rfl, rfl, List.Subset.refl _, Or.inr (by simp), rfl⟩
    rw [List.append_assoc, List.cons_append, List.cons_append, List.cons_append, List.append_assoc]
    exact removeDeclarator_line hsite hremoval marked
  | afterComma hdeclares hcomma happart =>
    refine ⟨_, 0, some 2, hdeclares.removeDeclarator_afterComma hcomma happart hplaced hafter marked,
      rfl, ?_, ?_, Or.inl rfl, hall ?_⟩
    · simp
      omega
    · exact closedUp_lines _ _ _ _ (_ :: _) _ _ _ _
    · exact closedUp_lines _ _ _ _ (_ :: _) _ _ _ _
  | beforeSign hdeclares hshared hfirst happart =>
    refine ⟨_, 0, some 2,
      hdeclares.removeDeclarator_beforeSign hshared hfirst happart hplaced hafter marked,
      rfl, ?_, ?_, Or.inl rfl, hall ?_⟩
    · simp
      omega
    · exact closedUp_lines _ _ _ _ _ _ _ _ _
    · exact closedUp_lines _ _ _ _ _ _ _ _ _

end ClosureReady.ClassWrapper
