import ClosureReady.Proofs.ClassUnwrapping
import ClosureReady.Proofs.Edits

/-!
The body of a class outside of its wrapper.  Renaming and dedenting go through the body together, one
token after the other, and a line is dedented as a whole when its first token is reached; so after each
token the line that was reached is settled and the later ones are as they were.  In the end every token
has been renamed by what stands before it and moved left exactly once.
-/

set_option autoImplicit false
set_option relaxedAutoImplicit false

namespace ClosureReady.ClassWrapper

/-- The text of a token of the body of a class outside of the wrapper.  The name of the class gets the
path in front unless a dot stands before it, the parameter becomes the parent if there is one, and the
lines of a block comment lose their indentation. -/
def outsideText (path name parent : String) (dotted : Bool) (t : Token) : String :=
  match t.kind with
  | .blockComment => String.ofList (dedentComment t.value.toList)
  | .identifier =>
    if t.value = name ∧ dotted = false then path ++ name
    else if t.value = parentParameter ∧ parent ≠ "" then parent
    else t.value
  | _ => t.value

/-- A token of the body of a class as it reads outside of the wrapper. -/
def outside (path name parent : String) (dotted : Bool) (t : Token) : Token :=
  t.withValue (outsideText path name parent dotted t)

/-- The tokens of a body outside of the wrapper, where each line moves left by its own indentation.
`dotted` says that a dot stands before the first of them. -/
def lifted (path name parent : String) (indent : Nat → Nat) : (dotted : Bool) → List Token → List Token
  | _, [] => []
  | dotted, t :: ts =>
    (outside path name parent dotted t).movedLeft 0 (indent t.line) ::
      lifted path name parent indent (t.isPunctuator ".") ts

section Outside

variable {path name parent : String}

@[simp] theorem outside_line (dotted : Bool) (t : Token) :
    (outside path name parent dotted t).line = t.line := rfl

theorem outside_movedLeft (dotted : Bool) (bytes columns : Nat) (t : Token) :
    outside path name parent dotted (t.movedLeft bytes columns) =
      (outside path name parent dotted t).movedLeft bytes columns := rfl

theorem outside_hasRoom {bytes columns : Nat} {t : Token} (h : t.HasRoom bytes columns)
    (dotted : Bool) : (outside path name parent dotted t).HasRoom bytes columns :=
  ⟨h.start, h.stop, h.column, h.stopColumn⟩

@[simp] theorem outside_isDot (dotted : Bool) (t : Token) :
    (outside path name parent dotted t).isPunctuator "." = t.isPunctuator "." := by
  unfold Token.isPunctuator outside
  by_cases hkind : t.kind = .punctuator
  · simp [hkind, outsideText, Token.withValue]
  · have hnot : (t.kind == TokenKind.punctuator) = false := by simpa using hkind
    simp [hnot]

theorem lifted_append (indent : Nat → Nat) (dotted : Bool) (xs ys : List Token) :
    lifted path name parent indent dotted (xs ++ ys) =
      lifted path name parent indent dotted xs ++
        lifted path name parent indent
          ((xs.getLast?.map (·.isPunctuator ".")).getD dotted) ys := by
  induction xs generalizing dotted with
  | nil => rfl
  | cons t xs ih =>
    simp only [List.cons_append, lifted, ih]
    cases xs with
    | nil => rfl
    | cons u xs =>
      have hlast : (t :: u :: xs).getLast? = (u :: xs).getLast? := by simp [List.getLast?_cons_cons]
      obtain ⟨v, hv⟩ : ∃ v, (u :: xs).getLast? = some v := ⟨_, List.getLast?_cons⟩
      simp [hlast, hv]

theorem lifted_lines {indent : Nat → Nat} {dotted : Bool} {ts : List Token} :
    (lifted path name parent indent dotted ts).map Token.line = ts.map Token.line := by
  induction ts generalizing dotted with
  | nil => rfl
  | cons t ts ih => simp [lifted, ih]

theorem lifted_congr {indent indent' : Nat → Nat} {dotted : Bool} {ts : List Token}
    (h : ∀ t ∈ ts, indent t.line = indent' t.line) :
    lifted path name parent indent dotted ts = lifted path name parent indent' dotted ts := by
  induction ts generalizing dotted with
  | nil => rfl
  | cons t ts ih =>
    obtain ⟨ht, hts⟩ := List.forall_mem_cons.mp h
    simp only [lifted, ht, ih hts]

end Outside

/-- Adapting a token is reading it outside of the wrapper, as long as the full name of the class is not
mistaken for the parameter. -/
theorem adaptToken_eq {w : Wrapper} {c : Constructor}
    (hname : w.path ++ c.className ≠ parentParameter) (previous t : Token) :
    adaptToken w c previous t =
      outside w.path c.className w.parent (previous.isPunctuator ".") t := by
  have hself : t.withValue t.value = t := rfl
  unfold adaptToken outside outsideText
  by_cases hident : t.kind = .identifier
  · by_cases hclass : t.value = c.className ∧ previous.isPunctuator "." = false
    · -- What comes out is not the parameter, whether or not there is a path.
      by_cases hpath : w.path = ""
      · have hfull : w.path ++ c.className = t.value := by
          rw [hpath, String.empty_append, hclass.1]
        grind [Token.isIdentifier, Token.withValue]
      · grind [Token.isIdentifier, Token.withValue]
    · grind [Token.isIdentifier, Token.withValue]
  · grind [Token.isIdentifier, Token.withValue]

/-- Each line of some tokens starts where dedenting it moves it by its indentation.  The given line is
under way. -/
def LineStarts (indent : Nat → Nat) : (line : Option Nat) → List Token → Prop
  | _, [] => True
  | line, t :: ts =>
    (line = some t.line ∨ min t.column indentUnit = indent t.line) ∧
      LineStarts indent (some t.line) ts

theorem lineStarts_of_le {indent : Nat → Nat} {line : Option Nat} {ts : List Token}
    (h : ∀ t ∈ ts, indentUnit ≤ t.column ∧ indent t.line = indentUnit) :
    LineStarts indent line ts := by
  induction ts generalizing line with
  | nil => exact trivial
  | cons t ts ih =>
    obtain ⟨⟨hcolumn, hindent⟩, hts⟩ := List.forall_mem_cons.mp h
    refine ⟨Or.inr ?_, ih hts⟩
    rw [hindent, Nat.min_eq_right hcolumn]

theorem lineStarts_of_line {indent : Nat → Nat} {l : Nat} {ts rest : List Token}
    (h : ∀ t ∈ ts, t.line = l) (hrest : LineStarts indent (some l) rest) :
    LineStarts indent (some l) (ts ++ rest) := by
  induction ts with
  | nil => exact hrest
  | cons t ts ih =>
    obtain ⟨ht, hts⟩ := List.forall_mem_cons.mp h
    refine ⟨Or.inl (by rw [ht]), ?_⟩
    rw [ht]
    exact ih hts

/-- Tokens of which those at the front that are on the given line have been moved. -/
def settled (indent : Nat → Nat) : (line : Option Nat) → List Token → List Token
  | none, ts => ts
  | some l, ts =>
    (ts.takeWhile fun t => t.line == l).map (·.movedLeft 0 (indent l)) ++
      ts.dropWhile fun t => t.line == l

theorem settled_of_line_eq {indent : Nat → Nat} {t : Token} {ts : List Token} :
    settled indent (some t.line) (t :: ts) =
      t.movedLeft 0 (indent t.line) :: settled indent (some t.line) ts := by
  simp [settled]

theorem settled_of_line_ne {indent : Nat → Nat} {line : Option Nat} {t : Token} {ts : List Token}
    (h : line ≠ some t.line) : settled indent line (t :: ts) = t :: ts := by
  cases line with
  | none => rfl
  | some l =>
    have hline : (t.line == l) = false := by
      refine beq_eq_false_iff_ne.mpr fun heq => h ?_
      rw [heq]
    simp [settled, hline]

theorem dedentLine?_settled {indent : Nat → Nat} (t : Token) {ts : List Token} (after : List Token)
    (hindent : min t.column indentUnit = indent t.line) (ht : t.HasRoom 0 (indent t.line))
    (hts : ∀ u ∈ ts, u.HasRoom 0 (indent u.line)) (hafter : ∀ u ∈ after.head?, u.line ≠ t.line) :
    TokenStream.dedentLine? (t :: (ts ++ after)) 0 indentUnit =
      some (t.movedLeft 0 (indent t.line) :: (settled indent (some t.line) ts ++ after)) := by
  have hcut : ∀ u ∈ after.head?, (u.line == t.line) = false := by
    intro u hu
    simpa using hafter u hu
  have hroom : ∀ u ∈ t :: (ts ++ after).takeWhile fun u => u.line == t.line,
      u.HasRoom 0 (min t.column indentUnit) := by
    rw [takeWhile_append_of_head? hcut, hindent]
    intro u hu
    rcases List.mem_cons.mp hu with rfl | hu
    · exact ht
    · have hline : u.line = t.line := by simpa using List.mem_takeWhile_imp hu
      rw [← hline]
      exact hts u ((List.takeWhile_sublist _).mem hu)
  rw [TokenStream.dedentLine?_cons hroom, hindent, takeWhile_append_of_head? hcut,
    dropWhile_append_of_head? hcut]
  simp [settled]

/-- Going through tokens whose lines can all be dedented renames each and moves it left once; what
follows on other lines stays. -/
theorem adaptBody_eq {w : Wrapper} {c : Constructor}
    (hname : w.path ++ c.className ≠ parentParameter) {indent : Nat → Nat} {line : Option Nat}
    {body after : List Token} (previous : Token)
    (hroom : ∀ t ∈ body, t.HasRoom 0 (indent t.line)) (hstarts : LineStarts indent line body)
    (hafter : ∀ u ∈ after.head?, ∀ t ∈ body, u.line ≠ t.line) :
    adaptBody w c body.length previous line (settled indent line body ++ after) =
      some (lifted w.path c.className w.parent indent (previous.isPunctuator ".") body ++ after) := by
  induction body generalizing previous line with
  | nil => cases line <;> simp [adaptBody, settled, lifted]
  | cons t ts ih =>
    obtain ⟨ht, hts⟩ := List.forall_mem_cons.mp hroom
    obtain ⟨hstart, hlater⟩ := hstarts
    have hcarry := ih
      ((outside w.path c.className w.parent (previous.isPunctuator ".") t).movedLeft 0
        (indent t.line)) hts hlater (fun u hu v hv => hafter u hu v (List.mem_cons_of_mem t hv))
    rw [Token.movedLeft_isPunctuator, outside_isDot] at hcarry
    unfold adaptBody
    simp only [List.length_cons]
    by_cases hline : line = some t.line
    · -- The line is under way, so the token has been moved.
      rw [hline, settled_of_line_eq]
      simp only [List.cons_append, adaptToken_eq hname, outside_movedLeft, Token.movedLeft_line,
        outside_line, if_true, hcarry, Option.map_some, lifted]
    · -- The first token of a line takes the rest of it along.
      have hdedent := dedentLine?_settled
        (outside w.path c.className w.parent (previous.isPunctuator ".") t) after
        (hstart.resolve_left hline) (outside_hasRoom ht _) hts (fun u hu => hafter u hu t List.mem_cons_self)
      rw [settled_of_line_ne hline]
      simp only [outside_line] at hdedent
      simp only [List.cons_append, adaptToken_eq hname, outside_line, hline, if_false, hdedent,
        Token.movedLeft_line, hcarry, Option.map_some, lifted]

end ClosureReady.ClassWrapper
