import ClosureReady.Proofs.SourceTiling
import ClosureReady.Proofs.TextTiling
import ClosureReady.Proofs.WrapperSearch

/-!
What the paths of a wrapper read as.  Both are joined from the texts of tokens, the target from all that
are assigned to and the parent from the names and dots on the closing line.  Joined tokens are read back
as they are exactly when each of them stands in front of the text of the rest as a lexeme; those of a
member path do.  So the parent is read back exactly when its path is one of names on the closing line.
-/

set_option autoImplicit false
set_option relaxedAutoImplicit false

namespace ClosureReady

open ClassWrapper

/-! ### Joined tokens -/

/-- The text of some tokens without anything in between. -/
def joinedText (ts : List Token) : List Char := (joinValues ts).toList

@[simp] theorem joinedText_nil : joinedText [] = [] := rfl

@[simp] theorem joinedText_cons (t : Token) (ts : List Token) :
    joinedText (t :: ts) = t.value.toList ++ joinedText ts := by
  rw [joinedText, joinValues, List.foldr_cons, String.toList_append]
  rfl

/-- Tokens that read the same join to the same text. -/
theorem joinedText_of_lexical {ts us : List Token}
    (h : ts.map Token.lexical = us.map Token.lexical) : joinedText ts = joinedText us := by
  induction ts generalizing us with
  | nil => rw [List.map_eq_nil_iff.mp h.symm]
  | cons t ts ih =>
    obtain ⟨u, us, rfl, hu, hus⟩ := List.map_eq_cons_iff.mp h.symm
    rw [joinedText_cons, joinedText_cons, ih hus.symm, (Prod.mk.inj hu).2]

/-- The literals among some tokens, by their places in the joined text. -/
def literalsFrom (offset : Nat) : List Token → List Literal
  | [] => []
  | t :: ts =>
    let stop := offset + Text.byteLength t.value.toList
    if t.kind.isLiteral && t.value != "" then ⟨⟨offset, stop⟩, t.kind⟩ :: literalsFrom stop ts
    else literalsFrom stop ts

/-- What a text is read as, where its literals are known. -/
def reread (literals : List Literal) (text : List Char) : Option (List (TokenKind × String)) :=
  (scan (.ofChars text) literals [] text).map fun tokens => tokens.map Token.lexical

/-- Whether a token is found again in front of a text: a literal that is not empty, or a lexeme of its
class. -/
def Token.Stands (t : Token) (rest : List Char) : Prop :=
  if t.kind.isLiteral then t.value ≠ "" else Lexeme t.kind t.value.toList rest

/-- Whether each of some tokens is found again in front of the joined text of those after it. -/
def Rereads : List Token → Prop
  | [] => True
  | t :: ts => t.Stands (joinedText ts) ∧ Rereads ts

theorem Token.Stands.value_ne {t : Token} {rest : List Char} (h : t.Stands rest) :
    t.value.toList ≠ [] := by
  unfold Stands at h
  split at h
  · simpa using h
  · exact h.ne_nil

theorem literalsFrom_cons_of_not {t : Token} (h : t.kind.isLiteral = false) (offset : Nat)
    (ts : List Token) :
    literalsFrom offset (t :: ts) = literalsFrom (offset + Text.byteLength t.value.toList) ts := by
  rw [literalsFrom, h, Bool.false_and]
  rfl

theorem mem_literalsFrom_cons_iff {offset : Nat} {t : Token} {ts : List Token} {l : Literal} :
    l ∈ literalsFrom offset (t :: ts) ↔
      (t.kind.isLiteral = true ∧ t.value ≠ "" ∧
        l = ⟨⟨offset, offset + Text.byteLength t.value.toList⟩, t.kind⟩) ∨
      l ∈ literalsFrom (offset + Text.byteLength t.value.toList) ts := by
  rw [literalsFrom]
  split
  · rename_i hliteral
    simp only [Bool.and_eq_true, bne_iff_ne] at hliteral
    simp [hliteral]
  · rename_i hliteral
    simp only [Bool.and_eq_true, bne_iff_ne] at hliteral
    simp only [← and_assoc, hliteral, false_and, false_or]

theorem literalsFrom_start {offset : Nat} {ts : List Token} {l : Literal}
    (h : l ∈ literalsFrom offset ts) : offset ≤ l.span.start := by
  induction ts generalizing offset with
  | nil => simp [literalsFrom] at h
  | cons t ts ih =>
    rcases mem_literalsFrom_cons_iff.mp h with ⟨-, -, rfl⟩ | h
    · exact le_rfl
    · exact (Nat.le_add_right _ _).trans (ih h)

theorem literalsFrom_kind {offset : Nat} {ts : List Token} {l : Literal}
    (h : l ∈ literalsFrom offset ts) : l.kind.isLiteral = true := by
  induction ts generalizing offset with
  | nil => simp [literalsFrom] at h
  | cons t ts ih =>
    rcases mem_literalsFrom_cons_iff.mp h with ⟨hliteral, -, rfl⟩ | h
    · exact hliteral
    · exact ih h

/-- The literals of joined tokens lie in their text. -/
theorem literalsFrom_fitsIn (passed : List Char) {ts : List Token} {l : Literal}
    (h : l ∈ literalsFrom (Text.byteLength passed) ts) :
    l.span.FitsIn (passed ++ joinedText ts) ∧ l.span.start < l.span.stop := by
  induction ts generalizing passed with
  | nil => simp [literalsFrom] at h
  | cons t ts ih =>
    rcases mem_literalsFrom_cons_iff.mp h with ⟨-, hvalue, rfl⟩ | h
    · have hpos := Text.byteLength_pos (show t.value.toList ≠ [] by simpa using hvalue)
      refine ⟨⟨⟨passed, _, rfl, rfl⟩, ⟨passed ++ t.value.toList, joinedText ts, ?_, ?_⟩, ?_⟩, ?_⟩
      · simp
      · exact Text.byteLength_append _ _
      · exact Nat.le_add_right _ _
      · show Text.byteLength passed < Text.byteLength passed + Text.byteLength t.value.toList
        omega
    · rw [← Text.byteLength_append] at h
      have hfits := ih (passed ++ t.value.toList) h
      rwa [List.append_assoc, ← joinedText_cons] at hfits

theorem literalsFrom_ordered (offset : Nat) (ts : List Token) :
    (literalsFrom offset ts).Pairwise fun l m => l.span.start ≤ m.span.start := by
  induction ts generalizing offset with
  | nil => exact .nil
  | cons t ts ih =>
    unfold literalsFrom
    dsimp only
    split
    · refine List.pairwise_cons.mpr ⟨fun m hm => ?_, ih _⟩
      exact (Nat.le_add_right _ _).trans (literalsFrom_start hm)
    · exact ih _

theorem orderLiterals_of_ordered {ls : List Literal}
    (h : ls.Pairwise fun l m => l.span.start ≤ m.span.start) : orderLiterals ls = ls := by
  induction ls with
  | nil => rfl
  | cons l ls ih =>
    obtain ⟨hl, hls⟩ := List.pairwise_cons.mp h
    show insertLiteral l (orderLiterals ls) = l :: ls
    rw [ih hls]
    cases ls with
    | nil => rfl
    | cons m ms => rw [insertLiteral, if_pos (hl m List.mem_cons_self)]

/-- At the start of joined tokens all their literals are still to come. -/
theorem literalsAt_literalsFrom {offset offset' : Nat} {ts : List Token} (h : offset ≤ offset') :
    literalsAt (literalsFrom offset' ts) offset = literalsFrom offset' ts := by
  rw [literalsAt, List.dropWhile_eq_self_iff]
  intro hne
  have := literalsFrom_start (List.getElem_mem hne)
  simp
  omega

/-- After a token its literal is passed. -/
theorem literalsAt_literalsFrom_cons (offset : Nat) {t : Token} {ts : List Token}
    (h : t.value.toList ≠ []) :
    literalsAt (literalsFrom offset (t :: ts)) (offset + Text.byteLength t.value.toList) =
      literalsFrom (offset + Text.byteLength t.value.toList) ts := by
  have hpos := Text.byteLength_pos h
  rw [literalsFrom]
  split
  · rw [literalsAt, List.dropWhile_cons_of_pos (by simp; omega)]
    exact literalsAt_literalsFrom le_rfl
  · exact literalsAt_literalsFrom le_rfl

/-! ### Reading joined tokens -/

/-- The piece in front of joined tokens is the first of them. -/
theorem pieceAt_joined (offset : Nat) {t : Token} {ts : List Token} {c : Char} {cs : List Char}
    (hvalue : t.value.toList = c :: cs) (h : t.Stands (joinedText ts)) :
    pieceAt (literalsFrom offset (t :: ts)).head? none offset c (cs ++ joinedText ts) =
      some (.token t.kind (c :: cs)) := by
  unfold Token.Stands at h
  split at h
  · rename_i hliteral
    have hhead : (literalsFrom offset (t :: ts)).head? =
        some ⟨⟨offset, offset + Text.byteLength (c :: cs)⟩, t.kind⟩ := by
      rw [literalsFrom]
      simp [hliteral, h, hvalue]
    rw [hhead]
    simp only [pieceAt, Option.filter_some, beq_self_eq_true, if_true, Nat.add_sub_cancel_left]
    rw [← List.cons_append, Text.takeBytes_append, Option.map_some]
  · rename_i hliteral
    rw [hvalue] at h
    have hpos : 0 < Text.byteLength t.value.toList := by
      rw [hvalue]
      exact Text.byteLength_pos (List.cons_ne_nil c cs)
    have hnone : (literalsFrom offset (t :: ts)).head?.filter (·.span.start == offset) = none := by
      rw [literalsFrom_cons_of_not (by simpa using hliteral), Option.filter_eq_none_iff]
      intro l hl
      have := literalsFrom_start (List.mem_of_mem_head? hl)
      simp
      omega
    simp only [pieceAt, hnone, Option.filter_none, h.isSeparator_eq_false, Bool.false_eq_true, if_false,
      h.leadingToken_eq]

/-- Joined tokens that stand are read one by one. -/
theorem scanFrom_joined (index : LineIndex) (id : Nat) {literals : List Literal} {offset : Nat}
    {ts : List Token} (hliterals : literalsAt literals offset = literalsFrom offset ts)
    (h : Rereads ts) :
    ∃ us, scanFrom index literals [] id offset 0 (joinedText ts) = some us ∧
      us.map Token.lexical = ts.map Token.lexical := by
  induction ts generalizing literals id offset with
  | nil => exact ⟨[], by rw [joinedText_nil, scanFrom], rfl⟩
  | cons t ts ih =>
    obtain ⟨hstands, hrest⟩ := h
    obtain ⟨c, cs, hvalue⟩ := List.exists_cons_of_ne_nil hstands.value_ne
    have hpiece := pieceAt_joined offset hvalue hstands
    rw [← hliterals] at hpiece
    obtain ⟨us, hus, hsame⟩ :=
      ih (id + 1) (literalsAt_literalsFrom_cons offset hstands.value_ne) hrest
    refine ⟨placeToken index id t.kind (c :: cs) offset :: us, ?_, ?_⟩
    · rw [joinedText_cons, hvalue, scanFrom_token hpiece, hliterals, ← hvalue]
      show (scanFrom index _ [] _ _ _ _).map _ = _
      rw [hus]
      rfl
    · rw [List.map_cons, List.map_cons, hsame]
      congr 1
      simp [Token.lexical, placeToken, ← hvalue]

section Splits

variable {text passed rest : List Char} {literals : List Literal} {comments : List Span} {id : Nat}

/-- What is left of a split text starts with a gap and its first token. -/
theorem Splits.cons_inv {u : Token} {us : List Token}
    (h : Splits text literals comments id passed rest (u :: us)) :
    ∃ gap after, rest = gap ++ (u.value.toList ++ after) ∧ u.value.toList ≠ [] ∧
      Origin literals comments u.kind (Text.byteLength (passed ++ gap)) u.value.toList after ∧
      Splits text literals comments (id + 1) (passed ++ gap ++ u.value.toList) after us := by
  cases h with
  | @token _ _ gap lexeme after kind _ hgap hne horigin hrest =>
    have hvalue : (placeToken (.ofChars text) id kind lexeme
        (Text.byteLength (passed ++ gap))).value.toList = lexeme := String.toList_ofList
    rw [hvalue]
    exact ⟨gap, after, rfl, hne, horigin, hrest⟩

/-- The tokens of a text take up no more than the text. -/
theorem Splits.joinedText_length_le {us : List Token}
    (h : Splits text literals comments id passed rest us) :
    (joinedText us).length ≤ rest.length := by
  induction us generalizing id passed rest with
  | nil => exact Nat.zero_le _
  | cons u us ih =>
    obtain ⟨gap, after, rfl, -, -, hrest⟩ := h.cons_inv
    have hle := ih hrest
    simp only [joinedText_cons, List.length_append]
    omega

/-- Where a joined text is split into tokens that read the same, there is no gap, and each of them
stands. -/
theorem Splits.rereads (hkinds : ∀ l ∈ literals, l.kind.isLiteral = true) {ts us : List Token}
    (h : Splits text literals comments id passed (joinedText ts) us)
    (hsame : us.map Token.lexical = ts.map Token.lexical) : Rereads ts := by
  induction ts generalizing us id passed with
  | nil => trivial
  | cons t ts ih =>
    obtain ⟨u, us, rfl, hu, hus⟩ := List.map_eq_cons_iff.mp hsame
    obtain ⟨hkind, hvalue⟩ := Prod.mk.inj hu
    obtain ⟨gap, after, htext, hne, horigin, hrest⟩ := h.cons_inv
    have hjoined := joinedText_of_lexical hus
    -- The tokens take up all of the text, so nothing is left for the gap.
    have hle := hrest.joinedText_length_le
    have hlength := congrArg List.length htext
    rw [hjoined] at hle
    simp only [joinedText_cons, List.length_append, hvalue] at hlength
    obtain rfl : gap = [] := List.eq_nil_of_length_eq_zero (by omega)
    obtain rfl : joinedText ts = after := by
      rw [joinedText_cons, hvalue, List.nil_append] at htext
      exact List.append_cancel_left htext
    refine ⟨?_, ih hrest hus⟩
    unfold Token.Stands
    split
    · rename_i hliteral
      simpa [hvalue] using hne
    · rename_i hliteral
      rw [hkind, hvalue] at horigin
      cases horigin with
      | literal hmem => exact absurd (hkinds _ hmem) hliteral
      | lexeme _ _ hlexeme => exact hlexeme

end Splits

/-- Joined tokens are read as they are exactly when each of them stands in front of the rest. -/
theorem reread_joinedText_iff {ts : List Token} :
    reread (literalsFrom 0 ts) (joinedText ts) = some (ts.map Token.lexical) ↔ Rereads ts := by
  rw [reread, Option.map_eq_some_iff]
  constructor
  · rintro ⟨us, hus, hsame⟩
    obtain ⟨us', hscan, hsplits⟩ :
        ∃ us', scan (.ofChars (joinedText ts)) (literalsFrom 0 ts) [] (joinedText ts) = some us' ∧
          Splits (joinedText ts) (literalsFrom 0 ts) [] 0 [] (joinedText ts) us' :=
      scan_splits (fun l hl => literalsFrom_fitsIn [] hl) (by simp) .nil
    obtain rfl := Option.some.inj (hus.symm.trans hscan)
    exact hsplits.rereads (fun l hl => literalsFrom_kind hl) hsame
  · intro h
    have hliterals : literalsAt (literalsFrom 0 ts) 0 = literalsFrom 0 ts :=
      literalsAt_literalsFrom le_rfl
    obtain ⟨us, hus, hsame⟩ := scanFrom_joined (.ofChars (joinedText ts)) 0 hliterals h
    refine ⟨us, ?_, hsame⟩
    rw [scan, orderLiterals_of_ordered (literalsFrom_ordered 0 ts)]
    exact hus

/-! ### Member paths -/

/-- Whether a token is a word with the class of its text. -/
def Token.isWord (t : Token) : Bool :=
  match t.value.toList with
  | [] => false
  | c :: cs => Text.isWordStart c && cs.all Text.isWordPart && t.kind == classifyWord t.value

/-- Words with a dot in front of each. -/
def isMembers : List Token → Bool
  | [] => true
  | [_] => false
  | dot :: t :: rest => dot.isPunctuator "." && t.isWord && isMembers rest

/-- Words with a dot between two of them, or nothing. -/
def isPath : List Token → Bool
  | [] => true
  | t :: rest => t.isWord && isMembers rest

theorem classifyWord_isLiteral (word : String) : (classifyWord word).isLiteral = false := by
  unfold classifyWord
  split
  · rfl
  · split
    · rfl
    · split <;> rfl

namespace Token

variable {t : Token}

theorem isWord_eq_true_iff : t.isWord = true ↔ ∃ c cs, t.value.toList = c :: cs ∧
    Text.isWordStart c = true ∧ (∀ d ∈ cs, Text.isWordPart d = true) ∧
    t.kind = classifyWord t.value := by
  unfold isWord
  split
  · rename_i hnil
    simp [hnil]
  · rename_i c cs hvalue
    simp [hvalue, and_assoc]

/-- A word stands before what cannot continue it. -/
theorem stands_of_isWord (h : t.isWord = true) {rest : List Char}
    (hrest : ∀ d ∈ rest.head?, Text.isWordPart d = false) : t.Stands rest := by
  obtain ⟨c, cs, hvalue, hstart, hparts, hkind⟩ := isWord_eq_true_iff.mp h
  have hliteral : t.kind.isLiteral = false := by rw [hkind, classifyWord_isLiteral]
  have htext : String.ofList (c :: cs) = t.value := by rw [← hvalue, String.ofList_toList]
  rw [Stands, hliteral, if_neg (by simp), hvalue, hkind, ← htext]
  exact .word hstart hparts hrest

/-- A dot stands before a word. -/
theorem stands_of_dot (h : t.isPunctuator "." = true) {c : Char} {rest : List Char}
    (hc : Text.isWordStart c = true) : t.Stands (c :: rest) := by
  simp only [isPunctuator, Bool.and_eq_true, beq_iff_eq] at h
  have hdot : c ≠ '.' := by
    rintro rfl
    revert hc
    decide
  -- The one long punctuator that starts with a dot goes on with another one.
  have hdots : ∀ p ∈ longPunctuators, p.head? = some '.' → p.tail.head? = some '.' := by decide
  have hlong : ∀ p ∈ longPunctuators, p <+: '.' :: c :: rest → p.length ≤ ['.'].length := by
    rintro p hp ⟨after, hafter⟩
    rcases p with _ | ⟨a, _ | ⟨b, p⟩⟩
    · exact Nat.zero_le _
    · exact le_rfl
    · simp only [List.cons_append, List.cons.injEq] at hafter
      have hb := hdots _ hp (by simp [hafter.1])
      simp only [List.tail_cons, List.head?_cons, Option.some.injEq] at hb
      exact absurd (hafter.2.1.symm.trans hb) hdot
  rw [Stands, h.1, h.2]
  exact .sign (by decide) (by decide) (by decide) (Or.inl rfl) hlong

end Token

theorem isMembers_cons_iff {dot t : Token} {rest : List Token} :
    isMembers (dot :: t :: rest) = true ↔
      dot.isPunctuator "." = true ∧ t.isWord = true ∧ isMembers rest = true := by
  rw [isMembers, Bool.and_eq_true, Bool.and_eq_true, and_assoc]

/-- Nothing that starts members continues a word. -/
theorem isMembers_head {ts : List Token} (h : isMembers ts = true) :
    ∀ d ∈ (joinedText ts).head?, Text.isWordPart d = false := by
  match ts, h with
  | [], _ => simp
  | dot :: t :: rest, h =>
    obtain ⟨hdot, -⟩ := isMembers_cons_iff.mp h
    simp only [Token.isPunctuator, Bool.and_eq_true, beq_iff_eq] at hdot
    intro d hd
    rw [joinedText_cons, hdot.2] at hd
    obtain rfl : '.' = d := by simpa using hd
    decide

theorem rereads_of_isMembers {ts : List Token} (h : isMembers ts = true) : Rereads ts := by
  induction ts using isMembers.induct with
  | case1 => trivial
  | case2 t => simp [isMembers] at h
  | case3 dot t rest ih =>
    obtain ⟨hdot, ht, hrest⟩ := isMembers_cons_iff.mp h
    obtain ⟨c, cs, hvalue, hstart, -⟩ := Token.isWord_eq_true_iff.mp ht
    refine ⟨?_, Token.stands_of_isWord ht (isMembers_head hrest), ih hrest⟩
    rw [joinedText_cons, hvalue]
    exact Token.stands_of_dot hdot hstart

/-- A member path is read back. -/
theorem rereads_of_isPath {ts : List Token} (h : isPath ts = true) : Rereads ts := by
  cases ts with
  | nil => trivial
  | cons t ts =>
    obtain ⟨ht, hts⟩ := Bool.and_eq_true_iff.mp h
    exact ⟨Token.stands_of_isWord ht (isMembers_head hts), rereads_of_isMembers hts⟩

theorem Rereads.value_ne {ts : List Token} (h : Rereads ts) : ∀ t ∈ ts, t.value.toList ≠ [] := by
  induction ts with
  | nil => simp
  | cons t ts ih => exact List.forall_mem_cons.mpr ⟨h.1.value_ne, ih h.2⟩

theorem isLiteral_eq_false_of_isWord {t : Token} (h : t.isWord = true) : t.kind.isLiteral = false := by
  obtain ⟨c, cs, -, -, -, hkind⟩ := Token.isWord_eq_true_iff.mp h
  rw [hkind, classifyWord_isLiteral]

theorem literalsFrom_of_isMembers {ts : List Token} (h : isMembers ts = true) (offset : Nat) :
    literalsFrom offset ts = [] := by
  induction ts using isMembers.induct generalizing offset with
  | case1 => rfl
  | case2 t => simp [isMembers] at h
  | case3 dot t rest ih =>
    obtain ⟨hdot, ht, hrest⟩ := isMembers_cons_iff.mp h
    simp only [Token.isPunctuator, Bool.and_eq_true, beq_iff_eq] at hdot
    rw [literalsFrom_cons_of_not (by rw [hdot.1]; rfl),
      literalsFrom_cons_of_not (isLiteral_eq_false_of_isWord ht), ih hrest]

theorem literalsFrom_of_isPath {ts : List Token} (h : isPath ts = true) (offset : Nat) :
    literalsFrom offset ts = [] := by
  cases ts with
  | nil => rfl
  | cons t ts =>
    obtain ⟨ht, hts⟩ := Bool.and_eq_true_iff.mp h
    rw [literalsFrom_cons_of_not (isLiteral_eq_false_of_isWord ht), literalsFrom_of_isMembers hts]

/-! ### The parent -/

/-- Whether a token is taken into the path of the parent. -/
def namesParent (t : Token) : Bool := t.kind == .identifier || t.isPunctuator "."

/-- The closing line of a wrapper: it starts with `})(` at an index, `);` follows the argument up to
another one, and nothing after that on the line is a name or a dot. -/
structure Closes (s : TokenStream) (stop line k : Nat) : Prop where
  opens : (s.between stop (stop + 3)).map Token.lexical =
    [(.punctuator, "\x7d"), (.punctuator, ")"), (.punctuator, "(")]
  onLine : ∀ t ∈ s.between stop (stop + 3), t.line = line
  le : stop + 3 ≤ k
  ends : (s.between k (k + 2)).map Token.lexical = [(.punctuator, ")"), (.punctuator, ";")]
  after : ∀ t ∈ (s.drop k).takeWhile fun t => t.line == line, namesParent t = false

instance (s : TokenStream) (stop line k : Nat) : Decidable (Closes s stop line k) :=
  decidable_of_iff
    ((s.between stop (stop + 3)).map Token.lexical =
        [(.punctuator, "\x7d"), (.punctuator, ")"), (.punctuator, "(")] ∧
      (∀ t ∈ s.between stop (stop + 3), t.line = line) ∧ stop + 3 ≤ k ∧
      (s.between k (k + 2)).map Token.lexical = [(.punctuator, ")"), (.punctuator, ";")] ∧
      ∀ t ∈ (s.drop k).takeWhile fun t => t.line == line, namesParent t = false)
    ⟨fun ⟨h₁, h₂, h₃, h₄, h₅⟩ => ⟨h₁, h₂, h₃, h₄, h₅⟩,
      fun ⟨h₁, h₂, h₃, h₄, h₅⟩ => ⟨h₁, h₂, h₃, h₄, h₅⟩⟩

/-- The parent is joined from those tokens of the argument that are on the closing line and of the
kinds that are taken. -/
theorem Closes.parentPath_eq {s : TokenStream} {stop line k : Nat} (h : Closes s stop line k) :
    parentPath (s.drop stop) line =
      joinValues (((s.between (stop + 3) k).takeWhile fun t => t.line == line).filter namesParent) := by
  have hsplit : s.drop stop =
      s.between stop (stop + 3) ++ (s.between (stop + 3) k ++ s.drop k) := by
    rw [TokenStream.between_append_drop h.le, TokenStream.between_append_drop (Nat.le_add_right _ _)]
  have hopens : (s.between stop (stop + 3)).filter namesParent = [] := by
    have hsigns : ∀ x ∈ [(TokenKind.punctuator, "\x7d"), (.punctuator, ")"), (.punctuator, "(")],
        (x.1 == .identifier || (x.1 == .punctuator && x.2 == ".")) = false := by decide
    rw [List.filter_eq_nil_iff]
    intro t ht
    have hsign : namesParent t = false := hsigns t.lexical (h.opens ▸ List.mem_map_of_mem ht)
    simp [hsign]
  have hafter : ((s.drop k).takeWhile fun t => t.line == line).filter namesParent = [] := by
    simpa using h.after
  show joinValues (((s.drop stop).takeWhile fun t => t.line == line).filter namesParent) = _
  rw [hsplit, List.takeWhile_append_of_pos (by simpa using h.onLine), List.filter_append, hopens,
    List.nil_append, List.takeWhile_append]
  split
  · rename_i hall
    rw [List.filter_append, hafter, List.append_nil,
      (List.takeWhile_prefix _).eq_of_length hall]
  · rfl

/-- Of tokens that are not empty none can be left out of their text. -/
theorem eq_of_sublist_of_joinedText {ts us : List Token} (h : us.Sublist ts)
    (hne : ∀ t ∈ ts, t.value.toList ≠ []) (hle : (joinedText ts).length ≤ (joinedText us).length) :
    us = ts := by
  have hlength : ∀ {ts us : List Token}, us.Sublist ts →
      (joinedText us).length ≤ (joinedText ts).length := by
    intro ts us h
    induction h with
    | slnil => exact le_rfl
    | cons t _ ih =>
      rw [joinedText_cons, List.length_append]
      omega
    | cons_cons t _ ih =>
      rw [joinedText_cons, joinedText_cons, List.length_append, List.length_append]
      omega
  induction h with
  | slnil => rfl
  | cons t hsub ih =>
    have hpos := List.length_pos_iff.mpr (hne t List.mem_cons_self)
    have hless := hlength hsub
    rw [joinedText_cons, List.length_append] at hle
    omega
  | cons_cons t hsub ih =>
    rw [joinedText_cons, joinedText_cons, List.length_append, List.length_append] at hle
    rw [ih (fun u hu => hne u (List.mem_cons_of_mem t hu)) (by omega)]

/-- The parent is read as the argument is exactly when all of the argument is on the closing line and
consists of names and dots. -/
theorem Closes.reread_iff {s : TokenStream} {stop line k : Nat} (h : Closes s stop line k)
    (hpath : isPath (s.between (stop + 3) k) = true) :
    reread [] (parentPath (s.drop stop) line).toList =
        some ((s.between (stop + 3) k).map Token.lexical) ↔
      ∀ t ∈ s.between (stop + 3) k, t.line = line ∧ namesParent t = true := by
  rw [h.parentPath_eq]
  generalize s.between (stop + 3) k = argument at hpath ⊢
  have hrereads := rereads_of_isPath hpath
  have hkept : ((argument.takeWhile fun t => t.line == line).filter namesParent).Sublist argument :=
    List.filter_sublist.trans (List.takeWhile_sublist _)
  constructor
  · intro hread t ht
    obtain ⟨us, hus, hsame⟩ := Option.map_eq_some_iff.mp hread
    obtain ⟨us', hscan, hsplits⟩ : ∃ us', scan _ [] [] _ = some us' ∧ Splits _ [] [] 0 [] _ us' :=
      scan_splits (by simp) (by simp) .nil
    obtain rfl := Option.some.inj (hus.symm.trans hscan)
    have hle := hsplits.joinedText_length_le
    rw [joinedText_of_lexical hsame] at hle
    have hall := eq_of_sublist_of_joinedText hkept hrereads.value_ne hle
    rw [← hall] at ht
    obtain ⟨hmem, hnames⟩ := List.mem_filter.mp ht
    exact ⟨by simpa using List.mem_takeWhile_imp hmem, hnames⟩
  · intro hall
    have hsame : (argument.takeWhile fun t => t.line == line).filter namesParent = argument := by
      rw [List.takeWhile_eq_self_iff.mpr fun t ht => by simpa using (hall t ht).1]
      exact List.filter_eq_self.mpr fun t ht => (hall t ht).2
    rw [hsame, ← literalsFrom_of_isPath hpath 0]
    exact reread_joinedText_iff.mpr hrereads

/-- The text of the path and the name of a class is read as the tokens that are assigned to exactly when
each of these stands in front of the rest, which those of a member path do.  The text of the parent is
read as the argument of the wrapper, where that is a member path, exactly when all of the argument is on
the closing line and consists of names and dots: a `this` or a property with the name of a keyword is
lost. -/
theorem paths_reread_iff {s : TokenStream} {i : Nat} {c : Constructor} {w : Wrapper}
    (h : locate? s i c = some w) :
    (∃ target, assigned? (s.between w.start i) = some target ∧
      (reread (literalsFrom 0 target) (w.path ++ c.className).toList =
        some (target.map Token.lexical) ↔ Rereads target) ∧
      (isPath target = true → reread [] (w.path ++ c.className).toList =
        some (target.map Token.lexical))) ∧
    ∃ closing ∈ s[w.stop]?, ∀ k, Closes s w.stop closing.line k →
      isPath (s.between (w.stop + 3) k) = true →
      (reread [] w.parent.toList = some ((s.between (w.stop + 3) k).map Token.lexical) ↔
        ∀ t ∈ s.between (w.stop + 3) k, t.line = closing.line ∧
          (t.kind = .identifier ∨ t.isPunctuator "." = true)) := by
  obtain ⟨-, hpath, closing, hclosing, hparent⟩ := locate?_eq_some_iff.mp h
  obtain ⟨target, htarget, hjoined⟩ := Option.map_eq_some_iff.mp hpath
  refine ⟨⟨target, htarget, ?_, fun hword => ?_⟩, closing, hclosing, fun k hcloses hword => ?_⟩
  · rw [← hjoined]
    exact reread_joinedText_iff
  · rw [← hjoined, ← literalsFrom_of_isPath hword 0]
    exact reread_joinedText_iff.mpr (rereads_of_isPath hword)
  · rw [← hparent, hcloses.reread_iff hword]
    simp [namesParent]

/-- A class whose parent is a property of `this`. -/
theorem paths_reread_this :
    ∃ p, ParsedSource.parse .script "Foo = (function(_super) \x7b\n  __extends(Foo, _super);\n\n  function Foo() \x7b\x7d\n\n  return Foo;\n\n\x7d)(this.Bar);\n" = .ok p ∧
      ∃ c ∈ findConstructors p.stream, ∃ i w closing k, p.stream.indexOf? c.token = some i ∧
        locate? p.stream i c = some w ∧ closing ∈ p.stream[w.stop]? ∧
        Closes p.stream w.stop closing.line k ∧ isPath (p.stream.between (w.stop + 3) k) = true ∧
        reread [] w.parent.toList ≠ some ((p.stream.between (w.stop + 3) k).map Token.lexical) := by
  have hrun : ((ParsedSource.parse .script "Foo = (function(_super) \x7b\n  __extends(Foo, _super);\n\n  function Foo() \x7b\x7d\n\n  return Foo;\n\n\x7d)(this.Bar);\n").toOption.any
      fun p => (findConstructors p.stream).any fun c => (p.stream.indexOf? c.token).any fun i =>
        (locate? p.stream i c).any fun w => p.stream[w.stop]?.any fun closing =>
          decide (Closes p.stream w.stop closing.line (w.stop + 6) ∧
            isPath (p.stream.between (w.stop + 3) (w.stop + 6)) = true) &&
          (p.stream.between (w.stop + 3) (w.stop + 6)).any fun t =>
            t.kind != .identifier && !t.isPunctuator ".") = true := by
    decide +kernel
  obtain ⟨p, hp, hp'⟩ := (Option.any_eq_true _ _).mp hrun
  obtain ⟨c, hc, hc'⟩ := List.any_eq_true.mp hp'
  obtain ⟨i, hi, hi'⟩ := (Option.any_eq_true _ _).mp hc'
  obtain ⟨w, hw, hw'⟩ := (Option.any_eq_true _ _).mp hi'
  obtain ⟨closing, hclosing, hfacts⟩ := (Option.any_eq_true _ _).mp hw'
  obtain ⟨hfirst, hother⟩ := Bool.and_eq_true_iff.mp hfacts
  obtain ⟨hcloses, hpath⟩ := of_decide_eq_true hfirst
  obtain ⟨t, ht, hkeyword⟩ := List.any_eq_true.mp hother
  refine ⟨p, except_eq_ok_of_toOption hp, c, hc, i, w, closing, w.stop + 6, hi, hw, hclosing, hcloses,
    hpath, fun hread => ?_⟩
  obtain ⟨-, closing', hclosing', hiff⟩ := paths_reread_iff hw
  obtain rfl := Option.some.inj (hclosing.symm.trans hclosing')
  simp only [Bool.and_eq_true, bne_iff_ne, Bool.not_eq_true'] at hkeyword
  rcases ((hiff _ hcloses hpath).mp hread t ht).2 with hname | hdot
  · exact hkeyword.1 hname
  · simp [hdot] at hkeyword

end ClosureReady
