import ClosureReady.Source

/-!
The numbers of tokens.  Reading a source numbers its code tokens and then its comments from zero on,
and merging them into one stream only changes their order; so no two tokens of a stream have the same
number.
-/

set_option autoImplicit false
set_option relaxedAutoImplicit false

namespace ClosureReady

private theorem scanFrom_ids {index : LineIndex} {literals : List Literal} {comments : List Span}
    {id offset covered : Nat} {text : List Char} {tokens : List Token}
    (h : scanFrom index literals comments id offset covered text = some tokens) :
    tokens.map Token.id = List.range' id tokens.length := by
  induction text generalizing literals comments id offset covered tokens with
  | nil =>
    simp only [scanFrom, Option.some.injEq] at h
    simp [← h]
  | cons c rest ih =>
    cases covered with
    | succ covered => exact ih h
    | zero =>
      unfold scanFrom at h
      dsimp only at h
      split at h
      · simp at h
      · exact ih h
      · obtain ⟨later, hlater, rfl⟩ := Option.map_eq_some_iff.mp h
        simp only [List.map_cons, List.length_cons, List.range'_succ, ih hlater]
        rfl

private theorem commentTokens_ids {index : LineIndex} {text : List Char} {id : Nat}
    {spans : List Span} {tokens : List Token}
    (h : commentTokens index text id spans = some tokens) :
    tokens.map Token.id = List.range' id tokens.length := by
  induction spans generalizing id tokens with
  | nil =>
    simp only [commentTokens, Option.some.injEq] at h
    simp [← h]
  | cons span spans ih =>
    unfold commentTokens at h
    split at h
    · rename_i token later htoken hlater
      obtain rfl := Option.some.inj h
      obtain ⟨full, -, rfl⟩ := Option.map_eq_some_iff.mp htoken
      simp only [List.map_cons, List.length_cons, List.range'_succ, ih hlater]
    · simp at h

theorem splitSource_ids {index : LineIndex} {literals : List Literal} {spans : List Span}
    {text : List Char} {tokens comments : List Token}
    (h : splitSource index literals spans text = some (tokens, comments)) :
    (tokens ++ comments).map Token.id = List.range (tokens.length + comments.length) := by
  unfold splitSource at h
  split at h
  · simp at h
  · rename_i code hcode
    obtain ⟨notes, hnotes, hpair⟩ := Option.map_eq_some_iff.mp h
    obtain ⟨rfl, rfl⟩ := Prod.mk.inj hpair
    rw [List.map_append, scanFrom_ids hcode, commentTokens_ids hnotes, List.range_eq_range']
    simpa using @List.range'_append_1 0 code.length notes.length

namespace TokenStream

theorem insertByStart_perm (t : Token) (ts : List Token) : (insertByStart t ts).Perm (t :: ts) := by
  induction ts with
  | nil => rfl
  | cons u us ih =>
    unfold insertByStart
    split
    · rfl
    · exact (ih.cons u).trans (List.Perm.swap t u us)

theorem prepare_perm (code comments : List Token) : (prepare code comments).Perm (code ++ comments) := by
  unfold prepare
  induction code ++ comments with
  | nil => rfl
  | cons t ts ih => exact (insertByStart_perm t _).trans (ih.cons t)

end TokenStream

namespace ParsedSource

/-- A source that can be read has an outline, whose literals and comments its text is split by. -/
theorem parse_ok {mode : Grammar.Mode} {source : String} {p : ParsedSource}
    (h : parse mode source = .ok p) :
    ∃ outline, Grammar.outline? mode source.toList = some outline ∧
      splitSource (LineIndex.ofChars source.toList)
        (Builder.empty.run (LineIndex.ofChars source.toList) outline.tree.events).literalList
        outline.comments source.toList = some (p.tokens, p.comments) := by
  unfold parse at h
  dsimp only at h
  split at h
  · simp at h
  · rename_i outline houtline
    refine ⟨outline, houtline, ?_⟩
    split at h
    · simp at h
    · split at h
      · simp at h
      · rename_i tokens comments hsplit
        obtain rfl := Except.ok.inj h
        exact hsplit

theorem stream_ids_nodup {mode : Grammar.Mode} {source : String} {p : ParsedSource}
    (h : parse mode source = .ok p) : (p.stream.map Token.id).Nodup := by
  obtain ⟨outline, -, hsplit⟩ := parse_ok h
  have hperm := (TokenStream.prepare_perm p.tokens p.comments).map Token.id
  rw [splitSource_ids hsplit] at hperm
  exact hperm.symm.nodup List.nodup_range

end ParsedSource

end ClosureReady
