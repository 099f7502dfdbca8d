import ClosureReady.Token.Stream
import Mathlib.Data.List.Nodup

/-!
Brackets in a stream.  Reading tokens keeps a stack of the brackets that are open, innermost first, and
fails where a closing one has no partner.  What is balanced leaves the stack as it was, and the other way
round, as long as no token stands in the stream twice.  For braces alone, being balanced is a matter of
counting: no front of the tokens closes more than it opens, and all of them together close as many.
-/

set_option autoImplicit false
set_option relaxedAutoImplicit false

namespace ClosureReady

/-- The braces, as an opening and a closing text. -/
def bracePairs : List (String × String) := [("\x7b", "\x7d")]

/-- All brackets. -/
def bracketPairs : List (String × String) := [("(", ")"), ("[", "]"), ("\x7b", "\x7d")]

namespace Token

/-- Whether the token opens one of the given pairs. -/
def opens (pairs : List (String × String)) (t : Token) : Bool := pairs.any fun b => t.isPunctuator b.1

def closes (pairs : List (String × String)) (t : Token) : Bool := pairs.any fun b => t.isPunctuator b.2

/-- Whether one of the given pairs is opened by a token and closed by another. -/
def partners (pairs : List (String × String)) (opening closing : Token) : Bool :=
  pairs.any fun b => opening.isPunctuator b.1 && closing.isPunctuator b.2

end Token

namespace TokenStream

variable {pairs : List (String × String)}

/-- The open brackets after one more token. -/
def openNext (pairs : List (String × String)) (stack : List Token) (t : Token) :
    Option (List Token) :=
  if t.opens pairs then some (t :: stack)
  else if t.closes pairs then
    match stack with
    | [] => none
    | opening :: rest => if Token.partners pairs opening t then some rest else none
  else some stack

/-- The open brackets after some tokens, given those before. -/
def openAfter (pairs : List (String × String)) : List Token → List Token → Option (List Token)
  | stack, [] => some stack
  | stack, t :: ts => (openNext pairs stack t).bind fun stack => openAfter pairs stack ts

/-- Tokens in which every bracket has its partner. -/
def Balanced (pairs : List (String × String)) (ts : List Token) : Prop :=
  openAfter pairs [] ts = some []

instance (pairs : List (String × String)) (ts : List Token) : Decidable (Balanced pairs ts) :=
  inferInstanceAs (Decidable (openAfter pairs [] ts = some []))

/-- What one token does: it opens a bracket, closes the innermost one, or leaves the stack alone. -/
theorem openNext_eq_some_iff {stack next : List Token} {t : Token} :
    openNext pairs stack t = some next ↔
      t.opens pairs = true ∧ next = t :: stack ∨
      t.opens pairs = false ∧ t.closes pairs = true ∧
        (∃ opening, stack = opening :: next ∧ Token.partners pairs opening t = true) ∨
      t.opens pairs = false ∧ t.closes pairs = false ∧ next = stack := by
  unfold openNext
  cases hopens : t.opens pairs with
  | true => simpa using eq_comm
  | false =>
    cases hcloses : t.closes pairs with
    | false => simpa using eq_comm
    | true =>
      cases stack with
      | nil => simp
      | cons opening rest =>
        by_cases hpartners : Token.partners pairs opening t = true
        · simp [hpartners]
        · simp [hpartners]

theorem openNext_frame {stack next : List Token} {t : Token} (h : openNext pairs stack t = some next)
    (outer : List Token) : openNext pairs (stack ++ outer) t = some (next ++ outer) := by
  refine openNext_eq_some_iff.mpr ?_
  rcases openNext_eq_some_iff.mp h with ⟨hopens, rfl⟩ | ⟨hopens, hcloses, opening, rfl, hpartners⟩ |
    ⟨hopens, hcloses, rfl⟩
  · exact Or.inl ⟨hopens, rfl⟩
  · exact Or.inr (Or.inl ⟨hopens, hcloses, opening, rfl, hpartners⟩)
  · exact Or.inr (Or.inr ⟨hopens, hcloses, rfl⟩)

/-- What is open further out does not matter. -/
theorem openAfter_frame {stack out ts : List Token} (h : openAfter pairs stack ts = some out)
    (outer : List Token) : openAfter pairs (stack ++ outer) ts = some (out ++ outer) := by
  induction ts generalizing stack with
  | nil =>
    rw [← Option.some.inj h]
    rfl
  | cons t ts ih =>
    obtain ⟨next, hnext, hrest⟩ := Option.bind_eq_some_iff.mp h
    rw [openAfter, openNext_frame hnext outer, Option.bind_some]
    exact ih hrest

theorem openAfter_append (stack ts us : List Token) :
    openAfter pairs stack (ts ++ us) =
      (openAfter pairs stack ts).bind fun stack => openAfter pairs stack us := by
  induction ts generalizing stack with
  | nil => rfl
  | cons t ts ih =>
    rw [List.cons_append, openAfter, openAfter, Option.bind_assoc]
    congr 1
    funext next
    exact ih next

theorem mem_openNext {stack next : List Token} {t u : Token} (h : openNext pairs stack t = some next)
    (hu : u ∈ next) : u ∈ stack ∨ u = t := by
  rcases openNext_eq_some_iff.mp h with ⟨-, rfl⟩ | ⟨-, -, opening, rfl, -⟩ | ⟨-, -, rfl⟩
  · exact (List.mem_cons.mp hu).symm
  · exact Or.inl (List.mem_cons_of_mem opening hu)
  · exact Or.inl hu

/-- A bracket that is open was so before, or it is one of the tokens. -/
theorem mem_openAfter {stack out ts : List Token} (h : openAfter pairs stack ts = some out) {u : Token}
    (hu : u ∈ out) : u ∈ stack ∨ u ∈ ts := by
  induction ts generalizing stack with
  | nil =>
    rw [← Option.some.inj h] at hu
    exact Or.inl hu
  | cons t ts ih =>
    obtain ⟨next, hnext, hrest⟩ := Option.bind_eq_some_iff.mp h
    rcases ih hrest with hu | hu
    · rcases mem_openNext hnext hu with hu | rfl
      · exact Or.inl hu
      · exact Or.inr List.mem_cons_self
    · exact Or.inr (List.mem_cons_of_mem t hu)

namespace Balanced

variable {ts us : List Token}

theorem openAfter_eq (h : Balanced pairs ts) (stack : List Token) :
    openAfter pairs stack ts = some stack := by
  simpa using openAfter_frame h stack

theorem openAfter_append (h : Balanced pairs ts) (stack us : List Token) :
    openAfter pairs stack (ts ++ us) = openAfter pairs stack us := by
  rw [TokenStream.openAfter_append, h.openAfter_eq, Option.bind_some]

theorem append (h : Balanced pairs ts) (h' : Balanced pairs us) : Balanced pairs (ts ++ us) := by
  rw [Balanced, h.openAfter_append]
  exact h'

/-- A pair of brackets around what is balanced. -/
theorem enclosed {opening closing : Token} (h : Balanced pairs ts)
    (hopens : opening.opens pairs = true) (hcloses : closing.closes pairs = true)
    (hnot : closing.opens pairs = false) (hpartners : Token.partners pairs opening closing = true) :
    Balanced pairs (opening :: (ts ++ [closing])) := by
  have hfirst : openNext pairs [] opening = some [opening] :=
    openNext_eq_some_iff.mpr (Or.inl ⟨hopens, rfl⟩)
  have hlast : openNext pairs [opening] closing = some [] :=
    openNext_eq_some_iff.mpr (Or.inr (Or.inl ⟨hnot, hcloses, opening, rfl, hpartners⟩))
  rw [Balanced, openAfter, hfirst, Option.bind_some, h.openAfter_append, openAfter, hlast]
  rfl

end Balanced

theorem balanced_singleton {t : Token} (hopens : t.opens pairs = false)
    (hcloses : t.closes pairs = false) : Balanced pairs [t] := by
  have hkept : openNext pairs [] t = some [] :=
    openNext_eq_some_iff.mpr (Or.inr (Or.inr ⟨hopens, hcloses, rfl⟩))
  rw [Balanced, openAfter, hkept]
  rfl

theorem balanced_of_kind {ts : List Token} (h : ∀ t ∈ ts, t.kind ≠ .punctuator) :
    Balanced pairs ts := by
  induction ts with
  | nil => rfl
  | cons t ts ih =>
    obtain ⟨ht, hts⟩ := List.forall_mem_cons.mp h
    have hnone : ∀ text, t.isPunctuator text = false := by
      intro text
      simp [Token.isPunctuator, ht]
    have hsingle : Balanced pairs [t] :=
      balanced_singleton (by simp [Token.opens, hnone]) (by simp [Token.closes, hnone])
    exact hsingle.append (ih hts)

/-- Any of the brackets around what is balanced. -/
theorem Balanced.within {ts : List Token} (h : Balanced bracketPairs ts) {b : String × String}
    (hb : b ∈ bracketPairs) {opening closing : Token} (hopening : opening.isPunctuator b.1 = true)
    (hclosing : closing.isPunctuator b.2 = true) :
    Balanced bracketPairs (opening :: (ts ++ [closing])) := by
  have hnot : closing.opens bracketPairs = false := by
    simp only [Token.isPunctuator, Bool.and_eq_true, beq_iff_eq] at hclosing
    simp only [bracketPairs, List.mem_cons, List.not_mem_nil, or_false] at hb
    rcases hb with rfl | rfl | rfl <;> simp [Token.opens, bracketPairs, Token.isPunctuator, hclosing.2]
  refine h.enclosed ?_ ?_ hnot ?_
  · exact List.any_eq_true.mpr ⟨b, hb, hopening⟩
  · exact List.any_eq_true.mpr ⟨b, hb, hclosing⟩
  · exact List.any_eq_true.mpr ⟨b, hb, Bool.and_eq_true_iff.mpr ⟨hopening, hclosing⟩⟩

/-- Where the same brackets are open before and after, none of them was closed in between: a bracket
does not come back. -/
theorem openAfter_inner {inner stack ts : List Token}
    (h : openAfter pairs (inner ++ stack) ts = some stack) (hstack : stack.Nodup)
    (hnew : ∀ t ∈ ts, t ∉ stack) : openAfter pairs inner ts = some [] := by
  induction ts generalizing inner with
  | nil =>
    have hsame : inner ++ stack = [] ++ stack := Option.some.inj h
    rw [List.append_cancel_right hsame]
    rfl
  | cons t ts ih =>
    obtain ⟨next, hnext, hrest⟩ := Option.bind_eq_some_iff.mp h
    have hlater : ∀ u ∈ ts, u ∉ stack := fun u hu => hnew u (List.mem_cons_of_mem t hu)
    rw [openAfter]
    rcases openNext_eq_some_iff.mp hnext with ⟨hopens, rfl⟩ |
      ⟨hopens, hcloses, opening, hcons, hpartners⟩ | ⟨hopens, hcloses, rfl⟩
    · rw [openNext_eq_some_iff.mpr (Or.inl ⟨hopens, rfl⟩), Option.bind_some]
      exact ih hrest hlater
    · cases inner with
      | nil =>
        -- The bracket that is closed is one of the outer ones, and would have to be opened again.
        rw [List.nil_append] at hcons
        subst hcons
        rcases mem_openAfter hrest List.mem_cons_self with hmem | hmem
        · exact absurd hmem (List.nodup_cons.mp hstack).1
        · exact absurd List.mem_cons_self (hlater opening hmem)
      | cons innermost inner =>
        obtain ⟨rfl, rfl⟩ := List.cons.inj hcons
        rw [openNext_eq_some_iff.mpr (Or.inr (Or.inl ⟨hopens, hcloses, _, rfl, hpartners⟩)),
          Option.bind_some]
        exact ih hrest hlater
    · rw [openNext_eq_some_iff.mpr (Or.inr (Or.inr ⟨hopens, hcloses, rfl⟩)), Option.bind_some]
      exact ih hrest hlater

/-- Tokens are open once each, if they stand in the stream once each. -/
theorem openAfter_nodup {stack out ts : List Token} (h : openAfter pairs stack ts = some out)
    (hdistinct : (stack ++ ts).Nodup) : out.Nodup := by
  induction ts generalizing stack with
  | nil =>
    rw [← Option.some.inj h]
    simpa using hdistinct
  | cons t ts ih =>
    obtain ⟨next, hnext, hrest⟩ := Option.bind_eq_some_iff.mp h
    refine ih hrest ?_
    rcases openNext_eq_some_iff.mp hnext with ⟨-, rfl⟩ | ⟨-, -, opening, rfl, -⟩ | ⟨-, -, rfl⟩
    · exact (List.perm_middle.symm.nodup_iff).mpr hdistinct
    · refine hdistinct.sublist ?_
      exact ((List.sublist_cons_self opening next).append (List.sublist_cons_self t ts))
    · exact hdistinct.sublist ((List.Sublist.refl next).append (List.sublist_cons_self t ts))

/-- Tokens between two places of a stream are balanced exactly when the same brackets are open at
both. -/
theorem balanced_iff_openAfter {before between stack : List Token}
    (h : openAfter pairs [] (before ++ between) = some stack) (hdistinct : (before ++ between).Nodup) :
    Balanced pairs between ↔ openAfter pairs [] before = some stack := by
  rw [openAfter_append] at h
  obtain ⟨start, hstart, hrest⟩ := Option.bind_eq_some_iff.mp h
  constructor
  · intro hbalanced
    rw [hbalanced.openAfter_eq] at hrest
    rw [hstart, hrest]
  · intro hsame
    obtain rfl := Option.some.inj (hstart.symm.trans hsame)
    have hparts := List.nodup_append.mp hdistinct
    have hstack : start.Nodup := openAfter_nodup hstart (by simpa using hparts.1)
    refine openAfter_inner (show openAfter pairs ([] ++ start) between = _ from hrest) hstack
      fun t ht hopen => ?_
    rcases mem_openAfter hstart hopen with hmem | hmem
    · simp at hmem
    · exact hparts.2.2 t hmem t ht rfl

/-! ### Counting braces -/

/-- Tokens read at one level: the depth of braces never drops below where it starts, and ends there. -/
def SameLevel (ts : List Token) : Prop :=
  (∀ n ≤ ts.length, (ts.take n).countP (·.isPunctuator "\x7d") ≤
      (ts.take n).countP (·.isPunctuator "\x7b")) ∧
    ts.countP (·.isPunctuator "\x7d") = ts.countP (·.isPunctuator "\x7b")

instance (ts : List Token) : Decidable (SameLevel ts) :=
  inferInstanceAs (Decidable (_ ∧ _))

/-- The same, read where some braces are open that are all to be closed. -/
private def LevelFrom (level : Nat) (ts : List Token) : Prop :=
  (∀ n ≤ ts.length, (ts.take n).countP (·.isPunctuator "\x7d") ≤
      level + (ts.take n).countP (·.isPunctuator "\x7b")) ∧
    ts.countP (·.isPunctuator "\x7d") = level + ts.countP (·.isPunctuator "\x7b")

/-- A token counts for itself before the rest is read. -/
private theorem levelFrom_cons {level level' : Nat} {t : Token} {ts : List Token}
    (h : level + [t].countP (·.isPunctuator "\x7b") =
      level' + [t].countP (·.isPunctuator "\x7d")) :
    LevelFrom level (t :: ts) ↔ LevelFrom level' ts := by
  -- A front of the tokens and the whole are counted alike.
  have hcount : ∀ us : List Token,
      (t :: us).countP (·.isPunctuator "\x7d") =
          [t].countP (·.isPunctuator "\x7d") + us.countP (·.isPunctuator "\x7d") ∧
        (t :: us).countP (·.isPunctuator "\x7b") =
          [t].countP (·.isPunctuator "\x7b") + us.countP (·.isPunctuator "\x7b") := by
    intro us
    rw [← List.singleton_append, List.countP_append, List.countP_append]
    exact ⟨rfl, rfl⟩
  have hwhole := hcount ts
  constructor
  · rintro ⟨hfronts, hall⟩
    refine ⟨fun n hn => ?_, by omega⟩
    have hfront := hfronts (n + 1) (Nat.succ_le_succ hn)
    have hshort := hcount (ts.take n)
    rw [List.take_succ_cons] at hfront
    omega
  · rintro ⟨hfronts, hall⟩
    refine ⟨fun n hn => ?_, by omega⟩
    cases n with
    | zero => simp
    | succ n =>
      have hfront := hfronts n (Nat.le_of_succ_le_succ hn)
      have hshort := hcount (ts.take n)
      rw [List.take_succ_cons]
      omega

private theorem openAfter_braces_iff {stack ts : List Token}
    (hstack : ∀ t ∈ stack, t.isPunctuator "\x7b" = true) :
    openAfter bracePairs stack ts = some [] ↔ LevelFrom stack.length ts := by
  induction ts generalizing stack with
  | nil => simp [openAfter, LevelFrom, eq_comm]
  | cons t ts ih =>
    have hopening : t.opens bracePairs = t.isPunctuator "\x7b" := by simp [Token.opens, bracePairs]
    have hclosing : t.closes bracePairs = t.isPunctuator "\x7d" := by simp [Token.closes, bracePairs]
    rw [openAfter]
    by_cases hopens : t.isPunctuator "\x7b" = true
    · have hnot : t.isPunctuator "\x7d" = false := by
        simp only [Token.isPunctuator, Bool.and_eq_true, beq_iff_eq] at hopens
        simp [Token.isPunctuator, hopens.2]
      have hnext : openNext bracePairs stack t = some (t :: stack) :=
        openNext_eq_some_iff.mpr (Or.inl ⟨hopening.trans hopens, rfl⟩)
      rw [hnext, Option.bind_some, ih (List.forall_mem_cons.mpr ⟨hopens, hstack⟩)]
      exact (levelFrom_cons (by simp [hopens, hnot])).symm
    · rw [Bool.not_eq_true] at hopens
      by_cases hcloses : t.isPunctuator "\x7d" = true
      · cases stack with
        | nil =>
          have hnone : openNext bracePairs [] t = none := by
            simp [openNext, hopening, hopens, hclosing, hcloses]
          rw [hnone]
          refine iff_of_false (by simp) fun h => ?_
          have := h.1 1 (by simp)
          simp [hcloses, hopens] at this
        | cons opening stack =>
          obtain ⟨hbrace, hstack⟩ := List.forall_mem_cons.mp hstack
          have hpartners : Token.partners bracePairs opening t = true := by
            simp [Token.partners, bracePairs, hbrace, hcloses]
          have hnext : openNext bracePairs (opening :: stack) t = some stack :=
            openNext_eq_some_iff.mpr (Or.inr (Or.inl
              ⟨hopening.trans hopens, hclosing.trans hcloses, opening, rfl, hpartners⟩))
          rw [hnext, Option.bind_some, ih hstack]
          exact (levelFrom_cons (by simp [hopens, hcloses])).symm
      · rw [Bool.not_eq_true] at hcloses
        have hnext : openNext bracePairs stack t = some stack := openNext_eq_some_iff.mpr
          (Or.inr (Or.inr ⟨hopening.trans hopens, hclosing.trans hcloses, rfl⟩))
        rw [hnext, Option.bind_some, ih hstack]
        exact (levelFrom_cons (by simp [hopens, hcloses])).symm

/-- Tokens are read at one level exactly when their braces are balanced. -/
theorem sameLevel_iff (ts : List Token) : SameLevel ts ↔ Balanced bracePairs ts := by
  rw [Balanced, openAfter_braces_iff (by simp), SameLevel, LevelFrom]
  simp

end TokenStream

end ClosureReady
