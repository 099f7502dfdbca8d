import ClosureReady.Pipeline

/-!
Successful runs, taken apart.  A traced computation succeeds exactly when each of its parts does, and
a source that is not left alone is fixed exactly when each of the four passes answers a workspace.  A
`FixRun` holds what the source was read as and those four workspaces.
-/

set_option autoImplicit false
set_option relaxedAutoImplicit false

namespace ClosureReady

theorem except_eq_ok_of_toOption {ε α : Type} {e : Except ε α} {a : α}
    (h : e.toOption = some a) : e = .ok a := by
  cases e with
  | error => simp [Except.toOption] at h
  | ok => simpa [Except.toOption] using h

namespace Traced

variable {α β : Type}

theorem bind_outcome_eq_ok_iff {t : Traced α} {next : α → Traced β} {b : β} :
    (t >>= next).outcome = .ok b ↔ ∃ a, t.outcome = .ok a ∧ (next a).outcome = .ok b := by
  change (Traced.bind t next).outcome = .ok b ↔ _
  unfold Traced.bind
  cases ht : t.outcome with
  | error fault => simp
  | ok a => simp

@[simp] theorem monad_pure_outcome (a : α) : (Pure.pure a : Traced α).outcome = .ok a := rfl

@[simp] theorem tell_outcome (n : Notice) : (tell n).outcome = .ok () := rfl

@[simp] theorem ofExcept_outcome (r : Except Fault α) : (ofExcept r).outcome = r := rfl

theorem ofEdit_outcome_eq_ok_iff {r : Option α} {a : α} :
    (ofEdit r).outcome = .ok a ↔ r = some a := by
  cases r with
  | none => simp [ofEdit]
  | some b => simp [ofEdit]

end Traced

/-- What the passes of a successful run hand on, from the reading of the source to the end. -/
structure FixRun (mode : Grammar.Mode) (source : String) where
  parsed : ParsedSource
  declarationsMarked : PassResult
  classesUnwrapped : PassResult
  linesRemoved : PassResult
  helpersResolved : PassResult
  parse_eq : ParsedSource.parse mode source = .ok parsed
  not_leftAlone : isLeftAlone parsed.tokens = false
  declarations_eq : (HelperDeclarations.run (.start parsed.tree parsed.stream)).outcome =
    .ok declarationsMarked
  classes_eq : (ClassWrapper.run declarationsMarked.workspace).outcome = .ok classesUnwrapped
  lines_eq : (MarkedLineRemoval.run classesUnwrapped.workspace).outcome = .ok linesRemoved
  uses_eq : (HelperUses.run linesRemoved.workspace).outcome = .ok helpersResolved

namespace FixRun

variable {mode : Grammar.Mode} {source : String}

/-- The stream the passes start from. -/
def prepared (run : FixRun mode source) : TokenStream := run.parsed.stream

/-- The stream without the marked lines. -/
def kept (run : FixRun mode source) : TokenStream := run.linesRemoved.workspace.stream

/-- The workspace that is printed. -/
def final (run : FixRun mode source) : Workspace := run.helpersResolved.workspace

def modified (run : FixRun mode source) : Bool :=
  run.declarationsMarked.modified || run.classesUnwrapped.modified ||
    run.linesRemoved.modified || run.helpersResolved.modified

/-- Runs the passes on a source, if it is read, not left alone, and no pass fails on it. -/
def of? (mode : Grammar.Mode) (source : String) : Option (FixRun mode source) :=
  match hparse : ParsedSource.parse mode source with
  | .error _ => none
  | .ok p =>
    if hkept : isLeftAlone p.tokens = false then
      match ha : (HelperDeclarations.run (.start p.tree p.stream)).outcome with
      | .error _ => none
      | .ok a =>
        match hb : (ClassWrapper.run a.workspace).outcome with
        | .error _ => none
        | .ok b =>
          match hc : (MarkedLineRemoval.run b.workspace).outcome with
          | .error _ => none
          | .ok c =>
            match hd : (HelperUses.run c.workspace).outcome with
            | .error _ => none
            | .ok d => some ⟨p, a, b, c, d, hparse, hkept, ha, hb, hc, hd⟩
    else none

end FixRun

private theorem runAll_cons_ok_iff {r r' : PassResult} {p : Pass} {ps : List Pass} :
    (Pass.runAll r (p :: ps)).outcome = .ok r' ↔
      ∃ next, (p.run r.workspace).outcome = .ok next ∧
        (Pass.runAll ⟨next.workspace, r.modified || next.modified⟩ ps).outcome = .ok r' := by
  rw [Pass.runAll, Traced.bind_outcome_eq_ok_iff]
  refine exists_congr fun next => and_congr_right fun _ => ?_
  cases next.modified with
  | false => simp
  | true => simp [Traced.bind_outcome_eq_ok_iff]

private theorem runAll_nil_ok_iff {r r' : PassResult} :
    (Pass.runAll r []).outcome = .ok r' ↔ r = r' := by
  simp [Pass.runAll]

/-- A source that is read and not left alone is fixed exactly when every pass succeeds on what the
pass before it hands on. -/
theorem fix_ok_iff {options : FixOptions} {source : String} {result : FixResult}
    {parsed : ParsedSource} (hparse : ParsedSource.parse options.mode source = .ok parsed)
    (hkept : isLeftAlone parsed.tokens = false) :
    (fix options source).outcome = .ok result ↔
      ∃ run : FixRun options.mode source, run.parsed = parsed ∧
        result = ⟨run.modified, run.final.requiresArrayLibrary,
          assemble options source run.final⟩ := by
  rw [fix, Traced.bind_outcome_eq_ok_iff]
  simp only [Traced.ofExcept_outcome, hparse, Except.ok.injEq, exists_eq_left', hkept,
    Bool.false_eq_true, if_false, Traced.bind_outcome_eq_ok_iff, Pass.all, runAll_cons_ok_iff,
    runAll_nil_ok_iff, Pass.run, Traced.monad_pure_outcome]
  constructor
  · rintro ⟨_, ⟨a, ha, b, hb, c, hc, d, hd, rfl⟩, rfl⟩
    refine ⟨⟨parsed, a, b, c, d, hparse, hkept, ha, hb, hc, hd⟩, rfl, ?_⟩
    simp [FixRun.modified, FixRun.final]
  · rintro ⟨run, rfl, rfl⟩
    refine ⟨_, ⟨_, run.declarations_eq, _, run.classes_eq, _, run.lines_eq, _, run.uses_eq, rfl⟩, ?_⟩
    simp [FixRun.modified, FixRun.final]

/-- What a source is fixed to, by a run of the passes on it. -/
theorem FixRun.fix_eq {mode : Grammar.Mode} {source : String} (run : FixRun mode source)
    (header : Bool) :
    (fix ⟨header, mode⟩ source).outcome = .ok ⟨run.modified, run.final.requiresArrayLibrary,
      assemble ⟨header, mode⟩ source run.final⟩ := by
  refine (fix_ok_iff ?_ run.not_leftAlone).mpr ⟨run, rfl, rfl⟩
  exact run.parse_eq

end ClosureReady
