import ClosureReady.Proofs.OutputPath

/-!
What a run of the program leaves behind.  A plan stops, prints or saves; it prints or saves only the
result of fixing a readable text.  So a run that ends with a failure changes no file and prints
nothing, and one that succeeds delivers the code to one place: standard output, or the one file that
was asked for.
-/

set_option autoImplicit false
set_option relaxedAutoImplicit false

namespace ClosureReady.CommandLine

namespace FileSystem

variable {fs : FileSystem}

/-- No file is a directory too. -/
def Proper (fs : FileSystem) : Prop := ∀ f ∈ fs.files, fs.isDirectory f.1 = false

private theorem lookup_file (q p : FilePlace) (content : ByteArray)
    (files : List (FilePlace × ByteArray)) :
    ((q, content) :: files).lookup p = if p = q then some content else files.lookup p := by
  rw [List.lookup_cons]
  by_cases hp : p = q
  · rw [beq_iff_eq.mpr hp, if_pos hp]
  · rw [beq_eq_false_iff_ne.mpr hp, if_neg hp]

theorem lookup_put (place p : FilePlace) (content : ByteArray)
    (files : List (FilePlace × ByteArray)) :
    (put place content files).lookup p = if p = place then some content else files.lookup p := by
  induction files with
  | nil => rw [put, lookup_file]
  | cons f files ih =>
    obtain ⟨q, c⟩ := f
    rw [put]
    split
    · rename_i heq
      obtain rfl := eq_of_beq heq
      rw [lookup_file, lookup_file]
      split <;> rfl
    · rename_i hne
      rw [lookup_file, lookup_file, ih]
      split_ifs with hq hp hp <;> simp_all

theorem mem_put {place : FilePlace} {content : ByteArray} {files : List (FilePlace × ByteArray)}
    {f : FilePlace × ByteArray} (h : f ∈ put place content files) : f.1 = place ∨ f ∈ files := by
  induction files with
  | nil =>
    obtain rfl : f = (place, content) := by simpa [put] using h
    exact Or.inl rfl
  | cons g files ih =>
    rw [put] at h
    split at h
    · rcases List.mem_cons.mp h with rfl | hmem
      · exact Or.inl rfl
      · exact Or.inr (List.mem_cons_of_mem g hmem)
    · rcases List.mem_cons.mp h with rfl | hmem
      · exact Or.inr List.mem_cons_self
      · exact (ih hmem).imp_right (List.mem_cons_of_mem g)

theorem locate_of_locateNew {path : String} {place : FilePlace}
    (h : fs.locateNew path = .ok place) : fs.locate path = .ok place := by
  unfold locateNew at h
  split at h
  · split at h
    · simp at h
    · split at h <;> simp at h
  · exact h

theorem write_eq_ok_iff {path : String} {content : ByteArray} {fs' : FileSystem} :
    fs.write path content = .ok fs' ↔ ∃ place, fs.locateNew path = .ok place ∧
      fs.isDirectory place = false ∧ fs' = ⟨put place content fs.files⟩ := by
  unfold write
  cases hlocate : fs.locateNew path with
  | error e => simp
  | ok place =>
    simp only [Except.ok.injEq, exists_eq_left']
    cases fs.isDirectory place with
    | true => simp
    | false => simp [eq_comm]

/-- The directories after a file was put at a place are those from before, and those on the way to
that place. -/
theorem isDirectory_put {place p : FilePlace} {content : ByteArray}
    (h : isDirectory ⟨put place content fs.files⟩ p = true) :
    fs.isDirectory p = true ∨ p <+: place ∧ p ≠ place := by
  rcases (isDirectory_iff _ p).mp h with rfl | ⟨f, hf, hfront, hne⟩
  · exact Or.inl rfl
  · rcases mem_put hf with hplaced | hold
    · rw [hplaced] at hfront hne
      exact Or.inr ⟨hfront, hne⟩
    · exact Or.inl ((isDirectory_iff fs p).mpr (Or.inr ⟨f, hold, hfront, hne⟩))

/-- A write puts its file into a directory, so no file becomes a directory. -/
theorem Proper.write (h : fs.Proper) {path : String} {content : ByteArray} {fs' : FileSystem}
    (hwrite : fs.write path content = .ok fs') : fs'.Proper := by
  obtain ⟨place, hlocate, hplace, rfl⟩ := write_eq_ok_iff.mp hwrite
  obtain ⟨-, -, hfollow⟩ := locate_eq_ok_iff.mp (locate_of_locateNew hlocate)
  obtain ⟨names, name, hnames⟩ := exists_splitPath_concat [] path.toList
  rw [hnames] at hfollow
  obtain ⟨dir, -, hdir, -, rfl⟩ := follow_concat_of_not_directory hfollow hplace
  intro f hf
  by_contra hnew
  rcases isDirectory_put ((Bool.not_eq_false _).mp hnew) with hbefore | ⟨hfront, hne⟩
  · rcases mem_put hf with hplaced | hold
    · rw [hplaced, hplace] at hbefore
      exact Bool.noConfusion hbefore
    · rw [h f hold] at hbefore
      exact Bool.noConfusion hbefore
  · rcases mem_put hf with hplaced | hold
    · exact hne hplaced
    · have hinner := (List.prefix_concat_iff.mp hfront).resolve_left hne
      have hupper := fs.isDirectory_above hinner hdir
      rw [h f hold] at hupper
      exact Bool.noConfusion hupper

theorem read_eq_ok {path : String} {content : ByteArray} (h : fs.read path = .ok content) :
    ∃ place, fs.locate path = .ok place ∧ fs.file? place = some content := by
  unfold read at h
  split at h
  · simp at h
  · rename_i place hlocate
    split at h
    · rename_i content' hfile
      exact ⟨place, hlocate, by rw [hfile, Except.ok.inj h]⟩
    · split at h <;> simp at h

theorem Proper.not_directory (h : fs.Proper) {place : FilePlace} {content : ByteArray}
    (hfile : fs.file? place = some content) : fs.isDirectory place = false := by
  have hsome : (fs.files.lookup place).isSome = true := by rw [← file?, hfile]; rfl
  obtain ⟨f, hf, heq⟩ := List.lookup_isSome_iff.mp hsome
  rw [eq_of_beq heq]
  exact h f hf

end FileSystem

/-! ### Plans -/

theorem decode_eq_ok_iff {content : ByteArray} {text : String} :
    decode content = .ok text ↔ content = text.toUTF8 := by
  unfold decode String.fromUTF8?
  constructor
  · intro h
    split at h
    · rename_i found hfound
      obtain rfl := Except.ok.inj h
      split at hfound
      · obtain rfl := Option.some.inj hfound
        rfl
      · simp at hfound
    · simp at h
  · rintro rfl
    have hvalid : text.toUTF8.IsValidUTF8 := text.isValidUTF8
    rw [dif_pos hvalid]
    rfl

theorem bind_decode_eq_ok_iff {input : Except FileError ByteArray} {source : String} :
    input.bind decode = .ok source ↔ input = .ok source.toUTF8 := by
  cases input with
  | error e => simp [Except.bind]
  | ok content =>
    rw [Except.ok.injEq, ← decode_eq_ok_iff]
    rfl

/-- A plan delivers the result when the input is a text that can be fixed, and else stops with a
failure. -/
theorem plan_cases (inv : Invocation) (input : Except FileError ByteArray) :
    (∃ source result, input = .ok source.toUTF8 ∧
      (fix { header := !inv.noHeader } source).outcome = .ok result ∧
      (plan inv input).action = planResult inv result) ∨
    (¬ ∃ source result, input = .ok source.toUTF8 ∧
      (fix { header := !inv.noHeader } source).outcome = .ok result) ∧
      ∃ exit, exit ≠ 0 ∧ (plan inv input).action = .stop exit := by
  cases hread : input.bind decode with
  | error e =>
    refine Or.inr ⟨?_, failureExit, by decide, by simp [plan, hread]⟩
    rintro ⟨source, result, hinput, -⟩
    simp [bind_decode_eq_ok_iff.mpr hinput] at hread
  | ok source =>
    cases hfixed : (fix { header := !inv.noHeader } source).outcome with
    | ok result =>
      refine Or.inl ⟨source, result, bind_decode_eq_ok_iff.mp hread, hfixed, ?_⟩
      simp [plan, hread, hfixed]
    | error fault =>
      refine Or.inr ⟨?_, ?_⟩
      · rintro ⟨source', result, hinput, hok⟩
        rw [bind_decode_eq_ok_iff.mpr hinput] at hread
        simp [Except.ok.inj hread, hfixed] at hok
      · cases fault with
        | brokenLayout => exact ⟨abortExit, by decide, by simp [plan, hread, hfixed]⟩
        | parseFailed => exact ⟨failureExit, by decide, by simp [plan, hread, hfixed]⟩
        | malformedDeclaration line found =>
          exact ⟨failureExit, by decide, by simp [plan, hread, hfixed]⟩
        | malformedVarStatement line name =>
          exact ⟨failureExit, by decide, by simp [plan, hread, hfixed]⟩

/-! ### Runs -/

/-- What a run has done that succeeds: the input was a text that can be fixed, and its code was
printed, or written to the file that was asked for and to no other. -/
structure Delivers (inv : Invocation) (fs : FileSystem) (r : Report) (source : String)
    (result : FixResult) : Prop where
  readable : fs.read inv.input = .ok source.toUTF8
  fixed : (fix { header := !inv.noHeader } source).outcome = .ok result
  printed : inv.output = none → r.files = fs ∧ r.stdout = result.code
  saved : ∀ value, inv.output = some value → r.stdout = "" ∧
    ∃ place, fs.locateNew (resolveOutput inv.input value) = .ok place ∧
      fs.isDirectory place = false ∧
      ∀ p, r.files.file? p = if p = place then some result.code.toUTF8 else fs.file? p

/-- What a run has done that fails: nothing. -/
structure Idles (fs : FileSystem) (r : Report) : Prop where
  exit_ne : r.exit ≠ 0
  files_eq : r.files = fs
  stdout_eq : r.stdout = ""

variable {arguments : List String} (env : Environment) {fs : FileSystem} {inv : Invocation}

theorem run_of_carryOut (h : Invocation.ofArguments? arguments = some inv) {exit : Nat}
    {stdout : String} {notices : List Notice} {files : FileSystem}
    (hcarry : carryOut (plan inv (fs.read inv.input)) fs = (exit, stdout, notices, files)) :
    run arguments env fs = ⟨exit, stdout, logLines (chooseFilter env inv) notices, files⟩ := by
  simp only [run, h, hcarry]

theorem run_of_stop (h : Invocation.ofArguments? arguments = some inv) {exit : Nat}
    (hexit : exit ≠ 0) (hplan : (plan inv (fs.read inv.input)).action = .stop exit) :
    Idles fs (run arguments env fs) := by
  rw [run_of_carryOut env h (by simp only [carryOut, hplan]; rfl)]
  exact ⟨hexit, rfl, rfl⟩

theorem run_of_print (h : Invocation.ofArguments? arguments = some inv) {source : String}
    {result : FixResult} (hread : fs.read inv.input = .ok source.toUTF8)
    (hfixed : (fix { header := !inv.noHeader } source).outcome = .ok result) (houtput : inv.output = none)
    (hplan : (plan inv (fs.read inv.input)).action = planResult inv result) :
    (run arguments env fs).exit = 0 ∧ Delivers inv fs (run arguments env fs) source result := by
  have haction : (plan inv (fs.read inv.input)).action = .print result.code := by
    rw [hplan, planResult, houtput]
  rw [run_of_carryOut env h (by simp only [carryOut, haction]; rfl)]
  exact ⟨rfl, hread, hfixed, fun _ => ⟨rfl, rfl⟩, fun value hvalue => by simp [houtput] at hvalue⟩

theorem run_of_save (h : Invocation.ofArguments? arguments = some inv) {source value : String}
    {result : FixResult} (hread : fs.read inv.input = .ok source.toUTF8)
    (hfixed : (fix { header := !inv.noHeader } source).outcome = .ok result) (houtput : inv.output = some value)
    (hplan : (plan inv (fs.read inv.input)).action = planResult inv result) :
    ((run arguments env fs).exit = 0 ∧ Delivers inv fs (run arguments env fs) source result) ∨
    (Idles fs (run arguments env fs) ∧
      ¬ ∃ place, fs.locateNew (resolveOutput inv.input value) = .ok place ∧
        fs.isDirectory place = false) := by
  have haction : (plan inv (fs.read inv.input)).action =
      .save (resolveOutput inv.input value) result.code := by
    rw [hplan, planResult, houtput]
  cases hwrite : fs.write (resolveOutput inv.input value) result.code.toUTF8 with
  | error e =>
    rw [run_of_carryOut env h (by simp only [carryOut, haction, hwrite]; rfl)]
    refine Or.inr ⟨⟨Nat.one_ne_zero, rfl, rfl⟩, ?_⟩
    rintro ⟨place, hlocate, hplace⟩
    have hok : fs.write (resolveOutput inv.input value) result.code.toUTF8 = .ok _ :=
      FileSystem.write_eq_ok_iff.mpr ⟨place, hlocate, hplace, rfl⟩
    cases hwrite.symm.trans hok
  | ok fs' =>
    rw [run_of_carryOut env h (by simp only [carryOut, haction, hwrite]; rfl)]
    obtain ⟨place, hlocate, hplace, rfl⟩ := FileSystem.write_eq_ok_iff.mp hwrite
    refine Or.inl ⟨rfl, hread, hfixed, ?_, ?_⟩
    · intro hnone
      simp [houtput] at hnone
    · intro value' hvalue
      obtain rfl := Option.some.inj (houtput.symm.trans hvalue)
      refine ⟨rfl, place, hlocate, hplace, ?_⟩
      intro p
      exact FileSystem.lookup_put place p _ fs.files

/-- A run in order either succeeds and delivers, or fails, does nothing and has nothing to deliver. -/
theorem run_cases (fs : FileSystem) (h : Invocation.ofArguments? arguments = some inv) :
    ((run arguments env fs).exit = 0 ∧
      ∃ source result, Delivers inv fs (run arguments env fs) source result) ∨
    (Idles fs (run arguments env fs) ∧
      ¬ ∃ source result, Delivers inv fs (run arguments env fs) source result) := by
  rcases plan_cases inv (fs.read inv.input) with ⟨source, result, hread, hfixed, hplan⟩ |
    ⟨hnone, exit, hexit, hplan⟩
  · cases houtput : inv.output with
    | none =>
      obtain ⟨hexit, hdelivers⟩ := run_of_print env h hread hfixed houtput hplan
      exact Or.inl ⟨hexit, source, result, hdelivers⟩
    | some value =>
      rcases run_of_save env h hread hfixed houtput hplan with
        ⟨hexit, hdelivers⟩ | ⟨hidles, hlost⟩
      · exact Or.inl ⟨hexit, source, result, hdelivers⟩
      · refine Or.inr ⟨hidles, ?_⟩
        rintro ⟨source', result', hdelivers⟩
        obtain ⟨-, place, hlocate, hplace, -⟩ := hdelivers.saved value houtput
        exact hlost ⟨place, hlocate, hplace⟩
  · refine Or.inr ⟨run_of_stop env h hexit hplan, ?_⟩
    rintro ⟨source, result, hdelivers⟩
    exact hnone ⟨source, result, hdelivers.readable, hdelivers.fixed⟩

theorem run_files (arguments : List String) (env : Environment) (fs : FileSystem) :
    (run arguments env fs).files = fs ∨
      ∃ path content, fs.write path content = .ok (run arguments env fs).files := by
  unfold run
  split
  · exact Or.inl rfl
  · simp only [carryOut]
    split
    · exact Or.inl rfl
    · exact Or.inl rfl
    · rename_i path text _
      split
      · rename_i hwrite
        exact Or.inr ⟨path, text.toUTF8, hwrite⟩
      · exact Or.inl rfl

/-- A failed run changes no file and prints nothing, whatever the arguments.  A run succeeds exactly
when it delivers.  When no file is named for the result, it goes into the directory of the input and
not to the input: for an input that is read, by the place; for any path to a file, by its steps. -/
theorem run_output_disciplined (arguments : List String) (env : Environment) (fs : FileSystem) :
    ((run arguments env fs).exit ≠ 0 →
      (run arguments env fs).files = fs ∧ (run arguments env fs).stdout = "") ∧
    ((run arguments env fs).exit = 0 ↔ ∃ inv source result,
      Invocation.ofArguments? arguments = some inv ∧
        Delivers inv fs (run arguments env fs) source result) ∧
    (fs.Proper → (run arguments env fs).files.Proper) ∧
    (∀ input content, fs.Proper → fs.read input = .ok content → EndsInFileName input ∧
      ∃ dir name other, fs.locate input = .ok (dir ++ [name]) ∧ fs.isDirectory dir = true ∧
        fs.locateNew (resolveOutput input "") = .ok (dir ++ [other]) ∧ other ≠ name) ∧
    ∀ input, EndsInFileName input → ∃ dir name other, pathSteps input = dir ++ [name] ∧
      pathSteps (resolveOutput input "") = dir ++ [other] ∧ other ≠ name ∧
      ((resolveOutput input "").toList.head? = some '/' ↔ input.toList.head? = some '/') := by
  refine ⟨?_, ?_, ?_, ?_, fun input hinput => besideInput_steps hinput⟩
  · intro hexit
    cases hinv : Invocation.ofArguments? arguments with
    | none => simp [run, hinv]
    | some inv =>
      rcases run_cases env fs hinv with ⟨hzero, -⟩ | ⟨hidles, -⟩
      · exact absurd hzero hexit
      · exact ⟨hidles.files_eq, hidles.stdout_eq⟩
  · cases hinv : Invocation.ofArguments? arguments with
    | none => simp [run, hinv, usageExit]
    | some inv =>
      rcases run_cases env fs hinv with ⟨hzero, source, result, hdelivers⟩ |
        ⟨hidles, hnone⟩
      · exact iff_of_true hzero ⟨inv, source, result, rfl, hdelivers⟩
      · refine iff_of_false hidles.exit_ne ?_
        rintro ⟨inv', source, result, hsame, hdelivers⟩
        obtain rfl := Option.some.inj hsame
        exact hnone ⟨source, result, hdelivers⟩
  · intro hproper
    rcases run_files arguments env fs with hsame | ⟨path, content, hwrite⟩
    · rwa [hsame]
    · exact hproper.write hwrite
  · intro input content hproper hread
    obtain ⟨place, hlocate, hfile⟩ := FileSystem.read_eq_ok hread
    obtain ⟨hends, dir, name, other, rfl, hdir, hbeside, hne⟩ :=
      besideInput_located hlocate (hproper.not_directory hfile)
    exact ⟨hends, dir, name, other, hlocate, hdir, hbeside, hne⟩

/-- A directory with one script in it. -/
def oneScript : FileSystem := ⟨[(["lib", "a.js"], "f();".toUTF8)]⟩

theorem run_output_disciplined_one_script :
    (run ["b.js"] ⟨none, none⟩ oneScript).stdout = "" ∧
    (∃ inv source result, Invocation.ofArguments? ["lib/./a.js", "-o"] = some inv ∧
      Delivers inv oneScript (run ["lib/./a.js", "-o"] ⟨none, none⟩ oneScript) source result) ∧
    (run ["lib/./a.js", "-o"] ⟨none, none⟩ oneScript).files.Proper ∧
    (∃ dir name other, oneScript.locate "lib/./a.js" = .ok (dir ++ [name]) ∧
      oneScript.isDirectory dir = true ∧
      oneScript.locateNew (resolveOutput "lib/./a.js" "") = .ok (dir ++ [other]) ∧ other ≠ name) ∧
    ∃ dir name other, pathSteps "/lib/.a" = dir ++ [name] ∧
      pathSteps (resolveOutput "/lib/.a" "") = dir ++ [other] ∧ other ≠ name := by
  have hproper : oneScript.Proper := by unfold FileSystem.Proper; decide
  have hends : EndsInFileName "/lib/.a" := ⟨".a", by decide, by decide, by decide, by decide⟩
  obtain ⟨hfails, -⟩ := run_output_disciplined ["b.js"] ⟨none, none⟩ oneScript
  obtain ⟨-, hsucceeds, hkept, hbeside, hsteps⟩ :=
    run_output_disciplined ["lib/./a.js", "-o"] ⟨none, none⟩ oneScript
  refine ⟨(hfails (by decide +kernel)).2, hsucceeds.mp (by decide +kernel), hkept hproper, ?_, ?_⟩
  · exact (hbeside "lib/./a.js" "f();".toUTF8 hproper rfl).2
  · obtain ⟨dir, name, other, hinput, hbeside, hne, -⟩ := hsteps "/lib/.a" hends
    exact ⟨dir, name, other, hinput, hbeside, hne⟩

end ClosureReady.CommandLine
