import ClosureReady.CommandLine.Run
import Mathlib.Data.List.DropRight

/-!
The path a result is written to when none is named.  A path is read as the names between its slashes;
following them leads from directory to directory, and empty names and lone dots lead nowhere.  The
path beside an input has the names of the input up to the last one, which it replaces by another: so
it leads into the directory of the input, and never to the input.
-/

set_option autoImplicit false
set_option relaxedAutoImplicit false

namespace ClosureReady.CommandLine

/-- A name that can be that of a file. -/
def IsFileName (name : String) : Prop := name ≠ "" ∧ name ≠ "." ∧ name ≠ ".."

/-- A name that leads nowhere. -/
def IsIdle (name : String) : Prop := name = "" ∨ name = "."

/-! ### The names of a path -/

namespace FileSystem

theorem splitPath_append_slash (part xs ys : List Char) :
    splitPath part (xs ++ '/' :: ys) = splitPath part xs ++ splitPath [] ys := by
  induction xs generalizing part with
  | nil => simp [splitPath]
  | cons c xs ih =>
    simp only [List.cons_append, splitPath]
    split
    · rw [ih, List.cons_append]
    · exact ih _

theorem splitPath_of_not_mem {xs : List Char} (h : '/' ∉ xs) (part : List Char) :
    splitPath part xs = [String.ofList (part.reverse ++ xs)] := by
  induction xs generalizing part with
  | nil => simp [splitPath]
  | cons c xs ih =>
    have hc : (c == '/') = false := by
      refine beq_eq_false_iff_ne.mpr fun heq => h ?_
      rw [heq]
      exact List.mem_cons_self
    have hxs : '/' ∉ xs := fun hmem => h (List.mem_cons_of_mem c hmem)
    simp [splitPath, hc, ih hxs]

theorem exists_splitPath_concat (part xs : List Char) :
    ∃ names last, splitPath part xs = names ++ [last] := by
  have hne : splitPath part xs ≠ [] := by
    induction xs generalizing part with
    | nil => simp [splitPath]
    | cons c xs ih =>
      simp only [splitPath]
      split
      · exact List.cons_ne_nil _ _
      · exact ih _
  exact ⟨_, _, (List.dropLast_append_getLast hne).symm⟩

/-! ### Following names -/

variable (fs : FileSystem)

theorem isDirectory_iff (place : FilePlace) :
    fs.isDirectory place = true ↔ place = [] ∨ ∃ f ∈ fs.files, place <+: f.1 ∧ place ≠ f.1 := by
  simp [isDirectory]

theorem isDirectory_above {inner outer : FilePlace} (h : outer <+: inner)
    (hinner : fs.isDirectory inner = true) : fs.isDirectory outer = true := by
  rw [isDirectory_iff] at hinner ⊢
  rcases hinner with rfl | ⟨f, hf, hfront, hne⟩
  · exact Or.inl (List.prefix_nil.mp h)
  · refine Or.inr ⟨f, hf, h.trans hfront, ?_⟩
    rintro rfl
    exact hne (hfront.eq_of_length_le h.length_le)

theorem follow_append (dir : FilePlace) (xs ys : List String) :
    fs.follow dir (xs ++ ys) = (fs.follow dir xs).bind fun d => fs.follow d ys := by
  induction xs generalizing dir with
  | nil => rfl
  | cons name xs ih =>
    simp only [List.cons_append, follow]
    split_ifs <;> first | rfl | exact ih _

variable {fs}

theorem follow_append_eq_ok {dir place : FilePlace} {xs ys : List String}
    (h : fs.follow dir (xs ++ ys) = .ok place) :
    ∃ d, fs.follow dir xs = .ok d ∧ fs.follow d ys = .ok place := by
  rw [follow_append] at h
  cases hxs : fs.follow dir xs with
  | error e => simp [hxs, Except.bind] at h
  | ok d => exact ⟨d, rfl, by simpa [hxs, Except.bind] using h⟩

/-- The one name that is left leads into a directory, stays in one, or names something there. -/
theorem follow_singleton {dir place : FilePlace} {name : String}
    (h : fs.follow dir [name] = .ok place) :
    fs.isDirectory dir = true ∧
      (IsIdle name ∧ place = dir ∨ name = ".." ∧ place = dir.dropLast ∨
        IsFileName name ∧ place = dir ++ [name]) := by
  simp only [follow] at h
  split_ifs at h with hidle hdir hfile hdir hfile hup htop
  · have hname : IsIdle name := by simpa [IsIdle] using hidle
    exact ⟨hdir, Or.inl ⟨hname, (Except.ok.inj h).symm⟩⟩
  · exact ⟨by simpa using hdir, Or.inr (Or.inl ⟨eq_of_beq hup, (Except.ok.inj h).symm⟩)⟩
  · have hname : IsFileName name := by
      simp only [Bool.or_eq_true, beq_iff_eq, not_or] at hidle hup
      exact ⟨hidle.1, hidle.2, hup⟩
    exact ⟨by simpa using hdir, Or.inr (Or.inr ⟨hname, (Except.ok.inj h).symm⟩)⟩

theorem follow_fileName {dir : FilePlace} {name : String} (hdir : fs.isDirectory dir = true)
    (hname : IsFileName name) : fs.follow dir [name] = .ok (dir ++ [name]) := by
  obtain ⟨hempty, hdot, hup⟩ := hname
  simp [follow, hempty, hdot, hup, hdir]

theorem follow_idle {dir place : FilePlace} {names : List String} (hidle : ∀ n ∈ names, IsIdle n)
    (h : fs.follow dir names = .ok place) : place = dir := by
  induction names with
  | nil => exact (Except.ok.inj h).symm
  | cons name names ih =>
    obtain ⟨hname, hnames⟩ := List.forall_mem_cons.mp hidle
    rw [← List.singleton_append] at h
    obtain ⟨d, hd, hrest⟩ := follow_append_eq_ok h
    obtain ⟨-, ⟨-, rfl⟩ | ⟨rfl, -⟩ | ⟨hfile, -⟩⟩ := follow_singleton hd
    · exact ih hnames hrest
    · exact absurd hname (by simp [IsIdle])
    · exact absurd hname (not_or.mpr ⟨hfile.1, hfile.2.1⟩)

/-- Names that lead to something that is no directory end in a name inside of one. -/
theorem follow_concat_of_not_directory {dir place : FilePlace} {names : List String} {name : String}
    (h : fs.follow dir (names ++ [name]) = .ok place) (hplace : fs.isDirectory place = false) :
    ∃ d, fs.follow dir names = .ok d ∧ fs.isDirectory d = true ∧ IsFileName name ∧
      place = d ++ [name] := by
  obtain ⟨d, hd, hlast⟩ := follow_append_eq_ok h
  obtain ⟨hdir, ⟨-, rfl⟩ | ⟨-, rfl⟩ | ⟨hname, rfl⟩⟩ := follow_singleton hlast
  · simp [hdir] at hplace
  · have hfront : d.dropLast <+: d := List.dropLast_prefix d
    simp [fs.isDirectory_above hfront hdir] at hplace
  · exact ⟨d, hd, hdir, hname, rfl⟩

theorem locate_eq_ok_iff {path : String} {place : FilePlace} :
    fs.locate path = .ok place ↔ path.toList ≠ [] ∧ path.toList.head? ≠ some '/' ∧
      fs.follow [] (splitPath [] path.toList) = .ok place := by
  unfold locate
  split
  · rename_i hnil
    simp [hnil]
  · rename_i hroot
    simp [hroot]
  · rename_i hnil hroot
    have hhead : path.toList.head? ≠ some '/' := by
      intro hhead
      obtain ⟨rest, hrest⟩ := List.head?_eq_some_iff.mp hhead
      exact hroot rest hrest
    simp [hhead, show path.toList ≠ [] from hnil]

end FileSystem

/-! ### The file name -/

theorem splitName_eq (path : List Char) :
    splitName path = (path.rdropWhile (· != '/'), path.rtakeWhile (· != '/')) := rfl

/-- A path is its directory, which is empty or ends in a slash, and its name, which has none. -/
theorem exists_splitName (path : List Char) :
    ∃ dir name, splitName path = (dir, name) ∧ path = dir ++ name ∧ '/' ∉ name ∧
      (dir = [] ∨ ∃ up, dir = up ++ ['/']) := by
  refine ⟨_, _, splitName_eq path, List.rdropWhile_append_rtakeWhile.symm, ?_, ?_⟩
  · intro hmem
    simpa using List.mem_rtakeWhile_imp hmem
  · rcases List.eq_nil_or_concat' (path.rdropWhile (· != '/')) with hnil | ⟨up, c, hconcat⟩
    · exact Or.inl hnil
    · have hne : path.rdropWhile (· != '/') ≠ [] := by simp [hconcat]
      have hlast := List.rdropWhile_last_not _ _ hne
      simp only [hconcat, List.getLast_append_singleton, bne_iff_ne, ne_eq, not_not] at hlast
      exact Or.inr ⟨up, by rw [hconcat, hlast]⟩

/-- What is cut off a name to get its stem is nothing, or starts with a dot. -/
theorem fileStem_append (name : List Char) :
    ∃ ending, name = fileStem name ++ ending ∧ ending.head? ≠ some '-' := by
  unfold fileStem
  split
  · exact ⟨[], by simp, by simp⟩
  · rename_i c stem hback
    split
    · exact ⟨[], by simp, by simp⟩
    · have hc : c = '.' := by
        have hdot := List.head?_dropWhile_not (· != '.') name.reverse
        simpa [hback] using hdot
      have hsplit := congrArg List.reverse
        (List.takeWhile_append_dropWhile (p := (· != '.')) (l := name.reverse))
      rw [hback, List.reverse_append, List.reverse_cons, List.reverse_reverse, List.append_assoc]
        at hsplit
      exact ⟨_, hsplit.symm, by simp [hc]⟩

/-- The name of a result is not the name it is made from. -/
theorem fileStem_closureEnding_ne (name : List Char) : fileStem name ++ closureEnding ≠ name := by
  intro heq
  obtain ⟨ending, hname, hhead⟩ := fileStem_append name
  have hending : closureEnding = ending := List.append_cancel_left (heq.trans hname)
  apply hhead
  rw [← hending]
  decide

theorem fileStem_subset (name : List Char) : fileStem name ⊆ name := by
  obtain ⟨ending, hname, -⟩ := fileStem_append name
  intro c hc
  rw [hname]
  exact List.mem_append_left ending hc

/-! ### The directory -/

/-- The names cut off the end of a directory lead nowhere. -/
theorem splitPath_trimDirectoryBack (back : List Char) :
    ∃ idle, (∀ n ∈ idle, IsIdle n) ∧ FileSystem.splitPath [] back.reverse =
      FileSystem.splitPath [] (trimDirectoryBack back).reverse ++ idle := by
  fun_induction trimDirectoryBack back with
  | case1 rest ih =>
    obtain ⟨idle, hidle, hsplit⟩ := ih
    refine ⟨idle ++ [""], List.forall_mem_append.mpr ⟨hidle, by simp [IsIdle]⟩, ?_⟩
    rw [List.reverse_cons, FileSystem.splitPath_append_slash, hsplit, List.append_assoc]
    rfl
  | case2 rest ih =>
    obtain ⟨idle, hidle, hsplit⟩ := ih
    refine ⟨idle ++ ["."], List.forall_mem_append.mpr ⟨hidle, by simp [IsIdle]⟩, ?_⟩
    rw [List.reverse_cons, List.reverse_cons, List.append_assoc, List.singleton_append,
      FileSystem.splitPath_append_slash, hsplit, List.append_assoc]
    rfl
  | case3 back => exact ⟨[], by simp, by simp⟩

theorem trimDirectoryBack_head (back : List Char) :
    (trimDirectoryBack back).head? ≠ some '/' := by
  fun_induction trimDirectoryBack back with
  | case1 rest ih => exact ih
  | case2 rest ih => exact ih
  | case3 back hslash _ =>
    intro hhead
    obtain ⟨rest, rfl⟩ := List.head?_eq_some_iff.mp hhead
    exact hslash rest rfl

/-- A directory starts as what is left of it does, with the slash that follows. -/
theorem trimDirectoryBack_start {back : List Char} (h : back ≠ []) :
    back.reverse.head? = ((trimDirectoryBack back).reverse ++ ['/']).head? := by
  fun_induction trimDirectoryBack back with
  | case1 rest ih =>
    cases rest with
    | nil => rfl
    | cons c rest =>
      rw [← ih (List.cons_ne_nil c rest)]
      simp
  | case2 rest ih =>
    cases rest with
    | nil => rfl
    | cons c rest =>
      rw [← ih (List.cons_ne_nil c rest)]
      simp
  | case3 back => exact (List.head?_append_of_ne_nil _ (by simpa using h)).symm

/-! ### The path beside the input -/

/-- The name of the file a result is written to beside an input. -/
def resultName (name : List Char) : List Char := fileStem name ++ closureEnding

theorem not_mem_resultName {name : List Char} (h : '/' ∉ name) : '/' ∉ resultName name := by
  intro hmem
  rcases List.mem_append.mp hmem with hstem | hending
  · exact h (fileStem_subset name hstem)
  · exact absurd hending (by decide)

theorem resultName_isFileName (name : List Char) : IsFileName (String.ofList (resultName name)) := by
  have hlength : (resultName name).length = (fileStem name).length + 11 := by
    rw [resultName, List.length_append]
    rfl
  have hlong : ∀ short : String, short.length < 11 → String.ofList (resultName name) ≠ short := by
    rintro short hshort rfl
    rw [String.length_ofList, hlength] at hshort
    omega
  exact ⟨hlong "" (by decide), hlong "." (by decide), hlong ".." (by decide)⟩

/-- What the path beside an input starts with, before its name: the trimmed directory with a slash. -/
def startBeside (dir : List Char) : List Char :=
  if dir = [] then [] else (trimDirectoryBack dir.reverse).reverse ++ ['/']

theorem startBeside_start (dir : List Char) : (startBeside dir).head? = dir.head? := by
  by_cases hdir : dir = []
  · rw [startBeside, if_pos hdir, hdir]
  · rw [startBeside, if_neg hdir, ← trimDirectoryBack_start (List.reverse_ne_nil_iff.mpr hdir),
      List.reverse_reverse]

theorem startBeside_eq (dir : List Char) :
    startBeside dir = [] ∨ ∃ up, startBeside dir = up ++ ['/'] := by
  unfold startBeside
  split
  · exact Or.inl rfl
  · exact Or.inr ⟨_, rfl⟩

theorem besideInput_toList {input : String} {dir name : List Char}
    (hsplit : splitName input.toList = (dir, name)) (hname : name ≠ []) :
    (besideInput input).toList = startBeside dir ++ resultName name := by
  have hstem : (if name.isEmpty then "output".toList else fileStem name) = fileStem name :=
    if_neg (by simpa using hname)
  simp only [besideInput, hsplit, hstem, String.toList_ofList, resultName, startBeside, trimDirectory]
  by_cases hdir : dir = []
  · subst hdir
    simp [trimDirectoryBack]
  · have hlast := trimDirectoryBack_head dir.reverse
    cases hback : trimDirectoryBack dir.reverse with
    | nil => simp [hdir]
    | cons c back =>
      rw [hback] at hlast
      have hc : c ≠ '/' := by simpa using hlast
      simp [hdir, hc]

/-! ### Names of directory and file -/

/-- A path whose directory is empty or ends in a slash has the names of the directory, and the name of
the file in place of the empty one behind that slash. -/
theorem splitPath_append_name {dir name : List Char} (hdir : dir = [] ∨ ∃ up, dir = up ++ ['/'])
    (hname : '/' ∉ name) : ∃ names, FileSystem.splitPath [] dir = names ++ [""] ∧
      FileSystem.splitPath [] (dir ++ name) = names ++ [String.ofList name] := by
  have hfile : FileSystem.splitPath [] name = [String.ofList name] := by
    simpa using FileSystem.splitPath_of_not_mem hname []
  rcases hdir with rfl | ⟨up, rfl⟩
  · exact ⟨[], rfl, by simpa using hfile⟩
  · refine ⟨FileSystem.splitPath [] up, FileSystem.splitPath_append_slash [] up [], ?_⟩
    rw [List.append_assoc, List.singleton_append, FileSystem.splitPath_append_slash, hfile]

theorem splitPath_startBeside (dir : List Char) : ∃ names idle,
    FileSystem.splitPath [] (startBeside dir) = names ++ [""] ∧
      FileSystem.splitPath [] dir = names ++ idle ∧ ∀ n ∈ idle, IsIdle n := by
  by_cases hdir : dir = []
  · subst hdir
    exact ⟨[], [""], rfl, rfl, by simp [IsIdle]⟩
  · obtain ⟨idle, hidle, hsplit⟩ := splitPath_trimDirectoryBack dir.reverse
    rw [List.reverse_reverse] at hsplit
    refine ⟨_, idle, ?_, hsplit, hidle⟩
    rw [startBeside, if_neg hdir, FileSystem.splitPath_append_slash]
    rfl

/-- The directory and the name of a path by its names. -/
theorem exists_splitName_names {path : String} {names : List String} {name : String}
    (h : FileSystem.splitPath [] path.toList = names ++ [name]) :
    ∃ dir last, splitName path.toList = (dir, last) ∧ path.toList = dir ++ last ∧ '/' ∉ last ∧
      FileSystem.splitPath [] dir = names ++ [""] ∧ name = String.ofList last := by
  obtain ⟨dir, last, hsplit, hpath, hlast, hdir⟩ := exists_splitName path.toList
  obtain ⟨names', hdirNames, hpathNames⟩ := splitPath_append_name hdir hlast
  rw [hpath, hpathNames] at h
  obtain ⟨rfl, hname⟩ := List.append_inj' h rfl
  exact ⟨dir, last, hsplit, hpath, hlast, hdirNames, by simpa using hname.symm⟩

/-- The names of the path beside an input that ends in a name: up to names that lead nowhere, those of
the input before the last one, and another last one. -/
theorem besideInput_names {input : String} {names : List String} {name : String}
    (h : FileSystem.splitPath [] input.toList = names ++ [name]) (hname : name ≠ "") :
    ∃ others other idle, FileSystem.splitPath [] (besideInput input).toList = others ++ [other] ∧
      names ++ [""] = others ++ idle ∧ (∀ n ∈ idle, IsIdle n) ∧ IsFileName other ∧ other ≠ name := by
  obtain ⟨dir, last, hsplit, -, hlast, hdirNames, rfl⟩ := exists_splitName_names h
  have hne : last ≠ [] := fun hnil => hname (by rw [hnil, String.ofList_nil])
  obtain ⟨others, idle, hstart, hidleNames, hidle⟩ := splitPath_startBeside dir
  obtain ⟨others', hstart', hbeside⟩ :=
    splitPath_append_name (startBeside_eq dir) (not_mem_resultName hlast)
  obtain ⟨rfl, -⟩ := List.append_inj' (hstart.symm.trans hstart') rfl
  refine ⟨others, String.ofList (resultName last), idle, ?_, hdirNames.symm.trans hidleNames, hidle,
    resultName_isFileName last, ?_⟩
  · rw [besideInput_toList hsplit hne, hbeside]
  · exact fun heq => fileStem_closureEnding_ne last (String.ofList_inj.mp heq)

/-- The path beside an input starts at the root when the input does, and ends in no slash. -/
theorem besideInput_ends {input : String} {names : List String} {name : String}
    (h : FileSystem.splitPath [] input.toList = names ++ [name]) (hname : name ≠ "") :
    ((besideInput input).toList.head? = some '/' ↔ input.toList.head? = some '/') ∧
      (besideInput input).toList.getLast? = some 's' := by
  obtain ⟨dir, last, hsplit, hinput, hlast, -, rfl⟩ := exists_splitName_names h
  have hne : last ≠ [] := fun hnil => hname (by rw [hnil, String.ofList_nil])
  have hhead : ∀ {xs : List Char}, '/' ∉ xs →
      (dir.head?.or xs.head? = some '/' ↔ dir.head? = some '/') := by
    intro xs hxs
    cases hdirHead : dir.head? with
    | none =>
      simp only [Option.none_or, reduceCtorEq, iff_false]
      exact fun hfirst => hxs (List.mem_of_mem_head? hfirst)
    | some c => simp
  rw [besideInput_toList hsplit hne, hinput, List.head?_append, List.head?_append, startBeside_start,
    hhead (not_mem_resultName hlast), hhead hlast]
  refine ⟨Iff.rfl, ?_⟩
  rw [resultName, ← List.append_assoc, List.getLast?_append_of_ne_nil _ (by decide)]
  rfl

/-! ### Beside an input -/

/-- Whether a name leads somewhere. -/
def leadsOn (name : String) : Bool := name != "" && name != "."

/-- The names of a path that lead somewhere. -/
def pathSteps (path : String) : List String :=
  (FileSystem.splitPath [] path.toList).filter leadsOn

theorem leadsOn_of_isFileName {name : String} (h : IsFileName name) : leadsOn name = true := by
  simp [leadsOn, h.1, h.2.1]

theorem filter_leadsOn_of_idle {names : List String} (h : ∀ n ∈ names, IsIdle n) :
    names.filter leadsOn = [] := by
  rw [List.filter_eq_nil_iff]
  intro n hn
  rcases h n hn with rfl | rfl <;> decide

/-- A path ends in a name that can be that of a file. -/
def EndsInFileName (path : String) : Prop :=
  ∃ name, (FileSystem.splitPath [] path.toList).getLast? = some name ∧ IsFileName name

/-- The path beside an input differs from it in the last step. -/
theorem besideInput_steps {input : String} (h : EndsInFileName input) :
    ∃ dir name other, pathSteps input = dir ++ [name] ∧ pathSteps (besideInput input) = dir ++ [other] ∧
      other ≠ name ∧ ((besideInput input).toList.head? = some '/' ↔ input.toList.head? = some '/') := by
  obtain ⟨name, hlast, hname⟩ := h
  obtain ⟨names, hnames⟩ := List.getLast?_eq_some_iff.mp hlast
  obtain ⟨others, other, idle, hbeside, hidleNames, hidle, hother, hne⟩ :=
    besideInput_names hnames hname.1
  have hdir : others.filter leadsOn = names.filter leadsOn := by
    have hfilter := congrArg (List.filter leadsOn) hidleNames
    have hempty : [""].filter leadsOn = [] := rfl
    rw [List.filter_append, List.filter_append, filter_leadsOn_of_idle hidle, hempty,
      List.append_nil, List.append_nil] at hfilter
    exact hfilter.symm
  refine ⟨names.filter leadsOn, name, other, ?_, ?_, hne, (besideInput_ends hnames hname.1).1⟩
  · rw [pathSteps, hnames, List.filter_append, List.filter_singleton, leadsOn_of_isFileName hname]
    rfl
  · rw [pathSteps, hbeside, List.filter_append, List.filter_singleton, leadsOn_of_isFileName hother,
      hdir]
    rfl

/-- The path beside an input that is no directory leads to another place in the same directory. -/
theorem besideInput_located {fs : FileSystem} {input : String} {place : FilePlace}
    (h : fs.locate input = .ok place) (hplace : fs.isDirectory place = false) :
    EndsInFileName input ∧ ∃ dir name other, place = dir ++ [name] ∧ fs.isDirectory dir = true ∧
      fs.locateNew (besideInput input) = .ok (dir ++ [other]) ∧ other ≠ name := by
  obtain ⟨-, hroot, hfollow⟩ := FileSystem.locate_eq_ok_iff.mp h
  obtain ⟨names, name, hnames⟩ := FileSystem.exists_splitPath_concat [] input.toList
  rw [hnames] at hfollow
  obtain ⟨dir, hdir, hisDir, hname, rfl⟩ :=
    FileSystem.follow_concat_of_not_directory hfollow hplace
  obtain ⟨others, other, idle, hbeside, hidleNames, hidle, hother, hne⟩ :=
    besideInput_names hnames hname.1
  obtain ⟨hstart, hend⟩ := besideInput_ends hnames hname.1
  refine ⟨⟨name, by rw [hnames, List.getLast?_concat], hname⟩, dir, name, other, rfl, hisDir, ?_, hne⟩
  -- The names in front lead to the same directory, since those that were cut off lead nowhere.
  have hothers : fs.follow [] others = .ok dir := by
    have hback : fs.follow [] (others ++ idle) = .ok dir := by
      rw [← hidleNames, FileSystem.follow_append, hdir]
      simp [Except.bind, FileSystem.follow, hisDir]
    obtain ⟨d, hd, hrest⟩ := FileSystem.follow_append_eq_ok hback
    rw [hd, FileSystem.follow_idle hidle hrest]
  have hlast : (besideInput input).toList.getLast? ≠ some '/' := by rw [hend]; decide
  rw [FileSystem.locateNew, if_neg hlast, FileSystem.locate_eq_ok_iff]
  refine ⟨?_, fun hslash => hroot (hstart.mp hslash), ?_⟩
  · intro hnil
    simp [hnil] at hend
  · rw [hbeside, FileSystem.follow_append, hothers]
    exact FileSystem.follow_fileName hisDir hother

end ClosureReady.CommandLine
