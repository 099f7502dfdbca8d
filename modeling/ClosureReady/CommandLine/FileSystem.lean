/-!
Files and directories below the directory a program runs in, and the paths that name them.
-/

set_option autoImplicit false
set_option relaxedAutoImplicit false

namespace ClosureReady.CommandLine

/-- Why a file cannot be read or written. -/
inductive FileError
  | notFound
  | notDirectory
  | isDirectory
  | notText
  deriving DecidableEq, Repr, Inhabited

/-- The error as it is told to the user. -/
def FileError.message : FileError → String
  | notFound => "No such file or directory (os error 2)"
  | notDirectory => "Not a directory (os error 20)"
  | isDirectory => "Is a directory (os error 21)"
  | notText => "stream did not contain valid UTF-8"

/-- A place in the tree of files: the names on the way to it. -/
abbrev FilePlace := List String

/-- The files by their places.  Every directory on the way to a file exists. -/
structure FileSystem where
  files : List (FilePlace × ByteArray)

namespace FileSystem

/-- The content of the file at a place. -/
def file? (fs : FileSystem) (place : FilePlace) : Option ByteArray := fs.files.lookup place

/-- Whether there is a directory at a place. -/
def isDirectory (fs : FileSystem) (place : FilePlace) : Bool :=
  place.isEmpty || fs.files.any fun f => place.isPrefixOf f.1 && place != f.1

/-- Cuts a text at slashes. -/
def splitPath (part : List Char) : List Char → List String
  | [] => [String.ofList part.reverse]
  | c :: rest =>
    if c == '/' then String.ofList part.reverse :: splitPath [] rest else splitPath (c :: part) rest

/-- Follows the names of a path from a directory on.  All but the last name have to be those of
directories; what the last one names may be missing. -/
def follow (fs : FileSystem) (dir : FilePlace) : List String → Except FileError FilePlace
  | [] => .ok dir
  | name :: names =>
    if name == "" || name == "." then
      if fs.isDirectory dir then follow fs dir names
      else if (fs.file? dir).isSome then .error .notDirectory
      else .error .notFound
    else if !fs.isDirectory dir then
      if (fs.file? dir).isSome then .error .notDirectory else .error .notFound
    else if name == ".." then
      if dir.isEmpty then .error .notFound else follow fs dir.dropLast names
    else follow fs (dir ++ [name]) names

/-- The place a path names.  Paths from the root lead outside. -/
def locate (fs : FileSystem) (path : String) : Except FileError FilePlace :=
  match path.toList with
  | [] => .error .notFound
  | '/' :: _ => .error .notFound
  | chars => fs.follow [] (splitPath [] chars)

/-- The content of the file a path names. -/
def read (fs : FileSystem) (path : String) : Except FileError ByteArray :=
  match fs.locate path with
  | .error e => .error e
  | .ok place =>
    match fs.file? place with
    | some content => .ok content
    | none => if fs.isDirectory place then .error .isDirectory else .error .notFound

/-- Replaces the content of a file or adds the file. -/
def put (place : FilePlace) (content : ByteArray) :
    List (FilePlace × ByteArray) → List (FilePlace × ByteArray)
  | [] => [(place, content)]
  | f :: fs => if f.1 == place then (place, content) :: fs else f :: put place content fs

/-- The place a path to be written names.  A path that ends in a slash names a directory, so a file
cannot be made there. -/
def locateNew (fs : FileSystem) (path : String) : Except FileError FilePlace :=
  if path.toList.getLast? = some '/' then
    match fs.locate (String.ofList (path.toList.reverse.dropWhile (· == '/')).reverse) with
    | .error e => .error e
    | .ok place => if (fs.file? place).isSome then .error .notDirectory else .error .isDirectory
  else fs.locate path

/-- Writes a file.  If that is not possible, nothing changes. -/
def write (fs : FileSystem) (path : String) (content : ByteArray) :
    Except FileError FileSystem :=
  match fs.locateNew path with
  | .error e => .error e
  | .ok place =>
    if fs.isDirectory place then .error .isDirectory
    else .ok ⟨put place content fs.files⟩

/-- The files that are new or have changed since an earlier state. -/
def changedSince (fs earlier : FileSystem) : List (FilePlace × ByteArray) :=
  fs.files.filter fun f =>
    match earlier.file? f.1 with
    | none => true
    | some content => content != f.2

end FileSystem

/-! ### Names derived from a path -/

/-- Cuts a path before its last name: the directory as written, and the name. -/
def splitName (path : List Char) : List Char × List Char :=
  let back := path.reverse
  ((back.dropWhile (· != '/')).reverse, (back.takeWhile (· != '/')).reverse)

/-- A file name without what follows its last dot.  A dot in front belongs to the name. -/
def fileStem (name : List Char) : List Char :=
  match name.reverse.dropWhile (· != '.') with
  | [] => name
  | _ :: stem => if stem.isEmpty then name else stem.reverse

/-- Takes slashes and lone dots off the end of a directory, given back to front. -/
def trimDirectoryBack : List Char → List Char
  | '/' :: rest => trimDirectoryBack rest
  | '.' :: '/' :: rest => trimDirectoryBack rest
  | back => back

/-- A directory without slashes and lone dots at its end; the root stays. -/
def trimDirectory (dir : List Char) : List Char :=
  match trimDirectoryBack dir.reverse with
  | [] => if dir.isEmpty then [] else ['/']
  | back => back.reverse

/-- The ending of the file a result is written to when none is named. -/
def closureEnding : List Char := "-closure.js".toList

/-- The path beside the input that a result is written to when no other is named. -/
def besideInput (input : String) : String :=
  let (dir, name) := splitName input.toList
  let stem := if name.isEmpty then "output".toList else fileStem name
  let dir := trimDirectory dir
  let file := stem ++ closureEnding
  String.ofList <|
    if dir.isEmpty then file
    else if dir.getLast? = some '/' then dir ++ file
    else dir ++ '/' :: file

end ClosureReady.CommandLine
