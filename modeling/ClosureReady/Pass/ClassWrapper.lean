import ClosureReady.Pass.Workspace

/-!
The second pass: it unwraps class declarations.

    Foo = (function(_super) {
      __extends(Foo, _super);
      function Foo() {}
      return Foo;
    })(Bar);

becomes `Foo = function() {}` followed by the body of the class, one level shallower, with `_super`
replaced by the parent.  The constructor moves to the front of the body together with its comment.
The lines of the wrapper itself are only scheduled for deletion.
-/

set_option autoImplicit false
set_option relaxedAutoImplicit false

namespace ClosureReady.ClassWrapper

/-- The name of the inner function of the inheritance helper, which is no class. -/
def reservedName : String := "ctor"

/-- The parameter through which a wrapper receives its parent. -/
def parentParameter : String := "_super"

/-- The `function` token that opens a constructor, by its identity, and the name of the class. -/
structure Constructor where
  token : Nat
  className : String
  deriving DecidableEq, Repr, Inhabited

/-- Whether two neighbours open a constructor: a named function is always one. -/
def opensConstructor (t next : Token) : Bool :=
  t.isKeyword "function" && next.kind == .identifier && next.value != reservedName

/-- All constructors of a stream in order. -/
def findConstructors : List Token → List Constructor
  | t :: next :: rest =>
    if opensConstructor t next then ⟨t.id, next.value⟩ :: findConstructors (next :: rest)
    else findConstructors (next :: rest)
  | _ => []

/-- Where the wrapper of a class starts and ends.  `start` is the first token of its opening line,
`stop` the first token of its closing line, and `column` the column of both.  `path` is what stands
before the class name in the assignment target, `parent` the path of the parent class. -/
structure Wrapper where
  start : Nat
  stop : Nat
  column : Nat
  path : String
  parent : String
  deriving DecidableEq, Repr, Inhabited

/-- The values of some tokens, joined. -/
def joinValues (tokens : List Token) : String :=
  tokens.foldr (fun t text => t.value ++ text) ""

/-- Takes an ending off a text, or answers nothing when the text does not end so. -/
def dropEnding? (text ending : String) : Option String :=
  if ending.toList.isSuffixOf text.toList then
    some (String.ofList (text.toList.take (text.toList.length - ending.toList.length)))
  else none

/-- The index of the last token with a property. -/
def lastIndex? (p : Token → Bool) (tokens : List Token) : Option Nat :=
  (tokens.reverse.findIdx? p).map fun back => tokens.length - 1 - back

/-- The index of the first token from `i` on with a property. -/
def nextIndex? (p : Token → Bool) (i : Nat) (tokens : List Token) : Option Nat :=
  ((tokens.drop i).findIdx? p).map (i + ·)

/-- The names and dots on the closing line of a wrapper, joined: the path of the parent class. -/
def parentPath (fromStop : List Token) (line : Nat) : String :=
  joinValues <| (fromStop.takeWhile fun t => t.line == line).filter fun t =>
    t.kind == .identifier || t.isPunctuator "."

/-- Finds the wrapper around the constructor at an index.  Both of its boundary lines are indented
one level less than the constructor as it stands now. -/
def locate? (s : TokenStream) (i : Nat) (c : Constructor) : Option Wrapper := do
  let opening ← s[i]?
  let column ← Token.checkedSub opening.column indentUnit
  let stop ← nextIndex? (fun t => t.column == column) (i + 1) s
  let closing ← s[stop]?
  let start ← lastIndex? (fun t => t.column == column) (s.take i)
  let assign ← nextIndex? (·.isPunctuator "=") start (s.take i)
  let path ← dropEnding? (joinValues ((s.take assign).drop start)) c.className
  return ⟨start, stop, column, path, parentPath (s.drop stop) closing.line⟩

/-- What became of the declarator of a class. -/
structure Undeclared where
  stream : TokenStream
  marked : MarkedLines
  /-- How many tokens before the wrapper are gone, or nothing when there is no declarator. -/
  removed : Option Nat
  deriving DecidableEq, Repr, Inhabited

/-- Removes the declarator with the given index from its variable statement.  A statement without
another declarator is scheduled for deletion as a line. -/
def dropDeclarator (s : TokenStream) (marked : MarkedLines) (varIndex nameIndex line : Nat)
    (c : Constructor) : Except Fault Undeclared :=
  match s[nameIndex + 1]?.filter fun t => t.kind == .punctuator with
  | none => .error (.malformedVarStatement line c.className)
  | some next =>
    if nameIndex = varIndex + 1 ∧ next.value = ";" then .ok ⟨s, marked.mark line, some 0⟩
    else
      let commaBefore := (s[nameIndex - 1]?.map (·.isPunctuator ",")).getD false
      let first := if commaBefore then nameIndex - 1 else nameIndex
      match s.excise? first 2 with
      | none => .error .brokenLayout
      | some s => .ok ⟨s, marked, some 2⟩

/-- Looks for the declarator among the tokens before the wrapper, nearest first.  A token left of
the wrapper's column ends the search: the scope around the wrapper starts there. -/
def removeDeclarator (s : TokenStream) (marked : MarkedLines) (column : Nat) (c : Constructor) :
    List (Token × Nat) → Except Fault Undeclared
  | [] => .ok ⟨s, marked, none⟩
  | (t, i) :: earlier =>
    if t.column < column then .ok ⟨s, marked, none⟩
    else if t.isKeyword "var" then
      let onLine := (s.drop (i + 1)).takeWhile fun u => u.line == t.line
      match onLine.findIdx? (·.isIdentifier c.className) with
      | none => removeDeclarator s marked column c earlier
      | some k => dropDeclarator s marked i (i + 1 + k) t.line c
    else removeDeclarator s marked column c earlier

/-- The tokens to move so that the constructor leads the body, or nothing when it already does.  A
block comment right before the constructor moves along.  The run ends with the next token in the
constructor's column, which belongs to it when it is a closing brace or other punctuation. -/
def constructorRun? (s : TokenStream) (i firstInBody column : Nat) : Option IndexRange :=
  let hasComment := decide (0 < i) && (s[i - 1]?.map (·.kind == .blockComment)).getD false
  let start := if hasComment then i - 1 else i
  if start ≤ firstInBody then none
  else
    match nextIndex? (fun t => t.column == column) (i + 1) s with
    | none => some ⟨start, s.length⟩
    | some j =>
      let closes := (s[j]?.map fun t => t.kind == .punctuator || t.value == "\x7d").getD false
      some ⟨start, if closes then j + 1 else j⟩

/-- Takes two spaces off the start of every line of a comment but the first. -/
def dedentComment : List Char → List Char
  | '\n' :: ' ' :: ' ' :: rest => '\n' :: dedentComment rest
  | c :: rest => c :: dedentComment rest
  | [] => []

/-- A token of the class body as it reads outside the wrapper: the class name gets its path, the
parent parameter becomes the parent, and a comment is dedented. -/
def adaptToken (w : Wrapper) (c : Constructor) (previous t : Token) : Token :=
  let t :=
    if w.path != "" && t.isIdentifier c.className && !previous.isPunctuator "." then
      t.withValue (w.path ++ c.className)
    else t
  let t :=
    if w.parent != "" && t.isIdentifier parentParameter then t.withValue w.parent else t
  if t.kind == .blockComment then t.withValue (String.ofList (dedentComment t.value.toList)) else t

/-- Adapts `count` tokens of the body and dedents each of their lines once, when its first token
is reached. -/
def adaptBody (w : Wrapper) (c : Constructor) :
    (count : Nat) → (previous : Token) → (line : Option Nat) → List Token → Option (List Token)
  | 0, _, _, tokens => some tokens
  | _ + 1, _, _, [] => none
  | count + 1, previous, line, t :: rest =>
    let t := adaptToken w c previous t
    let dedented :=
      if line = some t.line then some (t :: rest)
      else TokenStream.dedentLine? (t :: rest) 0 indentUnit
    match dedented with
    | some (t :: rest) => (adaptBody w c count t (some t.line) rest).map (t :: ·)
    | _ => none

/-- Writes the head of the constructor: the assignment goes to the `function` token and `function`
to the name after it. -/
def writeHead? (s : TokenStream) (i : Nat) (w : Wrapper) (c : Constructor)
    (declared : Bool) : Option TokenStream :=
  let head := (if declared && w.path == "" then "var " else "") ++ w.path ++ c.className ++ " ="
  (s.setValue? i head).bind (·.setValue? (i + 1) "function")

/-- Moves the constructor to the front of the body, if it is not there. -/
def leadWithConstructor (s : TokenStream) (i start : Nat) (c : Constructor) :
    Traced TokenStream := do
  let opening ← Traced.ofEdit s[start]?
  let constructor ← Traced.ofEdit s[i]?
  match nextIndex? (fun t => t.line != opening.line) start s with
  | none => return s
  | some firstInBody =>
    match constructorRun? s i firstInBody constructor.column with
    | none => return s
    | some run =>
      Traced.tell (.constructorMoved c.className)
      Traced.ofEdit (s.relocate? run firstInBody)

/-- Adapts the tokens strictly between the first token of the wrapper and its closing line. -/
def adaptBetween? (s : TokenStream) (start stop : Nat) (w : Wrapper) (c : Constructor) :
    Option TokenStream :=
  if start + 1 < stop then
    s[start]?.bind fun head =>
      (adaptBody w c (stop - (start + 1)) head none (s.drop (start + 1))).map
        (s.take (start + 1) ++ ·)
  else some s

/-- The stream and marked lines after one class. -/
structure Unwrapped where
  stream : TokenStream
  marked : MarkedLines
  modified : Bool
  deriving DecidableEq, Repr, Inhabited

/-- Unwraps the class of one constructor whose wrapper is known. -/
def unwrapAt (s : TokenStream) (marked : MarkedLines) (c : Constructor) (i : Nat) (w : Wrapper) :
    Traced Unwrapped := do
  let opening ← Traced.ofEdit s[w.start]?
  let closing ← Traced.ofEdit s[w.stop]?
  let marked := (marked.markRange (closing.line - 2) closing.line).mark opening.line
  let u ← Traced.ofExcept (removeDeclarator s marked w.column c (s.take w.start).zipIdx.reverse)
  let removed := u.removed.getD 0
  let i ← Traced.ofEdit (Token.checkedSub i removed)
  let start ← Traced.ofEdit (Token.checkedSub w.start removed)
  let stop ← Traced.ofEdit (Token.checkedSub w.stop removed)
  let s ← Traced.ofEdit (writeHead? u.stream i w c u.removed.isSome)
  let s ← leadWithConstructor s i start c
  let s ← Traced.ofEdit (adaptBetween? s start stop w c)
  Traced.tell (.classUnwrapped c.className w.path w.parent)
  return ⟨s, u.marked, true⟩

/-- Unwraps the class of one constructor.  Nothing happens when the constructor is gone or has no
wrapper around it. -/
def unwrap (s : TokenStream) (marked : MarkedLines) (c : Constructor) : Traced Unwrapped :=
  match s.indexOf? c.token with
  | none => return ⟨s, marked, false⟩
  | some i =>
    match locate? s i c with
    | none => do
      let opening ← Traced.ofEdit s[i]?
      Traced.tell (.wrapperMissing c.className opening.line)
      return ⟨s, marked, false⟩
    | some w => unwrapAt s marked c i w

/-- Unwraps the classes of several constructors, one after the other. -/
def unwrapAll (u : Unwrapped) : List Constructor → Traced Unwrapped
  | [] => return u
  | c :: cs => do
    let v ← unwrap u.stream u.marked c
    unwrapAll { v with modified := u.modified || v.modified } cs

/-- Runs the pass.  The constructors are found once, in the stream as it comes. -/
def run (w : Workspace) : Traced PassResult := do
  let u ← unwrapAll ⟨w.stream, w.marked, false⟩ (findConstructors w.stream)
  return ⟨{ w with stream := u.stream, marked := u.marked }, u.modified⟩

end ClosureReady.ClassWrapper
