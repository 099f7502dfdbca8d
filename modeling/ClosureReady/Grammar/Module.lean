import ClosureReady.Grammar.Class

/-!
Imports and the parts of exports that stand in braces.  They are accepted wherever a statement is.
-/

set_option autoImplicit false
set_option relaxedAutoImplicit false

namespace ClosureReady.Grammar

open Reader

/-- Adds exported names to those known, or fails if one is exported twice. -/
def addExports? (exported : List String) : List String → Option (List String)
  | [] => some exported
  | name :: names =>
    if exported.contains name then none else addExports? (name :: exported) names

/-- Notes exported names; each may be exported once. -/
def noteExports (names : List String) : Reader Unit := fun s =>
  (addExports? s.exported names).map fun exported => ((), { s with exported })

/-- A name in an import or export list. -/
structure ModuleName where
  text : String
  quoted : Bool
  deriving DecidableEq, Repr, Inhabited

/-- Reads a name in an import or export list, which may be quoted. -/
def moduleName : Reader ModuleName := do
  match ← current with
  | .string =>
    let text ← innerText
    literal .string
    return ⟨text, true⟩
  | _ => return ⟨← anyWord, false⟩

/-- Reads the name of a module. -/
def moduleSource : Reader Unit := do
  match ← current with
  | .string => literal .string
  | _ => failure

/-- Reads the attributes of an import or export, if there are any. -/
def attributes (deeper : Deeper) : Reader Unit := do
  let given ←
    if ← eatWord "with" then pure true
    else if !(← onNewLine) then eatWord "assert"
    else pure false
  if given then
    expectPunct "\x7b"
    deeper.repeated () fun _ => do
      if ← eatPunct "\x7d" then return .inr ()
      let _ ← moduleName
      expectPunct ":"
      moduleSource
      if ← eatPunct "," then return .inl ()
      expectPunct "\x7d"
      return .inr ()

/-- Reads one name to import, with the name it is bound to. -/
def importSpecifier (c : Context) : Reader Unit := do
  let imported ← moduleName
  if ← eatWord "as" then
    let _ ← identifier c
  else guard (!imported.quoted && isIdentifier c imported.text)

/-- Reads the names to import after the opening brace. -/
def importSpecifiers (deeper : Deeper) (c : Context) : Reader Unit :=
  deeper.repeated () fun _ => do
    if ← eatPunct "\x7d" then return .inr ()
    importSpecifier c
    if ← eatPunct "," then return .inl ()
    expectPunct "\x7d"
    return .inr ()

/-- Reads a namespace to import or a list of names. -/
def importNames (deeper : Deeper) (c : Context) : Reader Unit := do
  if ← eatPunct "*" then
    expectWord "as"
    let _ ← identifier c
  else
    expectPunct "\x7b"
    importSpecifiers deeper c

/-- Reads an import declaration. -/
def importDeclaration (deeper : Deeper) (c : Context) : Reader Unit := do
  expectWord "import"
  match ← current with
  | .string => moduleSource
  | .word .. =>
    let _ ← identifier c
    if ← eatPunct "," then importNames deeper c
    expectWord "from"
    moduleSource
  | _ =>
    importNames deeper c
    expectWord "from"
    moduleSource
  attributes deeper
  endStatement

/-- What a list of names to export holds: the exported names, and whether each local name could be
that of a variable. -/
structure ExportList where
  names : List String
  allLocal : Bool
  deriving DecidableEq, Repr, Inhabited

/-- Reads the names to export after the opening brace. -/
def exportSpecifiers (deeper : Deeper) (c : Context) : Reader ExportList :=
  deeper.repeated ⟨[], true⟩ fun list => do
    if ← eatPunct "\x7d" then return .inr list
    let inner ← moduleName
    let outer ← if ← eatWord "as" then moduleName else pure inner
    let isLocal := !inner.quoted && isIdentifier c inner.text
    let list := ⟨list.names ++ [outer.text], list.allLocal && isLocal⟩
    if ← eatPunct "," then return .inl list
    expectPunct "\x7d"
    return .inr list

/-- Reads a list of names to export, which come from another module if one is named. -/
def exportList (deeper : Deeper) (c : Context) : Reader Unit := do
  expectPunct "\x7b"
  let list ← exportSpecifiers deeper c
  if ← eatWord "from" then
    moduleSource
    attributes deeper
  else guard list.allLocal
  noteExports list.names
  endStatement

/-- Reads the export of everything another module exports. -/
def exportAll (deeper : Deeper) : Reader Unit := do
  expectPunct "*"
  if ← eatWord "as" then
    let name ← moduleName
    noteExports [name.text]
  expectWord "from"
  moduleSource
  attributes deeper
  endStatement

end ClosureReady.Grammar
