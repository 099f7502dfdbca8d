import ClosureReady.Grammar.Rule

/-!
Bindings and functions: binding patterns, parameter lists, function bodies, property keys and
methods.
-/

set_option autoImplicit false
set_option relaxedAutoImplicit false

namespace ClosureReady.Grammar

open Reader

/-- A name as written before a colon, a parenthesis or an initializer. -/
inductive Key
  | name (text : String) (escaped : Bool)
  | string (text : String)
  | privateName (text : String)
  | number
  | computed
  deriving DecidableEq, Repr, Inhabited

namespace Key

/-- Whether the key is a plain or quoted name with the given text. -/
def isNamed (key : Key) (text : String) : Bool :=
  match key with
  | name t _ => t == text
  | string t => t == text
  | _ => false

end Key

/-- Whether a lexeme can start a property key. -/
def startsKey : Lexeme → Bool
  | .word .. => true
  | .privateName _ => true
  | .number _ => true
  | .string => true
  | .punct text => text == "["
  | _ => false

/-- Reads a property key. -/
def propertyKey (deeper : Deeper) (c : Context) : Reader Key := do
  match ← current with
  | .word text escaped =>
    advance
    return .name text escaped
  | .privateName text =>
    advance
    return .privateName text
  | .string =>
    let text ← innerText
    literal .string
    return .string text
  | .number kind =>
    literal kind
    return .number
  | _ =>
    expectPunct "["
    let _ ← deeper.assignment c.withIn
    expectPunct "]"
    return .computed

/-- Reads a property key outside classes, where there are no private names. -/
def publicKey (deeper : Deeper) (c : Context) : Reader Key := do
  match ← propertyKey deeper c with
  | .privateName _ => failure
  | key => return key

/-- Reads an initializer, if there is one, and tells whether there was. -/
def initializer (deeper : Deeper) (c : Context) : Reader Bool := do
  if ← eatPunct "=" then
    let _ ← deeper.assignment c
    return true
  return false

/-- Reads one property of an object binding pattern and answers the names it binds. -/
def bindingProperty (deeper : Deeper) (c : Context) : Reader (List String) := do
  let key ← publicKey deeper c
  if ← eatPunct ":" then
    let bound ← deeper.binding c
    let _ ← initializer deeper c.withIn
    return bound.names
  match key with
  | .name text _ =>
    guard (isIdentifier c text)
    let _ ← initializer deeper c.withIn
    return [text]
  | _ => failure

/-- Reads an object binding pattern after its opening brace.  A rest element is a name and the last
one. -/
def objectBinding (deeper : Deeper) (c : Context) : Reader (List String) :=
  deeper.repeated [] fun names => do
    if ← eatPunct "\x7d" then return .inr names
    if ← eatPunct "..." then
      let name ← identifier c
      expectPunct "\x7d"
      return .inr (names ++ [name])
    let names := names ++ (← bindingProperty deeper c)
    if ← eatPunct "," then return .inl names
    expectPunct "\x7d"
    return .inr names

/-- Reads an array binding pattern after its opening bracket.  Elements may be left out. -/
def arrayBinding (deeper : Deeper) (c : Context) : Reader (List String) :=
  deeper.repeated [] fun names => do
    if ← eatPunct "]" then return .inr names
    if ← eatPunct "," then return .inl names
    if ← eatPunct "..." then
      let bound ← deeper.binding c
      expectPunct "]"
      return .inr (names ++ bound.names)
    let bound ← deeper.binding c
    let _ ← initializer deeper c.withIn
    let names := names ++ bound.names
    if ← eatPunct "," then return .inl names
    expectPunct "]"
    return .inr names

/-- Reads a binding: a name or a pattern. -/
def bindingRule (deeper : Deeper) (c : Context) : Reader Bound := do
  if ← eatPunct "\x7b" then return ⟨.pattern, ← objectBinding deeper c⟩
  if ← eatPunct "[" then return ⟨.pattern, ← arrayBinding deeper c⟩
  let name ← identifier c
  return ⟨.identifier name, [name]⟩

/-- What a parameter list holds. -/
structure Parameters where
  count : Nat
  hasRest : Bool
  deriving DecidableEq, Repr, Inhabited

/-- Reads a parameter list in parentheses.  A rest parameter is the last one. -/
def parameters (deeper : Deeper) (c : Context) : Reader Parameters := do
  expectPunct "("
  deeper.repeated (0 : Nat) fun count => do
    if ← eatPunct ")" then return .inr ⟨count, false⟩
    if ← eatPunct "..." then
      let _ ← deeper.binding c
      expectPunct ")"
      return .inr ⟨count, true⟩
    let _ ← deeper.binding c
    let _ ← initializer deeper c.withIn
    if ← eatPunct "," then return .inl (count + 1)
    expectPunct ")"
    return .inr ⟨count + 1, false⟩

/-- Reads the parameters and body of a function. -/
def functionRest (deeper : Deeper) (generator async : Bool) : Reader Parameters := do
  let inside := Context.function generator async
  let params ← parameters deeper { inside with allowReturn := false }
  block deeper inside
  return params

/-- Reads a function after an optional `async`.  A declaration needs a name and takes it from the
scope around it; the name of an expression belongs to the function. -/
def functionAfterAsync (deeper : Deeper) (c : Context) (async declaration nameRequired : Bool) :
    Reader (Bool × Option String) := do
  expectWord "function"
  let generator ← eatPunct "*"
  let nameContext :=
    if declaration then c else { c with allowYield := generator, allowAwait := async }
  let name ←
    match ← current with
    | .word .. => some <$> identifier nameContext
    | _ => do
      guard (!nameRequired)
      pure none
  let _ ← functionRest deeper generator async
  return (generator, name)

/-- What a method is. -/
inductive MethodKind
  | plain
  | getter
  | setter
  deriving DecidableEq, Repr, Inhabited

/-- Reads the parameters and body of a method.  A getter takes nothing, a setter one value. -/
def methodRest (deeper : Deeper) (kind : MethodKind) (generator async : Bool) : Reader Unit := do
  let params ← functionRest deeper generator async
  match kind with
  | .plain => return
  | .getter => guard (params.count == 0 && !params.hasRest)
  | .setter => guard (params.count == 1 && !params.hasRest)

/-- The words in front of a method that say what it is. -/
structure Modifiers where
  kind : MethodKind
  async : Bool
  generator : Bool
  deriving DecidableEq, Repr, Inhabited

/-- Whether the method is marked in any way. -/
def Modifiers.any (m : Modifiers) : Bool := m.kind != .plain || m.async || m.generator

/-- Reads the words and star in front of a property key.  A word is a modifier only if a key
follows; `async` only if it does so on the same line. -/
def modifiers : Reader Modifiers := do
  let follows ← next
  let keyFollows := (follows.map fun f => startsKey f.1).getD false
  if keyFollows && (← atWord "get") then
    advance
    return ⟨.getter, false, false⟩
  if keyFollows && (← atWord "set") then
    advance
    return ⟨.setter, false, false⟩
  let starFollows := (follows.map fun f => f.1 == .punct "*").getD false
  let sameLine := (follows.map fun f => !f.2).getD false
  let async ←
    if (keyFollows || starFollows) && sameLine then eatWord "async" else pure false
  let generator ← eatPunct "*"
  return ⟨.plain, async, generator⟩

end ClosureReady.Grammar
