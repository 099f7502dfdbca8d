import ClosureReady.Grammar.Function

/-!
Classes: decorators, the class head and its members.
-/

set_option autoImplicit false
set_option relaxedAutoImplicit false

namespace ClosureReady.Grammar

open Reader

/-- Reads decorators, as many as there are. -/
def decorators (deeper : Deeper) (c : Context) : Reader Unit :=
  deeper.repeated () fun _ => do
    if ← eatPunct "@" then
      let _ ← deeper.leftHandSide { c with decorator := true }
      return .inl ()
    return .inr ()

/-- Reads a word in front of a member that can also be the name of one.  It is a modifier if a key
or one of the given punctuators follows. -/
def memberModifier (word : String) (sameLine : Bool) (also : List String) : Reader Bool := do
  if ← atWord word then
    match ← next with
    | some (follows, newline) =>
      let marks := match follows with
        | .punct text => also.contains text
        | _ => false
      if (startsKey follows || marks) && !(sameLine && newline) then
        advance
        return true
      return false
    | none => return false
  return false

/-- Whether the key may name a method of a class with the given modifiers. -/
def allowsMethod (static : Bool) (key : Key) (m : Modifiers) : Bool :=
  match key with
  | .privateName text => text != "constructor"
  | key =>
    if static then !key.isNamed "prototype" else !(key.isNamed "constructor" && m.any)

/-- Whether the key may name a field of a class. -/
def allowsField (static : Bool) (key : Key) : Bool :=
  match key with
  | .privateName text => text != "constructor"
  | key => !key.isNamed "constructor" && !(static && key.isNamed "prototype")

/-- Reads a method or field after `static` and similar words. -/
def classMemberRest (deeper : Deeper) (c : Context) (static accessor : Bool) : Reader Unit := do
  let m ← modifiers
  let key ← propertyKey deeper c
  if !accessor && (← atPunct "(") then
    guard (allowsMethod static key m)
    methodRest deeper m.kind m.generator m.async
  else
    guard (!m.any && allowsField static key)
    let _ ← initializer deeper .field
    endStatement

/-- Reads one member of a class. -/
def classMember (deeper : Deeper) (c : Context) : Reader Unit := do
  decorators deeper c
  let static ← memberModifier "static" false ["*", "\x7b"]
  if static && (← atPunct "\x7b") then
    block deeper { Context.field with allowAwait := true }
  else
    let accessor ← memberModifier "accessor" true []
    classMemberRest deeper c static accessor

/-- Reads the members of a class after the opening brace. -/
def classBody (deeper : Deeper) (c : Context) : Reader Unit :=
  deeper.repeated () fun _ => do
    if ← eatPunct "\x7d" then return .inr ()
    if ← eatPunct ";" then return .inl ()
    classMember deeper c
    return .inl ()

/-- Reads a class from its keyword on and answers its name. -/
def classRest (deeper : Deeper) (c : Context) : Reader (Option String) := do
  expectWord "class"
  let named ←
    match ← current with
    | .word text escaped => pure (text != "extends" || escaped)
    | _ => pure false
  let name ← if named then some <$> identifier c else pure none
  if ← eatWord "extends" then
    let _ ← deeper.leftHandSide { c with decorator := false }
  expectPunct "\x7b"
  classBody deeper { c with decorator := false }
  return name

end ClosureReady.Grammar
