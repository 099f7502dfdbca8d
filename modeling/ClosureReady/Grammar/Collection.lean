import ClosureReady.Grammar.Function

/-!
Array and object literals.  While they are read it is not known whether they will turn out to be
assignment patterns, so each keeps track of whether it could be one.
-/

set_option autoImplicit false
set_option relaxedAutoImplicit false

namespace ClosureReady.Grammar

open Reader

/-- What is known of a literal so far: whether it can be a pattern, and how many shorthand
initializers that accounts for. -/
structure Elements where
  isPattern : Bool
  pending : Nat
  deriving DecidableEq, Repr, Inhabited

namespace Elements

/-- A literal without elements, which is also a pattern. -/
def none : Elements := ⟨true, 0⟩

/-- Takes in an element that is a target with some initializers, or no target. -/
def add (e : Elements) (target : Option Nat) : Elements :=
  match target with
  | some n => ⟨e.isPattern, e.pending + n⟩
  | .none => ⟨false, e.pending⟩

/-- What the whole literal is. -/
def shape (e : Elements) : Shape := .collection e.isPattern e.pending

end Elements

/-- Reads an array literal after its opening bracket.  A spread element makes a pattern only as the
last element, without a comma after it. -/
def arrayLiteral (deeper : Deeper) (c : Context) : Reader Shape :=
  deeper.repeated Elements.none fun e => do
    if ← eatPunct "]" then return .inr e.shape
    if ← eatPunct "," then return .inl e
    let spread ← eatPunct "..."
    let value ← deeper.assignment c.withIn
    if ← eatPunct "," then
      return .inl (e.add (if spread then none else value.element?))
    expectPunct "]"
    return .inr (e.add (if spread then value.target? else value.element?)).shape

/-- Reads what follows a property key without modifiers and answers whether the property is a
target. -/
def propertyValue (deeper : Deeper) (c : Context) (key : Key) : Reader (Option Nat) := do
  if ← eatPunct ":" then
    let value ← deeper.assignment c.withIn
    return value.element?
  match key with
  | .name text _ =>
    guard (isIdentifier c text)
    if ← eatPunct "=" then
      let _ ← deeper.assignment c.withIn
      modify fun s => { s with pending := s.pending + 1 }
      return some 1
    return some 0
  | _ => failure

/-- Reads one property of an object literal and answers whether it is a target. -/
def property (deeper : Deeper) (c : Context) : Reader (Option Nat) := do
  let m ← modifiers
  let key ← publicKey deeper c
  if ← atPunct "(" then
    methodRest deeper m.kind m.generator m.async
    return none
  guard (!m.any)
  propertyValue deeper c key

/-- Whether the target of a rest property is allowed: it may not be a pattern itself. -/
def restTarget? (shape : Shape) : Option Nat :=
  if shape.isPlace then some 0 else none

/-- Reads an object literal after its opening brace. -/
def objectLiteral (deeper : Deeper) (c : Context) : Reader Shape :=
  deeper.repeated Elements.none fun e => do
    if ← eatPunct "\x7d" then return .inr e.shape
    let spread ← eatPunct "..."
    let target ←
      if spread then restTarget? <$> deeper.assignment c.withIn else property deeper c
    if ← eatPunct "," then return .inl (e.add (if spread then none else target))
    expectPunct "\x7d"
    return .inr (e.add target).shape

end ClosureReady.Grammar
