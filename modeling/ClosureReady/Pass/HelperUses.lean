import ClosureReady.Pass.Helper
import ClosureReady.Pass.Workspace

/-!
The fourth pass: it points the remaining uses of helpers at their replacements.  A match may blank
out tokens after it, which then can match no more; so the tokens are taken from left to right with
the number of tokens still to be blanked.
-/

set_option autoImplicit false
set_option relaxedAutoImplicit false

namespace ClosureReady.HelperUses

/-- The replacement for a token, if it is an identifier that has one. -/
def aliasOf? (t : Token) : Option HelperAlias :=
  if t.kind == .identifier then helperAlias? t.value else none

/-- The token that stands for a helper from now on. -/
def resolve (t : Token) (a : HelperAlias) : Token :=
  { t with kind := .resolved, value := a.replacement }

/-- What the pass finds: the new tokens, and each token that was matched with its replacement. -/
structure Resolution where
  tokens : List Token
  found : List (Token × HelperAlias)
  deriving DecidableEq, Repr, Inhabited

/-- Replaces helpers from left to right; `blank` tokens are still to be blanked out. -/
def resolveFrom : (blank : Nat) → List Token → Resolution
  | _, [] => ⟨[], []⟩
  | blank + 1, t :: rest =>
    let r := resolveFrom blank rest
    ⟨t.withValue "" :: r.tokens, r.found⟩
  | 0, t :: rest =>
    match aliasOf? t with
    | none =>
      let r := resolveFrom 0 rest
      ⟨t :: r.tokens, r.found⟩
    | some a =>
      let r := resolveFrom a.eraseFollowing rest
      ⟨resolve t a :: r.tokens, (t, a) :: r.found⟩

/-- Runs the pass. -/
def run (w : Workspace) : Traced PassResult :=
  let r := resolveFrom 0 w.stream
  let requires := w.requiresArrayLibrary || r.found.any fun f => f.2.requiresArrayLibrary
  ⟨r.found.map fun f => .helperAliased f.2.name f.1.line,
   .ok ⟨{ w with stream := r.tokens, requiresArrayLibrary := requires }, !r.found.isEmpty⟩⟩

end ClosureReady.HelperUses
