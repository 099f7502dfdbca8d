/-!
The helper functions that are declared once per file, and what their uses stand for in the Closure
Library.
-/

set_option autoImplicit false
set_option relaxedAutoImplicit false

namespace ClosureReady

/-- The helpers declared at the top of a file. -/
def injectedHelpers : List String := ["__hasProp", "__extends", "__slice", "__bind", "__indexOf"]

/-- Whether a name is that of a helper. -/
def isInjectedHelper (name : String) : Bool := injectedHelpers.contains name

/-- What a name is replaced by, how many of the tokens after it are blanked out (such as the `.call`
of `__slice.call`), and whether the replacement is part of the array library. -/
structure HelperAlias where
  name : String
  replacement : String
  eraseFollowing : Nat
  requiresArrayLibrary : Bool
  deriving DecidableEq, Repr, Inhabited

/-- The replacements. -/
def helperAliases : List HelperAlias :=
  [⟨"__bind", "goog.bind", 0, false⟩,
   ⟨"__indexOf", "goog.array.indexOf", 2, true⟩,
   ⟨"__slice", "goog.array.slice", 2, true⟩,
   ⟨"__super__", "superClass_", 0, false⟩,
   ⟨"__extends", "goog.inherits", 0, false⟩]

/-- The replacement of a name, if it has one. -/
def helperAlias? (name : String) : Option HelperAlias :=
  helperAliases.find? fun a => a.name == name

end ClosureReady
