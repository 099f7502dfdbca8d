/-!
The arguments of the command line: one input, flags that may not repeat, and an output option whose
value may be left out.
-/

set_option autoImplicit false
set_option relaxedAutoImplicit false

namespace ClosureReady.CommandLine

/-- What the arguments ask for. -/
structure Invocation where
  input : String
  quiet : Bool
  verbose : Bool
  noHeader : Bool
  /-- The value of the output option, if the option is given; without a value it is empty. -/
  output : Option String
  deriving DecidableEq, Repr, Inhabited

/-- What has been read of the arguments. -/
structure Draft where
  input : Option String
  quiet : Bool
  verbose : Bool
  noHeader : Bool
  output : Option String
  deriving DecidableEq, Repr, Inhabited

namespace Draft

/-- Nothing read yet. -/
def empty : Draft := ⟨none, false, false, false, none⟩

/-- Takes the input, of which there is one. -/
def setInput? (d : Draft) (value : String) : Option Draft :=
  if d.input.isSome || value == "" then none else some { d with input := some value }

/-- Takes the output option, which is given once. -/
def setOutput? (d : Draft) (value : String) : Option Draft :=
  if d.output.isSome then none else some { d with output := some value }

/-- Turns on a flag given by its long name. -/
def setLongFlag? (d : Draft) (name : String) : Option Draft :=
  if name == "quiet" then if d.quiet then none else some { d with quiet := true }
  else if name == "verbose" then if d.verbose then none else some { d with verbose := true }
  else if name == "no-header" then if d.noHeader then none else some { d with noHeader := true }
  else none

/-- Turns on a flag given by its letter. -/
def setShortFlag? (d : Draft) (letter : Char) : Option Draft :=
  if letter == 'q' then d.setLongFlag? "quiet"
  else if letter == 'v' then d.setLongFlag? "verbose"
  else none

/-- What the arguments ask for, if the input is there and the flags do not exclude each other. -/
def finish? (d : Draft) : Option Invocation :=
  match d.input with
  | none => none
  | some input =>
    if d.quiet && d.verbose then none
    else some ⟨input, d.quiet, d.verbose, d.noHeader, d.output⟩

end Draft

/-- Whether an argument can be the value of an option that stands before it: it does not look like
an option itself. -/
def isValue (argument : String) : Bool :=
  match argument.toList with
  | ['-'] => true
  | '-' :: _ => false
  | _ => true

/-- What one argument leaves: the draft, and whether the output option still waits for its value. -/
structure Reading where
  draft : Draft
  wantsValue : Bool
  deriving DecidableEq, Repr, Inhabited

/-- Reads letters that stand together behind one dash.  What follows the output letter is its
value, with or without an equals sign. -/
def readLetters? (d : Draft) : List Char → Option Reading
  | [] => some ⟨d, false⟩
  | 'o' :: [] => some ⟨d, true⟩
  | 'o' :: '=' :: value => (d.setOutput? (String.ofList value)).map (⟨·, false⟩)
  | 'o' :: value => (d.setOutput? (String.ofList value)).map (⟨·, false⟩)
  | letter :: rest => (d.setShortFlag? letter).bind (readLetters? · rest)

/-- Reads an option given by its long name. -/
def readLong? (d : Draft) (text : List Char) : Option Reading :=
  let name := String.ofList (text.takeWhile (· != '='))
  match text.dropWhile (· != '=') with
  | [] => if name == "output" then some ⟨d, true⟩ else (d.setLongFlag? name).map (⟨·, false⟩)
  | _ :: value =>
    if name == "output" then (d.setOutput? (String.ofList value)).map (⟨·, false⟩) else none

/-- Reads the arguments from left to right.  After two dashes alone, all are inputs. -/
def readArguments? (d : Draft) (wantsValue onlyInputs : Bool) : List String → Option Draft
  | [] => if wantsValue then d.setOutput? "" else some d
  | argument :: rest =>
    if onlyInputs then (d.setInput? argument).bind (readArguments? · false true rest)
    else if wantsValue && isValue argument then
      (d.setOutput? argument).bind (readArguments? · false false rest)
    else
      match if wantsValue then d.setOutput? "" else some d with
      | none => none
      | some d =>
        match argument.toList with
        | ['-', '-'] => readArguments? d false true rest
        | '-' :: '-' :: text =>
          (readLong? d text).bind fun r => readArguments? r.draft r.wantsValue false rest
        | '-' :: letter :: letters =>
          (readLetters? d (letter :: letters)).bind fun r =>
            readArguments? r.draft r.wantsValue false rest
        | _ => (d.setInput? argument).bind (readArguments? · false false rest)

/-- What the arguments ask for, or nothing if they are not in order. -/
def Invocation.ofArguments? (arguments : List String) : Option Invocation :=
  (readArguments? .empty false false arguments).bind Draft.finish?

end ClosureReady.CommandLine
