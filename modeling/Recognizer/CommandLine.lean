import Recognizer.Report.Summary

/-!
The command line. Two options with a value, `--first` and `--rest`, may stand
before and after the command; flags and words stand after it. `--` ends the
options, a lone `-` is a word.
-/

namespace Recognizer.CommandLine

inductive Argument where
  | option (name value : String)
  | flag (name : String)
  | word (text : String)
  | afterDashes (text : String)
  deriving DecidableEq, Repr

inductive Command where
  | tree (drawn : Bool)
  | functions
  | automaton (drawn : Bool)
  | minimal (drawn : Bool)
  | simulate (words : List String) (minimized traced : Bool)
  | check (words : List String)
  deriving DecidableEq, Repr

structure Invocation where
  first : String
  rest : String
  command : Command
  deriving DecidableEq, Repr

inductive Outcome where
  | refused
  | failed (message : String)
  | printed (warning text : String)
  deriving DecidableEq, Repr

def valued : List String := ["first", "rest"]

def isWord (text : String) : Bool :=
  match text.toList with
  | '-' :: _ :: _ => false
  | _ => true

/-- The name and, behind an `=`, the value of an argument that starts with two hyphens. -/
def long? (text : String) : Option (String × Option String) :=
  match text.toList with
  | '-' :: '-' :: cs =>
      some (String.ofList (cs.takeWhile (· ≠ '=')),
        match cs.dropWhile (· ≠ '=') with
        | [] => none
        | _ :: value => some (String.ofList value))
  | _ => none

/-- Sorts out what every argument is; none if an option lacks its value, a flag has
one, or there is a short option. -/
def arguments : List String → Option (List Argument)
  | [] => some []
  | text :: rest =>
      if text = "--" then some (rest.map .afterDashes)
      else if isWord text then (arguments rest).map (.word text :: ·)
      else
        match long? text with
        | none => none
        | some (name, some value) =>
            if valued.contains name then (arguments rest).map (.option name value :: ·) else none
        | some (name, none) =>
            if valued.contains name then
              match rest with
              | [] => none
              | value :: rest =>
                  if isWord value then (arguments rest).map (.option name value :: ·) else none
            else (arguments rest).map (.flag name :: ·)

/-- What is given on one side of the command, each option and each flag once. -/
structure Given where
  options : List (String × String)
  flags : List String
  words : List String

namespace Given

def nothing : Given := ⟨[], [], []⟩

def value? (given : Given) (name : String) : Option String :=
  given.options.lookup name

def add (given : Given) : Argument → Option Given
  | .option name value =>
      if (given.value? name).isSome then none
      else some { given with options := given.options ++ [(name, value)] }
  | .flag name =>
      if given.flags.contains name then none
      else some { given with flags := given.flags ++ [name] }
  | .word text => some { given with words := given.words ++ [text] }
  | .afterDashes text => some { given with words := given.words ++ [text] }

def ofArguments (arguments : List Argument) : Option Given :=
  arguments.foldlM add nothing

/-- Only these flags, and no words. -/
def bare (given : Given) (flags : List String) : Bool :=
  given.words.isEmpty && given.flags.all flags.contains

/-- Only these flags, and at least a word. -/
def worded (given : Given) (flags : List String) : Bool :=
  !given.words.isEmpty && given.flags.all flags.contains

end Given

def command? (name : String) (given : Given) : Option Command :=
  if name = "tree" then
    if given.bare ["dot"] then some (.tree (given.flags.contains "dot")) else none
  else if name = "functions" then
    if given.bare [] then some .functions else none
  else if name = "dfa" then
    if given.bare ["dot"] then some (.automaton (given.flags.contains "dot")) else none
  else if name = "minimize" then
    if given.bare ["dot"] then some (.minimal (given.flags.contains "dot")) else none
  else if name = "simulate" then
    if given.worded ["minimized", "trace"] then
      some (.simulate given.words (given.flags.contains "minimized")
        (given.flags.contains "trace"))
    else none
  else if name = "check" then
    if given.worded [] then some (.check given.words) else none
  else none

def defaultFirst : String := "A-Za-z_"

def defaultRest : String := "A-Za-z_0-9"

/-- Before the command only options may stand. An option that is given on both
sides of it counts as given after it. -/
def invocation? (texts : List String) : Option Invocation := do
  let arguments ← arguments texts
  let isOption : Argument → Bool := fun
    | .option _ _ => true
    | _ => false
  let before ← Given.ofArguments (arguments.takeWhile isOption)
  match arguments.dropWhile isOption with
  | .word name :: rest =>
      let after ← Given.ofArguments rest
      let command ← command? name after
      let setting := fun name default =>
        ((after.value? name).or (before.value? name)).getD default
      return ⟨setting "first" defaultFirst, setting "rest" defaultRest, command⟩
  | _ => none

def failure (failure : Failure) : String :=
  match failure.context with
  | none => "Error: " ++ failure.cause.message ++ "\n"
  | some context =>
      "Error: " ++ context ++ "\n\nCaused by:\n    " ++ failure.cause.message ++ "\n"

/-- The text of a command on the tree of the two classes. -/
def Command.report (tree : Tree) : Command → Except Cause String
  | .tree drawn => .ok (Report.onTree tree drawn)
  | .functions => .ok (Report.onFunctions tree)
  | .automaton drawn => Report.onAutomaton tree drawn
  | .minimal drawn => Report.onMinimal tree drawn
  | .simulate words minimized traced => Report.onWords tree words minimized traced
  | .check words => .ok (Report.onIdentifiers words)

def warning (invocation : Invocation) : String :=
  if invocation.first = defaultFirst ∧ invocation.rest = defaultRest then ""
  else
    "Warning: check always uses the built-in Java identifier pattern, "
      ++ "--first and --rest are ignored\n"

/-- A check needs no tree, so classes that are no classes do not disturb it. -/
def Invocation.outcome (invocation : Invocation) : Outcome :=
  match invocation.command with
  | .check words => .printed (warning invocation) (Report.onIdentifiers words)
  | command =>
      let text := do
        let tree ← identifierTree invocation.first invocation.rest
        Failure.plain (command.report tree)
      match text with
      | .ok text => .printed "" text
      | .error found => .failed (failure found)

def run (texts : List String) : Outcome :=
  match invocation? texts with
  | none => .refused
  | some invocation => invocation.outcome

end Recognizer.CommandLine
