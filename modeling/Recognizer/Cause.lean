import Recognizer.Text.Layout

/-!
Everything that can go wrong on the way from a character class or a tree to an
automaton and its table, and how each cause is worded. A failure is a cause
together with what was being done when it came up.
-/

namespace Recognizer

inductive Cause where
  | markAsInput
  | notAscii (symbol : Char)
  | reversedRange (low high : Char)
  | emptyClass
  | emptyUnion
  | sharedPosition (position : Nat) (earlier later : Char)
  | sparsePosition (found expected : Nat)
  | noEndMarker
  | severalEndMarkers (count : Nat)
  | noStates
  | foreignStart
  | noStartState
  | unsortedAlphabet
  | wrongTransitionCount (expected found : Nat)
  | unknownTarget
  deriving DecidableEq, Repr

namespace Cause

/-- An argument is something a caller supplied, a state is an automaton or a
table that cannot be used as it is. -/
inductive Kind where
  | argument
  | endMarker
  | state
  deriving DecidableEq, Repr

def kind : Cause → Kind
  | markAsInput | notAscii _ | reversedRange _ _ | emptyClass | emptyUnion
  | sharedPosition _ _ _ | sparsePosition _ _ | severalEndMarkers _ => .argument
  | noEndMarker => .endMarker
  | noStates | foreignStart | noStartState | unsortedAlphabet
  | wrongTransitionCount _ _ | unknownTarget => .state

def detail : Cause → String
  | markAsInput => "the end marker " ++ Quoted.char '#' ++ " can't be used as input"
  | notAscii symbol => "non ASCII symbol " ++ Quoted.char symbol
  | reversedRange low high => "reversed range " ++ Quoted.char low ++ "-" ++ Quoted.char high
  | emptyClass => "empty character class"
  | emptyUnion => "cannot build a union of zero alternatives"
  | sharedPosition position earlier later =>
      "position " ++ toString position ++ " is used by both " ++ Quoted.char earlier ++ " and "
        ++ Quoted.char later
  | sparsePosition found expected =>
      "positions must be dense from 1, found " ++ toString found ++ " where " ++ toString expected
        ++ " was expected"
  | noEndMarker => "no leaf carries the end marker"
  | severalEndMarkers count => "the end marker appears " ++ toString count ++ " times"
  | noStates => "cannot minimize an automaton without states"
  | foreignStart => "the start state is not a state of the automaton"
  | noStartState => "a table needs at least the start state"
  | unsortedAlphabet => "the alphabet must be sorted and without duplicates"
  | wrongTransitionCount expected found =>
      "expected " ++ toString expected ++ " transitions, found " ++ toString found
  | unknownTarget => "transition to an unknown state"

def message (cause : Cause) : String :=
  match cause.kind with
  | .argument => "invalid argument: " ++ cause.detail
  | .endMarker => cause.detail
  | .state => "invalid state: " ++ cause.detail

end Cause

structure Failure where
  context : Option String
  cause : Cause
  deriving DecidableEq, Repr

namespace Failure

def during {α : Type} (context : String) : Except Cause α → Except Failure α
  | .ok value => .ok value
  | .error cause => .error ⟨some context, cause⟩

def plain {α : Type} : Except Cause α → Except Failure α
  | .ok value => .ok value
  | .error cause => .error ⟨none, cause⟩

/-- The outermost text first. -/
def texts (failure : Failure) : List String :=
  failure.context.toList ++ [failure.cause.message]

end Failure

end Recognizer
