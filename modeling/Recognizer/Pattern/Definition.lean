import Recognizer.CharacterClass.Basic
import Recognizer.Pattern.Token

/-!
Pattern definitions. A definition is a name, `=`, terms and `;`. A term is a
literal or a class in brackets, and `*` after it makes it repeat. A class holds
literals and ranges of two literals with `..=` between them.
-/

namespace Recognizer.Pattern

open CharacterClass (Item)

inductive Body where
  | literal (c : Char)
  | bracketed (items : List Item)
  deriving DecidableEq, Repr

structure Term where
  body : Body
  repeated : Bool
  place : Place
  deriving DecidableEq, Repr

structure Definition where
  name : String
  terms : List Term
  place : Place
  deriving DecidableEq, Repr

namespace Definition

/-- A definition whose last terms are still to be read. -/
structure Open where
  name : String
  place : Place
  terms : List Term

def Open.add (definition : Open) (body : Body) (repeated : Bool) (place : Place) : Open :=
  { definition with terms := definition.terms ++ [⟨body, repeated, place⟩] }

def Open.close (definition : Open) : Definition :=
  ⟨definition.name, definition.terms, definition.place⟩

mutual

/-- Reads definitions up to the end. -/
def parse : List PlacedToken → Option (List Definition)
  | [] => some []
  | ⟨.word name, place⟩ :: ⟨.equals, _⟩ :: rest => parseTerms ⟨name, place, []⟩ rest
  | _ => none

def parseTerms (definition : Open) : List PlacedToken → Option (List Definition)
  | ⟨.semicolon, _⟩ :: rest => (parse rest).map (definition.close :: ·)
  | ⟨.literal c, place⟩ :: ⟨.star, _⟩ :: rest =>
      parseTerms (definition.add (.literal c) true place) rest
  | ⟨.literal c, place⟩ :: rest => parseTerms (definition.add (.literal c) false place) rest
  | ⟨.opening, place⟩ :: rest => parseItems definition place [] rest
  | _ => none

/-- Reads the rest of a class that started at a place. -/
def parseItems (definition : Open) (place : Place) (items : List Item) :
    List PlacedToken → Option (List Definition)
  | ⟨.closing, _⟩ :: ⟨.star, _⟩ :: rest =>
      parseTerms (definition.add (.bracketed items) true place) rest
  | ⟨.closing, _⟩ :: rest => parseTerms (definition.add (.bracketed items) false place) rest
  | ⟨.literal low, _⟩ :: ⟨.through, _⟩ :: ⟨.literal high, _⟩ :: rest =>
      parseItems definition place (items ++ [.range low high]) rest
  | ⟨.literal c, _⟩ :: rest => parseItems definition place (items ++ [.single c]) rest
  | _ => none

end

def ofSource (source : String) : Option (List Definition) :=
  (Token.tokens source).bind parse

end Definition

end Recognizer.Pattern
