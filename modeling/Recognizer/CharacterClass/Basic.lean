import Recognizer.CharacterClass.Span
import Recognizer.Symbol

/-!
Character classes: distinct input symbols in the order in which they came. The
order decides which leaf of a tree gets which position. In the text of a class
`x-y` is a range with both ends, anything else stands for itself, so does a hyphen
at an edge. Written back, three or more characters in a row become a range.
-/

namespace Recognizer

structure CharacterClass where
  symbols : List Symbol
  distinct : symbols.Nodup

namespace CharacterClass

def empty : CharacterClass := ⟨[], List.nodup_nil⟩

def chars (cls : CharacterClass) : List Char :=
  cls.symbols.map Symbol.char

/-- A symbol that is already a member keeps its place. -/
def insert (cls : CharacterClass) (symbol : Symbol) : CharacterClass :=
  if member : symbol ∈ cls.symbols then cls
  else
    { symbols := cls.symbols ++ [symbol]
      distinct := by
        rw [List.nodup_append]
        exact ⟨cls.distinct, by simp, fun a inside b last => by
          rw [List.mem_singleton.mp last]
          exact fun same => member (same ▸ inside)⟩ }

def insertAll (cls : CharacterClass) (symbols : List Symbol) : CharacterClass :=
  symbols.foldl insert cls

def addChar (cls : CharacterClass) (c : Char) : Except Cause CharacterClass := do
  let symbol ← Symbol.ofChar c
  return cls.insert symbol

def addChars (cls : CharacterClass) (cs : List Char) : Except Cause CharacterClass :=
  cs.foldlM addChar cls

/-- Both ends are looked at before their order, and each character between them
once more, for a range may run across the end marker. -/
def addRange (cls : CharacterClass) (low high : Char) : Except Cause CharacterClass := do
  let first ← Symbol.ofChar low
  let last ← Symbol.ofChar high
  if ordered : first.char ≤ last.char then
    cls.addChars ((Span.between first.char last.char ordered last.ascii).drain Span.front).1
  else .error (.reversedRange low high)

def ofRanges (ranges : List (Char × Char)) : Except Cause CharacterClass :=
  ranges.foldlM (fun cls ends => cls.addRange ends.1 ends.2) empty

def contains (cls : CharacterClass) (c : Char) : Bool :=
  cls.chars.contains c

/-- The symbols from one end to the other, both included. -/
def symbolsBetween (low high : Char) (ordered : low ≤ high) (ascii : high.toNat < 128) :
    List Symbol :=
  ((Span.between low high ordered ascii).drain Span.front).1.filterMap fun c =>
    (Symbol.ofChar c).toOption

/-- Letters and `_`. -/
def identifierStart : CharacterClass :=
  empty.insertAll
    (symbolsBetween 'A' 'Z' (by decide) (by decide)
      ++ symbolsBetween 'a' 'z' (by decide) (by decide)
      ++ symbolsBetween '_' '_' (by decide) (by decide))

/-- Letters, `_` and digits. -/
def identifierPart : CharacterClass :=
  identifierStart.insertAll (symbolsBetween '0' '9' (by decide) (by decide))

inductive Item where
  | single (c : Char)
  | range (low high : Char)
  deriving DecidableEq, Repr

def Item.addTo (cls : CharacterClass) : Item → Except Cause CharacterClass
  | .single c => cls.addChar c
  | .range low high => cls.addRange low high

def ofItems (items : List Item) : Except Cause CharacterClass :=
  items.foldlM Item.addTo empty

def items : List Char → List Item
  | low :: '-' :: high :: rest => .range low high :: items rest
  | c :: rest => .single c :: items rest
  | [] => []

def ofText (text : String) : Except Cause CharacterClass :=
  match items text.toList with
  | [] => .error .emptyClass
  | item :: rest => ofItems (item :: rest)

def consecutive (earlier later : Char) : Bool :=
  earlier.toNat + 1 == later.toNat

def runText (run : List Char) : List Char :=
  match run with
  | first :: _ :: last :: rest => [first, '-', (last :: rest).getLast (by simp)]
  | _ => run

def toText (cls : CharacterClass) : String :=
  String.ofList ((cls.chars.splitBy consecutive).flatMap runText)

end CharacterClass

end Recognizer
