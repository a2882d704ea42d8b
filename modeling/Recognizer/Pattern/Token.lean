import Recognizer.Text.Word

/-!
Pattern definitions cut into tokens, each with the place where it starts. Blanks
and plain comments separate tokens. A text with anything else in it has no tokens.
-/

namespace Recognizer.Pattern

inductive Token where
  | word (name : String)
  | literal (c : Char)
  | equals
  | semicolon
  | star
  | through
  | opening
  | closing
  deriving DecidableEq, Repr

/-- Lines count from 1, columns from 0 in characters. -/
structure Place where
  line : Nat
  column : Nat
  deriving DecidableEq, Repr

def Place.start : Place := ⟨1, 0⟩

def Place.step (place : Place) (c : Char) : Place :=
  if c = '\n' then ⟨place.line + 1, 0⟩ else ⟨place.line, place.column + 1⟩

structure PlacedToken where
  token : Token
  place : Place
  deriving DecidableEq, Repr

namespace Token

def isBlank (c : Char) : Bool :=
  let code := c.toNat
  (9 ≤ code && code ≤ 13) || code == 32 || code == 0x85 || code == 0xa0 || code == 0x1680
    || (0x2000 ≤ code && code ≤ 0x200a) || code == 0x200e || code == 0x200f
    || code == 0x2028 || code == 0x2029 || code == 0x202f || code == 0x205f || code == 0x3000

/-- Words with a meaning of their own, which name no pattern. -/
def reserved : List String :=
  ["_", "abstract", "as", "become", "box", "break", "const", "continue", "crate", "do", "else",
   "enum", "extern", "false", "final", "fn", "for", "if", "impl", "in", "let", "loop", "macro",
   "match", "mod", "move", "mut", "override", "priv", "pub", "ref", "return", "Self", "self",
   "static", "struct", "super", "trait", "true", "type", "typeof", "unsafe", "unsized", "use",
   "virtual", "where", "while", "yield"]

/-- Reserved even when marked with `r#`, which frees all the others. -/
def alwaysReserved : List String := ["_", "super", "self", "Self", "crate"]

def hexValue? (c : Char) : Option Nat :=
  if '0' ≤ c ∧ c ≤ '9' then some (c.toNat - 48)
  else if 'a' ≤ c ∧ c ≤ 'f' then some (c.toNat - 87)
  else if 'A' ≤ c ∧ c ≤ 'F' then some (c.toNat - 55)
  else none

def charOfCode? (code : Nat) : Option Char :=
  if code.isValidChar then some (Char.ofNat code) else none

/-- One to six digits up to the closing brace, where `_` may stand between and
after them. The number read is that of the characters taken, the brace included. -/
def codePoint (code digits taken : Nat) : List Char → Option (Char × Nat)
  | [] => none
  | c :: rest =>
      if c = '_' ∧ 0 < digits then codePoint code digits (taken + 1) rest
      else if c = '\x7d' ∧ 0 < digits then (charOfCode? code).map fun value => (value, taken + 1)
      else
        match hexValue? c with
        | none => none
        | some digit =>
            if digits = 6 then none
            else codePoint (code * 16 + digit) (digits + 1) (taken + 1) rest

def namedEscape? (c : Char) : Option Char :=
  if c = 'n' then some '\n'
  else if c = 'r' then some '\r'
  else if c = 't' then some '\t'
  else if c = '\\' then some '\\'
  else if c = '0' then some '\x00'
  else if c = '\'' then some '\''
  else if c = '"' then some '"'
  else none

/-- The character between two quotes, of which the first is already taken, with the
number of characters up to the second, which is not looked at. -/
def quoted? : List Char → Option (Char × Nat)
  | '\\' :: 'x' :: high :: low :: _ =>
      match hexValue? high, hexValue? low with
      | some high, some low => if high < 8 then some (Char.ofNat (high * 16 + low), 4) else none
      | _, _ => none
  | '\\' :: 'u' :: '\x7b' :: rest => codePoint 0 0 3 rest
  | '\\' :: c :: _ => (namedEscape? c).map fun value => (value, 2)
  | '\\' :: [] => none
  | c :: _ => some (c, 1)
  | [] => none

def wordLength (cs : List Char) : Nat :=
  (cs.takeWhile Word.isPart).length

/-- A word right after the second quote belongs to the literal and means nothing. -/
def suffixLength : List Char → Nat
  | [] => 0
  | c :: rest => if Word.isStart c then 1 + wordLength rest else 0

/-- A literal whose first quote is already taken, with the length of the rest of it. -/
def literal? (cs : List Char) : Option (Token × Nat) :=
  match quoted? cs with
  | none => none
  | some (value, length) =>
      match cs.drop length with
      | '\'' :: rest => some (.literal value, length + 1 + suffixLength rest)
      | _ => none

/-- The length of a comment inside which this many are open. Comments nest. -/
def blockLength : Nat → List Char → Option Nat
  | 0, _ => some 0
  | depth + 1, '*' :: '/' :: rest => (blockLength depth rest).map (· + 2)
  | depth + 1, '/' :: '*' :: rest => (blockLength (depth + 2) rest).map (· + 2)
  | depth + 1, _ :: rest => (blockLength (depth + 1) rest).map (· + 1)
  | _ + 1, [] => none

def lineLength (cs : List Char) : Nat :=
  (cs.takeWhile (· ≠ '\n')).length

/-- A comment whose first slash is already taken, with the length of the rest of it.
A comment that documents something is none. -/
def comment? : List Char → Option Nat
  | '/' :: '/' :: '/' :: rest => some (3 + lineLength rest)
  | '/' :: '/' :: _ => none
  | '/' :: '!' :: _ => none
  | '/' :: rest => some (1 + lineLength rest)
  | '*' :: '*' :: '/' :: _ => some 3
  | '*' :: '*' :: '*' :: rest => (blockLength 1 ('*' :: '*' :: rest)).map (· + 1)
  | '*' :: '*' :: _ => none
  | '*' :: '!' :: _ => none
  | '*' :: rest => (blockLength 1 rest).map (· + 1)
  | _ => none

def word? (c : Char) (rest : List Char) : Option (Token × Nat) :=
  match c, rest with
  | 'r', '#' :: first :: more =>
      if Word.isStart first then
        let length := wordLength more
        let name := String.ofList (first :: more.take length)
        if alwaysReserved.contains name then none else some (.word ("r#" ++ name), 2 + length)
      else none
  | _, _ =>
      if Word.isStart c then
        let length := wordLength rest
        let name := String.ofList (c :: rest.take length)
        if reserved.contains name then none else some (.word name, length)
      else none

/-- What starts with a character: a token or, as `none`, a separator, with the
number of further characters that belong to it. -/
def piece? (c : Char) (rest : List Char) : Option (Option Token × Nat) :=
  if isBlank c then some (none, 0)
  else if c = '/' then (comment? rest).map fun length => (none, length)
  else if c = '=' then some (some .equals, 0)
  else if c = ';' then some (some .semicolon, 0)
  else if c = '*' then some (some .star, 0)
  else if c = '[' then some (some .opening, 0)
  else if c = ']' then some (some .closing, 0)
  else if c = '.' then
    match rest with
    | '.' :: '=' :: _ => some (some .through, 2)
    | _ => none
  else if c = '\'' then (literal? rest).map fun found => (some found.1, found.2)
  else (word? c rest).map fun found => (some found.1, found.2)

def tokensFrom (place : Place) (cs : List Char) : Option (List PlacedToken) :=
  match cs with
  | [] => some []
  | c :: rest =>
      match piece? c rest with
      | none => none
      | some (token, length) =>
          let after := (c :: rest.take length).foldl Place.step place
          match tokensFrom after (rest.drop length) with
          | none => none
          | some tokens => some ((token.map fun token => ⟨token, place⟩).toList ++ tokens)
termination_by cs.length
decreasing_by simp only [List.length_cons, List.length_drop]; omega

/-- A byte order mark may come first. -/
def tokens (source : String) : Option (List PlacedToken) :=
  match source.toList with
  | '\ufeff' :: rest => tokensFrom (Place.start.step '\ufeff') rest
  | cs => tokensFrom Place.start cs

end Token

end Recognizer.Pattern
