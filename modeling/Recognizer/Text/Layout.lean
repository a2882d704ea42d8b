import Recognizer.Text.Printable

/-!
Laying out text: blanks, alignment within a width and texts joined end to end.
A width is a minimum, a longer text stays whole. In quoted characters and texts five
control characters have names, the enclosing mark and the backslash are escaped, and
what cannot be shown is written by its code point.
-/

namespace Recognizer

namespace Layout

def blanks (count : Nat) : String :=
  String.ofList (List.replicate count ' ')

def alignLeft (width : Nat) (text : String) : String :=
  text ++ blanks (width - text.length)

/-- An odd blank goes to the right. -/
def centre (width : Nat) (text : String) : String :=
  let spare := width - text.length
  blanks (spare / 2) ++ text ++ blanks (spare - spare / 2)

def joined : List String → String
  | [] => ""
  | text :: rest => text ++ joined rest

def line (text : String) : String := text ++ "\n"

def lines (texts : List String) : String :=
  joined (texts.map line)

def truth (value : Bool) : String := if value then "true" else "false"

def verdict (accepted : Bool) : String := if accepted then "accepted" else "rejected"

end Layout

namespace Quoted

open Printable Layout

/-- Lower case, no leading zeros. -/
def hexadecimal (n : Nat) : String :=
  String.ofList (Nat.toDigits 16 n)

def escape (mark c : Char) : String :=
  if c = '\x00' then "\\0"
  else if c = '\t' then "\\t"
  else if c = '\r' then "\\r"
  else if c = '\n' then "\\n"
  else if c = '\\' ∨ c = mark then String.ofList ['\\', c]
  else if isPrintable c then String.ofList [c]
  else "\\u\x7b" ++ hexadecimal c.toNat ++ "\x7d"

def char (c : Char) : String :=
  "'" ++ escape '\'' c ++ "'"

def text (s : String) : String :=
  "\"" ++ joined (s.toList.map (escape '"')) ++ "\""

end Quoted

end Recognizer
