import Recognizer.Cause

/-!
Input symbols: the first 128 characters without the end marker, which closes a
pattern and is never read.
-/

namespace Recognizer

def endMarker : Char := '#'

structure Symbol where
  char : Char
  unmarked : char ≠ endMarker
  ascii : char.toNat < 128
  deriving DecidableEq

namespace Symbol

def ofChar (c : Char) : Except Cause Symbol :=
  if marked : c = endMarker then .error .markAsInput
  else if ascii : c.toNat < 128 then .ok ⟨c, marked, ascii⟩
  else .error (.notAscii c)

theorem char_injective {a b : Symbol} (same : a.char = b.char) : a = b := by
  cases a
  cases b
  cases same
  rfl

end Symbol

end Recognizer
