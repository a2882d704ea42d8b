import Mathlib.Data.List.Basic
import Recognizer.Pattern.Token
import Recognizer.Text.Layout

/-!
Quoted characters as literals. The reader of literals takes the text of a quoted character
back to that character, whichever way it was escaped, and stops right behind the second
quote unless a word goes on there.
-/

namespace Recognizer

namespace Word

theorem isPart_of_isStart {c : Char} (start : isStart c = true) : isPart c = true := by
  unfold isStart at start
  unfold isPart
  split at start
  · rename_i low
    rw [if_pos low, Char.isAlphanum, Bool.or_assoc, Bool.or_comm c.isDigit, ← Bool.or_assoc,
      start, Bool.true_or]
  · rename_i high
    rw [if_neg high, start, Bool.true_or]

theorem isPart_of_isDigit {c : Char} (digit : c.isDigit = true) : isPart c = true := by
  have low : c.toNat < 128 := by
    have bounds := Char.isDigit_iff_toNat.mp digit
    exact Nat.lt_of_le_of_lt bounds.2 (by decide)
  rw [isPart, if_pos low, Char.isAlphanum, digit, Bool.or_true, Bool.true_or]

theorem toNat_of_isAlpha {c : Char} (letter : c.isAlpha = true) :
    65 ≤ c.toNat ∧ c.toNat ≤ 90 ∨ 97 ≤ c.toNat ∧ c.toNat ≤ 122 := by
  rcases (Bool.or_eq_true _ _).mp letter with upper | lower
  · have between : 'A'.val ≤ c.val ∧ c.val ≤ 'Z'.val := of_decide_eq_true upper
    exact Or.inl (between.imp UInt32.le_iff_toNat_le.mp UInt32.le_iff_toNat_le.mp)
  · have between : (decide ('a'.val ≤ c.val) && decide (c.val ≤ 'z'.val)) = true := lower
    rw [Bool.and_eq_true, decide_eq_true_eq, decide_eq_true_eq] at between
    exact Or.inr (between.imp UInt32.le_iff_toNat_le.mp UInt32.le_iff_toNat_le.mp)

theorem isStart_of_isAlpha {c : Char} (letter : c.isAlpha = true) : isStart c = true := by
  have bounds := toNat_of_isAlpha letter
  have low : c.toNat < 128 := by omega
  rw [isStart, if_pos low, letter, Bool.true_or]

theorem isDigit_of_isAlpha {c : Char} (letter : c.isAlpha = true) : c.isDigit = false := by
  have bounds := toNat_of_isAlpha letter
  by_contra digit
  rw [Bool.not_eq_false, Char.isDigit_iff_toNat] at digit
  have last : '9'.toNat = 57 := rfl
  omega

/-- A word that ended before this text would not go on with it. -/
def Apart (text : List Char) : Prop := ∀ c ∈ text.head?, isPart c = false

theorem apart_nil : Apart [] := fun _ first => absurd first (Option.not_mem_none _)

theorem apart_cons {c : Char} (other : isPart c = false) (rest : List Char) : Apart (c :: rest) := by
  rintro _ ⟨⟩
  exact other

end Word

namespace Quoted

open Pattern.Token Printable

theorem hexValue?_digitChar : ∀ digit < 16, hexValue? digit.digitChar = some digit := by decide

theorem digitChar_ne : ∀ digit < 16, digit.digitChar ≠ '_' ∧ digit.digitChar ≠ '\x7d' := by decide

theorem codePoint_digitChar (code digits taken : Nat) (rest : List Char) {digit : Nat}
    (hexadecimal : digit < 16) (few : digits ≠ 6) :
    codePoint code digits taken (digit.digitChar :: rest) =
      codePoint (code * 16 + digit) (digits + 1) (taken + 1) rest := by
  rw [codePoint]
  simp [digitChar_ne digit hexadecimal, hexValue?_digitChar digit hexadecimal, few]

/-- The digits that are read stand for the number that was written. -/
theorem codePoint_toDigits (n taken : Nat) (rest : List Char)
    (short : (Nat.toDigits 16 n).length ≤ 6) :
    codePoint 0 0 taken (Nat.toDigits 16 n ++ rest) =
      codePoint n (Nat.toDigits 16 n).length (taken + (Nat.toDigits 16 n).length) rest := by
  induction n using Nat.strongRecOn generalizing rest with
  | ind n ih =>
      rcases Nat.lt_or_ge n 16 with small | large
      · rw [Nat.toDigits_of_lt_base small, List.singleton_append,
          codePoint_digitChar 0 0 taken rest small (by decide), Nat.zero_mul, Nat.zero_add]
        rfl
      · have split := Nat.toDigits_of_base_le (by decide : 1 < 16) large
        rw [split, List.length_append, List.length_singleton] at short ⊢
        have hexadecimal : n % 16 < 16 := Nat.mod_lt n (by decide)
        rw [List.append_assoc, ih (n / 16) (by omega) _ (by omega), List.singleton_append,
          codePoint_digitChar _ _ _ rest hexadecimal (by omega), Nat.div_add_mod' n 16]
        rfl

theorem charOfCode?_toNat (c : Char) : charOfCode? c.toNat = some c := by
  have valid : c.toNat.isValidChar := c.valid
  rw [charOfCode?, if_pos valid, Char.ofNat_toNat]

theorem codePoint_closed (code digits taken : Nat) (rest : List Char) (some : 0 < digits) :
    codePoint code digits taken ('\x7d' :: rest) =
      (charOfCode? code).map fun value => (value, taken + 1) := by
  rw [codePoint]
  simp [some]

theorem quoted?_hexadecimal (c : Char) (rest : List Char) :
    quoted? (("\\u\x7b" ++ hexadecimal c.toNat ++ "\x7d").toList ++ rest) =
      some (c, ("\\u\x7b" ++ hexadecimal c.toNat ++ "\x7d").toList.length) := by
  have below : c.toNat < 16 ^ 6 := by
    have valid : c.toNat.isValidChar := c.valid
    unfold Nat.isValidChar at valid
    omega
  -- No character needs more digits than are read.
  have short := (Nat.length_toDigits_le_iff (by decide) (by decide)).mpr below
  have several : 0 < (Nat.toDigits 16 c.toNat).length := Nat.length_toDigits_pos
  have spelled : ("\\u\x7b" ++ hexadecimal c.toNat ++ "\x7d").toList =
      '\\' :: 'u' :: '\x7b' :: (Nat.toDigits 16 c.toNat ++ ['\x7d']) := by
    simp [hexadecimal]
  rw [spelled, List.cons_append, List.cons_append, List.cons_append, List.append_assoc, quoted?,
    codePoint_toDigits _ _ _ short, List.singleton_append, codePoint_closed _ _ _ _ several,
    charOfCode?_toNat]
  simp only [Option.map_some, List.length_cons, List.length_append, List.length_nil]
  congr 2
  omega

theorem quoted?_plain {c : Char} (plain : c ≠ '\\') (rest : List Char) :
    quoted? (c :: rest) = some (c, 1) := by
  simp [quoted?, plain]

/-- The text of a character, between two quotes, is read as that character. -/
theorem quoted?_escape (c : Char) (rest : List Char) :
    quoted? ((escape '\'' c).toList ++ rest) = some (c, (escape '\'' c).toList.length) := by
  unfold escape
  split_ifs with null tab back line marked printable
  · subst null
    rfl
  · subst tab
    rfl
  · subst back
    rfl
  · subst line
    rfl
  · rcases marked with rfl | rfl
    · rfl
    · rfl
  · rw [String.toList_ofList, List.singleton_append]
    exact quoted?_plain (fun backslash => marked (Or.inl backslash)) rest
  · exact quoted?_hexadecimal c rest

theorem suffixLength_of_apart {rest : List Char} (apart : Word.Apart rest) :
    suffixLength rest = 0 := by
  cases rest with
  | nil => rfl
  | cons c rest =>
      have other : Word.isStart c = false := by
        by_contra start
        rw [Bool.not_eq_false] at start
        exact absurd (Word.isPart_of_isStart start) (by simp [apart c rfl])
      rw [suffixLength, other]
      rfl

/-- A quoted character is a literal, and all of it belongs to the literal. -/
theorem literal?_char (c : Char) {rest : List Char} (apart : Word.Apart rest) :
    literal? ((escape '\'' c).toList ++ '\'' :: rest) =
      some (.literal c, (escape '\'' c).toList.length + 1) := by
  simp [literal?, quoted?_escape, suffixLength_of_apart apart]

end Quoted

end Recognizer
