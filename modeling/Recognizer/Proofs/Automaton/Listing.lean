import Recognizer.Proofs.Automaton.Parts
import Recognizer.Proofs.Automaton.Rounds
import Recognizer.Proofs.Text.Literals

/-!
Listings of tables, read again. A reader that knows nothing of tables cuts the text of three
lists into characters, numbers, words and marks, and takes the lists from these. No symbol
of an alphabet is ever taken for a mark, as it stands between quotes, so the parts that were
listed come back, and the code of a table belongs to no other.
-/

namespace Recognizer

/-- What the code of a table is made of. Blanks only keep it apart. -/
inductive Lexeme where
  | character (c : Char)
  | number (value : Nat)
  | word (name : String)
  | mark (c : Char)
  deriving DecidableEq, Repr

namespace Lexeme

open Pattern (Token)

def marks : List Char := [',', '!', '[', ']', '(', ')']

def isNumeral (c : Char) : Bool := c.isDigit || c == '_'

/-- A number names its type, and has to fit there. Between digits `_` means nothing. -/
def number? (text : List Char) : Option Lexeme :=
  let value := Nat.ofDigitChars 10 ((text.takeWhile isNumeral).filter Char.isDigit) 0
  if text.dropWhile isNumeral = ['u', '3', '2'] ∧ value < UInt32.size then some (.number value)
  else none

/-- What starts with a character: a lexeme or, as `none`, a blank, with the number of
further characters that belong to it. -/
def piece? (c : Char) (rest : List Char) : Option (Option Lexeme × Nat) :=
  if Token.isBlank c then some (none, 0)
  else if c ∈ marks then some (some (.mark c), 0)
  else if c = '\'' then
    match Token.literal? rest with
    | some (.literal value, length) => some (some (.character value), length)
    | _ => none
  else
    let length := Token.wordLength rest
    if c.isDigit then (number? (c :: rest.take length)).map fun found => (some found, length)
    else if Word.isStart c then some (some (.word (String.ofList (c :: rest.take length))), length)
    else none

/-- Leaves out what belongs to a lexeme that was found already. -/
def ofTextFrom : Nat → List Char → Option (List Lexeme)
  | _, [] => some []
  | skipped + 1, _ :: rest => ofTextFrom skipped rest
  | 0, c :: rest =>
      match piece? c rest with
      | none => none
      | some (found, length) => (ofTextFrom length rest).map (found.toList ++ ·)

def ofText (text : List Char) : Option (List Lexeme) := ofTextFrom 0 text

theorem ofTextFrom_append (front back : List Char) :
    ofTextFrom front.length (front ++ back) = ofText back := by
  induction front with
  | nil => rfl
  | cons c front ih => exact ih

theorem ofText_cons {c : Char} {tail rest : List Char} {found : Option Lexeme}
    (piece : piece? c (tail ++ rest) = some (found, tail.length)) :
    ofText (c :: tail ++ rest) = (ofText rest).map (found.toList ++ ·) := by
  have once : ofText (c :: tail ++ rest) =
      (match piece? c (tail ++ rest) with
      | none => none
      | some (found, length) => (ofTextFrom length (tail ++ rest)).map (found.toList ++ ·)) := rfl
  rw [once, piece, ← ofTextFrom_append tail rest]

/-- The text is cut into these lexemes, unless its last word would go on behind it. -/
def Cuts (text : List Char) (read : List Lexeme) : Prop :=
  ∀ rest, Word.Apart rest → ofText (text ++ rest) = (ofText rest).map (read ++ ·)

theorem cuts_nil : Cuts [] [] := by
  intro rest _
  exact Option.map_id'.symm

theorem Cuts.append {front back : List Char} {read more : List Lexeme} {c : Char}
    (first : Cuts front read) (second : Cuts (c :: back) more) (other : Word.isPart c = false) :
    Cuts (front ++ c :: back) (read ++ more) := by
  intro rest apart
  have onward := second rest apart
  rw [List.append_assoc, List.cons_append] at *
  rw [first _ (Word.apart_cons other _), onward, Option.map_map]
  simp only [Function.comp_def, List.append_assoc]

theorem Cuts.blank {back : List Char} {read : List Lexeme} (cuts : Cuts back read) :
    Cuts (' ' :: back) read := by
  intro rest apart
  have piece : piece? ' ' ([] ++ (back ++ rest)) = some (none, ([] : List Char).length) := rfl
  have cut := ofText_cons piece
  rw [List.cons_append, ← cuts rest apart]
  exact cut.trans Option.map_id'

theorem Cuts.mark {back : List Char} {read : List Lexeme} (cuts : Cuts back read) {c : Char}
    (known : c ∈ marks) : Cuts (c :: back) (.mark c :: read) := by
  intro rest apart
  have visible : marks.all (fun c => !Token.isBlank c) = true := by decide
  have piece : piece? c ([] ++ (back ++ rest)) = some (some (.mark c), ([] : List Char).length) := by
    have dark := (Bool.not_eq_true' _).mp (List.all_eq_true.mp visible c known)
    rw [piece?, dark, if_neg Bool.false_ne_true, if_pos known]
    rfl
  have cut := ofText_cons piece
  rw [List.cons_append]
  rw [cuts rest apart, Option.map_map] at cut
  exact cut

theorem cuts_char (c : Char) : Cuts (Quoted.char c).toList [.character c] := by
  intro rest apart
  have piece : piece? '\'' (((Quoted.escape '\'' c).toList ++ ['\'']) ++ rest) =
      some (some (.character c), ((Quoted.escape '\'' c).toList ++ ['\'']).length) := by
    have literal := Quoted.literal?_char c apart
    rw [List.append_assoc, List.singleton_append, piece?, literal]
    simp [marks, Token.isBlank]
  have text : (Quoted.char c).toList = '\'' :: ((Quoted.escape '\'' c).toList ++ ['\'']) := by
    simp [Quoted.char]
  rw [text, ofText_cons piece]
  rfl

theorem isBlank_eq_false {c : Char} (above : 32 < c.toNat) (below : c.toNat < 127) :
    Token.isBlank c = false := by
  simp only [Token.isBlank, Bool.or_eq_false_iff, Bool.and_eq_false_iff, decide_eq_false_iff_not,
    beq_eq_false_iff_ne]
  omega

/-- Letters and digits neither separate lexemes nor are marks of their own. -/
theorem piece?_of_isAlphanum {c : Char} (known : c.isAlphanum = true) (rest : List Char) :
    piece? c rest =
      if c.isDigit then
        (number? (c :: rest.take (Token.wordLength rest))).map fun found =>
          (some found, Token.wordLength rest)
      else if Word.isStart c then
        some (some (.word (String.ofList (c :: rest.take (Token.wordLength rest)))),
          Token.wordLength rest)
      else none := by
  have range : 48 ≤ c.toNat ∧ c.toNat ≤ 122 := by
    rcases (Bool.or_eq_true _ _).mp known with letter | digit
    · have bounds := Word.toNat_of_isAlpha letter
      omega
    · have bounds := Char.isDigit_iff_toNat.mp digit
      exact ⟨bounds.1, Nat.le_trans bounds.2 (by decide)⟩
  have other : c ∉ marks := by
    intro mark
    have none : marks.all (fun c => !c.isAlphanum) = true := by decide
    have other := List.all_eq_true.mp none c mark
    rw [known] at other
    cases other
  have unquoted : c ≠ '\'' := by
    rintro rfl
    cases known
  rw [piece?, isBlank_eq_false (by omega) (by omega), if_neg Bool.false_ne_true, if_neg other,
    if_neg unquoted]

theorem wordLength_append {tail rest : List Char} (inside : ∀ c ∈ tail, Word.isPart c = true)
    (apart : Word.Apart rest) : Token.wordLength (tail ++ rest) = tail.length := by
  have ends : rest.takeWhile Word.isPart = [] := by
    cases rest with
    | nil => rfl
    | cons c rest => simp [apart c rfl]
  rw [Token.wordLength, List.takeWhile_append_of_pos inside, ends, List.append_nil]

theorem cuts_word {c : Char} {tail : List Char}
    (letters : (c :: tail).all Char.isAlpha = true) :
    Cuts (c :: tail) [.word (String.ofList (c :: tail))] := by
  intro rest apart
  obtain ⟨first, others⟩ := List.forall_mem_cons.mp (List.all_eq_true.mp letters)
  have inside : ∀ letter ∈ tail, Word.isPart letter = true :=
    fun letter member => Word.isPart_of_isStart (Word.isStart_of_isAlpha (others letter member))
  have piece : piece? c (tail ++ rest) =
      some (some (.word (String.ofList (c :: tail))), tail.length) := by
    have known : c.isAlphanum = true := by rw [Char.isAlphanum, first, Bool.true_or]
    rw [piece?_of_isAlphanum known, wordLength_append inside apart, Word.isDigit_of_isAlpha first,
      if_neg Bool.false_ne_true, Word.isStart_of_isAlpha first, if_pos rfl, List.take_left']
    rfl
  exact ofText_cons piece

/-- The digits of a number and the name of its type. -/
theorem number?_toDigits {n : Nat} (small : n < UInt32.size) :
    number? (Nat.toDigits 10 n ++ ['u', '3', '2']) = some (.number n) := by
  have digits : ∀ c ∈ Nat.toDigits 10 n, c.isDigit = true :=
    fun c member => Nat.isDigit_of_mem_toDigits (by decide) (by decide) member
  have numerals : ∀ c ∈ Nat.toDigits 10 n, isNumeral c = true := by
    intro c member
    rw [isNumeral, digits c member, Bool.true_or]
  have front : (Nat.toDigits 10 n ++ ['u', '3', '2']).takeWhile isNumeral = Nat.toDigits 10 n := by
    rw [List.takeWhile_append_of_pos numerals]
    exact List.append_nil _
  have back : (Nat.toDigits 10 n ++ ['u', '3', '2']).dropWhile isNumeral = ['u', '3', '2'] := by
    rw [List.dropWhile_append_of_pos numerals]
    rfl
  rw [number?, front, back, List.filter_eq_self.mpr digits, Nat.ofDigitChars_ten_toDigits,
    if_pos ⟨rfl, small⟩]

theorem cuts_number {n : Nat} (small : n < UInt32.size) :
    Cuts (toString n ++ "u32").toList [.number n] := by
  intro rest apart
  have text : (toString n ++ "u32").toList = Nat.toDigits 10 n ++ ['u', '3', '2'] := by
    rw [String.toList_append, Nat.toString_eq_ofList_toDigits, String.toList_ofList]
    rfl
  -- Its first digit tells a number from a word, and the name of its type goes on with it.
  obtain ⟨c, tail, digits⟩ := List.exists_cons_of_ne_nil (Nat.toDigits_ne_nil (n := n) (b := 10))
  have all : ∀ digit ∈ c :: tail, digit.isDigit = true := by
    intro digit member
    rw [← digits] at member
    exact Nat.isDigit_of_mem_toDigits (by decide) (by decide) member
  obtain ⟨first, others⟩ := List.forall_mem_cons.mp all
  have inside : ∀ digit ∈ tail ++ ['u', '3', '2'], Word.isPart digit = true := by
    intro digit member
    rcases List.mem_append.mp member with digit | suffix
    · exact Word.isPart_of_isDigit (others _ digit)
    · have parts : ['u', '3', '2'].all Word.isPart = true := by decide
      exact List.all_eq_true.mp parts digit suffix
  have number := number?_toDigits small
  rw [text, digits, List.cons_append]
  rw [digits, List.cons_append] at number
  have piece : piece? c ((tail ++ ['u', '3', '2']) ++ rest) =
      some (some (.number n), (tail ++ ['u', '3', '2']).length) := by
    have known : c.isAlphanum = true := by rw [Char.isAlphanum, first, Bool.or_true]
    rw [piece?_of_isAlphanum known, wordLength_append inside apart, if_pos first, List.take_left',
      number]
    · rfl
    · rfl
  exact ofText_cons piece

end Lexeme

namespace Table

open Lexeme

section Items

variable {α : Type}

/-- A comma stands behind every item but the last, and may stand there too. -/
def pieces (inner : List Lexeme) : List (List Lexeme) :=
  if (inner.splitOn (.mark ',')).getLast? = some [] then (inner.splitOn (.mark ',')).dropLast
  else inner.splitOn (.mark ',')

/-- The list in front, with what stands behind it. -/
def list? (item? : List Lexeme → Option α) : List Lexeme → Option (List α × List Lexeme)
  | .word "vec" :: .mark '!' :: .mark '[' :: rest =>
      match rest.dropWhile (· ≠ .mark ']') with
      | [] => none
      | _ :: behind =>
          ((pieces (rest.takeWhile (· ≠ .mark ']'))).mapM item?).map fun items => (items, behind)
  | _ => none

def character? : List Lexeme → Option Char
  | [.character c] => some c
  | _ => none

def truth? : List Lexeme → Option Bool
  | [.word "true"] => some true
  | [.word "false"] => some false
  | _ => none

def target? : List Lexeme → Option (Option Nat)
  | [.word "None"] => some none
  | [.word "Some", .mark '(', .number state, .mark ')'] => some (some state)
  | _ => none

/-- Three lists, with a comma behind the first and the second. -/
def partsOfCode? (code : String) : Option (List Char × List Bool × List (Option Nat)) := do
  match ← list? character? (← ofText code.toList) with
  | (alphabet, .mark ',' :: rest) =>
      match ← list? truth? rest with
      | (accepting, .mark ',' :: rest) =>
          match ← list? target? rest with
          | (next, []) => some (alphabet, accepting, next)
          | _ => none
      | _ => none
  | _ => none

/-- The text of the item is cut into these lexemes, of which none can end it too early, and
from which it can be read again. -/
structure Legible (text : String) (piece : List Lexeme) (item? : List Lexeme → Option α)
    (item : α) : Prop where
  cuts : Cuts text.toList piece
  undivided : .mark ',' ∉ piece
  unclosed : .mark ']' ∉ piece
  filled : piece ≠ []
  read : item? piece = some item

theorem legible_character (c : Char) :
    Legible (Quoted.char c) [.character c] character? c where
  cuts := cuts_char c
  undivided := by simp
  unclosed := by simp
  filled := by simp
  read := rfl

theorem legible_truth (value : Bool) :
    Legible (Layout.truth value) [.word (Layout.truth value)] truth? value where
  cuts := by
    cases value with
    | false => exact cuts_word (by decide)
    | true => exact cuts_word (by decide)
  undivided := by simp
  unclosed := by simp
  filled := by simp
  read := by cases value <;> rfl

def targetPiece : Option Nat → List Lexeme
  | none => [.word "None"]
  | some state => [.word "Some", .mark '(', .number state, .mark ')']

theorem legible_target {target : Option Nat} (small : ∀ state ∈ target, state < UInt32.size) :
    Legible (targetCode target) (targetPiece target) target? target where
  cuts := by
    cases target with
    | none => exact cuts_word (by decide)
    | some state =>
        have closed : Cuts [')'] [.mark ')'] := cuts_nil.mark (by decide)
        have number := (cuts_number (small state rfl)).append closed (by decide)
        have opened := (number.mark (c := '(') (by decide)).blank
        have word : Cuts ('S' :: ['o', 'm', 'e']) [.word "Some"] := cuts_word (by decide)
        have whole := word.append opened (by decide)
        simpa [targetCode, targetPiece] using whole
  undivided := by cases target <;> simp [targetPiece]
  unclosed := by cases target <;> simp [targetPiece]
  filled := by cases target <;> simp [targetPiece]
  read := by cases target <;> rfl

/-- Items with commas between them. -/
def separated (pieces : List (List Lexeme)) : List Lexeme :=
  [Lexeme.mark ','].intercalate pieces

def listed (pieces : List (List Lexeme)) : List Lexeme :=
  .word "vec" :: .mark '!' :: .mark '[' :: (separated pieces ++ [.mark ']'])

section Listing

variable {write : α → String} {spell : α → List Lexeme} {item? : List Lexeme → Option α}
  {items : List α} (legible : ∀ item ∈ items, Legible (write item) (spell item) item? item)

include legible

theorem cuts_separated :
    Cuts (String.intercalate " , " (items.map write)).toList (separated (items.map spell)) := by
  induction items with
  | nil => exact cuts_nil
  | cons item items ih =>
      obtain ⟨first, others⟩ := List.forall_mem_cons.mp legible
      cases items with
      | nil => simpa [separated] using first.cuts
      | cons second items =>
          have onward := ((ih others).blank.mark (c := ',') (by decide)).blank
          have whole := first.cuts.append onward (by decide)
          simpa [separated] using whole

theorem unclosed_separated : .mark ']' ∉ separated (items.map spell) := by
  induction items with
  | nil => exact List.not_mem_nil
  | cons item items ih =>
      obtain ⟨first, others⟩ := List.forall_mem_cons.mp legible
      cases items with
      | nil => simpa [separated] using first.unclosed
      | cons second items =>
          have onward := ih others
          simp only [separated, List.map_cons, List.intercalate_cons_cons, List.mem_append,
            List.mem_singleton] at onward ⊢
          simp [first.unclosed, onward]

theorem pieces_separated : pieces (separated (items.map spell)) = items.map spell := by
  cases items with
  | nil => rfl
  | cons first others =>
      have apart : ∀ piece ∈ (first :: others).map spell, Lexeme.mark ',' ∉ piece := by
        intro piece member
        obtain ⟨item, known, rfl⟩ := List.mem_map.mp member
        exact (legible item known).undivided
      have cut : (separated ((first :: others).map spell)).splitOn (.mark ',') =
          (first :: others).map spell := List.splitOn_intercalate _ apart (List.cons_ne_nil _ _)
      -- A comma at the end would leave an empty item, and no item is empty.
      have last : ((first :: others).map spell).getLast? ≠ some [] := by
        intro empty
        obtain ⟨item, known, none⟩ := List.mem_map.mp (List.mem_of_getLast? empty)
        exact (legible item known).filled none
      rw [pieces, cut, if_neg last]

theorem mapM_spell : (items.map spell).mapM item? = some items := by
  induction items with
  | nil => rfl
  | cons item items ih =>
      obtain ⟨first, others⟩ := List.forall_mem_cons.mp legible
      rw [List.map_cons, List.mapM_cons, first.read, ih others]
      rfl

theorem list?_listed (rest : List Lexeme) :
    list? item? (listed (items.map spell) ++ rest) = some (items, rest) := by
  have inside : ∀ lexeme ∈ separated (items.map spell), decide (lexeme ≠ .mark ']') = true := by
    intro lexeme member
    refine decide_eq_true ?_
    rintro rfl
    exact unclosed_separated legible member
  have front : (separated (items.map spell) ++ .mark ']' :: rest).takeWhile
      (· ≠ Lexeme.mark ']') = separated (items.map spell) := by
    rw [List.takeWhile_append_of_pos inside]
    exact List.append_nil _
  have back : (separated (items.map spell) ++ .mark ']' :: rest).dropWhile
      (· ≠ Lexeme.mark ']') = .mark ']' :: rest := by
    rw [List.dropWhile_append_of_pos inside]
    rfl
  rw [listed, List.cons_append, List.cons_append, List.cons_append, List.append_assoc,
    List.singleton_append, list?, front, back, pieces_separated legible, mapM_spell legible]
  rfl

theorem cuts_listing :
    Cuts (listing (items.map write)).toList (listed (items.map spell)) := by
  have closed : Cuts [']'] [.mark ']'] := cuts_nil.mark (by decide)
  have inner := ((cuts_separated legible).append closed (by decide)).mark (c := '[') (by decide)
  have opened := (inner.blank.mark (c := '!') (by decide)).blank
  have word : Cuts ('v' :: ['e', 'c']) [.word "vec"] := cuts_word (by decide)
  have whole := word.append opened (by decide)
  simpa [listing, listed] using whole

end Listing

end Items

/-- The numbers of all states that are moved to have 32 bits. -/
def Narrow (table : Table) : Prop := ∀ state, some state ∈ table.next → state < UInt32.size

/-- The lexemes of all three lists, with the commas between them. -/
def codeLexemes (table : Table) : List Lexeme :=
  listed (table.alphabet.map fun c => [.character c]) ++ .mark ',' ::
    (listed (table.accepting.map fun value => [.word (Layout.truth value)]) ++ .mark ',' ::
      listed (table.next.map targetPiece))

section Code

variable {table : Table} (narrow : table.Narrow)

include narrow

theorem legible_next : ∀ target ∈ table.next,
    Legible (targetCode target) (targetPiece target) target? target := by
  intro target member
  refine legible_target ?_
  rintro state rfl
  exact narrow state member

theorem ofText_code : ofText table.code.toList = some table.codeLexemes := by
  have alphabet := cuts_listing fun c (_ : c ∈ table.alphabet) => legible_character c
  have accepting := cuts_listing fun value (_ : value ∈ table.accepting) => legible_truth value
  have next := cuts_listing (legible_next narrow)
  have third := (next.blank.mark (c := ',') (by decide)).blank
  have second := ((accepting.append third (by decide)).blank.mark (c := ',') (by decide)).blank
  have whole := alphabet.append second (by decide)
  have text : table.code.toList = (listing (table.alphabet.map Quoted.char)).toList ++
      ' ' :: ',' :: ' ' :: ((listing (table.accepting.map Layout.truth)).toList ++
        ' ' :: ',' :: ' ' :: (listing (table.next.map targetCode)).toList) := by
    simp [code]
  have read := whole [] Word.apart_nil
  rw [List.append_nil, ← text] at read
  rw [read]
  exact congrArg some (List.append_nil _)

theorem partsOfCode?_code :
    partsOfCode? table.code = some (table.alphabet, table.accepting, table.next) := by
  have alphabet := list?_listed fun c (_ : c ∈ table.alphabet) => legible_character c
  have accepting := list?_listed fun value (_ : value ∈ table.accepting) => legible_truth value
  have next := list?_listed (legible_next narrow) []
  rw [List.append_nil] at next
  rw [partsOfCode?, ofText_code narrow, codeLexemes, Option.bind_eq_bind, Option.bind_some, alphabet]
  simp [accepting, next]

end Code

/-- What comes of the parts that a code lists. -/
def ofCode (code : String) : Option (Except Cause Table) :=
  (partsOfCode? code).map fun parts => ofParts parts.1 parts.2.1 parts.2.2

theorem ofCode_of_fits {table : Table} (narrow : table.Narrow)
    (fits : Fits table.alphabet table.accepting table.next) :
    ofCode table.code = some (.ok table) := by
  rw [ofCode, partsOfCode?_code narrow, Option.map_some, ofParts_of_fits fits]

theorem narrow_of_fits {table : Table} (fits : Fits table.alphabet table.accepting table.next)
    (few : table.stateCount ≤ UInt32.size) : table.Narrow :=
  fun state listed => (fits.known state listed).trans_le few

/-- The start is listed apart from the states when it is none of them. -/
theorem stateCount_ofAutomaton_le {σ : Type} [Ordered σ] (automaton : Automaton σ) :
    (ofAutomaton automaton).stateCount ≤ automaton.states.size + 1 := by
  have others : (automaton.states.erase automaton.start).size ≤ automaton.states.size :=
    Std.ExtTreeSet.size_erase_le
  simpa [stateCount, ofAutomaton, Automaton.numbering] using others

theorem narrow_ofAutomaton {σ : Type} [Ordered σ] (automaton : Automaton σ)
    (few : automaton.states.size < UInt32.size) : (ofAutomaton automaton).Narrow :=
  narrow_of_fits (fits_ofAutomaton automaton) ((stateCount_ofAutomaton_le automaton).trans few)

/-- The parts of a table are read back from its code, so no other table has this code, and
what was made of an automaton is made of its code again. -/
theorem code_determines_table :
    (∀ table : Table, table.Narrow →
      partsOfCode? table.code = some (table.alphabet, table.accepting, table.next)) ∧
    (∀ table other : Table, table.Narrow → other.Narrow → table.code = other.code →
      table = other) ∧
    ∀ (σ : Type) [Ordered σ] (automaton : Automaton σ), automaton.states.size < UInt32.size →
      ofCode (ofAutomaton automaton).code = some (.ok (ofAutomaton automaton)) := by
  refine ⟨fun table narrow => partsOfCode?_code narrow, ?_, ?_⟩
  · intro table other narrow also same
    have parts := partsOfCode?_code narrow
    rw [same, partsOfCode?_code also] at parts
    cases table
    cases other
    cases parts
    rfl
  · intro σ _ automaton few
    exact ofCode_of_fits (narrow_ofAutomaton automaton few) (fits_ofAutomaton automaton)

/-- Its symbols are the marks of its own code, and one number is the last of 32 bits. -/
def delimiters : Table :=
  { alphabet := ['\x00', '\n', ' ', '"', '\'', ',', '[', '\\', ']', '\x7f']
    accepting := [true, false]
    next := [none, some 4294967295, some 10] }

theorem delimiters_are_read_back :
    partsOfCode? delimiters.code =
        some (delimiters.alphabet, delimiters.accepting, delimiters.next) ∧
      (∀ other : Table, other.Narrow → delimiters.code = other.code → delimiters = other) ∧
      ofCode (ofAutomaton strayStart).code =
        some (ofParts ['a', 'b'] [true, false] [some 1, some 1, some 0, none]) := by
  have narrow : delimiters.Narrow := by
    intro state listed
    simp only [delimiters, List.mem_cons, List.not_mem_nil, reduceCtorEq, Option.some.injEq,
      false_or, or_false] at listed
    rcases listed with rfl | rfl
    · decide
    · decide
  obtain ⟨read, unique, remade⟩ := code_determines_table
  refine ⟨read delimiters narrow, fun other => unique delimiters other narrow, ?_⟩
  have table : ofAutomaton strayStart =
      ⟨['a', 'b'], [true, false], [some 1, some 1, some 0, none]⟩ := by decide
  rw [remade Nat strayStart (by decide), table]
  rfl

end Table

end Recognizer
