import Recognizer.Proofs.CharacterClass.Reading

/-!
Classes as bare lists of characters. A list does not know what its members are, characters of
trusted ranges are added without a look at them, and a span with wrong ends breaks everything
off. Still the calls that make classes, in any order, keep the members of a list apart from
each other and readable, and ask for no span that there is not. The lists are those of the
classes, which have all of this in their type.
-/

namespace Recognizer

open CharacterClass

namespace Bare

/-- A call is refused for a cause, or breaks at a span. -/
inductive Stop where
  | refused (cause : Cause)
  | broken (fault : Span.Fault)

def push (members : List Char) (c : Char) : List Char :=
  if members.contains c then members else members ++ [c]

/-- Only for characters that are known to be input symbols. -/
def extend (members added : List Char) : List Char := added.foldl push members

def check (c : Char) : Except Stop Unit :=
  match Symbol.ofChar c with
  | .error cause => .error (.refused cause)
  | .ok _ => .ok ()

def pushChecked (members : List Char) (c : Char) : Except Stop (List Char) := do
  check c
  return push members c

def row (low high : Char) : Except Stop (List Char) :=
  match Span.ofEnds low high with
  | .error fault => .error (.broken fault)
  | .ok span => .ok (span.drain Span.front).1

def pushRange (members : List Char) (low high : Char) : Except Stop (List Char) := do
  check low
  check high
  if low ≤ high then
    let cs ← row low high
    cs.foldlM pushChecked members
  else .error (.refused (.reversedRange low high))

def pushItem (members : List Char) : Item → Except Stop (List Char)
  | .single c => pushChecked members c
  | .range low high => pushRange members low high

def start : Except Stop (List Char) := do
  let capitals ← row 'A' 'Z'
  let small ← row 'a' 'z'
  return extend (extend (extend [] capitals) small) ['_']

def part : Except Stop (List Char) := do
  let members ← start
  let digits ← row '0' '9'
  return extend members digits

end Bare

/-- A call that makes a class, out of the one at hand or from nothing. -/
inductive Call where
  | empty
  | range (low high : Char)
  | chars (cs : List Char)
  | ranges (ends : List (Char × Char))
  | text (description : String)
  | identifierStart
  | identifierPart

namespace Call

open Bare

def onClass (cls : CharacterClass) : Call → Except Cause CharacterClass
  | empty => .ok CharacterClass.empty
  | range low high => cls.addRange low high
  | chars cs => cls.addChars cs
  | ranges ends => ofRanges ends
  | text description => ofText description
  | identifierStart => .ok CharacterClass.identifierStart
  | identifierPart => .ok CharacterClass.identifierPart

def onList (members : List Char) : Call → Except Stop (List Char)
  | empty => .ok []
  | range low high => pushRange members low high
  | chars cs => cs.foldlM pushChecked members
  | ranges ends => ends.foldlM (fun members ends => pushRange members ends.1 ends.2) []
  | text description =>
      match items description.toList with
      | [] => .error (.refused .emptyClass)
      | item :: rest => (item :: rest).foldlM pushItem []
  | identifierStart => start
  | identifierPart => part

/-- The class at hand after a call. A refused call makes no class. -/
def nextClass (cls : CharacterClass) (call : Call) : CharacterClass :=
  match call.onClass cls with
  | .ok result => result
  | .error _ => cls

/-- The list at hand after a call, unless the call breaks. -/
def nextList (members : List Char) (call : Call) : Except Span.Fault (List Char) :=
  match call.onList members with
  | .ok result => .ok result
  | .error (.refused _) => .ok members
  | .error (.broken fault) => .error fault

end Call

namespace Bare

/-- What a list makes of an outcome for a class. -/
def ofOutcome : Except Cause CharacterClass → Except Stop (List Char)
  | .ok cls => .ok cls.chars
  | .error cause => .error (.refused cause)

theorem push_chars (cls : CharacterClass) (symbol : Symbol) :
    push cls.chars symbol.char = (cls.insert symbol).chars := by
  rw [push, CharacterClass.insert]
  by_cases member : symbol ∈ cls.symbols
  · have known := (cls.mem_chars_iff symbol).mpr member
    rw [if_pos (List.contains_iff_mem.mpr known), dif_pos member]
  · have fresh := mt (cls.mem_chars_iff symbol).mp member
    rw [if_neg (mt List.contains_iff_mem.mp fresh), dif_neg member]
    simp [chars]

theorem extend_chars (symbols : List Symbol) (cls : CharacterClass) :
    extend cls.chars (symbols.map Symbol.char) = (cls.insertAll symbols).chars := by
  induction symbols generalizing cls with
  | nil => rfl
  | cons symbol symbols ih =>
      rw [extend, List.map_cons, List.foldl_cons, push_chars]
      exact ih (cls.insert symbol)

theorem pushChecked_chars (cls : CharacterClass) (c : Char) :
    pushChecked cls.chars c = ofOutcome (cls.addChar c) := by
  rw [pushChecked, check, addChar]
  by_cases allowed : Symbol.Allowed c
  · rw [Symbol.ofChar_of_allowed allowed]
    exact congrArg Except.ok (push_chars cls ⟨c, allowed.1, allowed.2⟩)
  · obtain ⟨cause, _, failed⟩ := Symbol.exists_refused_of_not_allowed allowed
    rw [failed]
    rfl

theorem foldlM_chars {α : Type} {onList : List Char → α → Except Stop (List Char)}
    {onClass : CharacterClass → α → Except Cause CharacterClass}
    (each : ∀ (cls : CharacterClass) (a : α), onList cls.chars a = ofOutcome (onClass cls a))
    (steps : List α) (cls : CharacterClass) :
    steps.foldlM onList cls.chars = ofOutcome (steps.foldlM onClass cls) := by
  induction steps generalizing cls with
  | nil => rfl
  | cons a steps ih =>
      rw [List.foldlM_cons, List.foldlM_cons, each]
      cases onClass cls a with
      | error cause => rfl
      | ok next => exact ih next

/-- Between two input symbols in order there is always a span. -/
theorem row_eq_ok {low high : Char} (last : Symbol.Allowed high) (ordered : low ≤ high) :
    row low high = .ok (charsBetween low high) := by
  rw [row, Span.ofEnds, dif_pos ordered, dif_pos last.2]
  simp only [Span.drain_between]

theorem pushRange_chars (cls : CharacterClass) (low high : Char) :
    pushRange cls.chars low high = ofOutcome (cls.addRange low high) := by
  rw [pushRange, addRange, check, check]
  by_cases first : Symbol.Allowed low
  · rw [Symbol.ofChar_of_allowed first]
    by_cases last : Symbol.Allowed high
    · rw [Symbol.ofChar_of_allowed last]
      by_cases ordered : low ≤ high
      · simp only [bind, Except.bind, if_pos ordered, dif_pos ordered, row_eq_ok last ordered,
          Span.drain_between]
        exact foldlM_chars pushChecked_chars _ cls
      · simp only [bind, Except.bind, if_neg ordered, dif_neg ordered]
        rfl
    · obtain ⟨cause, _, failed⟩ := Symbol.exists_refused_of_not_allowed last
      rw [failed]
      rfl
  · obtain ⟨cause, _, failed⟩ := Symbol.exists_refused_of_not_allowed first
    rw [failed]
    rfl

theorem pushItem_chars (cls : CharacterClass) (item : Item) :
    pushItem cls.chars item = ofOutcome (item.addTo cls) := by
  cases item with
  | single c => exact pushChecked_chars cls c
  | range low high => exact pushRange_chars cls low high

theorem allowed_of_mem_charsBetween {low high c : Char} (valid : (Item.range low high).Valid)
    (member : c ∈ charsBetween low high) : Symbol.Allowed c := by
  obtain ⟨_, last, _, free⟩ := valid
  obtain ⟨above, below⟩ := (mem_charsBetween last.2 c).mp member
  refine ⟨?_, Nat.lt_of_le_of_lt below last.2⟩
  rintro rfl
  exact free ⟨above, below⟩

theorem map_char_filterMap {cs : List Char} (allowed : ∀ c ∈ cs, Symbol.Allowed c) :
    (cs.filterMap fun c => (Symbol.ofChar c).toOption).map Symbol.char = cs := by
  induction cs with
  | nil => rfl
  | cons c cs ih =>
      obtain ⟨first, others⟩ := List.forall_mem_cons.mp allowed
      rw [List.filterMap_cons, Symbol.ofChar_of_allowed first]
      exact congrArg (c :: ·) (ih others)

/-- No character of a valid range is lost on the way to its symbols. -/
theorem map_char_symbolsBetween {low high : Char} (valid : (Item.range low high).Valid)
    (ordered : low ≤ high) (ascii : high.toNat < 128) :
    (symbolsBetween low high ordered ascii).map Symbol.char = charsBetween low high := by
  rw [symbolsBetween, Span.drain_between]
  exact map_char_filterMap fun c => allowed_of_mem_charsBetween valid

theorem insertAll_append (cls : CharacterClass) (symbols more : List Symbol) :
    cls.insertAll (symbols ++ more) = (cls.insertAll symbols).insertAll more :=
  List.foldl_append

theorem start_eq : start = .ok identifierStart.chars := by
  have capitals : (Item.range 'A' 'Z').Valid := by decide
  have small : (Item.range 'a' 'z').Valid := by decide
  have dash : (Item.range '_' '_').Valid := by decide
  have single : charsBetween '_' '_' = ['_'] := rfl
  rw [start, row_eq_ok capitals.2.1 capitals.2.2.1, row_eq_ok small.2.1 small.2.2.1, ← single,
    ← map_char_symbolsBetween capitals capitals.2.2.1 capitals.2.1.2,
    ← map_char_symbolsBetween small small.2.2.1 small.2.1.2,
    ← map_char_symbolsBetween dash dash.2.2.1 dash.2.1.2]
  refine congrArg Except.ok ?_
  rw [identifierStart, insertAll_append, insertAll_append, ← extend_chars, ← extend_chars,
    ← extend_chars]
  rfl

theorem part_eq : part = .ok identifierPart.chars := by
  have digits : (Item.range '0' '9').Valid := by decide
  rw [part, start_eq, row_eq_ok digits.2.1 digits.2.2.1,
    ← map_char_symbolsBetween digits digits.2.2.1 digits.2.1.2]
  exact congrArg Except.ok (extend_chars _ identifierStart)

theorem onList_chars (cls : CharacterClass) (call : Call) :
    call.onList cls.chars = ofOutcome (call.onClass cls) := by
  cases call with
  | empty => rfl
  | range low high => exact pushRange_chars cls low high
  | chars cs => exact foldlM_chars pushChecked_chars cs cls
  | ranges ends =>
      exact foldlM_chars (fun cls (ends : Char × Char) => pushRange_chars cls ends.1 ends.2)
        ends CharacterClass.empty
  | text description =>
      simp only [Call.onList, Call.onClass, ofText]
      cases items description.toList with
      | nil => rfl
      | cons item rest => exact foldlM_chars pushItem_chars (item :: rest) CharacterClass.empty
  | identifierStart => exact start_eq
  | identifierPart => exact part_eq

theorem nextList_chars (cls : CharacterClass) (call : Call) :
    call.nextList cls.chars = .ok (call.nextClass cls).chars := by
  rw [Call.nextList, Call.nextClass, onList_chars]
  cases call.onClass cls with
  | ok result => rfl
  | error cause => rfl

theorem foldlM_nextList (calls : List Call) (cls : CharacterClass) :
    calls.foldlM Call.nextList cls.chars = .ok (calls.foldl Call.nextClass cls).chars := by
  induction calls generalizing cls with
  | nil => rfl
  | cons call calls ih =>
      rw [List.foldlM_cons, nextList_chars]
      exact ih (call.nextClass cls)

/-- The list and the class that the same calls have come to. -/
structure StaysClass (members : List Char) (cls : CharacterClass) : Prop where
  same : cls.chars = members
  distinct : members.Nodup
  ascii : ∀ c ∈ members, c.toNat < 128
  unmarked : endMarker ∉ members
  onward : ∀ call : Call, call.onList members = ofOutcome (call.onClass cls)

theorem staysClass (cls : CharacterClass) : StaysClass cls.chars cls where
  same := rfl
  distinct := cls.nodup_chars
  ascii _ member := (allowed_of_mem_chars member).2
  unmarked member := (allowed_of_mem_chars member).1 rfl
  onward := onList_chars cls

end Bare

namespace CharacterClass

/-- What a class becomes by more characters. Its own stay in front, and those that are new
stand behind them in the order in which they first turn up. -/
structure Grows (cls : CharacterClass) : Prop where
  range : ∀ low high result, cls.addRange low high = .ok result →
    ∃ row : List Char, row.Pairwise (· < ·) ∧ (∀ c, c ∈ row ↔ low ≤ c ∧ c ≤ high) ∧
      result.chars = cls.chars ++ row.removeAll cls.chars
  chars : ∀ cs result, cls.addChars cs = .ok result →
    result.chars = cls.chars ++ (cs.removeAll cls.chars).eraseDups
  rangeRefused : ∀ low high, (∃ cause, cls.addRange low high = .error cause) ↔
    low = endMarker ∨ ¬low.toNat < 128 ∨ high = endMarker ∨ ¬high.toNat < 128 ∨ high < low ∨
      (low ≤ endMarker ∧ endMarker ≤ high)
  charsRefused : ∀ cs, (∃ cause, cls.addChars cs = .error cause) ↔
    ∃ c ∈ cs, c = endMarker ∨ ¬c.toNat < 128

theorem grows (cls : CharacterClass) : cls.Grows where
  range := by
    intro low high result made
    have row := cls.appends_addRange low high
    obtain ⟨_, last, _⟩ := (Item.forall_not_refused_iff _).mp (row.exists_ok_iff.mp ⟨result, made⟩)
    have ascending : (charsBetween low high).Pairwise (· < ·) := ascending_charsBetween last.2
    have new : ((charsBetween low high).removeAll cls.chars).Nodup :=
      (ascending.imp fun less => ne_of_lt less).filter _
    refine ⟨charsBetween low high, ascending, mem_charsBetween last.2, ?_⟩
    rw [row.chars_eq made, eraseDups_append_of_nodup cls.nodup_chars, eraseDups_of_nodup new]
  chars := by
    intro cs result made
    rw [(cls.appends_addChars cs).chars_eq made, eraseDups_append_of_nodup cls.nodup_chars]
  rangeRefused := by
    intro low high
    rw [(cls.appends_addRange low high).exists_error_iff, Item.forall_not_refused_iff]
    simp only [Item.Valid, not_and_or, Symbol.not_allowed_iff, not_or, Char.not_le, Char.not_lt,
      or_assoc]
  charsRefused := by
    intro cs
    rw [(cls.appends_addChars cs).exists_error_iff, forall_not_firstRefused_iff]
    simp only [Symbol.forall_not_refused_iff, not_forall, Symbol.not_allowed_iff, exists_prop]

end CharacterClass

/-- Whatever is called in whatever order, no call breaks, and the list at hand is that of a
class, which more calls can only grow by what is new. -/
theorem bare_lists_stay_classes (calls : List Call) :
    ∃ members, calls.foldlM Call.nextList [] = .ok members ∧
      Bare.StaysClass members (calls.foldl Call.nextClass .empty) ∧
      (calls.foldl Call.nextClass .empty).Grows := by
  refine ⟨_, Bare.foldlM_nextList calls .empty, ?_, ?_⟩
  · exact Bare.staysClass (calls.foldl Call.nextClass .empty)
  · exact (calls.foldl Call.nextClass .empty).grows

-- a range that runs across the end marker is refused before the marker gets in
example : (Call.range '!' '$').onList ['a'] = .error (.refused .markAsInput) := rfl

end Recognizer
