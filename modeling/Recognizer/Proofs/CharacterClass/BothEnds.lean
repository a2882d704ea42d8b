import Recognizer.Proofs.CharacterClass.Between

/-!
Requests at both ends of a span, in whatever order. What the front has returned, what is left,
and what the back has returned, read backwards, make up the characters between the two ends at
every moment. Each request returns one of them as long as there are some, and later requests
change nothing. A request whose byte arithmetic breaks off where a result is no byte never
does so.
-/

namespace Recognizer

/-- The sum of two bytes, unless it is no byte. -/
def byteSum? (a b : UInt8) : Option UInt8 :=
  if a.toNat + b.toNat < UInt8.size then some (a + b) else none

/-- The difference of two bytes, unless it is no byte. -/
def byteDifference? (a b : UInt8) : Option UInt8 :=
  if b.toNat ≤ a.toNat then some (a - b) else none

/-- A request that breaks off where a bound is no byte. -/
def Side.ask? (side : Side) (span : Span) : Option (Option Char × Span) :=
  if span.spent then some (none, span)
  else
    match side with
    | front =>
        if span.low = span.high then some (some (.ofUInt8 span.low), { span with spent := true })
        else (byteSum? span.low 1).map fun next =>
          (some (.ofUInt8 span.low), { span with low := next })
    | back =>
        if span.low = span.high then some (some (.ofUInt8 span.high), { span with spent := true })
        else (byteDifference? span.high 1).map fun next =>
          (some (.ofUInt8 span.high), { span with high := next })

namespace Span

/-- The number of characters that are left, unless the distance of the bounds is no byte. -/
def length? (span : Span) : Option Nat :=
  if span.spent then some 0
  else (byteDifference? span.high span.low).map fun distance => distance.toNat + 1

section Bytes

theorem byteSum?_one {low high : UInt8} (below : low < high) :
    byteSum? low 1 = some (low + 1) := by
  have less := UInt8.lt_iff_toNat_lt.mp below
  rw [byteSum?, UInt8.toNat_one, if_pos (Nat.lt_of_le_of_lt less (UInt8.toNat_lt high))]

theorem byteDifference?_of_le {low high : UInt8} (ordered : low ≤ high) :
    byteDifference? high low = some (high - low) :=
  if_pos (UInt8.le_iff_toNat_le.mp ordered)

variable {span : Span} (uncrossed : span.Uncrossed)

include uncrossed

theorem length?_eq : span.length? = some span.length := by
  rw [length?, length, byteDifference?_of_le uncrossed]
  split
  · rfl
  · rfl

theorem ask?_eq (side : Side) : side.ask? span = some (side.ask span) := by
  have below : span.low ≠ span.high → span.low < span.high := UInt8.lt_of_le_of_ne uncrossed
  cases side with
  | front =>
      rw [Side.ask?, Side.ask, front]
      split
      · rfl
      · split
        · rfl
        · next apart => rw [byteSum?_one (below apart), Option.map_some]
  | back =>
      rw [Side.ask?, Side.ask, back]
      split
      · rfl
      · split
        · rfl
        · next apart => rw [byteDifference?_of_le (one_le (below apart)), Option.map_some]

end Bytes

end Span

/-- A span after some requests, with the characters that each of its ends has returned, the
first one in front. -/
structure Asked where
  fronts : List Char
  backs : List Char
  span : Span

namespace Asked

def record (asked : Asked) (side : Side) (outcome : Option Char × Span) : Asked :=
  match side with
  | .front => ⟨asked.fronts ++ outcome.1.toList, asked.backs, outcome.2⟩
  | .back => ⟨asked.fronts, asked.backs ++ outcome.1.toList, outcome.2⟩

def ask (asked : Asked) (side : Side) : Asked :=
  asked.record side (side.ask asked.span)

/-- A request that breaks off where a bound is no byte. -/
def ask? (asked : Asked) (side : Side) : Option Asked :=
  (side.ask? asked.span).map (asked.record side)

/-- A span that was not asked yet. -/
def start (span : Span) : Asked := ⟨[], [], span⟩

/-- What the front would return from now on. -/
def rest (asked : Asked) : List Char := (asked.span.drain Span.front).1

/-- The number of characters that both ends together have returned. -/
def returned (asked : Asked) : Nat := asked.fronts.length + asked.backs.length

/-- What every request keeps. Each takes one of the characters that are left. -/
structure Keeps (low high : Char) (count : Nat) (asked : Asked) : Prop where
  uncrossed : asked.span.Uncrossed
  whole : asked.fronts ++ asked.span.remaining ++ asked.backs.reverse = charsBetween low high
  left : asked.span.remaining.length = (charsBetween low high).length - count

theorem span_record (asked : Asked) (side : Side) (outcome : Option Char × Span) :
    (asked.record side outcome).span = outcome.2 := by
  cases side with
  | front => rfl
  | back => rfl

theorem record_none (asked : Asked) (side : Side) :
    asked.record side (none, asked.span) = asked := by
  cases side with
  | front => exact congrArg (Asked.mk · asked.backs asked.span) (List.append_nil _)
  | back => exact congrArg (Asked.mk asked.fronts · asked.span) (List.append_nil _)

theorem foldl_ask_of_exhausted {asked : Asked} (exhausted : asked.span.Exhausted)
    (requests : List Side) : requests.foldl ask asked = asked := by
  induction requests with
  | nil => rfl
  | cons side requests ih => rw [List.foldl_cons, ask, exhausted side, record_none, ih]

namespace Keeps

variable {low high : Char} {count : Nat} {asked : Asked}

theorem start (ordered : low ≤ high) (ascii : high.toNat < 128) :
    Keeps low high 0 (start (.between low high ordered ascii)) where
  uncrossed := Span.uncrossed_between ordered ascii
  whole := (List.append_nil _).trans (Span.remaining_between ordered ascii)
  left := congrArg List.length (Span.remaining_between ordered ascii)

variable (keeps : Keeps low high count asked)

include keeps

theorem ask (side : Side) : Keeps low high (count + 1) (asked.ask side) := by
  have outcome := Span.asks keeps.uncrossed side
  rw [Asked.ask]
  generalize side.ask asked.span = found at outcome ⊢
  cases outcome with
  | none nothing =>
      rw [record_none]
      refine ⟨keeps.uncrossed, keeps.whole, ?_⟩
      have used := keeps.left
      rw [nothing, List.length_nil] at used ⊢
      omega
  | @some c after uncrossed first =>
      have fewer : asked.span.remaining.length = after.remaining.length + 1 := by
        rw [← side.length_view, first, List.length_cons, side.length_view]
      have whole := keeps.whole
      refine ⟨(span_record asked side _).symm ▸ uncrossed, ?_, ?_⟩
      · cases side with
        | front =>
            have head : asked.span.remaining = c :: after.remaining := first
            rw [head] at whole
            simpa [record] using whole
        | back =>
            have last : asked.span.remaining = after.remaining ++ [c] :=
              List.reverse_inj.mp (first.trans List.reverse_concat.symm)
            rw [last] at whole
            simpa [record] using whole
      · have used := keeps.left
        rw [span_record]
        change after.remaining.length = _
        omega

theorem run (requests : List Side) :
    Keeps low high (count + requests.length) (requests.foldl Asked.ask asked) := by
  induction requests generalizing asked count with
  | nil => exact keeps
  | cons side requests ih =>
      have onward := ih (keeps.ask side)
      rwa [Nat.add_right_comm] at onward

/-- No bound leaves the bytes. -/
theorem foldlM_ask? (requests : List Side) :
    requests.foldlM Asked.ask? asked = some (requests.foldl Asked.ask asked) := by
  induction requests generalizing asked count with
  | nil => rfl
  | cons side requests ih =>
      have taken : asked.ask? side = some (asked.ask side) := by
        rw [Asked.ask?, Span.ask?_eq keeps.uncrossed, Option.map_some, Asked.ask]
      rw [List.foldlM_cons, taken]
      exact ih (keeps.ask side)

theorem returned_add_length_remaining :
    asked.returned + asked.span.remaining.length = high.toNat + 1 - low.toNat := by
  have total := congrArg List.length keeps.whole
  rw [length_charsBetween] at total
  simp only [List.length_append, List.length_reverse] at total
  rw [returned, ← total]
  omega

end Keeps

/-- How a span between two characters stands after a number of requests at its ends. -/
structure StandsAfter (count : Nat) (low high : Char) (asked : Asked) : Prop where
  whole : asked.fronts ++ asked.rest ++ asked.backs.reverse = charsBetween low high
  forwards : (asked.span.drain Span.front).2.Exhausted
  backwards : ∃ after, asked.span.drain Span.back = (asked.rest.reverse, after) ∧ after.Exhausted
  length : asked.span.length = asked.rest.length
  lengthInBytes : asked.span.length? = some asked.span.length
  sizeHint : asked.span.sizeHint = (asked.rest.length, some asked.rest.length)
  returned : asked.returned = min count (high.toNat - low.toNat + 1)
  complete : asked.returned = high.toNat - low.toNat + 1 ↔ asked.span.Exhausted
  settled : asked.span.Exhausted → ∀ more : List Side, more.foldl ask asked = asked

theorem Keeps.standsAfter {low high : Char} {count : Nat} {asked : Asked} (ordered : low ≤ high)
    (keeps : Keeps low high count asked) : StandsAfter count low high asked := by
  obtain ⟨last, drained, spent⟩ : ∃ after,
      asked.span.drain Span.front = (asked.span.remaining, after) ∧ after.Exhausted :=
    Span.exists_drain_eq keeps.uncrossed .front
  have rest : asked.rest = asked.span.remaining := congrArg Prod.fst drained
  have length : asked.span.length = asked.rest.length := by
    rw [rest, Span.length_eq keeps.uncrossed]
  have total := keeps.returned_add_length_remaining
  have left := keeps.left
  have ordered : low.toNat ≤ high.toNat := ordered
  rw [length_charsBetween] at left
  constructor
  case whole => rw [rest, keeps.whole]
  case forwards => rwa [drained]
  case backwards => exact rest ▸ Span.exists_drain_eq keeps.uncrossed .back
  case length => exact length
  case lengthInBytes => exact Span.length?_eq keeps.uncrossed
  case sizeHint => rw [Span.sizeHint, length]
  case returned => omega
  case complete =>
    rw [Span.exhausted_iff keeps.uncrossed, ← List.length_eq_zero_iff]
    omega
  case settled => exact foldl_ask_of_exhausted

end Asked

/-- Between two characters of the first 128 there is a span, and its two ends give out the
characters between them, each once, in whatever order they are asked. No bound ever leaves
the bytes. -/
theorem Span.both_ends_give_each_character_once (low high : Char) (ordered : low ≤ high)
    (ascii : high.toNat < 128) :
    ∃ span, Span.ofEnds low high = .ok span ∧ ∀ requests : List Side,
      requests.foldlM Asked.ask? (.start span) = some (requests.foldl Asked.ask (.start span)) ∧
      (requests.foldl Asked.ask (.start span)).StandsAfter requests.length low high := by
  refine ⟨between low high ordered ascii, ?_, fun requests => ?_⟩
  · rw [ofEnds, dif_pos ordered, dif_pos ascii]
  · have begun := Asked.Keeps.start ordered ascii
    have onward := begun.run requests
    rw [Nat.zero_add] at onward
    exact ⟨begun.foldlM_ask? requests, onward.standsAfter ordered⟩

/-- The very first character is taken from behind, and nothing is taken off its bound. -/
theorem Span.first_character_is_given_by_back :
    '\x00' ≤ '\x01' ∧ '\x01'.toNat < 128 ∧
      ∃ span, Span.ofEnds '\x00' '\x01' = .ok span ∧ ∃ asked : Asked,
        [Side.back, .back, .front, .back].foldlM Asked.ask? (.start span) = some asked ∧
        asked.StandsAfter 4 '\x00' '\x01' ∧
        asked.fronts = [] ∧ asked.backs = ['\x01', '\x00'] ∧ asked.span.Exhausted := by
  have ordered : '\x00' ≤ '\x01' := by decide
  have ascii : '\x01'.toNat < 128 := by decide
  obtain ⟨span, made, stands⟩ := both_ends_give_each_character_once '\x00' '\x01' ordered ascii
  obtain ⟨within, after⟩ := stands [.back, .back, .front, .back]
  have given : span = ⟨0, 1, false⟩ := by cases made; rfl
  subst given
  exact ⟨ordered, ascii, _, made, _, within, after, rfl, rfl, after.complete.mp rfl⟩

end Recognizer
