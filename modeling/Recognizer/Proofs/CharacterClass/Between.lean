import Mathlib.Data.Char
import Recognizer.CharacterClass.Span

/-!
The characters between two ends, as a row and as a span from which they are taken. What is
left of a span are the characters between its bounds. A request at the front takes the first
of them and one at the back the last, and a span whose last character was taken has nothing
more for either side.
-/

namespace Recognizer

/-- The characters from one to another in ascending order, both included. -/
def charsBetween (low high : Char) : List Char :=
  (List.range' low.toNat (high.toNat + 1 - low.toNat)).map Char.ofNat

theorem toNat_ofNat_of_lt {code : Nat} (ascii : code < 128) : (Char.ofNat code).toNat = code := by
  rw [Char.ofNat, dif_pos (Or.inl (by omega))]
  rfl

theorem exists_char_between {low high : Char} (ascii : high.toNat < 128)
    (apart : low.toNat + 2 ≤ high.toNat) : ∃ c, low < c ∧ c < high := by
  have code : (Char.ofNat (low.toNat + 1)).toNat = low.toNat + 1 := toNat_ofNat_of_lt (by omega)
  refine ⟨Char.ofNat (low.toNat + 1), ?_, ?_⟩
  · change low.toNat < (Char.ofNat (low.toNat + 1)).toNat
    omega
  · change (Char.ofNat (low.toNat + 1)).toNat < high.toNat
    omega

theorem map_toNat_charsBetween {low high : Char} (ascii : high.toNat < 128) :
    (charsBetween low high).map Char.toNat =
      List.range' low.toNat (high.toNat + 1 - low.toNat) := by
  have back : ∀ code ∈ List.range' low.toNat (high.toNat + 1 - low.toNat),
      (Char.toNat ∘ Char.ofNat) code = id code := by
    intro code listed
    have bounds := List.mem_range'_1.mp listed
    exact toNat_ofNat_of_lt (by omega)
  rw [charsBetween, List.map_map, List.map_congr_left back, List.map_id]

theorem exists_charsBetween_eq_cons {low high : Char} (ordered : low ≤ high) :
    ∃ others, charsBetween low high = low :: others := by
  have ordered : low.toNat ≤ high.toNat := ordered
  have count : high.toNat + 1 - low.toNat = high.toNat - low.toNat + 1 := by omega
  refine ⟨(List.range' (low.toNat + 1) (high.toNat - low.toNat)).map Char.ofNat, ?_⟩
  rw [charsBetween, count, List.range'_succ, List.map_cons, Char.ofNat_toNat]

theorem mem_charsBetween_of_le {low high c : Char} (above : low ≤ c) (below : c ≤ high) :
    c ∈ charsBetween low high := by
  have above : low.toNat ≤ c.toNat := above
  have below : c.toNat ≤ high.toNat := below
  rw [charsBetween, List.mem_map]
  exact ⟨c.toNat, List.mem_range'_1.mpr (by omega), Char.ofNat_toNat c⟩

theorem mem_charsBetween {low high : Char} (ascii : high.toNat < 128) (c : Char) :
    c ∈ charsBetween low high ↔ low ≤ c ∧ c ≤ high := by
  refine ⟨fun member => ?_, fun bounds => mem_charsBetween_of_le bounds.1 bounds.2⟩
  have code := List.mem_map_of_mem (f := Char.toNat) member
  rw [map_toNat_charsBetween ascii, List.mem_range'_1] at code
  change low.toNat ≤ c.toNat ∧ c.toNat ≤ high.toNat
  omega

theorem ascending_charsBetween {low high : Char} (ascii : high.toNat < 128) :
    (charsBetween low high).Pairwise (· < ·) := by
  have ordered : ((charsBetween low high).map Char.toNat).Pairwise (· < ·) := by
    rw [map_toNat_charsBetween ascii]
    exact List.pairwise_lt_range'
  rw [List.pairwise_map] at ordered
  exact ordered

theorem length_charsBetween (low high : Char) :
    (charsBetween low high).length = high.toNat + 1 - low.toNat := by
  rw [charsBetween, List.length_map, List.length_range']

theorem charsBetween_self (c : Char) : charsBetween c c = [c] := by
  rw [charsBetween, Nat.add_sub_cancel_left, List.range'_one, List.map_singleton, Char.ofNat_toNat]

/-- The end of a span at which a character is asked for. -/
inductive Side where
  | front
  | back

namespace Side

/-- What a request returns, and what it makes of the span. -/
def ask : Side → Span → Option Char × Span
  | front => Span.front
  | back => Span.back

/-- A row in the order in which it is seen from a side. -/
def view : Side → List Char → List Char
  | front, cs => cs
  | back, cs => cs.reverse

theorem length_view (side : Side) (cs : List Char) : (side.view cs).length = cs.length := by
  cases side with
  | front => rfl
  | back => exact List.length_reverse

theorem view_eq_nil_iff (side : Side) (cs : List Char) : side.view cs = [] ↔ cs = [] := by
  cases side with
  | front => exact Iff.rfl
  | back => exact List.reverse_eq_nil_iff

end Side

namespace Span

/-- The bounds have not passed each other. -/
def Uncrossed (span : Span) : Prop := span.low ≤ span.high

/-- The characters that are left. -/
def remaining (span : Span) : List Char :=
  if span.spent then [] else charsBetween (.ofUInt8 span.low) (.ofUInt8 span.high)

/-- A request at either end returns none and changes nothing. -/
def Exhausted (span : Span) : Prop := ∀ side : Side, side.ask span = (none, span)

section Bytes

theorem toNat_ofUInt8 (byte : UInt8) : (Char.ofUInt8 byte).toNat = byte.toNat :=
  UInt8.toNat_toUInt32 byte

variable {low high : UInt8}

theorem toNat_add_one (below : low < high) : (low + 1).toNat = low.toNat + 1 := by
  have below := UInt8.lt_iff_toNat_lt.mp below
  have bounded := UInt8.toNat_lt high
  rw [UInt8.toNat_add, UInt8.toNat_one]
  omega

theorem one_le (below : low < high) : 1 ≤ high := by
  have below := UInt8.lt_iff_toNat_lt.mp below
  rw [UInt8.le_iff_toNat_le, UInt8.toNat_one]
  omega

theorem toNat_sub_one (below : low < high) : (high - 1).toNat = high.toNat - 1 := by
  rw [UInt8.toNat_sub_of_le _ _ (one_le below), UInt8.toNat_one]

theorem charsBetween_eq_cons (below : low < high) :
    charsBetween (.ofUInt8 low) (.ofUInt8 high) =
      .ofUInt8 low :: charsBetween (.ofUInt8 (low + 1)) (.ofUInt8 high) := by
  have less := UInt8.lt_iff_toNat_lt.mp below
  have count : high.toNat + 1 - low.toNat = high.toNat + 1 - (low.toNat + 1) + 1 := by omega
  have first : Char.ofNat low.toNat = .ofUInt8 low := by rw [← toNat_ofUInt8, Char.ofNat_toNat]
  simp only [charsBetween, toNat_ofUInt8, toNat_add_one below]
  rw [count, List.range'_succ, List.map_cons, first]

theorem charsBetween_eq_concat (below : low < high) :
    charsBetween (.ofUInt8 low) (.ofUInt8 high) =
      charsBetween (.ofUInt8 low) (.ofUInt8 (high - 1)) ++ [.ofUInt8 high] := by
  have less := UInt8.lt_iff_toNat_lt.mp below
  have count : high.toNat + 1 - low.toNat = high.toNat - 1 + 1 - low.toNat + 1 := by omega
  have top : low.toNat + (high.toNat - 1 + 1 - low.toNat) = high.toNat := by omega
  have last : Char.ofNat high.toNat = .ofUInt8 high := by rw [← toNat_ofUInt8, Char.ofNat_toNat]
  simp only [charsBetween, toNat_ofUInt8, toNat_sub_one below]
  rw [count, List.range'_1_concat, top, List.map_append, List.map_singleton, last]

end Bytes

/-- All that a request at a side can come to. -/
inductive Asks (side : Side) (span : Span) : Option Char × Span → Prop where
  | none (nothing : span.remaining = []) : Asks side span (none, span)
  | some {c : Char} {after : Span} (uncrossed : after.Uncrossed)
      (first : side.view span.remaining = c :: side.view after.remaining) :
      Asks side span (some c, after)

theorem asks_spent (side : Side) (low high : UInt8) :
    Asks side ⟨low, high, true⟩ (side.ask ⟨low, high, true⟩) := by
  cases side with
  | front => exact .none rfl
  | back => exact .none rfl

-- the bounds meet, and whichever side asks, only the flag tells that this was the last
theorem asks_single (side : Side) (byte : UInt8) :
    Asks side ⟨byte, byte, false⟩ (side.ask ⟨byte, byte, false⟩) := by
  have taken : side.ask ⟨byte, byte, false⟩ = (some (.ofUInt8 byte), ⟨byte, byte, true⟩) := by
    cases side with
    | front => exact if_pos rfl
    | back => exact if_pos rfl
  have single : remaining ⟨byte, byte, false⟩ = [.ofUInt8 byte] := charsBetween_self _
  rw [taken]
  refine .some (UInt8.le_refl byte) ?_
  rw [single]
  cases side with
  | front => rfl
  | back => rfl

theorem asks_wide (side : Side) {low high : UInt8} (below : low < high) :
    Asks side ⟨low, high, false⟩ (side.ask ⟨low, high, false⟩) := by
  have apart : low ≠ high := UInt8.ne_of_lt below
  have less := UInt8.lt_iff_toNat_lt.mp below
  cases side with
  | front =>
      have taken : front ⟨low, high, false⟩ = (some (.ofUInt8 low), ⟨low + 1, high, false⟩) :=
        if_neg apart
      rw [Side.ask, taken]
      refine .some ?_ (charsBetween_eq_cons below)
      rw [Uncrossed, UInt8.le_iff_toNat_le, toNat_add_one below]
      exact less
  | back =>
      have taken : back ⟨low, high, false⟩ = (some (.ofUInt8 high), ⟨low, high - 1, false⟩) :=
        if_neg apart
      rw [Side.ask, taken]
      refine .some ?_ ?_
      · rw [Uncrossed, UInt8.le_iff_toNat_le, toNat_sub_one below]
        exact Nat.le_sub_one_of_lt less
      · exact (congrArg List.reverse (charsBetween_eq_concat below)).trans List.reverse_concat

section Requests

variable {span : Span} (uncrossed : span.Uncrossed)

include uncrossed

theorem asks (side : Side) : Asks side span (side.ask span) := by
  obtain ⟨low, high, spent⟩ := span
  cases spent with
  | true => exact asks_spent side low high
  | false =>
      by_cases same : low = high
      · exact same ▸ asks_single side low
      · exact asks_wide side (UInt8.lt_of_le_of_ne uncrossed same)

theorem exhausted_iff : span.Exhausted ↔ span.remaining = [] := by
  constructor
  · intro exhausted
    have outcome := asks uncrossed .front
    rw [exhausted] at outcome
    cases outcome with
    | none nothing => exact nothing
  · intro nothing side
    have outcome := asks uncrossed side
    generalize side.ask span = found at outcome ⊢
    cases outcome with
    | none _ => rfl
    | some _ first =>
        rw [(side.view_eq_nil_iff _).mpr nothing] at first
        cases first

theorem length_eq : span.length = span.remaining.length := by
  obtain ⟨low, high, spent⟩ := span
  cases spent with
  | true => rfl
  | false =>
      have ordered := UInt8.le_iff_toNat_le.mp uncrossed
      change (high - low).toNat + 1 = (charsBetween _ _).length
      rw [UInt8.toNat_sub_of_le _ _ uncrossed, length_charsBetween, toNat_ofUInt8, toNat_ofUInt8]
      omega

/-- Taken one after the other at a side, the characters come as they are seen from there. -/
theorem exists_take_eq (side : Side) (count : Nat) :
    ∃ after, take side.ask count span = ((side.view span.remaining).take count, after) ∧
      after.Uncrossed ∧ side.view after.remaining = (side.view span.remaining).drop count := by
  induction count generalizing span with
  | zero => exact ⟨span, rfl, uncrossed, rfl⟩
  | succ count ih =>
      have outcome := asks uncrossed side
      generalize asked : side.ask span = found at outcome
      cases outcome with
      | none nothing =>
          have unseen := (side.view_eq_nil_iff _).mpr nothing
          refine ⟨span, ?_, uncrossed, ?_⟩
          · rw [take, asked, unseen, List.take_nil]
          · rw [unseen, List.drop_nil]
      | some onward first =>
          obtain ⟨last, taken, crossed, left⟩ := ih onward
          refine ⟨last, ?_, crossed, ?_⟩
          · rw [take, asked, first]
            simp only [taken, List.take_succ_cons]
          · rw [first, List.drop_succ_cons, left]

/-- Taken at a side to the end, all characters that are left come, and then there are none. -/
theorem exists_drain_eq (side : Side) :
    ∃ after, drain side.ask span = (side.view span.remaining, after) ∧ after.Exhausted := by
  have count : span.length = (side.view span.remaining).length := by
    rw [side.length_view, length_eq uncrossed]
  obtain ⟨after, taken, onward, left⟩ := exists_take_eq uncrossed side span.length
  rw [count, List.drop_length, side.view_eq_nil_iff] at left
  refine ⟨after, ?_, (exhausted_iff onward).mpr left⟩
  rw [drain, taken, count, List.take_length]

end Requests

theorem toNat_toUInt8 {c : Char} (ascii : c.toNat < 128) : c.toUInt8.toNat = c.toNat :=
  Nat.mod_eq_of_lt (Nat.lt_trans ascii (by decide))

section Ends

variable {low high : Char} (ordered : low ≤ high) (ascii : high.toNat < 128)

theorem uncrossed_between : (between low high ordered ascii).Uncrossed := by
  have first : low.toNat < 128 := Nat.lt_of_le_of_lt ordered ascii
  change low.toUInt8 ≤ high.toUInt8
  rw [UInt8.le_iff_toNat_le, toNat_toUInt8 first, toNat_toUInt8 ascii]
  exact ordered

theorem remaining_between : (between low high ordered ascii).remaining = charsBetween low high := by
  have byte : ∀ c : Char, c.toNat < 128 → Char.ofUInt8 c.toUInt8 = c := fun c small =>
    Char.toNat_inj.mp ((toNat_ofUInt8 _).trans (toNat_toUInt8 small))
  change charsBetween (.ofUInt8 low.toUInt8) (.ofUInt8 high.toUInt8) = charsBetween low high
  rw [byte low (Nat.lt_of_le_of_lt ordered ascii), byte high ascii]

theorem drain_between :
    ((between low high ordered ascii).drain front).1 = charsBetween low high := by
  obtain ⟨after, drained, _⟩ := exists_drain_eq (uncrossed_between ordered ascii) .front
  exact (congrArg Prod.fst drained).trans (remaining_between ordered ascii)

end Ends

end Span

end Recognizer
