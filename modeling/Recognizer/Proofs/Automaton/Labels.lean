import Recognizer.Automaton.Level
import Recognizer.Proofs.Text.Delimited

/-!
States by their labels. Braces and brackets show where a label ends, so the commas inside
it are never taken for those around it. After any number of rounds of minimizing no two
states have one label.
-/

namespace Recognizer

section Enclosed

variable {α : Type} {text : α → String} {Behind : List Char → Prop} {opening closing : String}

theorem toList_enclosed (items : List α) :
    (enclosed opening closing (items.map text)).toList =
      opening.toList ++
        ([',', ' '].intercalate (items.map fun a => (text a).toList) ++ closing.toList) := by
  have separator : ", ".toList = [',', ' '] := by decide
  rw [enclosed, String.toList_append, String.toList_append, String.toList_intercalate, separator,
    List.map_map, List.append_assoc]
  rfl

theorem head?_enclosed (mark : Char) (first : opening.toList = [mark]) (items : List α)
    (rest : List Char) :
    ((enclosed opening closing (items.map text)).toList ++ rest).head? = some mark := by
  rw [toList_enclosed, first]
  rfl

/-- Whatever delimits the items, their enclosed list needs nothing behind it. -/
theorem delimited_enclosed (mark : Char) (last : closing.toList = [mark]) (other : mark ≠ ',')
    (delimited : Delimited (fun a => (text a).toList) Behind)
    (closed : ∀ rest, Behind (mark :: rest)) (onward : ∀ rest, Behind (',' :: rest))
    (opens : ∀ a rest, ((text a).toList ++ rest).head? ≠ some mark) :
    Delimited (fun items : List α => (enclosed opening closing (items.map text)).toList)
      fun _ => True := by
  simp only [toList_enclosed, last]
  apply Delimited.prepend
  apply delimited.separated closed opens
  · rintro rest ⟨⟩
    exact other rfl
  · exact fun rest => onward (' ' :: rest)

end Enclosed

theorem delimited_of_toList {σ : Type} [Ordered σ] (text : List σ → List Char)
    (delimited : Delimited text fun _ => True) :
    Delimited (fun set : FiniteSet σ => text set.toList) fun _ => True := by
  intro a b front back stop halt same
  obtain ⟨members, rest⟩ := delimited _ _ front back stop halt same
  exact ⟨FiniteSet.toList_injective members, rest⟩

/-- Labels that show where they end, and that no block is closed by. -/
structure Bracketed (σ : Type) [Labelled σ] : Prop where
  delimited : Delimited (fun state : σ => (label state).toList) fun _ => True
  opens : ∀ (state : σ) rest, ((label state).toList ++ rest).head? ≠ some ']'

theorem bracketed_positions : Bracketed Positions where
  delimited := by
    apply delimited_of_toList fun members => (enclosed "\x7b" "\x7d" (members.map toString)).toList
    apply delimited_enclosed '\x7d' rfl (by decide) Delimited.number
    · exact Stops.cons rfl
    · exact Stops.cons rfl
    · intro n rest closed
      obtain ⟨c, digits, first⟩ := List.exists_cons_of_ne_nil (Delimited.number_ne_nil n)
      rw [first] at closed
      cases closed
      have digit := Delimited.isDigit_of_mem_number (first ▸ List.mem_cons_self)
      cases digit
  opens positions rest closed := by
    cases (head?_enclosed '\x7b' rfl positions.toList rest).symm.trans closed

theorem Bracketed.block {σ : Type} [Ordered σ] [Labelled σ] (bracketed : Bracketed σ) :
    Bracketed (Block σ) where
  delimited := by
    apply delimited_of_toList fun states => (enclosed "[" "]" (states.map label)).toList
    exact delimited_enclosed ']' rfl (by decide) bracketed.delimited
      (fun _ => trivial) (fun _ => trivial) bracketed.opens
  opens block rest closed := by
    cases (head?_enclosed '[' rfl block.toList rest).symm.trans closed

theorem bracketed_after (rounds : Nat) : Bracketed (Level.after rounds).State := by
  induction rounds with
  | zero => exact bracketed_positions
  | succ rounds ih => exact ih.block

/-- States of one kind that have the same label are the same, empty ones included. -/
theorem labels_tell_states_apart (rounds : Nat) (state other : (Level.after rounds).State) :
    label state = label other ↔ state = other := by
  refine ⟨fun same => ?_, congrArg label⟩
  exact (bracketed_after rounds).delimited.injective trivial (congrArg String.toList same)

example : label (FiniteSet.ofList [FiniteSet.ofList [12], ∅] : Block Positions) =
    "[\x7b\x7d, \x7b12\x7d]" := by decide

end Recognizer
