import Mathlib.Data.List.Basic

/-!
Texts that tell where they end. The text of a value is delimited when no other value, and
nothing else to stand behind it, makes the same text. Numbers are delimited by anything but
digits, and items one after another by a mark that none of them starts with.
-/

namespace Recognizer

/-- The value and what stands behind its text are read off both together. -/
def Delimited {α β : Type} (text : α → List β) (Behind : List β → Prop) : Prop :=
  ∀ (a b : α) (front back : List β), Behind front → Behind back →
    text a ++ front = text b ++ back → a = b ∧ front = back

/-- A piece of such characters does not go on with this. -/
def Stops {β : Type} (inside : β → Bool) (rest : List β) : Prop :=
  ∀ c ∈ rest.head?, inside c = false

namespace Stops

variable {β : Type} {inside : β → Bool}

theorem nil : Stops inside [] := fun _ first => absurd first (Option.not_mem_none _)

theorem cons {c : β} (outside : inside c = false) (rest : List β) : Stops inside (c :: rest) := by
  rintro _ ⟨⟩
  exact outside

theorem takeWhile_append {piece rest : List β} (all : ∀ c ∈ piece, inside c = true)
    (stop : Stops inside rest) : (piece ++ rest).takeWhile inside = piece := by
  have ends : rest.takeWhile inside = [] := by
    cases rest with
    | nil => rfl
    | cons c rest => simp [stop c rfl]
  rw [List.takeWhile_append_of_pos all, ends, List.append_nil]

theorem append_inj {left right front back : List β} (all : ∀ c ∈ left, inside c = true)
    (others : ∀ c ∈ right, inside c = true) (stop : Stops inside front)
    (halt : Stops inside back) (same : left ++ front = right ++ back) :
    left = right ∧ front = back := by
  have pieces : left = right := by
    rw [← takeWhile_append all stop, same, takeWhile_append others halt]
  subst pieces
  exact ⟨rfl, List.append_cancel_left same⟩

end Stops

namespace Delimited

variable {α β : Type} {text : α → List β} {Behind : List β → Prop}

theorem injective (delimited : Delimited text Behind) (nothing : Behind []) {a b : α}
    (same : text a = text b) : a = b :=
  (delimited a b [] [] nothing nothing (congrArg (· ++ []) same)).1

theorem intercalate_cons (separator first : List β) (others : List (List β)) :
    separator.intercalate (first :: others) = first ++ others.flatMap (separator ++ ·) := by
  induction others generalizing first with
  | nil => simp
  | cons second others ih =>
      rw [List.intercalate_cons_cons, ih, List.flatMap_cons]
      simp only [List.append_assoc]

theorem prepend (delimited : Delimited text Behind) (opening : List β) :
    Delimited (fun a => opening ++ text a) Behind := by
  intro a b front back stop halt same
  rw [List.append_assoc, List.append_assoc] at same
  exact delimited a b front back stop halt (List.append_cancel_left same)

section Sequence

variable {closing : β} (delimited : Delimited text Behind)
  (closed : ∀ rest, Behind (closing :: rest))
  (opens : ∀ a rest, (text a ++ rest).head? ≠ some closing)

include delimited closed opens

/-- Items end where the closing mark stands in place of another one. -/
theorem sequence (onward : ∀ a rest, Behind (text a ++ rest)) :
    Delimited (fun items : List α => items.flatMap text ++ [closing]) fun _ => True := by
  have begins : ∀ (items : List α) rest, Behind (items.flatMap text ++ closing :: rest) := by
    intro items rest
    cases items with
    | nil => exact closed rest
    | cons a items =>
        rw [List.flatMap_cons, List.append_assoc]
        exact onward a _
  intro items others front back _ _ same
  simp only [List.append_assoc, List.singleton_append] at same
  induction items generalizing others with
  | nil =>
      cases others with
      | nil => exact ⟨rfl, (List.cons.inj same).2⟩
      | cons b others =>
          rw [List.flatMap_cons, List.append_assoc] at same
          exact absurd (congrArg List.head? same.symm) (opens b _)
  | cons a items ih =>
      cases others with
      | nil =>
          rw [List.flatMap_cons, List.append_assoc] at same
          exact absurd (congrArg List.head? same) (opens a _)
      | cons b others =>
          simp only [List.flatMap_cons, List.append_assoc] at same
          obtain ⟨rfl, rest⟩ := delimited a b _ _ (begins _ _) (begins _ _) same
          obtain ⟨rfl, behind⟩ := ih others rest
          exact ⟨rfl, behind⟩

/-- The same with a separator between the items, which the closing mark cannot be taken for. -/
theorem separated {separator : List β} (other : ∀ rest, (separator ++ rest).head? ≠ some closing)
    (onward : ∀ rest, Behind (separator ++ rest)) :
    Delimited (fun items : List α => separator.intercalate (items.map text) ++ [closing])
      fun _ => True := by
  -- All items but the first, each with the separator in front of it, are a sequence.
  have later : Delimited
      (fun items : List α => items.flatMap (fun a => separator ++ text a) ++ [closing])
      fun _ => True := by
    apply sequence (delimited.prepend separator) closed
    · intro a rest
      rw [List.append_assoc]
      exact other _
    · intro a rest
      rw [List.append_assoc]
      exact onward _
  have begins : ∀ (items : List α) rest,
      Behind (items.flatMap (fun a => separator ++ text a) ++ closing :: rest) := by
    intro items rest
    cases items with
    | nil => exact closed rest
    | cons a items =>
        rw [List.flatMap_cons, List.append_assoc, List.append_assoc]
        exact onward _
  intro items others front back _ _ same
  simp only [List.append_assoc, List.singleton_append] at same
  cases items with
  | nil =>
      cases others with
      | nil => exact ⟨rfl, (List.cons.inj same).2⟩
      | cons b others =>
          rw [List.map_cons, intercalate_cons, List.append_assoc] at same
          exact absurd (congrArg List.head? same.symm) (opens b _)
  | cons a items =>
      cases others with
      | nil =>
          rw [List.map_cons, intercalate_cons, List.append_assoc] at same
          exact absurd (congrArg List.head? same) (opens a _)
      | cons b others =>
          simp only [List.map_cons, intercalate_cons, List.append_assoc, List.flatMap_map] at same
          obtain ⟨rfl, rest⟩ := delimited a b _ _ (begins _ _) (begins _ _) same
          obtain ⟨rfl, behind⟩ :=
            later items others front back trivial trivial (by simpa using rest)
          exact ⟨rfl, behind⟩

end Sequence

theorem isDigit_of_mem_number {n : Nat} {c : Char} (member : c ∈ (toString n).toList) :
    c.isDigit = true := by
  rw [Nat.toString_eq_ofList_toDigits, String.toList_ofList] at member
  exact Nat.isDigit_of_mem_toDigits (by decide) (by decide) member

theorem number_ne_nil (n : Nat) : (toString n).toList ≠ [] := by
  rw [Nat.toString_eq_ofList_toDigits, String.toList_ofList]
  exact Nat.toDigits_ne_nil

theorem number_injective {a b : Nat} (same : toString a = toString b) : a = b := by
  rw [Nat.toString_eq_ofList_toDigits, Nat.toString_eq_ofList_toDigits,
    String.ofList_inj] at same
  rw [← Nat.ofDigitChars_ten_toDigits (n := a), same, Nat.ofDigitChars_ten_toDigits]

theorem number : Delimited (fun n : Nat => (toString n).toList) (Stops Char.isDigit) := by
  intro a b front back stop halt same
  obtain ⟨numerals, rest⟩ := Stops.append_inj (fun c => isDigit_of_mem_number)
    (fun c => isDigit_of_mem_number) stop halt same
  exact ⟨number_injective (String.toList_inj.mp numerals), rest⟩

end Delimited

end Recognizer
