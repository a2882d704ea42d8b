import Recognizer.Proofs.CharacterClass.Growth

/-!
Who is a member of a class, and which classes can be made. A step adds characters
to a class or fails because one of them is no input symbol, and so does a row of
steps. A range is the row of all characters between its ends. No class that is made
from text is empty.
-/

namespace Recognizer.CharacterClass

/-- What an outcome says about adding to a class: the characters that are new in it,
or that something was not allowed. -/
def Adds (cls : CharacterClass) (allowed : Prop) (added : Char → Prop) :
    Except Cause CharacterClass → Prop
  | .ok result => allowed ∧ ∀ c, c ∈ result.chars ↔ c ∈ cls.chars ∨ added c
  | .error _ => ¬allowed

theorem symbols_ne_nil_of_mem_chars {cls : CharacterClass} {c : Char} (member : c ∈ cls.chars) :
    cls.symbols ≠ [] := by
  intro none
  rw [chars, none] at member
  exact absurd member List.not_mem_nil

/-- Where order and causes do not matter. -/
theorem Appends.adds {cls : CharacterClass} {new : List Char} {refused : Cause → Prop}
    {outcome : Except Cause CharacterClass} {allowed : Prop} {added : Char → Prop}
    (appends : cls.Appends new refused outcome)
    (judged : (∀ cause, ¬refused cause) ↔ allowed)
    (same : allowed → ∀ c, c ∈ new ↔ added c) : cls.Adds allowed added outcome := by
  cases outcome with
  | ok result =>
      have fine := judged.mp appends.2
      refine ⟨fine, fun c => ?_⟩
      rw [appends.1, List.mem_eraseDups, List.mem_append, same fine]
  | error cause => exact fun fine => judged.mpr fine cause appends

theorem adds_addChar (cls : CharacterClass) (c : Char) :
    cls.Adds (Symbol.Allowed c) (· = c) (cls.addChar c) :=
  (cls.appends_addChar c).adds (Symbol.forall_not_refused_iff c) fun _ _ => List.mem_singleton

namespace Item

def Holds : Item → Char → Prop
  | single own, c => c = own
  | range low high, c => low ≤ c ∧ c ≤ high

theorem mem_expansion {item : Item} (valid : item.Valid) (c : Char) :
    c ∈ item.expansion ↔ item.Holds c := by
  cases item with
  | single own => exact List.mem_singleton
  | range low high => exact mem_charsBetween valid.2.1.2 c

theorem Valid.exists_holds {item : Item} (valid : item.Valid) : ∃ c, item.Holds c := by
  cases item with
  | single c => exact ⟨c, rfl⟩
  | range low high => exact ⟨low, Char.le_refl low, valid.2.2.1⟩

end Item

theorem forall_not_firstRefused_items_iff (items : List Item) :
    (∀ cause, ¬FirstRefused Item.Refused items cause) ↔ ∀ item ∈ items, item.Valid := by
  simp only [forall_not_firstRefused_iff, Item.forall_not_refused_iff]

theorem adds_ofItems (items : List Item) :
    empty.Adds (∀ item ∈ items, item.Valid) (fun c => ∃ item ∈ items, item.Holds c)
      (ofItems items) := by
  refine (appends_ofItems items).adds (forall_not_firstRefused_items_iff items) ?_
  intro valid c
  rw [List.mem_flatMap]
  exact exists_congr fun item => and_congr_right fun member =>
    Item.mem_expansion (valid item member) c

theorem ofText_eq_ofItems {text : String} (some : items text.toList ≠ []) :
    ofText text = ofItems (items text.toList) := by
  rw [ofText]
  cases spelled : items text.toList with
  | nil => exact absurd spelled some
  | cons item rest => rfl

/-- Every item that is allowed brings a character along. -/
theorem symbols_ne_nil_of_ofText {text : String} {cls : CharacterClass}
    (made : ofText text = .ok cls) : cls.symbols ≠ [] := by
  cases spelled : items text.toList with
  | nil =>
      rw [ofText, spelled] at made
      cases made
  | cons item rest =>
      have added := adds_ofItems (items text.toList)
      rw [← ofText_eq_ofItems (spelled ▸ List.cons_ne_nil item rest), made, spelled] at added
      obtain ⟨c, held⟩ := (added.1 item List.mem_cons_self).exists_holds
      exact symbols_ne_nil_of_mem_chars
        ((added.2 c).mpr (Or.inr ⟨item, List.mem_cons_self, held⟩))

end Recognizer.CharacterClass
