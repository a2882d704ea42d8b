import Recognizer.Proofs.CharacterClass.Members

/-!
How the text of a class is read. It is cut into items from left to right, in one way only:
a character stands for itself unless a hyphen and one more character follow it, and then
the three are a range. The class is made of all items, or refused for the first one that
is not valid.
-/

namespace Recognizer.CharacterClass

namespace Item

def text : Item → List Char
  | single c => [c]
  | range low high => [low, '-', high]

/-- The item is what is read there when this text follows. -/
def Stands : Item → List Char → Prop
  | single _, following => ∀ high rest, following ≠ '-' :: high :: rest
  | range _ _, _ => True

theorem text_ne_nil (item : Item) : item.text ≠ [] := by
  cases item with
  | single c => exact List.cons_ne_nil c []
  | range low high => exact List.cons_ne_nil low _

theorem Refused.argument {item : Item} {cause : Cause} (refused : item.Refused cause) :
    cause.kind = .argument := by
  have ofSymbol : ∀ {c : Char}, Symbol.Refused c cause → cause.kind = .argument := by
    rintro c (_ | _)
    · rfl
    · rfl
  cases refused with
  | single symbol => exact ofSymbol symbol
  | low symbol => exact ofSymbol symbol
  | high _ symbol => exact ofSymbol symbol
  | reversed _ _ _ => rfl
  | across _ _ _ _ => rfl

end Item

/-- The items that a text is cut into. -/
inductive Reads : List Char → List Item → Prop where
  | nothing : Reads [] []
  | more {item : Item} {following : List Char} {rest : List Item} (stands : item.Stands following)
      (onward : Reads following rest) : Reads (item.text ++ following) (item :: rest)

theorem items_text_append {item : Item} {following : List Char} (stands : item.Stands following) :
    items (item.text ++ following) = item :: items following := by
  cases item with
  | single c =>
      -- no range starts here, so the second rule applies
      exact items.eq_2 c following fun high rest same => stands high rest same
  | range low high => rfl

theorem reads_items (text : List Char) : Reads text (items text) := by
  induction text using items.induct with
  | case1 low high rest ih =>
      have stands : (Item.range low high).Stands rest := trivial
      exact Reads.more stands ih
  | case2 c rest apart ih =>
      have stands : (Item.single c).Stands rest := apart
      rw [items.eq_2 c rest apart]
      exact Reads.more stands ih
  | case3 => exact Reads.nothing

theorem reads_iff (text : List Char) (read : List Item) : Reads text read ↔ items text = read := by
  constructor
  · intro reading
    induction reading with
    | nothing => rfl
    | more stands _ ih => rw [items_text_append stands, ih]
  · rintro rfl
    exact reads_items text

theorem items_eq_nil_iff (text : List Char) : items text = [] ↔ text = [] := by
  rw [← reads_iff]
  constructor
  · rintro ⟨⟩
    rfl
  · rintro rfl
    exact Reads.nothing

theorem ofText_empty : ofText "" = .error .emptyClass := rfl

/-- A text that is not empty becomes what its items become. -/
theorem appends_ofText {text : String} (some : text ≠ "") :
    empty.Appends ((items text.toList).flatMap Item.expansion)
      (FirstRefused Item.Refused (items text.toList)) (ofText text) := by
  have several : items text.toList ≠ [] := by
    rw [ne_eq, items_eq_nil_iff, String.toList_eq_nil_iff]
    exact some
  rw [ofText_eq_ofItems several]
  exact appends_ofItems _

theorem firstRefused_iff (items : List Item) (cause : Cause) :
    FirstRefused Item.Refused items cause ↔ ∃ early item late, items = early ++ item :: late ∧
      (∀ other ∈ early, other.Valid) ∧ ¬item.Valid ∧ item.Refused cause := by
  simp only [FirstRefused, Item.forall_not_refused_iff]
  constructor
  · rintro ⟨early, item, late, split, before, refused⟩
    exact ⟨early, item, late, split, before, fun valid => valid.not_refused cause refused, refused⟩
  · rintro ⟨early, item, late, split, before, _, refused⟩
    exact ⟨early, item, late, split, before, refused⟩

/-- What comes of a text that is cut into these items, and into no others. -/
structure DecidesText (text : String) (read : List Item) : Prop where
  reading : ∀ other, Reads text.toList other ↔ other = read
  made : (∃ cls, ofText text = .ok cls) ↔ text ≠ "" ∧ ∀ item ∈ read, item.Valid
  members : ∀ cls, ofText text = .ok cls → cls.chars = (read.flatMap Item.expansion).eraseDups
  refused : ∀ cause, ofText text = .error cause ↔
    text = "" ∧ cause = .emptyClass ∨
      ∃ early item late, read = early ++ item :: late ∧ (∀ other ∈ early, other.Valid) ∧
        ¬item.Valid ∧ item.Refused cause
  argument : ∀ cause, ofText text = .error cause → cause.kind = .argument

/-- Every text is read in one way. It makes a class when it has items and all of them are
valid, and otherwise the first that is not is to blame. -/
theorem texts_are_read_item_by_item (text : String) : ∃ read, DecidesText text read := by
  have reading : ∀ other, Reads text.toList other ↔ other = items text.toList := by
    intro other
    rw [reads_iff, eq_comm]
  refine ⟨items text.toList, ?_⟩
  by_cases none : text = ""
  · subst none
    constructor
    case reading => exact reading
    case made => simp [ofText_empty]
    case members => simp [ofText_empty]
    case refused => simp [ofText_empty, eq_comm, items]
    case argument =>
      intro cause failed
      cases failed
      rfl
  · have row := appends_ofText none
    have blamed := row.eq_error_iff fun _ _ =>
      FirstRefused.unique fun _ _ _ refused => refused.unique
    constructor
    case reading => exact reading
    case made => rw [row.exists_ok_iff, forall_not_firstRefused_items_iff, and_iff_right none]
    case members => exact fun cls made => row.chars_eq made
    case refused =>
      intro cause
      rw [blamed, firstRefused_iff, or_iff_right fun empty => none empty.1]
    case argument =>
      intro cause failed
      obtain ⟨item, _, refused⟩ := ((blamed cause).mp failed).exists_mem
      exact refused.argument

-- of three hyphens in a row the middle one makes a range, and the last of a text is literal
example : items ['-', '-', '-', 'a', '-'] = [.range '-' '-', .single 'a', .single '-'] := rfl

end Recognizer.CharacterClass
