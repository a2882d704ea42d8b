import Mathlib.Data.List.SplitBy
import Recognizer.Proofs.CharacterClass.Reading

/-!
The items that a class is written as. Runs of three and more characters become ranges, all
others stand for themselves, and together they are the characters of the class. Items
without a hyphen are read as they were written.
-/

namespace Recognizer.CharacterClass

/-- The items that a run of characters is written as. -/
def runItems : List Char → List Item
  | first :: _ :: last :: rest =>
      [.range first ((last :: rest).getLast (List.cons_ne_nil last rest))]
  | run => run.map .single

def written (cls : CharacterClass) : List Item :=
  (cls.chars.splitBy consecutive).flatMap runItems

theorem flatMap_text_runItems (run : List Char) : (runItems run).flatMap Item.text = runText run := by
  match run with
  | [] | [_] | [_, _] => rfl
  | first :: second :: last :: rest => rfl

theorem toList_toText (cls : CharacterClass) :
    cls.toText.toList = cls.written.flatMap Item.text := by
  simp only [toText, String.toList_ofList, written, List.flatMap_assoc, flatMap_text_runItems]

theorem map_toNat_of_isChain {first : Char} {rest : List Char}
    (chain : (first :: rest).IsChain fun a b => consecutive a b = true) :
    (first :: rest).map Char.toNat = List.range' first.toNat (rest.length + 1) := by
  induction rest generalizing first with
  | nil => rfl
  | cons next rest ih =>
      obtain ⟨step, onward⟩ := List.isChain_cons_cons.mp chain
      have follows : first.toNat + 1 = next.toNat := beq_iff_eq.mp step
      rw [List.map_cons, ih onward, ← follows]
      rfl

theorem toNat_getLast_of_isChain {first : Char} {rest : List Char}
    (chain : (first :: rest).IsChain fun a b => consecutive a b = true) :
    ((first :: rest).getLast (List.cons_ne_nil first rest)).toNat = first.toNat + rest.length := by
  have codes := congrArg List.getLast? (map_toNat_of_isChain chain)
  rw [List.getLast?_map, List.getLast?_eq_some_getLast (List.cons_ne_nil first rest)] at codes
  simpa [List.getLast?_range'] using codes

/-- A run is a range of its ends. -/
theorem charsBetween_of_isChain {first : Char} {rest : List Char}
    (chain : (first :: rest).IsChain fun a b => consecutive a b = true) :
    charsBetween first ((first :: rest).getLast (List.cons_ne_nil first rest)) = first :: rest := by
  have count : first.toNat + rest.length + 1 - first.toNat = rest.length + 1 := by omega
  have back : Char.ofNat ∘ Char.toNat = id := funext Char.ofNat_toNat
  rw [charsBetween, toNat_getLast_of_isChain chain, count, ← map_toNat_of_isChain chain,
    List.map_map, back, List.map_id]

theorem flatMap_expansion_runItems {run : List Char}
    (chain : run.IsChain fun a b => consecutive a b = true) :
    (runItems run).flatMap Item.expansion = run := by
  match run with
  | [] | [_] | [_, _] => rfl
  | first :: second :: last :: rest =>
      rw [runItems, List.flatMap_singleton, Item.expansion]
      exact charsBetween_of_isChain chain

section

variable (cls : CharacterClass)

theorem flatMap_expansion_written : cls.written.flatMap Item.expansion = cls.chars := by
  have runs : ∀ run ∈ cls.chars.splitBy consecutive,
      (runItems run).flatMap Item.expansion = run :=
    fun run listed => flatMap_expansion_runItems (List.isChain_of_mem_splitBy listed)
  rw [written, List.flatMap_assoc, List.flatMap_congr runs, List.flatMap_id',
    List.flatten_splitBy]

theorem three_le_of_range_mem_written {low high : Char}
    (listed : Item.range low high ∈ cls.written) : low.toNat + 2 ≤ high.toNat := by
  obtain ⟨run, isRun, here⟩ := List.mem_flatMap.mp listed
  have chain := List.isChain_of_mem_splitBy isRun
  match run, chain, here with
  | [], _, here | [_], _, here | [_, _], _, here => simp [runItems] at here
  | first :: second :: last :: rest, chain, here =>
      cases List.mem_singleton.mp here
      have ends : ((last :: rest).getLast (List.cons_ne_nil last rest)).toNat =
          low.toNat + (rest.length + 2) := toNat_getLast_of_isChain chain
      omega

theorem valid_of_mem_written {item : Item} (listed : item ∈ cls.written) : item.Valid := by
  have allowed : ∀ c ∈ item.expansion, Symbol.Allowed c := by
    intro c member
    have among := List.mem_flatMap_of_mem listed member
    rw [flatMap_expansion_written] at among
    exact allowed_of_mem_chars among
  cases item with
  | single c => exact allowed c (List.mem_singleton_self c)
  | range low high =>
      have ordered : low ≤ high := by
        have := cls.three_le_of_range_mem_written listed
        change low.toNat ≤ high.toNat
        omega
      refine ⟨allowed low (mem_charsBetween_of_le (Char.le_refl low) ordered),
        allowed high (mem_charsBetween_of_le ordered (Char.le_refl high)), ordered, ?_⟩
      intro across
      exact (allowed endMarker (mem_charsBetween_of_le across.1 across.2)).1 rfl

end

/-- The first character of a text is the first that its items stand for. -/
theorem exists_expansion_of_text {items : List Item} (valid : ∀ item ∈ items, item.Valid)
    {c : Char} {more : List Char} (begins : items.flatMap Item.text = c :: more) :
    ∃ others, items.flatMap Item.expansion = c :: others := by
  match items with
  | [] => simp at begins
  | .single own :: rest =>
      cases begins
      exact ⟨_, rfl⟩
  | .range low high :: rest =>
      cases begins
      have ordered := (List.forall_mem_cons.mp valid).1.2.2.1
      obtain ⟨others, same⟩ := exists_charsBetween_eq_cons ordered
      exact ⟨others ++ rest.flatMap Item.expansion, by simp [Item.expansion, same]⟩

theorem not_hyphen_of_plain {items : List Item} (valid : ∀ item ∈ items, item.Valid)
    (plain : '-' ∉ items.flatMap Item.expansion) {tail : List Char}
    (apart : ∀ more, tail ≠ '-' :: more) (more : List Char) :
    items.flatMap Item.text ++ tail ≠ '-' :: more := by
  intro begins
  cases spelled : items.flatMap Item.text with
  | nil =>
      rw [spelled] at begins
      exact apart more begins
  | cons c text =>
      rw [spelled] at begins
      cases begins
      obtain ⟨others, same⟩ := exists_expansion_of_text valid spelled
      rw [same] at plain
      exact plain List.mem_cons_self

/-- Items without a hyphen are read as they are written, whatever is read behind them. -/
theorem reads_append {front : List Item} (valid : ∀ item ∈ front, item.Valid)
    (plain : '-' ∉ front.flatMap Item.expansion) {tail : List Char} {read : List Item}
    (apart : ∀ more, tail ≠ '-' :: more) (onward : Reads tail read) :
    Reads (front.flatMap Item.text ++ tail) (front ++ read) := by
  induction front with
  | nil => exact onward
  | cons item front ih =>
      have later := (List.forall_mem_cons.mp valid).2
      rw [List.flatMap_cons, List.mem_append, not_or] at plain
      have stands : item.Stands (front.flatMap Item.text ++ tail) := by
        cases item with
        | single c => exact fun high rest => not_hyphen_of_plain later plain.2 apart _
        | range low high => trivial
      rw [List.flatMap_cons, List.append_assoc]
      exact Reads.more stands (ih later plain.2)

theorem reads_plain {items : List Item} (valid : ∀ item ∈ items, item.Valid)
    (plain : '-' ∉ items.flatMap Item.expansion) : Reads (items.flatMap Item.text) items := by
  have apart : ∀ more, ([] : List Char) ≠ '-' :: more := fun _ => nofun
  have read := reads_append valid plain apart Reads.nothing
  rw [List.append_nil, List.append_nil] at read
  exact read

theorem reads_text {items : List Item} (apart : ∀ before low after high more,
    items = before ++ .single low :: after → after.flatMap Item.text ≠ '-' :: high :: more) :
    Reads (items.flatMap Item.text) items := by
  induction items with
  | nil => exact Reads.nothing
  | cons item rest ih =>
      have stands : item.Stands (rest.flatMap Item.text) := by
        cases item with
        | single c => exact fun high more => apart [] c rest high more rfl
        | range low high => trivial
      refine Reads.more stands (ih fun before low after high more split => ?_)
      exact apart (item :: before) low after high more (congrArg (item :: ·) split)

/-- A text makes a class when the items that are read make it. -/
theorem ofText_eq_ok_iff {text : String} (some : text ≠ "") {read : List Item}
    (reading : Reads text.toList read) (cls : CharacterClass) :
    ofText text = .ok cls ↔
      (∀ item ∈ read, item.Valid) ∧ cls.chars = (read.flatMap Item.expansion).eraseDups := by
  have row := appends_ofText some
  rw [(reads_iff _ _).mp reading] at row
  have made := row.exists_ok_iff
  rw [forall_not_firstRefused_items_iff] at made
  constructor
  · intro same
    exact ⟨made.mp ⟨cls, same⟩, row.chars_eq same⟩
  · rintro ⟨valid, same⟩
    obtain ⟨result, found⟩ := made.mpr valid
    rw [found, eq_of_chars (same.trans (row.chars_eq found).symm)]

theorem toText_ne_empty {cls : CharacterClass} (some : cls.symbols ≠ []) : cls.toText ≠ "" := by
  intro empty
  have none : cls.written.flatMap Item.text = [] := by
    rw [← toList_toText, empty]
    rfl
  rw [List.flatMap_eq_nil_iff] at none
  have members : cls.chars = [] := by
    rw [← flatMap_expansion_written, List.eq_nil_iff_forall_not_mem]
    intro c member
    obtain ⟨item, listed, _⟩ := List.mem_flatMap.mp member
    exact item.text_ne_nil (none item listed)
  exact some (List.map_eq_nil_iff.mp members)

end Recognizer.CharacterClass
