import Recognizer.Proofs.CharacterClass.Written

/-!
Texts of classes, read again. A hyphen that is written behind a character that stands for
itself is read with its neighbours as a range. A class without such a hyphen comes back as
it was, so does any class that has the hyphen at an edge. Otherwise it comes back only
when the range happens to add the hyphen and its neighbours and nothing else, and not all
classes that were read from text are of this kind.
-/

namespace Recognizer.CharacterClass

section

variable {cls : CharacterClass} {before after rest : List Item} {low high : Char}
  {more : List Char}

/-- A hyphen that is written behind a character that stands for itself, with more to come. -/
structure Exposed (cls : CharacterClass) (before : List Item) (low : Char) (after : List Item)
    (high : Char) (more : List Char) : Prop where
  split : cls.written = before ++ .single low :: after
  begins : after.flatMap Item.text = '-' :: high :: more

namespace Exposed

variable (exposed : cls.Exposed before low after high more)

include exposed

theorem chars_eq :
    cls.chars = before.flatMap Item.expansion ++ low :: after.flatMap Item.expansion := by
  rw [← flatMap_expansion_written, exposed.split, List.flatMap_append, List.flatMap_cons]
  rfl

theorem symbols_ne_nil : cls.symbols ≠ [] := by
  apply symbols_ne_nil_of_mem_chars
  rw [exposed.chars_eq]
  exact List.mem_append_right _ List.mem_cons_self

theorem valid : (∀ item ∈ before, item.Valid) ∧ ∀ item ∈ after, item.Valid := by
  have valid : ∀ item ∈ cls.written, item.Valid := fun _ => cls.valid_of_mem_written
  rw [exposed.split, List.forall_mem_append, List.forall_mem_cons] at valid
  exact ⟨valid.1, valid.2.2⟩

/-- A class has only one hyphen, and it is the exposed one. -/
theorem plain : '-' ∉ before.flatMap Item.expansion ∧ low ≠ '-' := by
  obtain ⟨others, same⟩ := exists_expansion_of_text exposed.valid.2 exposed.begins
  have once := cls.nodup_chars
  rw [exposed.chars_eq, same] at once
  grind

theorem reads {read : List Item} (onward : Reads more read) :
    Reads cls.toText.toList (before ++ .range low high :: read) := by
  have text : cls.toText.toList =
      before.flatMap Item.text ++ ((Item.range low high).text ++ more) := by
    rw [toList_toText, exposed.split, List.flatMap_append, List.flatMap_cons, exposed.begins]
    rfl
  have range : (Item.range low high).Stands more := trivial
  rw [text]
  refine reads_append exposed.valid.1 exposed.plain.1 ?_ (Reads.more range onward)
  rintro other ⟨⟩
  exact exposed.plain.2 rfl

/-- The class comes back when the range and what is read behind it make it. -/
theorem reads_back_iff {read : List Item} (onward : Reads more read) :
    ofText cls.toText = .ok cls ↔
      ((Item.range low high).Valid ∧ ∀ item ∈ read, item.Valid) ∧
        cls.chars = (before.flatMap Item.expansion ++
          (charsBetween low high ++ read.flatMap Item.expansion)).eraseDups := by
  rw [ofText_eq_ok_iff (toText_ne_empty exposed.symbols_ne_nil) (exposed.reads onward),
    List.forall_mem_append, List.forall_mem_cons, and_iff_right exposed.valid.1,
    List.flatMap_append, List.flatMap_cons, Item.expansion]

end Exposed

/-- Both neighbours of the hyphen stand for themselves, one below and one above it, and all
else that lies between them comes earlier in the class. -/
structure HarmlessAt (before : List Item) (low : Char) (after : List Item) (high : Char) :
    Prop where
  neighbour : ∃ rest, after = .single '-' :: .single high :: rest
  below : low < '-'
  above : '-' < high
  earlier : ∀ c, low < c → c < high → c ≠ '-' → c ∈ before.flatMap Item.expansion

theorem removeAll_between {earlier : List Char} (ascii : high.toNat < 128) (below : low < '-')
    (above : '-' < high) (fresh : low ∉ earlier ∧ '-' ∉ earlier ∧ high ∉ earlier)
    (known : ∀ c, low < c → c < high → c ≠ '-' → c ∈ earlier) :
    (charsBetween low high).removeAll earlier = [low, '-', high] := by
  have sorted : ((charsBetween low high).removeAll earlier).Pairwise (· < ·) :=
    (ascending_charsBetween ascii).filter _
  have ascending : [low, '-', high].Pairwise (· < ·) := by
    simp [below, above, below.trans above]
  apply sorted.eq_of_mem_iff ascending
  intro c
  rw [mem_removeAll, mem_charsBetween ascii]
  constructor
  · rintro ⟨⟨least, greatest⟩, new⟩
    by_contra other
    simp only [List.mem_cons, List.not_mem_nil, or_false, not_or] at other
    exact new (known c (lt_of_le_of_ne least (Ne.symm other.1))
      (lt_of_le_of_ne greatest other.2.2) other.2.1)
  · intro member
    simp only [List.mem_cons, List.not_mem_nil, or_false] at member
    rcases member with rfl | rfl | rfl
    · exact ⟨⟨le_refl _, (below.trans above).le⟩, fresh.1⟩
    · exact ⟨⟨below.le, above.le⟩, fresh.2.1⟩
    · exact ⟨⟨(below.trans above).le, le_refl _⟩, fresh.2.2⟩

/-- The characters of a range come in order, so below the upper end there is nothing new
but the lower end and the hyphen. -/
theorem known_of_removeAll {earlier others later : List Char} (ascii : high.toNat < 128)
    (same : (charsBetween low high).removeAll earlier ++ others = low :: '-' :: high :: later)
    {c : Char} (above : low < c) (under : c < high) (other : c ≠ '-') : c ∈ earlier := by
  by_contra unknown
  have sorted : ((charsBetween low high).removeAll earlier).Pairwise (· < ·) :=
    (ascending_charsBetween ascii).filter _
  have member : c ∈ (charsBetween low high).removeAll earlier :=
    mem_removeAll.mpr ⟨mem_charsBetween_of_le above.le under.le, unknown⟩
  generalize (charsBetween low high).removeAll earlier = new at sorted member same
  match new with
  | [] => cases member
  | [first] =>
      cases same
      exact above.ne (List.mem_singleton.mp member).symm
  | [first, second] =>
      cases same
      rcases List.mem_pair.mp member with rfl | rfl
      · exact lt_irrefl _ above
      · exact other rfl
  | first :: second :: third :: rest =>
      cases same
      have beyond := (List.pairwise_cons.mp (List.pairwise_cons.mp
        (List.pairwise_cons.mp sorted).2).2).1
      simp only [List.mem_cons, above.ne', other, under.ne, false_or] at member
      exact lt_asymm under (beyond c member)

/-- The exposed hyphen and the character behind it stand for themselves. -/
structure Flanked (after : List Item) (high : Char) (more : List Char) (rest : List Item) :
    Prop where
  split : after = .single '-' :: .single high :: rest
  onward : more = rest.flatMap Item.text

namespace Flanked

variable (flanked : Flanked after high more rest) (exposed : cls.Exposed before low after high more)

include flanked exposed

theorem chars_eq : cls.chars = before.flatMap Item.expansion ++
    ([low, '-', high] ++ rest.flatMap Item.expansion) := by
  rw [exposed.chars_eq, flanked.split]
  rfl

theorem nodup : (before.flatMap Item.expansion ++
    ([low, '-', high] ++ rest.flatMap Item.expansion)).Nodup :=
  flanked.chars_eq exposed ▸ cls.nodup_chars

theorem valid : ∀ item ∈ rest, item.Valid := by
  have valid := exposed.valid.2
  rw [flanked.split, List.forall_mem_cons, List.forall_mem_cons] at valid
  exact valid.2.2

theorem reads : Reads more rest := by
  have once := flanked.nodup exposed
  have plain : '-' ∉ rest.flatMap Item.expansion := by grind
  rw [flanked.onward]
  exact reads_plain (flanked.valid exposed) plain

theorem valid_of_harmless (harmless : HarmlessAt before low after high) :
    (Item.range low high).Valid := by
  have allowed : ∀ c ∈ cls.chars, Symbol.Allowed c := fun c => allowed_of_mem_chars
  rw [flanked.chars_eq exposed] at allowed
  have first : Symbol.Allowed low := allowed low (by simp)
  have last : Symbol.Allowed high := allowed high (by simp)
  refine ⟨first, last, (harmless.below.trans harmless.above).le, fun across => ?_⟩
  have known := harmless.earlier endMarker (lt_of_le_of_ne across.1 first.1)
    (lt_of_le_of_ne across.2 (Ne.symm last.1)) (by decide)
  exact (allowed endMarker (List.mem_append_left _ known)).1 rfl

theorem reads_back_of_harmless (harmless : HarmlessAt before low after high) :
    ofText cls.toText = .ok cls := by
  have once := flanked.nodup exposed
  have range := flanked.valid_of_harmless exposed harmless
  have fresh : low ∉ before.flatMap Item.expansion ∧ '-' ∉ before.flatMap Item.expansion ∧
      high ∉ before.flatMap Item.expansion := by grind
  have new := removeAll_between range.2.1.2 harmless.below harmless.above fresh harmless.earlier
  rw [exposed.reads_back_iff (flanked.reads exposed), eraseDups_append_append once new]
  exact ⟨⟨range, flanked.valid exposed⟩, flanked.chars_eq exposed⟩

theorem harmless_of_reads_back (back : ofText cls.toText = .ok cls) :
    HarmlessAt before low after high := by
  have members := flanked.chars_eq exposed
  have once := flanked.nodup exposed
  obtain ⟨⟨range, _⟩, same⟩ := (exposed.reads_back_iff (flanked.reads exposed)).mp back
  -- the hyphen can only come back with the range
  have hyphen : '-' ∈ charsBetween low high := by
    have member : '-' ∈ cls.chars := by simp [members]
    rw [same, List.mem_eraseDups] at member
    grind
  have ends := (mem_charsBetween range.2.1.2 '-').mp hyphen
  have below : low < '-' := lt_of_le_of_ne ends.1 (by grind)
  have above : '-' < high := lt_of_le_of_ne ends.2 (by grind)
  obtain ⟨others, spread⟩ := exists_eraseDups_append_append (List.nodup_append.mp once).1
    ((ascending_charsBetween range.2.1.2).imp ne_of_lt) (rest.flatMap Item.expansion)
  rw [← same, members, List.append_cancel_left_eq] at spread
  exact ⟨⟨rest, flanked.split⟩, below, above, fun c less greater other =>
    known_of_removeAll range.2.1.2 spread.symm less greater other⟩

end Flanked

/-- A range stands behind the exposed hyphen, or starts with it. Its first character is read
as the end of another range, and its last as a character that stands for itself. -/
structure Torn (after : List Item) (high : Char) (more : List Char) (middle : List Item)
    (top : Char) (rest : List Item) : Prop where
  split : after = middle ++ .range high top :: rest
  onward : more = middle.flatMap Item.text ++ top :: rest.flatMap Item.text
  start : middle = [] ∧ high = '-' ∨ middle = [.single '-']

namespace Torn

variable {middle : List Item} {top : Char} (torn : Torn after high more middle top rest)
  (exposed : cls.Exposed before low after high more)

include torn exposed

theorem chars_eq : cls.chars = before.flatMap Item.expansion ++ low ::
    (middle.flatMap Item.expansion ++ (charsBetween high top ++ rest.flatMap Item.expansion)) := by
  rw [exposed.chars_eq, torn.split, List.flatMap_append, List.flatMap_cons]
  rfl

theorem nodup : (before.flatMap Item.expansion ++ low :: (middle.flatMap Item.expansion ++
    (charsBetween high top ++ rest.flatMap Item.expansion))).Nodup :=
  torn.chars_eq exposed ▸ cls.nodup_chars

theorem valid : (Item.range high top).Valid ∧ ∀ item ∈ rest, item.Valid := by
  have valid := exposed.valid.2
  rw [torn.split, List.forall_mem_append, List.forall_mem_cons] at valid
  exact valid.2

theorem exists_inside : ∃ c, high < c ∧ c < top := by
  have listed : Item.range high top ∈ cls.written := by simp [exposed.split, torn.split]
  exact exists_char_between (torn.valid exposed).1.2.1.2
    (cls.three_le_of_range_mem_written listed)

theorem plain : '-' ∉ top :: rest.flatMap Item.expansion := by
  have once := torn.nodup exposed
  obtain ⟨c, above, below⟩ := torn.exists_inside exposed
  have ordered := above.trans below
  have last := mem_charsBetween_of_le ordered.le (le_refl top)
  rcases torn.start with ⟨rfl, rfl⟩ | rfl
  · have first := mem_charsBetween_of_le (le_refl '-') ordered.le
    have other : '-' ≠ top := ordered.ne
    grind
  · have member : '-' ∈ [Item.single '-'].flatMap Item.expansion := List.mem_singleton_self _
    grind

theorem reads : Reads more (middle ++ .single top :: rest) := by
  obtain ⟨range, later⟩ := torn.valid exposed
  have plain : '-' ∉ (Item.single top :: rest).flatMap Item.expansion := torn.plain exposed
  have valid : ∀ item ∈ Item.single top :: rest, item.Valid :=
    List.forall_mem_cons.mpr ⟨range.2.1, later⟩
  have last := reads_plain valid plain
  rw [torn.onward]
  rcases torn.start with ⟨rfl, _⟩ | rfl
  · exact last
  · have stands : (Item.single '-').Stands (top :: rest.flatMap Item.text) := by
      intro high more same
      exact plain ((List.cons.inj same).1 ▸ List.mem_cons_self)
    exact Reads.more stands last

/-- What is inside the range is lost. -/
theorem not_reads_back : ofText cls.toText ≠ .ok cls := by
  intro back
  have members := torn.chars_eq exposed
  have once := torn.nodup exposed
  obtain ⟨c, above, below⟩ := torn.exists_inside exposed
  have inside := mem_charsBetween_of_le above.le below.le
  have found : c ∈ cls.chars := by simp [members, inside]
  rw [((exposed.reads_back_iff (torn.reads exposed)).mp back).2, List.mem_eraseDups,
    List.flatMap_append, List.flatMap_cons, Item.expansion] at found
  -- one range ends where this one starts, and its end is the next character that is read
  have lost : c ∉ charsBetween low high := by
    rw [mem_charsBetween (torn.valid exposed).1.1.2]
    exact fun bounds => absurd above bounds.2.not_gt
  have other := below.ne
  grind

end Torn

namespace Exposed

variable (exposed : cls.Exposed before low after high more)

include exposed

theorem flanked_or_torn :
    (∃ rest, Flanked after high more rest) ∨
      ∃ middle top rest, Torn after high more middle top rest := by
  have begins := exposed.begins
  match after with
  | [] => cases begins
  | [.single c] => cases begins
  | .single c :: .single next :: rest =>
      cases begins
      exact Or.inl ⟨rest, rfl, rfl⟩
  | .single c :: .range first top :: rest =>
      cases begins
      exact Or.inr ⟨[.single '-'], top, rest, rfl, rfl, Or.inr rfl⟩
  | .range first top :: rest =>
      cases begins
      exact Or.inr ⟨[], top, rest, rfl, rfl, Or.inl ⟨rfl, rfl⟩⟩

theorem reads_back_iff_harmless :
    ofText cls.toText = .ok cls ↔ HarmlessAt before low after high := by
  constructor
  · intro back
    rcases exposed.flanked_or_torn with ⟨rest, flanked⟩ | ⟨middle, top, rest, torn⟩
    · exact flanked.harmless_of_reads_back exposed back
    · exact absurd back (torn.not_reads_back exposed)
  · intro harmless
    obtain ⟨rest, split⟩ := harmless.neighbour
    have onward : more = rest.flatMap Item.text := by
      have begins := exposed.begins
      subst split
      cases begins
      rfl
    exact Flanked.reads_back_of_harmless ⟨split, onward⟩ exposed harmless

/-- The hyphen is not the last character. -/
theorem exists_behind : ∃ c others, after.flatMap Item.expansion = '-' :: c :: others := by
  obtain ⟨others, same⟩ := exists_expansion_of_text exposed.valid.2 exposed.begins
  rcases exposed.flanked_or_torn with ⟨rest, flanked⟩ | ⟨middle, top, rest, torn⟩
  · exact ⟨high, rest.flatMap Item.expansion, by rw [flanked.split]; rfl⟩
  · cases others with
    | cons c others => exact ⟨c, others, same⟩
    | nil =>
        have last : top ∈ after.flatMap Item.expansion := by
          obtain ⟨c, above, below⟩ := torn.exists_inside exposed
          have member := mem_charsBetween_of_le (above.trans below).le (le_refl top)
          simp [torn.split, Item.expansion, member]
        rw [same, List.mem_singleton] at last
        exact absurd (last ▸ List.mem_cons_self) (torn.plain exposed)

end Exposed

theorem reads_back_of_not_exposed (some : cls.symbols ≠ [])
    (none : ∀ before low after high more, ¬cls.Exposed before low after high more) :
    ofText cls.toText = .ok cls := by
  have reading : Reads cls.toText.toList cls.written := by
    rw [toList_toText]
    exact reads_text fun before low after high more split begins =>
      none before low after high more ⟨split, begins⟩
  rw [ofText_eq_ok_iff (toText_ne_empty some) reading, flatMap_expansion_written,
    eraseDups_of_nodup cls.nodup_chars]
  exact ⟨fun item => cls.valid_of_mem_written, rfl⟩

end

/-- Every exposed hyphen of the class is harmless, if there is one. -/
def HyphenHarmless (cls : CharacterClass) : Prop :=
  ∀ before low after high more, cls.Exposed before low after high more →
    HarmlessAt before low after high

/-- A class that was read from text is read again from its own text just when its hyphen is
not exposed there, or harmless. -/
theorem parsed_class_reads_back_iff {text : String} {cls : CharacterClass}
    (parsed : ofText text = .ok cls) : ofText cls.toText = .ok cls ↔ cls.HyphenHarmless := by
  constructor
  · intro back before low after high more exposed
    exact exposed.reads_back_iff_harmless.mp back
  · intro harmless
    by_cases none : ∀ before low after high more, ¬cls.Exposed before low after high more
    · exact reads_back_of_not_exposed (symbols_ne_nil_of_ofText parsed) none
    · push Not at none
      obtain ⟨before, low, after, high, more, exposed⟩ := none
      exact exposed.reads_back_iff_harmless.mpr (harmless _ _ _ _ _ exposed)

/-- The full stop between the neighbours of the hyphen is known before they are read. -/
theorem harmless_hyphen_reads_back :
    ∃ cls, ofText ".,-/" = .ok cls ∧
      cls.Exposed [.single '.'] ',' [.single '-', .single '/'] '/' [] ∧
      ofText cls.toText = .ok cls ∧ cls.HyphenHarmless := by
  have parsed : ofText ".,-/" = .ok _ := rfl
  exact ⟨_, rfl, ⟨rfl, rfl⟩, rfl, (parsed_class_reads_back_iff parsed).mp rfl⟩

/-- A hyphen behind a range is literal. In the text of the class the range is gone. -/
theorem letters_around_hyphen_become_range :
    ∃ cls, ofText "a-a-z" = .ok cls ∧ cls.chars = ['a', '-', 'z'] ∧ cls.toText = "a-z" ∧
      ofText cls.toText ≠ .ok cls := by
  refine ⟨_, rfl, rfl, rfl, fun back => ?_⟩
  have same := congrArg (fun read => read.toOption.map CharacterClass.chars) back
  revert same
  decide

/-- With the hyphen at an edge, or without it, any class is read again from its text. -/
theorem class_with_hyphen_at_edge_reads_back (cls : CharacterClass) (some : cls.symbols ≠ [])
    (edge : '-' ∈ cls.chars → cls.chars.head? = Option.some '-' ∨
      cls.chars.getLast? = Option.some '-') :
    ofText cls.toText = .ok cls := by
  apply reads_back_of_not_exposed some
  intro before low after high more exposed
  obtain ⟨c, others, behind⟩ := exposed.exists_behind
  have members := exposed.chars_eq
  have once := cls.nodup_chars
  rw [behind] at members
  rw [members] at once edge
  -- in front of the hyphen is another character, and so is one behind it
  rcases edge (by simp) with first | last
  · have plain := exposed.plain
    cases front : before.flatMap Item.expansion with
    | nil =>
        rw [front] at first
        exact plain.2 (Option.some.inj first)
    | cons earliest earlier =>
        rw [front] at first plain
        cases Option.some.inj first
        exact plain.1 List.mem_cons_self
  · have later : '-' ∈ c :: others := by
      have final : (c :: others).getLast? = Option.some '-' := by simpa using last
      exact List.mem_of_getLast? final
    grind

theorem hyphen_in_front_reads_back :
    ∃ cls, empty.addChars ['-', '.', '/', 'b', 'a'] = .ok cls ∧ cls.toText = "--/ba" ∧
      ofText cls.toText = .ok cls :=
  ⟨_, rfl, rfl, class_with_hyphen_at_edge_reads_back _ (by decide) fun _ => Or.inl rfl⟩

end Recognizer.CharacterClass
