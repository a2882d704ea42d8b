import Mathlib.Data.List.Sort
import Recognizer.CharacterClass.Basic
import Recognizer.Proofs.CharacterClass.Between

/-!
What becomes of a class when characters are added, one by one, as a range, or as a row
of items. New characters come after the old ones, in the order in which they first turn
up. A row stops at its first step that is refused, and the outcome is the cause of that
step.
-/

namespace Recognizer

section Occurrences

variable {α : Type} [BEq α] [LawfulBEq α]

theorem eraseDups_of_nodup {members : List α} (once : members.Nodup) :
    members.eraseDups = members := by
  induction members with
  | nil => exact List.eraseDups_nil
  | cons member rest ih =>
      obtain ⟨fresh, later⟩ := List.nodup_cons.mp once
      have kept : rest.filter (fun other => !other == member) = rest := by
        rw [List.filter_eq_self]
        intro other listed
        simpa using ne_of_mem_of_not_mem listed fresh
      rw [List.eraseDups_cons, kept, ih later]

theorem eraseDups_append_of_nodup {members : List α} (once : members.Nodup) (added : List α) :
    (members ++ added).eraseDups = members ++ (added.removeAll members).eraseDups := by
  rw [List.eraseDups_append, eraseDups_of_nodup once]

theorem mem_removeAll {members removed : List α} {a : α} :
    a ∈ members.removeAll removed ↔ a ∈ members ∧ a ∉ removed := by
  simp [List.removeAll]

/-- A row that is added after another. -/
theorem eraseDups_append_eraseDups {members added : List α} (once : members.Nodup)
    (same : members = added.eraseDups) (more : List α) :
    (members ++ more).eraseDups = (added ++ more).eraseDups := by
  have known : more.removeAll members = more.removeAll added := by
    subst same
    simp [List.removeAll]
  rw [eraseDups_append_of_nodup once, List.eraseDups_append, known, same]

omit [LawfulBEq α] in
theorem removeAll_append (members others removed : List α) :
    (members ++ others).removeAll removed =
      members.removeAll removed ++ others.removeAll removed :=
  List.filter_append members others

theorem exists_eraseDups_append_append {earlier row : List α} (once : earlier.Nodup)
    (single : row.Nodup) (later : List α) :
    ∃ others, (earlier ++ (row ++ later)).eraseDups =
      earlier ++ (row.removeAll earlier ++ others) := by
  have new : (row.removeAll earlier).Nodup := single.filter _
  refine ⟨((later.removeAll earlier).removeAll (row.removeAll earlier)).eraseDups, ?_⟩
  rw [eraseDups_append_of_nodup once, removeAll_append, List.eraseDups_append,
    eraseDups_of_nodup new]

/-- What comes later was not in the row before either. -/
theorem eraseDups_append_append {earlier row new later : List α}
    (once : (earlier ++ (new ++ later)).Nodup) (added : row.removeAll earlier = new) :
    (earlier ++ (row ++ later)).eraseDups = earlier ++ (new ++ later) := by
  obtain ⟨first, rest, apart⟩ := List.nodup_append.mp once
  have behind : later.removeAll earlier = later := by
    rw [List.removeAll, List.filter_eq_self]
    intro a member
    have other := fun known => apart a known a (List.mem_append_right new member) rfl
    simpa using other
  rw [eraseDups_append_of_nodup first, removeAll_append, added, behind, eraseDups_of_nodup rest]

end Occurrences

/-- The cause is that of the first step for which there is one. -/
def FirstRefused {α : Type} (refused : α → Cause → Prop) (steps : List α) (cause : Cause) : Prop :=
  ∃ early step late, steps = early ++ step :: late ∧
    (∀ other ∈ early, ∀ reason, ¬refused other reason) ∧ refused step cause

section FirstRefused

variable {α : Type} {refused : α → Cause → Prop} {step : α} {steps : List α} {cause : Cause}

theorem FirstRefused.head (here : refused step cause) :
    FirstRefused refused (step :: steps) cause :=
  ⟨[], step, steps, rfl, fun _ none => absurd none List.not_mem_nil, here⟩

theorem FirstRefused.tail (passed : ∀ reason, ¬refused step reason)
    (later : FirstRefused refused steps cause) : FirstRefused refused (step :: steps) cause := by
  obtain ⟨early, culprit, late, rfl, before, here⟩ := later
  exact ⟨step :: early, culprit, late, rfl, List.forall_mem_cons.mpr ⟨passed, before⟩, here⟩

theorem FirstRefused.exists_mem (first : FirstRefused refused steps cause) :
    ∃ culprit ∈ steps, refused culprit cause := by
  obtain ⟨early, culprit, late, rfl, _, here⟩ := first
  exact ⟨culprit, List.mem_append_right early List.mem_cons_self, here⟩

theorem FirstRefused.unique {reason : Cause}
    (single : ∀ step a b, refused step a → refused step b → a = b)
    (first : FirstRefused refused steps cause) (again : FirstRefused refused steps reason) :
    cause = reason := by
  obtain ⟨early, culprit, late, split, before, here⟩ := first
  obtain ⟨early', culprit', late', split', before', here'⟩ := again
  rw [split, List.append_eq_append_iff] at split'
  -- a culprit that comes later would have the other one before it
  rcases split' with ⟨between, rfl, rest⟩ | ⟨between, rfl, rest⟩
  · cases between with
    | nil =>
        cases rest
        exact single culprit _ _ here here'
    | cons other between =>
        cases rest
        exact absurd here (before' culprit (by simp) cause)
  · cases between with
    | nil =>
        cases rest
        exact single culprit _ _ here here'
    | cons other between =>
        cases rest
        exact absurd here' (before culprit' (by simp) reason)

/-- Without a first refused step there is no refused step at all. -/
theorem forall_not_firstRefused_iff :
    (∀ reason, ¬FirstRefused refused steps reason) ↔
      ∀ step ∈ steps, ∀ reason, ¬refused step reason := by
  constructor
  · intro none
    induction steps with
    | nil => exact fun _ member => absurd member List.not_mem_nil
    | cons step steps ih =>
        have passed : ∀ reason, ¬refused step reason := fun reason here => none reason (.head here)
        exact List.forall_mem_cons.mpr
          ⟨passed, ih fun reason later => none reason (.tail passed later)⟩
  · intro every reason first
    obtain ⟨culprit, member, here⟩ := first.exists_mem
    exact every culprit member reason here

end FirstRefused

namespace Symbol

/-- The character can be read. -/
def Allowed (c : Char) : Prop := c ≠ endMarker ∧ c.toNat < 128

instance : DecidablePred Allowed :=
  fun c => inferInstanceAs (Decidable (c ≠ endMarker ∧ c.toNat < 128))

theorem not_allowed_iff (c : Char) : ¬Allowed c ↔ c = endMarker ∨ ¬c.toNat < 128 := by
  rw [Allowed, not_and_or, not_not]

inductive Refused : Char → Cause → Prop where
  | marker : Refused endMarker .markAsInput
  | foreign {c : Char} (beyond : ¬c.toNat < 128) : Refused c (.notAscii c)

theorem ofChar_of_allowed {c : Char} (allowed : Allowed c) :
    ofChar c = .ok ⟨c, allowed.1, allowed.2⟩ := by
  rw [ofChar, dif_neg allowed.1, dif_pos allowed.2]

theorem not_refused_of_allowed {c : Char} (allowed : Allowed c) (cause : Cause) :
    ¬Refused c cause := by
  intro refused
  cases refused with
  | marker => exact allowed.1 rfl
  | foreign beyond => exact beyond allowed.2

theorem Refused.unique {c : Char} {cause reason : Cause} (refused : Refused c cause)
    (again : Refused c reason) : cause = reason := by
  have readable : endMarker.toNat < 128 := by decide
  rcases refused with _ | beyond
  · rcases again with _ | beyond
    · rfl
    · exact absurd readable beyond
  · rcases again with _ | _
    · exact absurd readable beyond
    · rfl

theorem exists_refused_of_not_allowed {c : Char} (denied : ¬Allowed c) :
    ∃ cause, Refused c cause ∧ ofChar c = .error cause := by
  by_cases marked : c = endMarker
  · subst marked
    exact ⟨_, .marker, rfl⟩
  · by_cases ascii : c.toNat < 128
    · exact absurd ⟨marked, ascii⟩ denied
    · exact ⟨_, .foreign ascii, by rw [ofChar, dif_neg marked, dif_neg ascii]⟩

theorem forall_not_refused_iff (c : Char) : (∀ cause, ¬Refused c cause) ↔ Allowed c := by
  constructor
  · intro none
    by_contra denied
    obtain ⟨cause, refused, _⟩ := exists_refused_of_not_allowed denied
    exact none cause refused
  · exact not_refused_of_allowed

end Symbol

namespace CharacterClass

theorem eq_of_chars {cls other : CharacterClass} (same : cls.chars = other.chars) :
    cls = other := by
  have symbols : cls.symbols = other.symbols :=
    List.map_injective_iff.mpr (fun _ _ => Symbol.char_injective) same
  cases cls
  cases other
  cases symbols
  rfl

theorem nodup_chars (cls : CharacterClass) : cls.chars.Nodup :=
  cls.distinct.map fun _ _ => Symbol.char_injective

theorem allowed_of_mem_chars {cls : CharacterClass} {c : Char} (member : c ∈ cls.chars) :
    Symbol.Allowed c := by
  obtain ⟨symbol, _, rfl⟩ := List.mem_map.mp member
  exact ⟨symbol.unmarked, symbol.ascii⟩

theorem mem_chars_iff (cls : CharacterClass) (symbol : Symbol) :
    symbol.char ∈ cls.chars ↔ symbol ∈ cls.symbols :=
  List.mem_map_of_injective fun _ _ => Symbol.char_injective

theorem chars_insert (cls : CharacterClass) (symbol : Symbol) :
    (cls.insert symbol).chars = (cls.chars ++ [symbol.char]).eraseDups := by
  rw [eraseDups_append_of_nodup cls.nodup_chars, insert]
  by_cases member : symbol ∈ cls.symbols
  · have known := (cls.mem_chars_iff symbol).mpr member
    simp [member, List.removeAll, known]
  · have fresh := mt (cls.mem_chars_iff symbol).mp member
    have kept : [symbol.char].removeAll cls.chars = [symbol.char] := by
      simp [List.removeAll, fresh]
    rw [dif_neg member, kept, eraseDups_of_nodup (List.nodup_singleton _), chars, List.map_append]
    rfl

/-- What an outcome says about adding characters to a class: they come after its own, each
once, or there is a cause against them. -/
def Appends (cls : CharacterClass) (added : List Char) (refused : Cause → Prop) :
    Except Cause CharacterClass → Prop
  | .ok result => result.chars = (cls.chars ++ added).eraseDups ∧ ∀ cause, ¬refused cause
  | .error cause => refused cause

section Appends

variable {cls : CharacterClass} {added : List Char} {refused : Cause → Prop}
  {outcome : Except Cause CharacterClass}

theorem Appends.exists_ok_iff (appends : cls.Appends added refused outcome) :
    (∃ result, outcome = .ok result) ↔ ∀ cause, ¬refused cause := by
  cases outcome with
  | ok result => exact iff_of_true ⟨result, rfl⟩ appends.2
  | error cause =>
      constructor
      · rintro ⟨result, ⟨⟩⟩
      · exact fun none => absurd appends (none cause)

theorem Appends.exists_error_iff (appends : cls.Appends added refused outcome) :
    (∃ cause, outcome = .error cause) ↔ ¬∀ cause, ¬refused cause := by
  rw [← appends.exists_ok_iff]
  cases outcome with
  | ok result => exact iff_of_false nofun (not_not_intro ⟨result, rfl⟩)
  | error cause => exact iff_of_true ⟨cause, rfl⟩ nofun

theorem Appends.chars_eq (appends : cls.Appends added refused outcome) {result : CharacterClass}
    (made : outcome = .ok result) : result.chars = (cls.chars ++ added).eraseDups := by
  subst made
  exact appends.1

theorem Appends.eq_error_iff (appends : cls.Appends added refused outcome)
    (single : ∀ a b, refused a → refused b → a = b) (cause : Cause) :
    outcome = .error cause ↔ refused cause := by
  cases outcome with
  | ok result => exact iff_of_false nofun (appends.2 cause)
  | error other =>
      constructor
      · rintro ⟨⟩
        exact appends
      · exact fun refused => congrArg Except.error (single other cause appends refused)

end Appends

theorem appends_addChar (cls : CharacterClass) (c : Char) :
    cls.Appends [c] (Symbol.Refused c) (cls.addChar c) := by
  by_cases allowed : Symbol.Allowed c
  · rw [addChar, Symbol.ofChar_of_allowed allowed]
    exact ⟨cls.chars_insert _, Symbol.not_refused_of_allowed allowed⟩
  · obtain ⟨cause, refused, failed⟩ := Symbol.exists_refused_of_not_allowed allowed
    rw [addChar, failed]
    exact refused

/-- A row of steps appends what its steps append, up to the first that is refused. -/
theorem appends_foldlM {α : Type} {step : CharacterClass → α → Except Cause CharacterClass}
    {added : α → List Char} {refused : α → Cause → Prop}
    (each : ∀ (cls : CharacterClass) (a : α), cls.Appends (added a) (refused a) (step cls a))
    (steps : List α) (cls : CharacterClass) :
    cls.Appends (steps.flatMap added) (FirstRefused refused steps) (steps.foldlM step cls) := by
  induction steps generalizing cls with
  | nil =>
      refine ⟨?_, forall_not_firstRefused_iff.mpr fun _ none => absurd none List.not_mem_nil⟩
      rw [List.flatMap_nil, List.append_nil, eraseDups_of_nodup cls.nodup_chars]
  | cons a steps ih =>
      have first := each cls a
      rw [List.foldlM_cons]
      cases outcome : step cls a with
      | error cause =>
          rw [outcome] at first
          exact FirstRefused.head first
      | ok next =>
          rw [outcome] at first
          have rest := ih next
          change cls.Appends _ _ (steps.foldlM step next)
          cases final : steps.foldlM step next with
          | error cause =>
              rw [final] at rest
              exact FirstRefused.tail first.2 rest
          | ok result =>
              rw [final] at rest
              refine ⟨?_, forall_not_firstRefused_iff.mpr (List.forall_mem_cons.mpr
                ⟨first.2, forall_not_firstRefused_iff.mp rest.2⟩)⟩
              rw [rest.1, eraseDups_append_eraseDups next.nodup_chars first.1, List.append_assoc,
                List.flatMap_cons]

theorem appends_addChars (cls : CharacterClass) (cs : List Char) :
    cls.Appends cs (FirstRefused Symbol.Refused cs) (cls.addChars cs) := by
  have row := appends_foldlM appends_addChar cs cls
  rw [List.flatMap_singleton'] at row
  exact row

namespace Item

/-- Characters of an item are input symbols, the ends of a range are in order, and
the end marker is not between them. -/
def Valid : Item → Prop
  | single c => Symbol.Allowed c
  | range low high => Symbol.Allowed low ∧ Symbol.Allowed high ∧ low ≤ high ∧
      ¬(low ≤ endMarker ∧ endMarker ≤ high)

instance : DecidablePred Valid
  | single c => inferInstanceAs (Decidable (Symbol.Allowed c))
  | range low high => inferInstanceAs (Decidable (Symbol.Allowed low ∧ Symbol.Allowed high ∧
      low ≤ high ∧ ¬(low ≤ endMarker ∧ endMarker ≤ high)))

/-- The ends of a range are judged before their order, and what lies between them last. -/
inductive Refused : Item → Cause → Prop where
  | single {c : Char} {cause : Cause} (symbol : Symbol.Refused c cause) :
      Refused (.single c) cause
  | low {low high : Char} {cause : Cause} (symbol : Symbol.Refused low cause) :
      Refused (.range low high) cause
  | high {low high : Char} {cause : Cause} (first : Symbol.Allowed low)
      (symbol : Symbol.Refused high cause) : Refused (.range low high) cause
  | reversed {low high : Char} (first : Symbol.Allowed low) (last : Symbol.Allowed high)
      (descends : ¬low ≤ high) : Refused (.range low high) (.reversedRange low high)
  | across {low high : Char} (first : Symbol.Allowed low) (last : Symbol.Allowed high)
      (before : low ≤ endMarker) (after : endMarker ≤ high) :
      Refused (.range low high) .markAsInput

/-- The characters an item stands for. -/
def expansion : Item → List Char
  | single c => [c]
  | range low high => charsBetween low high

theorem refused_single_iff (c : Char) (cause : Cause) :
    (single c).Refused cause ↔ Symbol.Refused c cause := by
  constructor
  · rintro ⟨symbol⟩
    exact symbol
  · exact Refused.single

theorem Valid.not_refused {item : Item} (valid : item.Valid) (cause : Cause) :
    ¬item.Refused cause := by
  intro refused
  cases refused with
  | single symbol => exact Symbol.not_refused_of_allowed valid _ symbol
  | low symbol => exact Symbol.not_refused_of_allowed valid.1 _ symbol
  | high _ symbol => exact Symbol.not_refused_of_allowed valid.2.1 _ symbol
  | reversed _ _ descends => exact descends valid.2.2.1
  | across _ _ before after => exact valid.2.2.2 ⟨before, after⟩

theorem Refused.unique {item : Item} {cause reason : Cause} (refused : item.Refused cause)
    (again : item.Refused reason) : cause = reason := by
  cases refused with
  | single symbol => exact symbol.unique ((refused_single_iff _ _).mp again)
  | low symbol =>
      cases again with
      | low symbol' => exact symbol.unique symbol'
      | high first _ | reversed first _ _ | across first _ _ _ =>
          exact absurd symbol (Symbol.not_refused_of_allowed first cause)
  | high first symbol =>
      cases again with
      | low symbol' => exact absurd symbol' (Symbol.not_refused_of_allowed first reason)
      | high _ symbol' => exact symbol.unique symbol'
      | reversed _ last _ | across _ last _ _ =>
          exact absurd symbol (Symbol.not_refused_of_allowed last cause)
  | reversed first last descends =>
      cases again with
      | low symbol => exact absurd symbol (Symbol.not_refused_of_allowed first reason)
      | high _ symbol => exact absurd symbol (Symbol.not_refused_of_allowed last reason)
      | reversed _ _ _ => rfl
      | across _ _ before after => exact absurd (Char.le_trans before after) descends
  | across first last before after =>
      cases again with
      | low symbol => exact absurd symbol (Symbol.not_refused_of_allowed first reason)
      | high _ symbol => exact absurd symbol (Symbol.not_refused_of_allowed last reason)
      | reversed _ _ descends => exact absurd (Char.le_trans before after) descends
      | across _ _ _ _ => rfl

theorem exists_refused_of_not_valid {item : Item} (invalid : ¬item.Valid) :
    ∃ cause, item.Refused cause := by
  cases item with
  | single c =>
      obtain ⟨cause, refused, _⟩ := Symbol.exists_refused_of_not_allowed invalid
      exact ⟨cause, .single refused⟩
  | range low high =>
      by_cases first : Symbol.Allowed low
      · by_cases last : Symbol.Allowed high
        · by_cases ordered : low ≤ high
          · by_cases across : low ≤ endMarker ∧ endMarker ≤ high
            · exact ⟨_, .across first last across.1 across.2⟩
            · exact absurd ⟨first, last, ordered, across⟩ invalid
          · exact ⟨_, .reversed first last ordered⟩
        · obtain ⟨cause, refused, _⟩ := Symbol.exists_refused_of_not_allowed last
          exact ⟨cause, .high first refused⟩
      · obtain ⟨cause, refused, _⟩ := Symbol.exists_refused_of_not_allowed first
        exact ⟨cause, .low refused⟩

theorem forall_not_refused_iff (item : Item) : (∀ cause, ¬item.Refused cause) ↔ item.Valid := by
  constructor
  · intro none
    by_contra invalid
    obtain ⟨cause, refused⟩ := exists_refused_of_not_valid invalid
    exact none cause refused
  · exact Valid.not_refused

end Item

/-- Between two input symbols only the end marker can be refused. -/
theorem refused_of_firstRefused_between {low high : Char} {cause : Cause}
    (first : Symbol.Allowed low) (last : Symbol.Allowed high)
    (stopped : FirstRefused Symbol.Refused (charsBetween low high) cause) :
    (Item.range low high).Refused cause := by
  obtain ⟨c, member, refused⟩ := stopped.exists_mem
  have bounds := (mem_charsBetween last.2 c).mp member
  cases refused with
  | marker => exact .across first last bounds.1 bounds.2
  | foreign beyond => exact absurd (Nat.lt_of_le_of_lt bounds.2 last.2) beyond

theorem appends_addRange (cls : CharacterClass) (low high : Char) :
    cls.Appends (charsBetween low high) (Item.range low high).Refused (cls.addRange low high) := by
  rw [addRange]
  by_cases first : Symbol.Allowed low
  · by_cases last : Symbol.Allowed high
    · rw [Symbol.ofChar_of_allowed first, Symbol.ofChar_of_allowed last]
      by_cases ordered : low ≤ high
      · have row := cls.appends_addChars (charsBetween low high)
        simp only [bind, Except.bind, dif_pos ordered, Span.drain_between]
        cases outcome : cls.addChars (charsBetween low high) with
        | ok result =>
            rw [outcome] at row
            refine ⟨row.1, (Item.forall_not_refused_iff _).mpr ⟨first, last, ordered, ?_⟩⟩
            intro across
            have member := (mem_charsBetween last.2 endMarker).mpr across
            exact forall_not_firstRefused_iff.mp row.2 _ member _ .marker
        | error cause =>
            rw [outcome] at row
            exact refused_of_firstRefused_between first last row
      · simp only [bind, Except.bind, dif_neg ordered]
        exact .reversed first last ordered
    · obtain ⟨cause, refused, failed⟩ := Symbol.exists_refused_of_not_allowed last
      rw [Symbol.ofChar_of_allowed first, failed]
      exact .high first refused
  · obtain ⟨cause, refused, failed⟩ := Symbol.exists_refused_of_not_allowed first
    rw [failed]
    exact .low refused

theorem appends_addTo (cls : CharacterClass) (item : Item) :
    cls.Appends item.expansion item.Refused (item.addTo cls) := by
  cases item with
  | single c =>
      have same : (Item.single c).Refused = Symbol.Refused c := by
        funext cause
        exact propext (Item.refused_single_iff c cause)
      rw [same]
      exact cls.appends_addChar c
  | range low high => exact cls.appends_addRange low high

theorem appends_ofItems (items : List Item) :
    empty.Appends (items.flatMap Item.expansion) (FirstRefused Item.Refused items)
      (ofItems items) :=
  appends_foldlM appends_addTo items empty

end CharacterClass

end Recognizer
