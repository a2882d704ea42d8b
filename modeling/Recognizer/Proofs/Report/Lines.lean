import Mathlib.Data.List.Basic
import Recognizer.Proofs.Text.Delimited
import Recognizer.Report.Drawing

/-!
Drawings line by line. Every statement of a drawing is a line of its own, as captions are
escaped. Outside of quotes only arrows have a head, and a node is declared where its name
has its attributes behind it. So the lines of a drawing show which statements it is made
of, whatever stands in the captions.
-/

namespace Recognizer

namespace Layout

def linesOf (text : String) : List String :=
  (text.toList.splitOn '\n').map String.ofList

theorem toList_joined (texts : List String) :
    (joined texts).toList = texts.flatMap String.toList := by
  induction texts with
  | nil => rfl
  | cons text texts ih => rw [joined, String.toList_append, ih, List.flatMap_cons]

theorem linesOf_append (text rest : String) (unbroken : '\n' ∉ text.toList) :
    linesOf (line text ++ rest) = text :: linesOf rest := by
  have cut : (line text ++ rest).toList = text.toList ++ '\n' :: rest.toList := by simp [line]
  rw [linesOf, cut, List.splitOn_append_cons_self_of_not_mem unbroken, List.map_cons,
    String.ofList_toList, linesOf]

/-- Texts without a line break are lines, whatever stands behind them. -/
theorem linesOf_lines_append {texts : List String}
    (unbroken : ∀ text ∈ texts, '\n' ∉ text.toList) (rest : String) :
    linesOf (lines texts ++ rest) = texts ++ linesOf rest := by
  induction texts with
  | nil => rw [lines, List.map_nil, joined, String.empty_append, List.nil_append]
  | cons text texts ih =>
      obtain ⟨first, others⟩ := List.forall_mem_cons.mp unbroken
      have onward := ih others
      rw [lines] at onward ⊢
      rw [List.map_cons, joined, String.append_assoc, linesOf_append text _ first, onward,
        List.cons_append]

theorem linesOf_lines {texts : List String} (unbroken : ∀ text ∈ texts, '\n' ∉ text.toList) :
    linesOf (lines texts) = texts ++ [""] := by
  rw [← String.append_empty (s := lines texts), linesOf_lines_append unbroken]
  rfl

end Layout

namespace Drawing

open Layout

section Escape

/-- The character that a letter behind a backslash stands for. -/
def meant (letter : Char) : Char := if letter = 'n' then '\n' else letter

theorem toList_escapeChar (c : Char) :
    (escapeChar c).toList = [c] ∧ c ≠ '"' ∧ c ≠ '\\' ∨
      ∃ letter, (escapeChar c).toList = ['\\', letter] ∧ c = meant letter := by
  rw [escapeChar]
  split
  · rename_i mark
    exact Or.inr ⟨'"', by decide, mark⟩
  · split
    · rename_i backslash
      exact Or.inr ⟨'\\', by decide, backslash⟩
    · split
      · rename_i broken
        exact Or.inr ⟨'n', by decide, broken⟩
      · rename_i mark backslash _
        exact Or.inl ⟨String.toList_ofList, mark, backslash⟩

theorem delimited_escapeChar :
    Delimited (fun c => (escapeChar c).toList) fun _ => True := by
  intro a b front back _ _ same
  simp only at same
  rcases toList_escapeChar a with ⟨plain, _, backslash⟩ | ⟨letter, escaped, known⟩
  · rcases toList_escapeChar b with ⟨also, _⟩ | ⟨other, masked, _⟩
    · rw [plain, also] at same
      exact ⟨(List.cons.inj same).1, (List.cons.inj same).2⟩
    · rw [plain, masked] at same
      exact absurd (List.cons.inj same).1 backslash
  · rcases toList_escapeChar b with ⟨also, _, backslash⟩ | ⟨other, masked, found⟩
    · rw [escaped, also] at same
      exact absurd (List.cons.inj same).1.symm backslash
    · rw [escaped, masked] at same
      obtain ⟨letters, rest⟩ := List.cons.inj (List.cons.inj same).2
      rw [known, found, letters]
      exact ⟨rfl, rest⟩

theorem delimited_caption :
    Delimited (fun caption => (escape caption).toList ++ ['"']) fun _ => True := by
  have opens : ∀ c rest, ((escapeChar c).toList ++ rest).head? ≠ some '"' := by
    intro c rest
    rcases toList_escapeChar c with ⟨plain, mark, _⟩ | ⟨letter, escaped, _⟩
    · rw [plain]
      exact fun first => mark (Option.some.inj first)
    · rw [escaped]
      exact fun first => absurd (Option.some.inj first) (by decide)
  have sequence := delimited_escapeChar.sequence (fun _ => trivial) opens fun _ _ => trivial
  intro caption other front back stop halt same
  simp only [escape, toList_joined, List.flatMap_map] at same
  obtain ⟨texts, rest⟩ := sequence _ _ front back stop halt same
  exact ⟨String.toList_inj.mp texts, rest⟩

theorem unbroken_escape (caption : String) : '\n' ∉ (escape caption).toList := by
  rw [escape, toList_joined, List.flatMap_map]
  intro broken
  obtain ⟨c, _, member⟩ := List.mem_flatMap.mp broken
  rw [escapeChar] at member
  split at member
  · exact absurd member (by decide)
  · split at member
    · exact absurd member (by decide)
    · split at member
      · exact absurd member (by decide)
      · rename_i other
        rw [String.toList_ofList, List.mem_singleton] at member
        exact other member.symm

end Escape

def isNameChar (c : Char) : Bool := c.isAlphanum || c == '_'

def IsName (name : String) : Prop := ∀ c ∈ name.toList, isNameChar c = true

inductive Quoting where
  | outside
  | inside
  | escaped

/-- What is left of a line without its quoted texts. -/
def unquoted : Quoting → List Char → List Char
  | _, [] => []
  | .outside, c :: rest =>
      if c = '"' then unquoted .inside rest else c :: unquoted .outside rest
  | .inside, c :: rest =>
      if c = '"' then unquoted .outside rest
      else if c = '\\' then unquoted .escaped rest
      else unquoted .inside rest
  | .escaped, _ :: rest => unquoted .inside rest

def hasArrow (line : String) : Bool := (unquoted .outside line.toList).contains '>'

/-- The line gives the attributes of the node of this name. -/
def declares (name line : String) : Bool := (name ++ " [").toList.isPrefixOf line.toList

theorem unquoted_append {front : List Char} (plain : '"' ∉ front) (rest : List Char) :
    unquoted .outside (front ++ rest) = front ++ unquoted .outside rest := by
  induction front with
  | nil => rfl
  | cons c front ih =>
      rw [List.mem_cons, not_or] at plain
      obtain ⟨other, plain⟩ := plain
      rw [List.cons_append, unquoted, if_neg (Ne.symm other), ih plain, List.cons_append]

theorem unquoted_escape (caption : String) (rest : List Char) :
    unquoted .inside ((escape caption).toList ++ '"' :: rest) = unquoted .outside rest := by
  rw [escape, toList_joined, List.flatMap_map]
  induction caption.toList with
  | nil => rfl
  | cons c text ih =>
      rw [List.flatMap_cons, List.append_assoc, ← ih]
      rcases toList_escapeChar c with ⟨plain, mark, backslash⟩ | ⟨letter, escaped, _⟩
      · simp [plain, unquoted, mark, backslash]
      · simp [escaped, unquoted]

theorem declares_iff (name line : String) :
    declares name line = true ↔ ∃ rest, line.toList = name.toList ++ ' ' :: '[' :: rest := by
  rw [declares, List.isPrefixOf_iff_prefix, String.toList_append]
  constructor
  · rintro ⟨rest, same⟩
    exact ⟨rest, by simpa using same.symm⟩
  · rintro ⟨rest, same⟩
    exact ⟨rest, by simpa using same.symm⟩

/-- A name is all that stands before what cannot belong to it. -/
theorem IsName.append_inj {name other : String} (proper : IsName name) (also : IsName other)
    {c d : Char} (ends : isNameChar c = false) (stops : isNameChar d = false)
    {front back : List Char} (same : name.toList ++ c :: front = other.toList ++ d :: back) :
    name = other ∧ c = d ∧ front = back := by
  obtain ⟨names, rest⟩ :=
    Stops.append_inj proper also (Stops.cons ends front) (Stops.cons stops back) same
  exact ⟨String.toList_inj.mp names, List.cons.inj rest⟩

theorem IsName.not_mem {name : String} (proper : IsName name) {c : Char}
    (other : isNameChar c = false) : c ∉ name.toList := by
  intro member
  rw [proper c member] at other
  cases other

namespace Statement

def labelMark : List Char := [' ', '[', 'l', 'a', 'b', 'e', 'l', ' ', '=', ' ']

def shapeMark : List Char := [' ', 's', 'h', 'a', 'p', 'e', ' ', '=', ' ']

theorem toList_node (name caption shape : String) :
    (node name caption shape).text.toList =
      name.toList ++ (labelMark ++ '"' :: ((escape caption).toList ++ '"' ::
        (shapeMark ++ (shape.toList ++ [']', ';'])))) := by
  simp [text, labelMark, shapeMark]

theorem toList_arrow (source target : String) :
    (arrow source target).text.toList =
      source.toList ++ ' ' :: '-' :: '>' :: ' ' :: (target.toList ++ [';']) := by
  simp [text]

theorem toList_labelledArrow (source target caption : String) :
    (labelledArrow source target caption).text.toList =
      source.toList ++ ' ' :: '-' :: '>' :: ' ' :: (target.toList ++ (labelMark ++ '"' ::
        ((escape caption).toList ++ '"' :: [']', ';']))) := by
  simp [text, labelMark]

/-- Its nodes have names, and a shape is named. -/
def Proper : Statement → Prop
  | node name _ shape => IsName name ∧ IsName shape
  | arrow source target => IsName source ∧ IsName target
  | labelledArrow source target _ => IsName source ∧ IsName target

def isArrow : Statement → Bool
  | node _ _ _ => false
  | arrow _ _ => true
  | labelledArrow _ _ _ => true

def isNode (name : String) : Statement → Bool
  | node declared _ _ => declared == name
  | arrow _ _ => false
  | labelledArrow _ _ _ => false

theorem caption_inj {caption other : String} {front back : List Char}
    (same : (escape caption).toList ++ '"' :: front = (escape other).toList ++ '"' :: back) :
    caption = other ∧ front = back :=
  delimited_caption caption other front back trivial trivial (by simpa using same)

/-- Both ends of an arrow are read off its line. -/
theorem ends_inj {source target source' target' : String}
    (proper : IsName source ∧ IsName target) (also : IsName source' ∧ IsName target') {c d : Char}
    (ends : isNameChar c = false) (stops : isNameChar d = false) {front back : List Char}
    (same : source.toList ++ ' ' :: '-' :: '>' :: ' ' :: (target.toList ++ c :: front) =
      source'.toList ++ ' ' :: '-' :: '>' :: ' ' :: (target'.toList ++ d :: back)) :
    source = source' ∧ target = target' ∧ c = d ∧ front = back := by
  obtain ⟨rfl, _, rest⟩ := proper.1.append_inj also.1 rfl rfl same
  simp only [List.cons.injEq, true_and] at rest
  exact ⟨rfl, proper.2.append_inj also.2 ends stops rest⟩

section Proper

variable {statement : Statement} (proper : statement.Proper)

include proper

theorem unbroken_text : '\n' ∉ statement.text.toList := by
  have marks : '\n' ∉ labelMark ∧ '\n' ∉ shapeMark := by decide
  cases statement with
  | node name caption shape =>
      rw [toList_node]
      simp [marks, unbroken_escape, proper.1.not_mem (c := '\n') rfl,
        proper.2.not_mem (c := '\n') rfl]
  | arrow source target =>
      rw [toList_arrow]
      simp [proper.1.not_mem (c := '\n') rfl, proper.2.not_mem (c := '\n') rfl]
  | labelledArrow source target caption =>
      rw [toList_labelledArrow]
      simp [marks, unbroken_escape, proper.1.not_mem (c := '\n') rfl,
        proper.2.not_mem (c := '\n') rfl]

theorem hasArrow_text : hasArrow statement.text = statement.isArrow := by
  rw [hasArrow]
  cases statement with
  | node name caption shape =>
      have quotes : '"' ∉ labelMark ∧ '"' ∉ shapeMark := by decide
      have heads : '>' ∉ labelMark ∧ '>' ∉ shapeMark := by decide
      rw [toList_node, unquoted_append (proper.1.not_mem rfl), unquoted_append quotes.1, unquoted,
        if_pos rfl, unquoted_escape, unquoted_append quotes.2,
        unquoted_append (proper.2.not_mem rfl)]
      simp [isArrow, unquoted, heads, proper.1.not_mem (c := '>') rfl,
        proper.2.not_mem (c := '>') rfl]
  | arrow source target =>
      rw [toList_arrow, unquoted_append (proper.1.not_mem rfl)]
      simp [isArrow, unquoted]
  | labelledArrow source target caption =>
      rw [toList_labelledArrow, unquoted_append (proper.1.not_mem rfl)]
      simp [isArrow, unquoted]

theorem declares_text {name : String} (known : IsName name) :
    declares name statement.text = statement.isNode name := by
  rw [Bool.eq_iff_iff, declares_iff]
  cases statement with
  | node declared caption shape =>
      rw [toList_node, isNode, beq_iff_eq]
      constructor
      · rintro ⟨rest, same⟩
        exact (proper.1.append_inj known rfl rfl same).1
      · rintro rfl
        exact ⟨_, rfl⟩
  | arrow source target =>
      rw [toList_arrow]
      refine iff_of_false ?_ Bool.false_ne_true
      rintro ⟨rest, same⟩
      obtain ⟨_, _, behind⟩ := proper.1.append_inj known rfl rfl same
      cases behind
  | labelledArrow source target caption =>
      rw [toList_labelledArrow]
      refine iff_of_false ?_ Bool.false_ne_true
      rintro ⟨rest, same⟩
      obtain ⟨_, _, behind⟩ := proper.1.append_inj known rfl rfl same
      cases behind

/-- A line belongs to one statement only. -/
theorem text_injective {other : Statement} (also : other.Proper)
    (same : statement.text = other.text) : statement = other := by
  have arrows : statement.isArrow = other.isArrow := by
    rw [← hasArrow_text proper, same, hasArrow_text also]
  replace same := congrArg String.toList same
  cases statement with
  | node name caption shape =>
      cases other with
      | node name' caption' shape' =>
          rw [toList_node, toList_node] at same
          obtain ⟨rfl, _⟩ := proper.1.append_inj also.1 rfl rfl same
          have labels := List.append_cancel_left (List.append_cancel_left same)
          have captions := (List.cons.inj labels).2
          obtain ⟨rfl, shapes⟩ := caption_inj captions
          obtain ⟨rfl, _⟩ := proper.2.append_inj also.2 rfl rfl (List.append_cancel_left shapes)
          rfl
      | arrow source target => cases arrows
      | labelledArrow source target caption' => cases arrows
  | arrow source target =>
      cases other with
      | node name caption shape => cases arrows
      | arrow source' target' =>
          rw [toList_arrow, toList_arrow] at same
          obtain ⟨rfl, rfl, _⟩ := ends_inj proper also rfl rfl same
          rfl
      | labelledArrow source' target' caption =>
          rw [toList_arrow, toList_labelledArrow] at same
          obtain ⟨_, _, mark, _⟩ := ends_inj proper also rfl rfl same
          cases mark
  | labelledArrow source target caption =>
      cases other with
      | node name caption' shape => cases arrows
      | arrow source' target' =>
          rw [toList_arrow, toList_labelledArrow] at same
          obtain ⟨_, _, mark, _⟩ := ends_inj proper also rfl rfl same
          cases mark
      | labelledArrow source' target' caption' =>
          rw [toList_labelledArrow, toList_labelledArrow] at same
          obtain ⟨rfl, rfl, _⟩ := ends_inj proper also rfl rfl same
          have tails := List.append_cancel_left same
          simp only [List.cons.injEq, true_and] at tails
          have labels := List.append_cancel_left (List.append_cancel_left tails)
          have captions := (List.cons.inj labels).2
          obtain ⟨rfl, _⟩ := caption_inj captions
          rfl

end Proper

end Statement

theorem count_map_text {statements : List Statement}
    (proper : ∀ statement ∈ statements, statement.Proper) {known : Statement}
    (also : known.Proper) :
    (statements.map Statement.text).count known.text = statements.count known := by
  rw [List.count_eq_countP, List.countP_map, List.count_eq_countP]
  apply List.countP_congr
  intro statement member
  rw [Function.comp_apply, beq_iff_eq, beq_iff_eq]
  exact ⟨Statement.text_injective (proper statement member) also, congrArg Statement.text⟩

/-- Where all are proper, the lines show the statements in their order. -/
theorem map_text_injective {statements others : List Statement}
    (proper : ∀ statement ∈ statements, statement.Proper)
    (also : ∀ statement ∈ others, statement.Proper)
    (same : statements.map Statement.text = others.map Statement.text) : statements = others := by
  induction statements generalizing others with
  | nil => exact (List.map_eq_nil_iff.mp same.symm).symm
  | cons statement statements ih =>
      cases others with
      | nil => cases same
      | cons other others =>
          obtain ⟨first, rest⟩ := List.cons.inj same
          obtain ⟨proper, properRest⟩ := List.forall_mem_cons.mp proper
          obtain ⟨also, alsoRest⟩ := List.forall_mem_cons.mp also
          rw [Statement.text_injective proper also first, ih properRest alsoRest rest]

/-- Only what is no arrow can be a node. -/
theorem filter_isNode_eq (name : String) (statements : List Statement) :
    statements.filter (Statement.isNode name) =
      (statements.filter (!·.isArrow)).filter (Statement.isNode name) := by
  rw [List.filter_filter]
  refine List.filter_congr fun statement _ => ?_
  cases statement <;> simp [Statement.isNode, Statement.isArrow]

/-- What is made of one item only, by its index, is kept at most once. -/
theorem filter_mapIdx {α β : Type} {make : Nat → α → β} {held : β → Bool} {number : Nat}
    (only : ∀ index item, held (make index item) = decide (index = number)) (items : List α) :
    (items.mapIdx make).filter held = (items[number]?.map (make number)).toList := by
  induction items generalizing make number with
  | nil => rfl
  | cons item items ih =>
      rw [List.mapIdx_cons]
      cases number with
      | zero =>
          have later : (items.mapIdx fun index => make (index + 1)).filter held = [] := by
            refine List.filter_eq_nil_iff.mpr fun made member => ?_
            obtain ⟨index, inside, rfl⟩ := List.mem_mapIdx.mp member
            simp [only]
          rw [List.filter_cons_of_pos (by simp [only]), later]
          rfl
      | succ number =>
          rw [List.filter_cons_of_neg (by simp [only]), List.getElem?_cons_succ]
          exact ih fun index item => by simp [only]

section Numbered

variable {stem : String} (proper : IsName stem) (number : Nat)

include proper

theorem isName_nameAt : IsName (Automaton.nameAt stem number) := by
  intro c member
  rw [Automaton.nameAt, String.toList_append, List.mem_append] at member
  rcases member with letter | digit
  · exact proper c letter
  · rw [isNameChar, Char.isAlphanum, Delimited.isDigit_of_mem_number digit, Bool.or_true,
      Bool.true_or]

omit proper in
theorem endsInDigit_nameAt :
    (Automaton.nameAt stem number).toList.getLast?.any Char.isDigit = true := by
  rw [Automaton.nameAt, String.toList_append,
    List.getLast?_append_of_ne_nil _ (Delimited.number_ne_nil number)]
  rw [Option.any_eq_true]
  have last := List.getLast?_eq_some_getLast (Delimited.number_ne_nil number)
  exact ⟨_, last, Delimited.isDigit_of_mem_number (List.mem_of_getLast? last)⟩

omit proper in
theorem nameAt_injective {other : Nat}
    (same : Automaton.nameAt stem number = Automaton.nameAt stem other) : number = other := by
  have texts := congrArg String.toList same
  rw [Automaton.nameAt, Automaton.nameAt, String.toList_append, String.toList_append] at texts
  exact Delimited.number_injective (String.toList_inj.mp (List.append_cancel_left texts))

omit proper in
theorem isNode_nameAt (index : Nat) (caption shape : String) :
    Statement.isNode (Automaton.nameAt stem number)
      (.node (Automaton.nameAt stem index) caption shape) = decide (index = number) := by
  rw [Statement.isNode, Bool.eq_iff_iff, beq_iff_eq, decide_eq_true_iff]
  exact ⟨nameAt_injective index, congrArg _⟩

end Numbered

/-- No arrow, and no node whose name ends in a digit. -/
def isSetting (line : String) : Bool :=
  !hasArrow line && !line.toList.contains '\n' &&
    !(line.toList.takeWhile isNameChar).getLast?.any Char.isDigit

theorem hasArrow_of_isSetting {line : String} (setting : isSetting line = true) :
    hasArrow line = false := by
  simp only [isSetting, Bool.and_eq_true, Bool.not_eq_true'] at setting
  exact setting.1.1

theorem unbroken_of_isSetting {line : String} (setting : isSetting line = true) :
    '\n' ∉ line.toList := by
  simp only [isSetting, Bool.and_eq_true, Bool.not_eq_true', List.contains_eq_mem,
    decide_eq_false_iff_not] at setting
  exact setting.1.2

theorem declares_of_isSetting {line : String} (setting : isSetting line = true) {stem : String}
    (proper : IsName stem) (number : Nat) :
    declares (Automaton.nameAt stem number) line = false := by
  by_contra declared
  rw [Bool.not_eq_false, declares_iff] at declared
  obtain ⟨rest, text⟩ := declared
  have first : line.toList.takeWhile isNameChar = (Automaton.nameAt stem number).toList := by
    rw [text]
    exact Stops.takeWhile_append (isName_nameAt proper number) (Stops.cons rfl _)
  simp only [isSetting, Bool.and_eq_true, Bool.not_eq_true', first] at setting
  rw [endsInDigit_nameAt] at setting
  cases setting.2

section Framed

variable {opening : List String} {statements : List Statement}
  (settings : ∀ line ∈ opening, isSetting line = true)
  (proper : ∀ statement ∈ statements, statement.Proper)

include settings proper

theorem linesOf_framed :
    linesOf (framed opening statements) =
      opening ++ statements.map Statement.text ++ ["\x7d", ""] := by
  have unbroken : ∀ line ∈ opening ++ statements.map Statement.text ++ ["\x7d"],
      '\n' ∉ line.toList := by
    intro line member
    rcases List.mem_append.mp member with before | last
    · rcases List.mem_append.mp before with setting | stated
      · exact unbroken_of_isSetting (settings line setting)
      · obtain ⟨statement, known, rfl⟩ := List.mem_map.mp stated
        exact Statement.unbroken_text (proper statement known)
    · rw [List.mem_singleton.mp last]
      decide
  rw [framed, linesOf_lines unbroken, List.append_assoc _ _ [""]]
  rfl

/-- What a line is asked for and no setting has, only the statements can have. -/
theorem filter_framed {asked : String → Bool} {held : Statement → Bool}
    (other : ∀ line, isSetting line = true → asked line = false)
    (same : ∀ statement ∈ statements, asked statement.text = held statement) :
    (linesOf (framed opening statements)).filter asked =
      (statements.filter held).map Statement.text := by
  have before : opening.filter asked = [] :=
    List.filter_eq_nil_iff.mpr fun line member =>
      Bool.eq_false_iff.mp (other line (settings line member))
  have behind : ["\x7d", ""].filter asked = [] := by
    rw [List.filter_cons_of_neg (by simp [other "\x7d" (by decide)]),
      List.filter_cons_of_neg (by simp [other "" (by decide)])]
    rfl
  rw [linesOf_framed settings proper, List.filter_append, List.filter_append, before, behind,
    List.nil_append, List.append_nil, List.filter_map]
  exact congrArg _ (List.filter_congr same)

theorem filter_hasArrow_framed :
    (linesOf (framed opening statements)).filter hasArrow =
      (statements.filter Statement.isArrow).map Statement.text :=
  filter_framed settings proper (fun _ => hasArrow_of_isSetting)
    fun statement member => Statement.hasArrow_text (proper statement member)

theorem filter_declares_framed {stem : String} (name : IsName stem) (number : Nat) :
    (linesOf (framed opening statements)).filter (declares (Automaton.nameAt stem number)) =
      (statements.filter (Statement.isNode (Automaton.nameAt stem number))).map
        Statement.text :=
  filter_framed settings proper (fun _ setting => declares_of_isSetting setting name number)
    fun statement member =>
      Statement.declares_text (proper statement member) (isName_nameAt name number)

/-- When the nodes are made of items by their indices, the line of a number is that of its item. -/
theorem filter_declares_mapIdx {α : Type} {items : List α} {make : Nat → α → Statement}
    (nodes : statements.filter (!·.isArrow) = items.mapIdx make) {stem : String}
    (name : IsName stem) (number : Nat)
    (numbered : ∀ index item, (make index item).isNode (Automaton.nameAt stem number) =
      decide (index = number)) :
    (linesOf (framed opening statements)).filter (declares (Automaton.nameAt stem number)) =
      (items[number]?.map fun item => (make number item).text).toList := by
  rw [filter_declares_framed settings proper name, filter_isNode_eq, nodes, filter_mapIdx numbered,
    ← Option.toList_map, Option.map_map]
  rfl

theorem count_framed {known : Statement} (also : known.Proper) (head : known.isArrow = true) :
    (linesOf (framed opening statements)).count known.text =
      (statements.filter Statement.isArrow).count known := by
  have arrow : hasArrow known.text = true := by rw [Statement.hasArrow_text also, head]
  rw [← List.count_filter arrow, filter_hasArrow_framed settings proper]
  exact count_map_text
    (fun statement member => proper statement (List.mem_of_mem_filter member)) also

end Framed

end Drawing

end Recognizer
