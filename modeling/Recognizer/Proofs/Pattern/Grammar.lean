import Recognizer.Proofs.Pattern.Descent

/-!
The grammar of pattern definitions. Tokens are parsed just when they are definitions one
after the other, each a name, `=`, terms and `;`, and then to those definitions: what is
written down in tokens is read again, and what is read can be written in the same tokens.
-/

namespace Recognizer.Pattern

open CharacterClass (Item)

section Forms

variable {α : Type}

/-- Any number of things one after the other. -/
inductive Forms (form : List PlacedToken → α → Prop) : List PlacedToken → List α → Prop where
  | none : Forms form [] []
  | more {piece rest : List PlacedToken} {value : α} {values : List α} (first : form piece value)
      (others : Forms form rest values) : Forms form (piece ++ rest) (value :: values)

end Forms

inductive ItemForm : List PlacedToken → Item → Prop where
  | single (c : Char) (place : Place) : ItemForm [⟨.literal c, place⟩] (.single c)
  | range (low high : Char) (start middle finish : Place) :
      ItemForm [⟨.literal low, start⟩, ⟨.through, middle⟩, ⟨.literal high, finish⟩]
        (.range low high)

/-- A body stands where its first token does. -/
inductive BodyForm (place : Place) : List PlacedToken → Body → Prop where
  | literal (c : Char) : BodyForm place [⟨.literal c, place⟩] (.literal c)
  | bracketed {inner : List PlacedToken} {items : List Item} (finish : Place)
      (listed : Forms ItemForm inner items) :
      BodyForm place (⟨.opening, place⟩ :: (inner ++ [⟨.closing, finish⟩])) (.bracketed items)

inductive TermForm : List PlacedToken → Term → Prop where
  | once {place : Place} {piece : List PlacedToken} {body : Body}
      (form : BodyForm place piece body) : TermForm piece ⟨body, false, place⟩
  | repeated {place : Place} {piece : List PlacedToken} {body : Body} (finish : Place)
      (form : BodyForm place piece body) : TermForm (piece ++ [⟨.star, finish⟩]) ⟨body, true, place⟩

inductive DefinitionForm : List PlacedToken → Definition → Prop where
  | named {inner : List PlacedToken} {terms : List Term} (name : String)
      (place equals finish : Place) (listed : Forms TermForm inner terms) :
      DefinitionForm
        (⟨.word name, place⟩ :: ⟨.equals, equals⟩ :: (inner ++ [⟨.semicolon, finish⟩]))
        ⟨name, terms, place⟩

/-- Nothing that comes before these tokens goes on with them. -/
def Fresh (tokens : List PlacedToken) : Prop :=
  ahead .through tokens = false ∧ ahead .star tokens = false

section Loop

variable {α : Type} (stops : List PlacedToken → Bool)
  (round : List PlacedToken → Option (Reading α)) (form : List PlacedToken → α → Prop)

/-- A round takes one form, and any form does for another round. -/
structure Follows : Prop where
  sound : ∀ tokens value rest, round tokens = some (some (value, rest)) →
    ∃ piece, form piece value ∧ tokens = piece ++ rest
  complete : ∀ piece value rest, form piece value → Fresh rest →
    round (piece ++ rest) = some (some (value, rest))
  fresh : ∀ piece value rest, form piece value → Fresh (piece ++ rest)
  onward : ∀ piece value rest, form piece value → stops (piece ++ rest) = false

variable {stops round form}

theorem forms_of_loop (takes : Takes round) (follows : Follows stops round form)
    {tokens left : List PlacedToken} {values : List α}
    (read : loop stops round tokens = some (some (values, left))) :
    stops left = true ∧ ∃ inner, Forms form inner values ∧ tokens = inner ++ left := by
  induction size : tokens.length using Nat.strongRecOn generalizing tokens values with
  | ind count ih =>
      cases stopped : stops tokens with
      | true =>
          rw [loop_of_stops stopped] at read
          cases read
          exact ⟨stopped, [], Forms.none, rfl⟩
      | false =>
          rcases takes tokens with refused | ⟨first, rest, taken, fewer⟩
          · rw [loop_of_refused stopped refused] at read
            cases read
          · rw [loop_of_taken stopped taken] at read
            obtain ⟨_, onward, mapped⟩ := Option.map_eq_some_iff.mp read
            obtain ⟨_, rfl, same⟩ := Option.map_eq_some_iff.mp mapped
            cases same
            obtain ⟨ended, inner, others, rfl⟩ := ih rest.length (size ▸ fewer) onward rfl
            obtain ⟨piece, form, rfl⟩ := follows.sound _ _ _ taken
            exact ⟨ended, piece ++ inner, Forms.more form others, (List.append_assoc _ _ _).symm⟩

/-- What is made of the values that a loop reads is made of forms. -/
theorem exists_forms_of_map {β : Type} (takes : Takes round) (follows : Follows stops round form)
    {tokens : List PlacedToken} {made : List α × List PlacedToken → β} {outcome : β}
    (read : (loop stops round tokens).map (Option.map made) = some (some outcome)) :
    ∃ values inner left, made (values, left) = outcome ∧ Forms form inner values ∧
      stops left = true ∧ tokens = inner ++ left := by
  obtain ⟨_, read, mapped⟩ := Option.map_eq_some_iff.mp read
  obtain ⟨⟨values, left⟩, rfl, same⟩ := Option.map_eq_some_iff.mp mapped
  obtain ⟨ended, inner, forms, rfl⟩ := forms_of_loop takes follows read
  exact ⟨values, inner, left, same, forms, ended, rfl⟩

theorem fresh_of_forms (follows : Follows stops round form) {inner left : List PlacedToken}
    {values : List α} (forms : Forms form inner values) (fresh : Fresh left) :
    Fresh (inner ++ left) := by
  cases forms with
  | none => exact fresh
  | more first others =>
      rw [List.append_assoc]
      exact follows.fresh _ _ _ first

theorem loop_of_forms (follows : Follows stops round form) {inner left : List PlacedToken}
    {values : List α} (forms : Forms form inner values) (fresh : Fresh left)
    (ended : stops left = true) :
    loop stops round (inner ++ left) = some (some (values, left)) := by
  induction forms with
  | none => exact loop_of_stops ended
  | more first others ih =>
      have behind := fresh_of_forms follows others fresh
      rw [List.append_assoc, loop_of_taken (follows.onward _ _ _ first)
        (follows.complete _ _ _ first behind), ih]
      rfl

end Loop

theorem exists_of_ahead {token : Token} {tokens : List PlacedToken}
    (there : ahead token tokens = true) : ∃ place, tokens = ⟨token, place⟩ :: tokens.tail := by
  cases tokens with
  | nil => cases there
  | cons first rest =>
      obtain ⟨kind, place⟩ := first
      cases of_decide_eq_true there
      exact ⟨place, rfl⟩

theorem follows_itemRound : Follows (ahead .closing) itemRound ItemForm where
  sound tokens item rest := by
    fun_cases itemRound tokens with
    | case1 low start middle high finish behind =>
        rintro ⟨⟩
        exact ⟨_, ItemForm.range low high start middle finish, rfl⟩
    | case2 => rintro ⟨⟩
    | case3 c place behind _ =>
        rintro ⟨⟩
        exact ⟨_, ItemForm.single c place, rfl⟩
    | case4 => rintro ⟨⟩
  complete piece item rest form fresh := by
    cases form with
    | single c place =>
        -- Only `..=` behind it would make a range of the literal.
        rcases rest with _ | ⟨⟨token, _⟩, rest⟩
        · rfl
        · cases token with
          | through => cases fresh.1
          | _ => rfl
    | range => rfl
  fresh piece item rest form := by cases form <;> exact ⟨rfl, rfl⟩
  onward piece item rest form := by cases form <;> rfl

theorem termOf_of_fresh (body : Body) (place : Place) {rest : List PlacedToken}
    (fresh : Fresh rest) : termOf body place rest = (⟨body, false, place⟩, rest) := by
  fun_cases termOf body place rest with
  | case1 => cases fresh.2
  | case2 => rfl

theorem termRound_of_body {place : Place} {piece : List PlacedToken} {body : Body}
    (form : BodyForm place piece body) (behind : List PlacedToken) :
    termRound (piece ++ behind) = some (some (termOf body place behind)) := by
  cases form with
  | literal c => rfl
  | @bracketed inner items finish listed =>
      have fresh : Fresh (⟨.closing, finish⟩ :: behind) := ⟨rfl, rfl⟩
      have read := loop_of_forms follows_itemRound listed fresh rfl
      rw [List.cons_append, List.append_assoc, List.singleton_append, termRound, read]
      rfl

/-- A body and what is taken from behind it make a term. -/
theorem exists_termForm {place : Place} {piece tokens rest : List PlacedToken} {body : Body}
    {term : Term} (form : BodyForm place piece body)
    (behind : termOf body place tokens = (term, rest)) :
    ∃ whole, TermForm whole term ∧ piece ++ tokens = whole ++ rest := by
  revert behind
  fun_cases termOf body place tokens with
  | case1 finish others =>
      rintro ⟨⟩
      exact ⟨_, TermForm.repeated finish form, by simp⟩
  | case2 =>
      rintro ⟨⟩
      exact ⟨piece, TermForm.once form, rfl⟩

theorem follows_termRound : Follows (ahead .semicolon) termRound TermForm where
  sound tokens term rest := by
    fun_cases termRound tokens with
    | case1 c place behind =>
        intro taken
        exact exists_termForm (BodyForm.literal c) (Option.some.inj (Option.some.inj taken))
    | case2 place behind =>
        intro taken
        obtain ⟨items, inner, left, found, listed, ended, rfl⟩ :=
          exists_forms_of_map takes_itemRound follows_itemRound taken
        obtain ⟨finish, last⟩ := exists_of_ahead ended
        obtain ⟨whole, form, same⟩ := exists_termForm (BodyForm.bracketed finish listed) found
        refine ⟨whole, form, ?_⟩
        rw [← same, last]
        simp
    | case3 => rintro ⟨⟩
  complete piece term rest form fresh := by
    cases form with
    | once form => rw [termRound_of_body form, termOf_of_fresh _ _ fresh]
    | repeated finish form =>
        rw [List.append_assoc, termRound_of_body form]
        rfl
  fresh piece term rest form := by
    cases form with
    | once form => cases form <;> exact ⟨rfl, rfl⟩
    | repeated finish form => cases form <;> exact ⟨rfl, rfl⟩
  onward piece term rest form := by
    cases form with
    | once form => cases form <;> rfl
    | repeated finish form => cases form <;> rfl

theorem follows_definitionRound : Follows List.isEmpty definitionRound DefinitionForm where
  sound tokens definition rest := by
    fun_cases definitionRound tokens with
    | case1 name place equals behind =>
        intro taken
        obtain ⟨terms, inner, left, found, listed, ended, rfl⟩ :=
          exists_forms_of_map takes_termRound follows_termRound taken
        cases found
        obtain ⟨finish, last⟩ := exists_of_ahead ended
        refine ⟨_, DefinitionForm.named name place equals finish listed, ?_⟩
        rw [last]
        simp
    | case2 => rintro ⟨⟩
  complete piece definition rest form _ := by
    cases form with
    | @named inner terms name place equals finish listed =>
        have fresh : Fresh (⟨.semicolon, finish⟩ :: rest) := ⟨rfl, rfl⟩
        have read := loop_of_forms follows_termRound listed fresh rfl
        rw [List.cons_append, List.cons_append, List.append_assoc, List.singleton_append,
          definitionRound, read]
        rfl
  fresh piece definition rest form := by cases form; exact ⟨rfl, rfl⟩
  onward piece definition rest form := by cases form; rfl

namespace Definition

theorem parse_eq_some_iff (tokens : List PlacedToken) (definitions : List Definition) :
    parse tokens = some definitions ↔ Forms DefinitionForm tokens definitions := by
  have ends := descend_eq tokens
  constructor
  · intro parsed
    rw [parsed] at ends
    obtain ⟨values, inner, left, rfl, forms, ended, rfl⟩ :=
      exists_forms_of_map takes_definitionRound follows_definitionRound ends
    rw [List.isEmpty_iff.mp ended, List.append_nil]
    exact forms
  · intro forms
    have fresh : Fresh [] := ⟨rfl, rfl⟩
    have read := loop_of_forms follows_definitionRound forms fresh rfl
    rw [List.append_nil] at read
    rw [descend, read] at ends
    exact (Option.some.inj ends).symm

end Definition

/-- What a term says, wherever it stands. -/
def Term.bare (term : Term) : Body × Bool :=
  (term.body, term.repeated)

def Definition.bare (definition : Definition) : String × List (Body × Bool) :=
  (definition.name, definition.terms.map Term.bare)

def itemTokens : Item → List Token
  | .single c => [.literal c]
  | .range low high => [.literal low, .through, .literal high]

def bodyTokens : Body → List Token
  | .literal c => [.literal c]
  | .bracketed items => .opening :: (items.flatMap itemTokens ++ [.closing])

def termTokens : Body × Bool → List Token
  | (body, repeated) => bodyTokens body ++ if repeated then [.star] else []

def definitionTokens : String × List (Body × Bool) → List Token
  | (name, terms) => .word name :: .equals :: (terms.flatMap termTokens ++ [.semicolon])

section Writing

variable {α β : Type}

/-- The tokens of a form are those written for what it says, and all that is written has
that form. -/
structure Writes (form : List PlacedToken → α → Prop) (bare : α → β) (write : β → List Token) :
    Prop where
  tokens : ∀ piece value, form piece value → piece.map PlacedToken.token = write (bare value)
  exists_form : ∀ piece plain, piece.map PlacedToken.token = write plain →
    ∃ value, form piece value ∧ bare value = plain

theorem Writes.forms {form : List PlacedToken → α → Prop} {bare : α → β} {write : β → List Token}
    (writes : Writes form bare write) : Writes (Forms form) (List.map bare) (List.flatMap write) where
  tokens piece values forms := by
    induction forms with
    | none => rfl
    | more first others ih => simp [writes.tokens _ _ first, ih]
  exists_form piece plain same := by
    induction plain generalizing piece with
    | nil => exact ⟨[], List.map_eq_nil_iff.mp same ▸ Forms.none, rfl⟩
    | cons plain others ih =>
        obtain ⟨first, rest, rfl, head, tail⟩ := List.map_eq_append_iff.mp same
        obtain ⟨value, form, said⟩ := writes.exists_form first plain head
        obtain ⟨values, forms, others_said⟩ := ih rest tail
        exact ⟨value :: values, Forms.more form forms, by simp [said, others_said]⟩

theorem forms_flatMap {form : List PlacedToken → α → Prop} {written : α → List PlacedToken}
    (each : ∀ value, form (written value) value) (values : List α) :
    Forms form (values.flatMap written) values := by
  induction values with
  | nil => exact Forms.none
  | cons value values ih => exact Forms.more (each value) ih

end Writing

theorem writes_itemForm : Writes ItemForm id itemTokens where
  tokens piece item form := by cases form <;> rfl
  exists_form piece item same := by
    cases item with
    | single c =>
        obtain ⟨⟨_, place⟩, rfl, rfl⟩ := List.map_eq_singleton_iff.mp same
        exact ⟨_, ItemForm.single c place, rfl⟩
    | range low high =>
        obtain ⟨⟨_, start⟩, _, rfl, rfl, behind⟩ := List.map_eq_cons_iff.mp same
        obtain ⟨⟨_, middle⟩, _, rfl, rfl, last⟩ := List.map_eq_cons_iff.mp behind
        obtain ⟨⟨_, finish⟩, rfl, rfl⟩ := List.map_eq_singleton_iff.mp last
        exact ⟨_, ItemForm.range low high start middle finish, rfl⟩

theorem writes_bodyForm :
    Writes (fun piece body => ∃ place, BodyForm place piece body) id bodyTokens where
  tokens piece body form := by
    obtain ⟨place, form⟩ := form
    cases form with
    | literal c => rfl
    | bracketed finish listed =>
        simp [bodyTokens, writes_itemForm.forms.tokens _ _ listed]
  exists_form piece body same := by
    cases body with
    | literal c =>
        obtain ⟨⟨_, place⟩, rfl, rfl⟩ := List.map_eq_singleton_iff.mp same
        exact ⟨_, ⟨place, BodyForm.literal c⟩, rfl⟩
    | bracketed items =>
        obtain ⟨⟨_, place⟩, _, rfl, rfl, behind⟩ := List.map_eq_cons_iff.mp same
        obtain ⟨inner, _, rfl, middle, last⟩ := List.map_eq_append_iff.mp behind
        obtain ⟨⟨_, finish⟩, rfl, rfl⟩ := List.map_eq_singleton_iff.mp last
        obtain ⟨found, listed, said⟩ := writes_itemForm.forms.exists_form inner items middle
        rw [List.map_id] at said
        exact ⟨_, ⟨place, BodyForm.bracketed finish (said ▸ listed)⟩, rfl⟩

theorem writes_termForm : Writes TermForm Term.bare termTokens where
  tokens piece term form := by
    cases form with
    | once form => simp [termTokens, Term.bare, writes_bodyForm.tokens _ _ ⟨_, form⟩]
    | repeated finish form => simp [termTokens, Term.bare, writes_bodyForm.tokens _ _ ⟨_, form⟩]
  exists_form piece plain same := by
    obtain ⟨body, repeated⟩ := plain
    obtain ⟨inner, behind, rfl, first, last⟩ := List.map_eq_append_iff.mp same
    obtain ⟨_, ⟨place, form⟩, rfl⟩ := writes_bodyForm.exists_form inner body first
    cases repeated with
    | false =>
        rw [List.map_eq_nil_iff.mp last, List.append_nil]
        exact ⟨_, TermForm.once form, rfl⟩
    | true =>
        obtain ⟨⟨_, finish⟩, rfl, rfl⟩ := List.map_eq_singleton_iff.mp last
        exact ⟨_, TermForm.repeated finish form, rfl⟩

theorem writes_definitionForm : Writes DefinitionForm Definition.bare definitionTokens where
  tokens piece definition form := by
    cases form with
    | named name place equals finish listed =>
        simp [definitionTokens, Definition.bare, writes_termForm.forms.tokens _ _ listed]
  exists_form piece plain same := by
    obtain ⟨name, terms⟩ := plain
    obtain ⟨⟨_, place⟩, _, rfl, rfl, onward⟩ := List.map_eq_cons_iff.mp same
    obtain ⟨⟨_, equals⟩, _, rfl, rfl, behind⟩ := List.map_eq_cons_iff.mp onward
    obtain ⟨inner, _, rfl, middle, last⟩ := List.map_eq_append_iff.mp behind
    obtain ⟨⟨_, finish⟩, rfl, rfl⟩ := List.map_eq_singleton_iff.mp last
    obtain ⟨found, listed, said⟩ := writes_termForm.forms.exists_form inner terms middle
    exact ⟨_, DefinitionForm.named name place equals finish listed, by simp [Definition.bare, said]⟩

/-- All in the place of the term. -/
def Term.written (term : Term) : List PlacedToken :=
  (termTokens term.bare).map fun token => ⟨token, term.place⟩

def Definition.written (definition : Definition) : List PlacedToken :=
  ⟨.word definition.name, definition.place⟩ :: ⟨.equals, definition.place⟩ ::
    (definition.terms.flatMap Term.written ++ [⟨.semicolon, definition.place⟩])

theorem itemForm_of_tokens (place : Place) (item : Item) :
    ItemForm ((itemTokens item).map fun token => ⟨token, place⟩) item := by
  cases item with
  | single c => exact ItemForm.single c place
  | range low high => exact ItemForm.range low high place place place

theorem bodyForm_of_tokens (place : Place) (body : Body) :
    BodyForm place ((bodyTokens body).map fun token => ⟨token, place⟩) body := by
  cases body with
  | literal c => exact BodyForm.literal c
  | bracketed items =>
      have listed := forms_flatMap (itemForm_of_tokens place) items
      rw [← List.map_flatMap] at listed
      simpa [bodyTokens] using BodyForm.bracketed place listed

theorem termForm_written (term : Term) : TermForm term.written term := by
  obtain ⟨body, repeated, place⟩ := term
  have form := bodyForm_of_tokens place body
  cases repeated with
  | false => simpa [Term.written, Term.bare, termTokens] using TermForm.once form
  | true => simpa [Term.written, Term.bare, termTokens] using TermForm.repeated place form

theorem definitionForm_written (definition : Definition) :
    DefinitionForm definition.written definition :=
  DefinitionForm.named definition.name definition.place definition.place definition.place
    (forms_flatMap termForm_written definition.terms)

namespace Definition

/-- How tokens are read. -/
structure ReadsGrammar (tokens : List PlacedToken) : Prop where
  grammar : ∀ definitions,
    parse tokens = some definitions ↔ Forms DefinitionForm tokens definitions
  back : ∀ definitions, parse tokens = some definitions →
    tokens.map PlacedToken.token = (definitions.map bare).flatMap definitionTokens
  written : ∀ plain, (parse tokens).map (List.map bare) = some plain ↔
    tokens.map PlacedToken.token = plain.flatMap definitionTokens
  ends : descend tokens = some (parse tokens)

theorem readsGrammar (tokens : List PlacedToken) : ReadsGrammar tokens where
  grammar := parse_eq_some_iff tokens
  back definitions parsed :=
    writes_definitionForm.forms.tokens _ _ ((parse_eq_some_iff _ _).mp parsed)
  written plain := by
    constructor
    · intro said
      obtain ⟨definitions, parsed, rfl⟩ := Option.map_eq_some_iff.mp said
      exact writes_definitionForm.forms.tokens _ _ ((parse_eq_some_iff _ _).mp parsed)
    · intro same
      obtain ⟨definitions, forms, rfl⟩ := writes_definitionForm.forms.exists_form tokens plain same
      rw [(parse_eq_some_iff _ _).mpr forms]
      rfl
  ends := descend_eq tokens

/-- Tokens are parsed just when they are definitions in a row, and to nothing but these.
Definitions written down, each term in its place, are parsed to themselves. -/
theorem definitions_are_read_as_written :
    (∀ tokens, ReadsGrammar tokens) ∧
      (∀ definitions : List Definition,
        parse (definitions.flatMap Definition.written) = some definitions) ∧
      Takes itemRound ∧ Takes termRound ∧ Takes definitionRound :=
  ⟨readsGrammar,
    fun definitions => (parse_eq_some_iff _ _).mpr (forms_flatMap definitionForm_written definitions),
    takes_itemRound, takes_termRound, takes_definitionRound⟩

/-- One `*` ends a term, and nothing starts with another. -/
example : parse ([.word "Twice", .equals, .literal 'a', .star, .star, .semicolon].map
    fun token => ⟨token, Place.start⟩) = none := rfl

end Definition

end Recognizer.Pattern
