import Mathlib.Data.List.Basic
import Recognizer.Pattern.Definition

/-!
Definitions read by loops. A loop looks for the token that ends it and goes round until it
is there, so only the tokens that its rounds take keep it from going round forever. They
all take some or refuse, down to the items of a class. So reading comes to an end, with
what `parse` makes of the tokens.
-/

namespace Recognizer.Pattern

open CharacterClass (Item)

/-- What reading in front comes to: a value with the tokens behind it, or a refusal.
Where it is optional once more, reading that never ends comes to nothing. -/
abbrev Reading (α : Type) : Type := Option (α × List PlacedToken)

section Loop

variable {α : Type}

/-- Goes round until it may stop or is refused, and comes to nothing when that would take
more rounds than these. -/
def loopWithin (stops : List PlacedToken → Bool) (round : List PlacedToken → Option (Reading α)) :
    Nat → List PlacedToken → Option (Reading (List α))
  | 0, _ => none
  | rounds + 1, tokens =>
      if stops tokens then some (some ([], tokens))
      else
        round tokens >>= fun
          | none => some none
          | some (value, rest) => (loopWithin stops round rounds rest).map
              (Option.map fun found => (value :: found.1, found.2))

open Classical in
/-- Goes round as often as it takes. Where no number of rounds is enough, there is no end. -/
noncomputable def loop (stops : List PlacedToken → Bool)
    (round : List PlacedToken → Option (Reading α)) (tokens : List PlacedToken) :
    Option (Reading (List α)) :=
  if ends : ∃ outcome rounds, loopWithin stops round rounds tokens = some outcome then
    some ends.choose
  else none

def ahead (token : Token) : List PlacedToken → Bool
  | [] => false
  | first :: _ => first.token = token

/-- A round ends. It takes tokens or is refused. -/
def Takes (round : List PlacedToken → Option (Reading α)) : Prop :=
  ∀ tokens, round tokens = some none ∨
    ∃ value rest, round tokens = some (some (value, rest)) ∧ rest.length < tokens.length

variable {stops : List PlacedToken → Bool} {round : List PlacedToken → Option (Reading α)}
  {tokens : List PlacedToken}

theorem loopWithin_of_taken {value : α} {rest : List PlacedToken} (onward : stops tokens = false)
    (taken : round tokens = some (some (value, rest))) (rounds : Nat) :
    loopWithin stops round (rounds + 1) tokens = (loopWithin stops round rounds rest).map
      (Option.map fun found => (value :: found.1, found.2)) := by
  rw [loopWithin, onward, if_neg Bool.false_ne_true, taken]
  rfl

theorem loopWithin_succ {rounds : Nat} {outcome : Reading (List α)}
    (ended : loopWithin stops round rounds tokens = some outcome) :
    loopWithin stops round (rounds + 1) tokens = some outcome := by
  induction rounds generalizing tokens outcome with
  | zero => cases ended
  | succ rounds ih =>
      rw [loopWithin] at ended ⊢
      cases stopped : stops tokens with
      | true => rwa [stopped] at ended
      | false =>
          rw [stopped, if_neg Bool.false_ne_true] at ended
          rw [if_neg Bool.false_ne_true]
          generalize round tokens = reading at ended ⊢
          rcases reading with _ | _ | taken
          · exact ended
          · exact ended
          · obtain ⟨found, inner, same⟩ := Option.map_eq_some_iff.mp ended
            exact Option.map_eq_some_iff.mpr ⟨found, ih inner, same⟩

/-- More rounds change nothing once a loop has ended. -/
theorem loopWithin_of_le {few many : Nat} (more : few ≤ many) {outcome : Reading (List α)}
    (ended : loopWithin stops round few tokens = some outcome) :
    loopWithin stops round many tokens = some outcome := by
  induction more with
  | refl => exact ended
  | step _ ih => exact loopWithin_succ ih

theorem loop_eq_some_iff {outcome : Reading (List α)} : loop stops round tokens = some outcome ↔
    ∃ rounds, loopWithin stops round rounds tokens = some outcome := by
  unfold loop
  split_ifs with ends
  · obtain ⟨rounds, ended⟩ := ends.choose_spec
    constructor
    · rintro ⟨⟩
      exact ⟨rounds, ended⟩
    · rintro ⟨others, also⟩
      rw [← loopWithin_of_le (Nat.le_max_left rounds others) ended]
      exact loopWithin_of_le (Nat.le_max_right rounds others) also
  · constructor
    · intro none
      cases none
    · exact fun ended => absurd ⟨outcome, ended⟩ ends

theorem loop_of_stops (stopped : stops tokens = true) :
    loop stops round tokens = some (some ([], tokens)) :=
  loop_eq_some_iff.mpr ⟨1, by rw [loopWithin, if_pos stopped]⟩

theorem loop_of_refused (onward : stops tokens = false) (refused : round tokens = some none) :
    loop stops round tokens = some none := by
  refine loop_eq_some_iff.mpr ⟨1, ?_⟩
  rw [loopWithin, onward, if_neg Bool.false_ne_true, refused]
  rfl

theorem loop_of_taken {value : α} {rest : List PlacedToken} (onward : stops tokens = false)
    (taken : round tokens = some (some (value, rest))) :
    loop stops round tokens = (loop stops round rest).map
      (Option.map fun found => (value :: found.1, found.2)) := by
  ext outcome
  rw [loop_eq_some_iff, Option.map_eq_some_iff]
  constructor
  · rintro ⟨rounds, ended⟩
    cases rounds with
    | zero => cases ended
    | succ rounds =>
        rw [loopWithin_of_taken onward taken] at ended
        obtain ⟨found, inner, same⟩ := Option.map_eq_some_iff.mp ended
        exact ⟨found, loop_eq_some_iff.mpr ⟨rounds, inner⟩, same⟩
  · rintro ⟨found, inner, same⟩
    obtain ⟨rounds, ended⟩ := loop_eq_some_iff.mp inner
    refine ⟨rounds + 1, ?_⟩
    rw [loopWithin_of_taken onward taken]
    exact Option.map_eq_some_iff.mpr ⟨found, ended, same⟩

/-- A loop ends when its rounds take tokens. -/
theorem loop_ends (stops : List PlacedToken → Bool) (takes : Takes round)
    (tokens : List PlacedToken) :
    loop stops round tokens = some none ∨
      ∃ values left, loop stops round tokens = some (some (values, left)) ∧
        stops left = true ∧ left.length ≤ tokens.length := by
  -- What decreases is the number of tokens, not that of values.
  induction size : tokens.length using Nat.strongRecOn generalizing tokens with
  | ind count ih =>
      cases stopped : stops tokens with
      | true => exact Or.inr ⟨[], tokens, loop_of_stops stopped, stopped, Nat.le_of_eq size⟩
      | false =>
          rcases takes tokens with refused | ⟨value, rest, taken, fewer⟩
          · exact Or.inl (loop_of_refused stopped refused)
          · rw [loop_of_taken stopped taken]
            rcases ih rest.length (size ▸ fewer) rest rfl with
              refused | ⟨values, left, found, ended, few⟩
            · exact Or.inl (by rw [refused]; rfl)
            · exact Or.inr ⟨value :: values, left, by rw [found]; rfl, ended, by omega⟩

/-- What is done round by round, with a refusal as its end, is done by the loop. -/
theorem eq_loop {β γ : Type} (takes : Takes round) (step : β → α → β)
    (last run : β → List PlacedToken → Option γ)
    (once : ∀ before tokens, run before tokens =
      if stops tokens then last before tokens
      else (round tokens).join.bind fun taken => run (step before taken.1) taken.2)
    (before : β) (tokens : List PlacedToken) :
    run before tokens = (loop stops round tokens).join.bind fun read =>
      last (read.1.foldl step before) read.2 := by
  induction size : tokens.length using Nat.strongRecOn generalizing before tokens with
  | ind count ih =>
      rw [once]
      cases stopped : stops tokens with
      | true =>
          rw [loop_of_stops stopped]
          rfl
      | false =>
          rcases takes tokens with refused | ⟨value, rest, taken, fewer⟩
          · rw [loop_of_refused stopped refused, refused]
            rfl
          · rw [loop_of_taken stopped taken, taken, if_neg Bool.false_ne_true]
            refine (ih rest.length (size ▸ fewer) (step before value) rest rfl).trans ?_
            rcases loop_ends stops takes rest with refused | ⟨values, left, found, _⟩
            · rw [refused]
              rfl
            · rw [found]
              rfl

end Loop

def itemRound : List PlacedToken → Option (Reading Item)
  | ⟨.literal low, _⟩ :: ⟨.through, _⟩ :: rest =>
      match rest with
      | ⟨.literal high, _⟩ :: rest => some (some (.range low high, rest))
      | _ => some none
  | ⟨.literal c, _⟩ :: rest => some (some (.single c, rest))
  | _ => some none

/-- A `*` behind the body belongs to the term. -/
def termOf (body : Body) (place : Place) : List PlacedToken → Term × List PlacedToken
  | ⟨.star, _⟩ :: rest => (⟨body, true, place⟩, rest)
  | rest => (⟨body, false, place⟩, rest)

/-- Behind a loop stands the token that ended it. -/
noncomputable def termRound : List PlacedToken → Option (Reading Term)
  | ⟨.literal c, place⟩ :: rest => some (some (termOf (.literal c) place rest))
  | ⟨.opening, place⟩ :: rest =>
      (loop (ahead .closing) itemRound rest).map
        (Option.map fun found => termOf (.bracketed found.1) place found.2.tail)
  | _ => some none

noncomputable def definitionRound : List PlacedToken → Option (Reading Definition)
  | ⟨.word name, place⟩ :: ⟨.equals, _⟩ :: rest =>
      (loop (ahead .semicolon) termRound rest).map
        (Option.map fun found => (⟨name, found.1, place⟩, found.2.tail))
  | _ => some none

noncomputable def descend (tokens : List PlacedToken) : Option (Option (List Definition)) :=
  (loop List.isEmpty definitionRound tokens).map (Option.map Prod.fst)

theorem takes_itemRound : Takes itemRound := by
  intro tokens
  fun_cases itemRound tokens with
  | case1 low _ _ high _ rest =>
      exact Or.inr ⟨_, _, rfl, by simp only [List.length_cons]; omega⟩
  | case2 => exact Or.inl rfl
  | case3 c _ rest _ => exact Or.inr ⟨_, _, rfl, Nat.lt_succ_self _⟩
  | case4 => exact Or.inl rfl

theorem length_termOf_le (body : Body) (place : Place) (tokens : List PlacedToken) :
    (termOf body place tokens).2.length ≤ tokens.length := by
  fun_cases termOf body place tokens with
  | case1 _ rest => exact Nat.le_succ _
  | case2 => exact Nat.le_refl _

theorem takes_termRound : Takes termRound := by
  intro tokens
  fun_cases termRound tokens with
  | case1 c place rest =>
      exact Or.inr ⟨_, _, rfl, Nat.lt_succ_of_le (length_termOf_le _ _ rest)⟩
  | case2 place rest =>
      rcases loop_ends (ahead .closing) takes_itemRound rest with
        refused | ⟨items, left, found, _, few⟩
      · exact Or.inl (by rw [refused]; rfl)
      · have behind := length_termOf_le (.bracketed items) place left.tail
        refine Or.inr ⟨(termOf (.bracketed items) place left.tail).1,
          (termOf (.bracketed items) place left.tail).2, by rw [found]; rfl, ?_⟩
        rw [List.length_tail] at behind
        rw [List.length_cons]
        omega
  | case3 => exact Or.inl rfl

theorem takes_definitionRound : Takes definitionRound := by
  intro tokens
  fun_cases definitionRound tokens with
  | case1 name place equals rest =>
      rcases loop_ends (ahead .semicolon) takes_termRound rest with
        refused | ⟨terms, left, found, _, few⟩
      · exact Or.inl (by rw [refused]; rfl)
      · refine Or.inr ⟨_, _, by rw [found]; rfl, ?_⟩
        simp only [List.length_tail, List.length_cons]
        omega
  | case2 => exact Or.inl rfl

namespace Definition

/-- Goes on behind the body of a term. -/
def resume (definition : Open) (body : Body) (place : Place) (tokens : List PlacedToken) :
    Option (List Definition) :=
  parseTerms { definition with terms := definition.terms ++ [(termOf body place tokens).1] }
    (termOf body place tokens).2

theorem parseItems_once (definition : Open) (place : Place) (items : List Item)
    (tokens : List PlacedToken) :
    parseItems definition place items tokens =
      if ahead .closing tokens then resume definition (.bracketed items) place tokens.tail
      else (itemRound tokens).join.bind fun taken =>
        parseItems definition place (items ++ [taken.1]) taken.2 := by
  rcases tokens with _ | ⟨⟨token, at_⟩, rest⟩
  · rfl
  · cases token with
    | closing =>
        rcases rest with _ | ⟨⟨token, _⟩, rest⟩
        · rfl
        · cases token <;> rfl
    | literal c =>
        rcases rest with _ | ⟨⟨token, _⟩, rest⟩
        · rfl
        · cases token with
          | through =>
              rcases rest with _ | ⟨⟨token, _⟩, rest⟩
              · rfl
              · cases token <;> rfl
          | _ => rfl
    | _ => rfl

/-- The items that the loop reads come behind those that are there. -/
theorem parseItems_eq_loop (definition : Open) (place : Place) (items : List Item)
    (tokens : List PlacedToken) :
    parseItems definition place items tokens =
      (loop (ahead .closing) itemRound tokens).join.bind fun read =>
        resume definition (.bracketed (items ++ read.1)) place read.2.tail := by
  rw [eq_loop takes_itemRound (fun items item => items ++ [item])
    (fun items left => resume definition (.bracketed items) place left.tail)
    (parseItems definition place) (parseItems_once definition place) items tokens]
  simp only [List.foldl_append_eq_append, ← List.flatMap_def, List.flatMap_singleton']

def Open.with (definition : Open) (term : Term) : Open :=
  { definition with terms := definition.terms ++ [term] }

theorem parseTerms_once (definition : Open) (tokens : List PlacedToken) :
    parseTerms definition tokens =
      if ahead .semicolon tokens then (parse tokens.tail).map (definition.close :: ·)
      else (termRound tokens).join.bind fun taken =>
        parseTerms (definition.with taken.1) taken.2 := by
  rcases tokens with _ | ⟨⟨token, place⟩, rest⟩
  · rfl
  · cases token with
    | literal c =>
        rcases rest with _ | ⟨⟨token, _⟩, rest⟩
        · rfl
        · cases token <;> rfl
    | opening =>
        have inside : parseTerms definition (⟨.opening, place⟩ :: rest) =
          parseItems definition place [] rest := rfl
        rw [inside, parseItems_eq_loop, termRound]
        rcases loop_ends (ahead .closing) takes_itemRound rest with
          refused | ⟨items, left, found, _⟩
        · rw [refused]
          rfl
        · rw [found]
          rfl
    | _ => rfl

theorem close_foldl_with (definition : Open) (terms : List Term) :
    (terms.foldl Open.with definition).close =
      ⟨definition.name, definition.terms ++ terms, definition.place⟩ := by
  induction terms generalizing definition with
  | nil => simp [Open.close]
  | cons term terms ih => simp [ih, Open.with]

theorem parseTerms_eq_loop (definition : Open) (tokens : List PlacedToken) :
    parseTerms definition tokens =
      (loop (ahead .semicolon) termRound tokens).join.bind fun read => (parse read.2.tail).map
        ((⟨definition.name, definition.terms ++ read.1, definition.place⟩ : Definition) :: ·) := by
  rw [eq_loop takes_termRound Open.with
    (fun definition left => (parse left.tail).map (definition.close :: ·))
    parseTerms parseTerms_once definition tokens]
  simp only [close_foldl_with]

theorem parse_once (before : List Definition) (tokens : List PlacedToken) :
    (parse tokens).map (before ++ ·) =
      if tokens.isEmpty then some before
      else (definitionRound tokens).join.bind fun taken =>
        (parse taken.2).map (before ++ [taken.1] ++ ·) := by
  rcases tokens with _ | ⟨⟨token, place⟩, rest⟩
  · simp [parse]
  · cases token with
    | word name =>
        rcases rest with _ | ⟨⟨token, at_⟩, rest⟩
        · rfl
        · cases token with
          | equals =>
              have inside : parse (⟨.word name, place⟩ :: ⟨.equals, at_⟩ :: rest) =
                parseTerms ⟨name, place, []⟩ rest := rfl
              rw [inside, parseTerms_eq_loop, definitionRound]
              rcases loop_ends (ahead .semicolon) takes_termRound rest with
                refused | ⟨terms, left, found, _⟩
              · rw [refused]
                rfl
              · rw [found]
                simp [Function.comp_def]
          | _ => rfl
    | _ => rfl

/-- What the loops come to is what the tokens are parsed to. -/
theorem descend_eq (tokens : List PlacedToken) : descend tokens = some (parse tokens) := by
  have run := eq_loop takes_definitionRound (fun before definition => before ++ [definition])
    (fun before _ => some before) (fun before tokens => (parse tokens).map (before ++ ·))
    parse_once [] tokens
  simp only [List.nil_append, Option.map_id'] at run
  rw [run, descend]
  rcases loop_ends List.isEmpty takes_definitionRound tokens with
    refused | ⟨definitions, left, found, _⟩
  · rw [refused]
    rfl
  · rw [found]
    simp [← List.flatMap_def]

end Definition

end Recognizer.Pattern
