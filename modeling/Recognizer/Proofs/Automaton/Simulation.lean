import Mathlib.Data.List.Forall2
import Recognizer.Proofs.Automaton.Acceptance
import Recognizer.Proofs.Automaton.Merging

/-!
Two automata side by side. When their moves keep a relation between their states,
and neither is stuck where the other is not, they read every word in step. A
minimal automaton keeps step with the one it was made from, within its states.
-/

namespace Recognizer.Automaton

theorem isNone_eq_of_rel {α β : Type} {related : α → β → Prop} {here : Option α}
    {there : Option β} (held : Option.Rel related here there) : here.isNone = there.isNone := by
  cases held <;> rfl

theorem findIdx?_isNone_eq {α β : Type} {related : α → β → Prop} {visits : List (Option α)}
    {partners : List (Option β)} (held : List.Forall₂ (Option.Rel related) visits partners) :
    visits.findIdx? Option.isNone = partners.findIdx? Option.isNone := by
  induction held with
  | nil => rfl
  | cons head _ ih => rw [List.findIdx?_cons, List.findIdx?_cons, isNone_eq_of_rel head, ih]

section Related

variable {σ τ : Type} [Ordered σ] [Ordered τ]

/-- Related states go to related states, or neither has a move. -/
def InStep (automaton : Automaton σ) (other : Automaton τ) (related : σ → τ → Prop) : Prop :=
  ∀ state partner, related state partner → ∀ symbol,
    Option.Rel related (automaton.next state symbol) (other.next partner symbol)

variable {automaton : Automaton σ} {other : Automaton τ} {related : σ → τ → Prop}

/-- Runs keep a relation when the moves on the symbols of the word do. -/
theorem rel_runFrom_of_moves {word : List Char}
    (moves : ∀ state partner, related state partner → ∀ symbol ∈ word,
      Option.Rel related (automaton.next state symbol) (other.next partner symbol))
    {state : σ} {partner : τ} (start : related state partner) :
    Option.Rel related (automaton.runFrom state word) (other.runFrom partner word) := by
  induction word generalizing state partner with
  | nil => exact Option.Rel.some start
  | cons symbol word ih =>
      rw [runFrom_cons, runFrom_cons]
      have moved := moves state partner start symbol List.mem_cons_self
      generalize automaton.next state symbol = after at moved ⊢
      generalize other.next partner symbol = follower at moved ⊢
      cases moved with
      | none => exact Option.Rel.none
      | some onward =>
          exact ih (fun state partner held symbol inside =>
            moves state partner held symbol (List.mem_cons_of_mem _ inside)) onward

theorem rel_runFrom (inStep : automaton.InStep other related) {state : σ} {partner : τ}
    (start : related state partner) (word : List Char) :
    Option.Rel related (automaton.runFrom state word) (other.runFrom partner word) :=
  rel_runFrom_of_moves (fun state partner held symbol _ => inStep state partner held symbol) start

theorem forall₂_visitsFrom (inStep : automaton.InStep other related) {visit : Option σ}
    {partner : Option τ} (start : Option.Rel related visit partner) (word : List Char) :
    List.Forall₂ (Option.Rel related) (automaton.visitsFrom visit word)
      (other.visitsFrom partner word) := by
  induction word generalizing visit partner with
  | nil => exact List.Forall₂.nil
  | cons symbol word ih =>
      have moved : Option.Rel related (visit.bind fun state => automaton.next state symbol)
          (partner.bind fun state => other.next state symbol) := by
        cases start with
        | none => exact Option.Rel.none
        | some held => exact inStep _ _ held symbol
      exact List.Forall₂.cons moved (ih moved)

theorem languageFrom_eq (inStep : automaton.InStep other related)
    (accepting : ∀ state partner, related state partner →
      automaton.isAccepting state = other.isAccepting partner)
    {state : σ} {partner : τ} (start : related state partner) :
    automaton.languageFrom state = other.languageFrom partner := by
  ext word
  have ended := rel_runFrom inStep start word
  change (∃ final, automaton.runFrom state word = some final ∧ _) ↔
    ∃ final, other.runFrom partner word = some final ∧ _
  generalize automaton.runFrom state word = final at ended ⊢
  generalize other.runFrom partner word = goal at ended ⊢
  cases ended with
  | none => simp
  | some held => simp [accepting _ _ held]

end Related

section Trace

variable {σ : Type} [Ordered σ] (automaton : Automaton σ)

theorem getLast?_visitsFrom (visit : Option σ) (word : List Char) :
    (visit :: automaton.visitsFrom visit word).getLast?.join =
      visit.bind fun state => automaton.runFrom state word := by
  induction word generalizing visit with
  | nil => cases visit <;> rfl
  | cons symbol word ih =>
      rw [visitsFrom, List.getLast?_cons_cons, ih]
      simp only [runFrom_cons, Option.bind_assoc]

theorem accepted_trace (word : List Char) :
    (automaton.trace word).accepted = automaton.recognizes word := by
  rw [trace, recognizes, getLast?_visitsFrom, Option.bind_some]
  cases automaton.runFrom automaton.start word <;> rfl

theorem visitsFrom_withinStates (closed : automaton.Closed) {visit : Option σ}
    (known : ∀ state ∈ visit, state ∈ automaton.states) (word : List Char) :
    automaton.withinStates.visitsFrom visit word = automaton.visitsFrom visit word := by
  induction word generalizing visit with
  | nil => rfl
  | cons symbol word ih =>
      have moved : (visit.bind fun state => automaton.withinStates.next state symbol) =
          visit.bind fun state => automaton.next state symbol := by
        cases visit with
        | none => rfl
        | some state => exact next_withinStates_of_closed automaton closed (known state rfl) symbol
      rw [visitsFrom, visitsFrom, moved, ih]
      intro target reached
      obtain ⟨state, visited, next⟩ := Option.bind_eq_some_iff.mp reached
      exact closed state (known state visited) symbol target next

theorem trace_withinStates (closed : automaton.Closed)
    (known : automaton.start ∈ automaton.states) (word : List Char) :
    automaton.withinStates.trace word = automaton.trace word := by
  have visited : ∀ state ∈ some automaton.start, state ∈ automaton.states := by
    intro state same
    rwa [← Option.some.inj same]
  have visits := visitsFrom_withinStates automaton closed visited word
  simp only [trace]
  rw [← visits]
  rfl

end Trace

variable {σ : Type} [Ordered σ]

/-- One state of an automaton over blocks, and no other, holds the given state. -/
structure IsBlockOf (minimal : Automaton (Block σ)) (state : σ) (block : Block σ) : Prop where
  known : block ∈ minimal.states
  holds : state ∈ block
  unique : ∀ other ∈ minimal.states, state ∈ other → other = block

theorem isBlockOf_iff {automaton : Automaton σ} {minimal : Automaton (Block σ)}
    (merges : automaton.MergesInto minimal) (state : σ) (block : Block σ) :
    minimal.IsBlockOf state block ↔ block ∈ minimal.states ∧ state ∈ block := by
  refine ⟨fun held => ⟨held.known, held.holds⟩, fun ⟨known, here⟩ => ⟨known, here, ?_⟩⟩
  intro other also there
  exact Partition.block_unique (covers_finalPartition automaton) ((merges.states other).mp also)
    ((merges.states block).mp known) there here

theorem MergesInto.exists_member {automaton : Automaton σ} {minimal : Automaton (Block σ)}
    (merges : automaton.MergesInto minimal) {block : Block σ} (known : block ∈ minimal.states) :
    ∃ state ∈ automaton.states, minimal.IsBlockOf state block := by
  obtain ⟨state, here⟩ := merges.exists_mem known
  exact ⟨state, merges.known_of_mem known here,
    (isBlockOf_iff merges state block).mpr ⟨known, here⟩⟩

theorem MergesInto.isAccepting_eq {automaton : Automaton σ} {minimal : Automaton (Block σ)}
    (merges : automaton.MergesInto minimal) (state : σ) (block : Block σ)
    (held : minimal.IsBlockOf state block) :
    automaton.isAccepting state = minimal.isAccepting block :=
  (merges.accepting block state held.holds held.known).symm

theorem inStep_of_mergesInto {automaton : Automaton σ} {minimal : Automaton (Block σ)}
    (merges : automaton.MergesInto minimal) :
    automaton.withinStates.InStep minimal minimal.IsBlockOf := by
  intro state block held symbol
  obtain ⟨known, here⟩ := (isBlockOf_iff merges state block).mp held
  refine rel_imp ?_ (merges.moves block known state here symbol)
  exact fun target goal member => (isBlockOf_iff merges target goal).mpr ⟨member.2, member.1⟩

section Closed

variable {automaton : Automaton σ} {minimal : Automaton (Block σ)}
  (merges : automaton.MergesInto minimal) (closed : automaton.Closed)

include merges closed

/-- Where no edge leaves the states, every state keeps step with its block. -/
theorem MergesInto.inStep_of_closed : automaton.InStep minimal minimal.IsBlockOf := by
  intro state block held symbol
  have known := ((covers_finalPartition automaton).cover state).mpr
    ⟨block, (merges.states block).mp held.known, held.holds⟩
  rw [← next_withinStates_of_closed automaton closed known]
  exact inStep_of_mergesInto merges state block held symbol

theorem MergesInto.languageFrom_block {state : σ} {block : Block σ}
    (held : minimal.IsBlockOf state block) :
    minimal.languageFrom block = automaton.languageFrom state :=
  (languageFrom_eq (merges.inStep_of_closed closed) merges.isAccepting_eq held).symm

theorem MergesInto.language_eq : minimal.language = automaton.language :=
  merges.languageFrom_block closed ((isBlockOf_iff merges _ _).mpr merges.start)

theorem MergesInto.recognizes_eq (word : List Char) :
    minimal.recognizes word = automaton.recognizes word := by
  rw [Bool.eq_iff_iff, recognizes_iff_mem_language, recognizes_iff_mem_language,
    merges.language_eq closed]

end Closed

/-- The minimal automaton visits, symbol by symbol, the only block of the state that is
visited within the states, and is dead when there is none. No edge is left out within
the states of an automaton that a tree or minimizing yields. -/
theorem trace_minimizeWith (automaton : Automaton σ) (known : automaton.start ∈ automaton.states)
    (uses : automaton.UsesAlphabet) (choice : Choice σ) :
    (∃ minimal, automaton.minimizeWith choice = .ok minimal ∧ minimal.Closed ∧
      (∀ word,
        List.Forall₂ (Option.Rel minimal.IsBlockOf) (automaton.withinStates.trace word).visits
          (minimal.trace word).visits ∧
        (minimal.trace word).accepted = (automaton.withinStates.trace word).accepted ∧
        (minimal.trace word).deadAt = (automaton.withinStates.trace word).deadAt ∧
        minimal.recognizes word = automaton.withinStates.recognizes word) ∧
      (automaton.Closed → ∀ word,
        automaton.withinStates.trace word = automaton.trace word ∧
        minimal.recognizes word = automaton.recognizes word)) ∧
    ∀ tree construction, Construction.ofTree tree = .ok construction →
      construction.automaton.Closed := by
  refine ⟨?_, fun tree construction built => (Construction.represents_of_ofTree built).closed⟩
  obtain ⟨minimal, succeeded, merges⟩ := minimizeWith_eq_ok automaton choice known uses
  have inStep := inStep_of_mergesInto merges
  have start : minimal.IsBlockOf automaton.start minimal.start :=
    (isBlockOf_iff merges _ _).mpr merges.start
  have recognized : ∀ word, minimal.recognizes word = automaton.withinStates.recognizes word := by
    intro word
    rw [Bool.eq_iff_iff, recognizes_iff_mem_language, recognizes_iff_mem_language]
    exact iff_of_eq (congrArg (word ∈ ·) (languageFrom_eq inStep merges.isAccepting_eq start).symm)
  refine ⟨minimal, succeeded, merges.closed, fun word => ?_, fun closed word => ?_⟩
  · have visits := List.Forall₂.cons (Option.Rel.some start)
      (forall₂_visitsFrom inStep (Option.Rel.some start) word)
    refine ⟨visits, ?_, ?_, recognized word⟩
    · rw [accepted_trace, accepted_trace, recognized]
    · exact congrArg (Option.map (· - 1)) (findIdx?_isNone_eq visits).symm
  · have same := trace_withinStates automaton closed known word
    refine ⟨same, ?_⟩
    rw [recognized, ← accepted_trace, ← accepted_trace, same]

/-- The second of two states has an edge to something that is no state, and it accepts there. -/
def dangling : Automaton Nat :=
  { states := FiniteSet.ofList [0, 1]
    alphabet := {'a'}
    start := 0
    accepts := FiniteSet.ofList [1, 7]
    rows := FiniteMap.tabulate
      (fun state => some (FiniteMap.tabulate (fun _ => some (if state = 0 then 1 else 7)) ['a']))
      [0, 1] }

theorem dangling_edge_is_left_out :
    ∃ minimal, dangling.minimizeWith .last = .ok minimal ∧ minimal.recognizes ['a'] = true ∧
      minimal.recognizes ['a', 'a'] = false ∧ dangling.recognizes ['a', 'a'] = true := by
  have known : dangling.start ∈ dangling.states := (FiniteSet.mem_ofList _ _).mpr (by decide)
  have uses : dangling.UsesAlphabet := by
    intro state _ symbol target moved
    obtain ⟨row, found, entry⟩ := Option.bind_eq_some_iff.mp moved
    cases ((FiniteMap.getElem?_tabulate_eq_some _ _ _ row).mp found).2
    have only := ((FiniteMap.getElem?_tabulate_eq_some _ _ _ target).mp entry).1
    exact (FiniteSet.mem_singleton_iff symbol 'a').mpr (List.mem_singleton.mp only)
  obtain ⟨⟨minimal, succeeded, _, inStep, _⟩, _⟩ := trace_minimizeWith dangling known uses .last
  refine ⟨minimal, succeeded, ?_, ?_, by decide⟩
  · rw [(inStep ['a']).2.2.2]
    decide +kernel
  · rw [(inStep ['a', 'a']).2.2.2]
    decide +kernel

end Recognizer.Automaton
