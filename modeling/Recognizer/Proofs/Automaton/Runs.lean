import Mathlib.Computability.MyhillNerode
import Recognizer.Automaton.Run

/-!
Runs as words are put together, and the language that is accepted from a state.
After a word has been read, what is still accepted is the language of the state
reached, or nothing if the run has ended. A run can also be kept within the states:
then an edge to anything else counts as missing. Or it goes along the edges that can
be written into a table: their symbols are in the alphabet, and they lead to a state
or back to the start. When an automaton has no other edges these are all its runs.
-/

namespace Recognizer.Automaton

section Rel

variable {α β : Type} {weak related : α → β → Prop} {here : Option α} {there : Option β}

theorem rel_imp (weaker : ∀ a b, related a b → weak a b)
    (held : Option.Rel related here there) : Option.Rel weak here there := by
  cases held with
  | some both => exact Option.Rel.some (weaker _ _ both)
  | none => exact Option.Rel.none

theorem exists_left_of_rel {b : β} (held : Option.Rel related here (some b)) :
    ∃ a, here = some a ∧ related a b := by
  cases held with
  | some both => exact ⟨_, rfl, both⟩

theorem exists_right_of_rel {a : α} (held : Option.Rel related (some a) there) :
    ∃ b, there = some b ∧ related a b := by
  cases held with
  | some both => exact ⟨_, rfl, both⟩

end Rel

variable {σ : Type} [Ordered σ]

def languageFrom (automaton : Automaton σ) (state : σ) : Language Char :=
  {word | ∃ final, automaton.runFrom state word = some final ∧ automaton.isAccepting final = true}

def language (automaton : Automaton σ) : Language Char :=
  automaton.languageFrom automaton.start

section

variable (automaton : Automaton σ)

theorem runFrom_cons (state : σ) (symbol : Char) (word : List Char) :
    automaton.runFrom state (symbol :: word) =
      (automaton.next state symbol).bind fun target => automaton.runFrom target word := by
  rw [runFrom]
  cases automaton.next state symbol <;> rfl

@[simp]
theorem runFrom_singleton (state : σ) (symbol : Char) :
    automaton.runFrom state [symbol] = automaton.next state symbol := by
  rw [runFrom_cons]
  exact Option.bind_fun_some _

theorem runFrom_append (state : σ) (front back : List Char) :
    automaton.runFrom state (front ++ back) =
      (automaton.runFrom state front).bind fun target => automaton.runFrom target back := by
  induction front generalizing state with
  | nil => rfl
  | cons symbol front ih =>
      rw [List.cons_append, runFrom_cons, runFrom_cons]
      cases automaton.next state symbol with
      | none => rfl
      | some target => exact ih target

theorem recognizes_iff_mem_language (word : List Char) :
    automaton.recognizes word = true ↔ word ∈ automaton.language := by
  change _ ↔ ∃ final, _
  rw [recognizes]
  cases automaton.runFrom automaton.start word <;> simp

theorem nil_mem_languageFrom (state : σ) :
    [] ∈ automaton.languageFrom state ↔ automaton.isAccepting state = true := by
  change (∃ final, some state = some final ∧ _) ↔ _
  simp

theorem cons_mem_languageFrom (state : σ) (symbol : Char) (word : List Char) :
    symbol :: word ∈ automaton.languageFrom state ↔
      ∃ target, automaton.next state symbol = some target ∧
        word ∈ automaton.languageFrom target := by
  change (∃ final, automaton.runFrom state (symbol :: word) = some final ∧ _) ↔
    ∃ target, _ ∧ ∃ final, _
  rw [runFrom_cons]
  cases automaton.next state symbol <;> simp

theorem leftQuotient_languageFrom {state target : σ} {word : List Char}
    (reached : automaton.runFrom state word = some target) :
    (automaton.languageFrom state).leftQuotient word = automaton.languageFrom target := by
  ext later
  change (∃ final, automaton.runFrom state (word ++ later) = some final ∧ _) ↔ ∃ final, _
  rw [runFrom_append, reached, Option.bind_some]

theorem leftQuotient_languageFrom_eq_zero {state : σ} {word : List Char}
    (ended : automaton.runFrom state word = none) :
    (automaton.languageFrom state).leftQuotient word = 0 := by
  ext later
  change (∃ final, automaton.runFrom state (word ++ later) = some final ∧ _) ↔ _
  rw [runFrom_append, ended, Option.bind_none]
  simp

end

/-- The edges between states, all others left out. -/
def withinStates (automaton : Automaton σ) : Automaton σ :=
  { automaton with
    rows := automaton.rows.map fun _ row =>
      row.filter fun _ target => automaton.states.contains target }

/-- The symbol of every edge that leaves a state is in the alphabet. -/
def UsesAlphabet (automaton : Automaton σ) : Prop :=
  ∀ state ∈ automaton.states, ∀ symbol target,
    automaton.next state symbol = some target → symbol ∈ automaton.alphabet

/-- Every edge that leaves a state leads to a state. -/
def Closed (automaton : Automaton σ) : Prop :=
  ∀ state ∈ automaton.states, ∀ symbol target,
    automaton.next state symbol = some target → target ∈ automaton.states

/-- The start is a state, and the edges of states stay within the states and the alphabet. -/
structure SelfContained (automaton : Automaton σ) : Prop where
  start : automaton.start ∈ automaton.states
  uses : automaton.UsesAlphabet
  closed : automaton.Closed

section

variable (automaton : Automaton σ)

theorem next_withinStates (state : σ) (symbol : Char) :
    automaton.withinStates.next state symbol =
      (automaton.next state symbol).filter automaton.states.contains := by
  rw [next, next, outgoing, outgoing, withinStates, Std.ExtTreeMap.getElem?_map]
  cases automaton.rows[state]? with
  | none => rfl
  | some row => exact Std.ExtTreeMap.getElem?_filter'

theorem next_withinStates_eq_some_iff (state target : σ) (symbol : Char) :
    automaton.withinStates.next state symbol = some target ↔
      automaton.next state symbol = some target ∧ target ∈ automaton.states := by
  rw [next_withinStates, Option.filter_eq_some_iff, Std.ExtTreeSet.mem_iff_contains]

/-- Leaving edges out changes nothing for what is only known of states. -/
theorem bind_next_withinStates {α : Type} {known : σ → Option α}
    (outside : ∀ target ∉ automaton.states, known target = none) (state : σ) (symbol : Char) :
    (automaton.next state symbol).bind known =
      (automaton.withinStates.next state symbol).bind known := by
  rw [next_withinStates]
  cases automaton.next state symbol with
  | none => rfl
  | some target =>
      by_cases inside : target ∈ automaton.states
      · rw [Option.filter_some, if_pos (Std.ExtTreeSet.mem_iff_contains.mp inside)]
      · have absent := fun held => inside (Std.ExtTreeSet.mem_iff_contains.mpr held)
        rw [Option.filter_some, if_neg absent]
        exact outside target inside

theorem next_withinStates_of_closed (closed : automaton.Closed) {state : σ}
    (known : state ∈ automaton.states) (symbol : Char) :
    automaton.withinStates.next state symbol = automaton.next state symbol := by
  rw [next_withinStates]
  cases moved : automaton.next state symbol with
  | none => rfl
  | some target =>
      have into := Std.ExtTreeSet.mem_iff_contains.mp (closed state known symbol target moved)
      rw [Option.filter_some, if_pos into]

theorem mem_states_of_runFrom (closed : automaton.Closed) {state target : σ}
    (known : state ∈ automaton.states) {word : List Char}
    (reached : automaton.runFrom state word = some target) : target ∈ automaton.states := by
  induction word generalizing state with
  | nil =>
      cases reached
      exact known
  | cons symbol word ih =>
      rw [runFrom_cons, Option.bind_eq_some_iff] at reached
      obtain ⟨after, moved, onward⟩ := reached
      exact ih (closed state known symbol after moved) onward

end

section Listed

inductive ListedRun (automaton : Automaton σ) : σ → List Char → σ → Prop where
  | stop (state : σ) : ListedRun automaton state [] state
  | move {state target final : σ} {symbol : Char} {word : List Char}
      (moved : automaton.next state symbol = some target)
      (readable : symbol ∈ automaton.alphabet)
      (listed : target ∈ automaton.states ∨ target = automaton.start)
      (onward : ListedRun automaton target word final) :
      ListedRun automaton state (symbol :: word) final

/-- The edges that leave a state or the start have a symbol of the alphabet, and they
lead to a state or to the start. -/
def EdgesListed (automaton : Automaton σ) : Prop :=
  ∀ state, state ∈ automaton.states ∨ state = automaton.start → ∀ symbol target,
    automaton.next state symbol = some target →
      symbol ∈ automaton.alphabet ∧ (target ∈ automaton.states ∨ target = automaton.start)

variable {automaton : Automaton σ}

theorem SelfContained.edgesListed (contained : automaton.SelfContained) :
    automaton.EdgesListed := by
  intro state listed symbol target moved
  have known : state ∈ automaton.states := listed.elim id fun same => same ▸ contained.start
  exact ⟨contained.uses state known symbol target moved,
    Or.inl (contained.closed state known symbol target moved)⟩

theorem runFrom_of_listedRun {state final : σ} {word : List Char}
    (run : automaton.ListedRun state word final) : automaton.runFrom state word = some final := by
  induction run with
  | stop state => rfl
  | move moved _ _ _ ih => rw [runFrom_cons, moved, Option.bind_some, ih]

theorem listedRun_iff (edges : automaton.EdgesListed) {state : σ}
    (listed : state ∈ automaton.states ∨ state = automaton.start) (word : List Char) (final : σ) :
    automaton.ListedRun state word final ↔ automaton.runFrom state word = some final := by
  refine ⟨runFrom_of_listedRun, fun ended => ?_⟩
  induction word generalizing state with
  | nil =>
      cases ended
      exact ListedRun.stop _
  | cons symbol word ih =>
      rw [runFrom_cons, Option.bind_eq_some_iff] at ended
      obtain ⟨target, moved, onward⟩ := ended
      obtain ⟨readable, into⟩ := edges state listed symbol target moved
      exact ListedRun.move moved readable into (ih into onward)

end Listed

end Recognizer.Automaton
