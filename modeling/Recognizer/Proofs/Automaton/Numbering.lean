import Mathlib.Data.List.Nodup
import Recognizer.Automaton.Table
import Recognizer.Proofs.Automaton.Runs

/-!
Tables of automata. A number stands for the state that the numbering lists there,
the start first. The entry of a state and a symbol is the number behind the edge,
so a table reads a word as its automaton does, with numbers for states.
-/

namespace Recognizer

namespace Automaton

variable {σ : Type} [Ordered σ] (automaton : Automaton σ)

theorem mem_numbering_iff (state : σ) :
    state ∈ automaton.numbering ↔ state = automaton.start ∨ state ∈ automaton.states := by
  rw [numbering, List.mem_cons, Std.ExtTreeSet.mem_toList, Std.ExtTreeSet.mem_erase]
  by_cases same : state = automaton.start
  · exact iff_of_true (Or.inl same) (Or.inl same)
  · simp [same, Ne.symm same]

theorem nodup_numbering : automaton.numbering.Nodup := by
  refine List.nodup_cons.mpr ⟨?_, FiniteSet.nodup_toList _⟩
  rw [Std.ExtTreeSet.mem_toList, Std.ExtTreeSet.mem_erase]
  simp

theorem number_eq_some_iff (state : σ) (index : Nat) :
    automaton.number state = some index ↔ automaton.numbering[index]? = some state := by
  rw [number, List.findIdx?_eq_some_iff_getElem, List.getElem?_eq_some_iff]
  simp only [beq_iff_eq, Std.LawfulEqOrd.compare_eq_iff_eq]
  constructor
  · rintro ⟨inside, same, _⟩
    exact ⟨inside, same⟩
  · rintro ⟨inside, same⟩
    refine ⟨inside, same, fun earlier before again => ?_⟩
    have unique := (automaton.nodup_numbering.getElem_inj_iff).mp (again.trans same.symm)
    omega

theorem mem_numbering_of_listedRun {state final : σ} {word : List Char}
    (listed : state ∈ automaton.numbering) (run : automaton.ListedRun state word final) :
    final ∈ automaton.numbering := by
  induction run with
  | stop state => exact listed
  | move _ _ into _ ih => exact ih ((mem_numbering_iff automaton _).mpr into.symm)

end Automaton

namespace Table

/-- Rows of one width after each other are read by row and column. -/
theorem getElem?_flatMap_row {α β : Type} (rows : List α) (row : α → List β) {width : Nat}
    (wide : ∀ a, (row a).length = width) (index : Nat) {column : Nat} (inside : column < width) :
    (rows.flatMap row)[index * width + column]? = rows[index]?.bind fun a => (row a)[column]? := by
  induction rows generalizing index with
  | nil => simp
  | cons a rows ih =>
      rw [List.flatMap_cons]
      cases index with
      | zero =>
          rw [Nat.zero_mul, Nat.zero_add, List.getElem?_append_left (by rw [wide]; exact inside)]
          rfl
      | succ index =>
          have beyond : (index + 1) * width + column = width + (index * width + column) := by
            rw [Nat.succ_mul]
            omega
          rw [beyond, List.getElem?_append_right (by rw [wide]; omega), wide,
            Nat.add_sub_cancel_left, ih, List.getElem?_cons_succ]

variable {σ : Type} [Ordered σ] (automaton : Automaton σ)

theorem target_ofAutomaton {index : Nat} {state : σ}
    (listed : automaton.numbering[index]? = some state) (symbol : Char) :
    (ofAutomaton automaton).target index symbol =
      if symbol ∈ automaton.alphabet then (automaton.next state symbol).bind automaton.number
      else none := by
  rw [target]
  by_cases known : symbol ∈ automaton.alphabet
  · have member := Std.ExtTreeSet.mem_toList.mpr known
    obtain ⟨column, found⟩ := Option.isSome_iff_exists.mp (List.isSome_idxOf?.mpr member)
    obtain ⟨inside, same, _⟩ := List.idxOf?_eq_some_iff.mp found
    have entry := getElem?_flatMap_row automaton.numbering
      (fun state => automaton.alphabet.toList.map fun symbol =>
        (automaton.next state symbol).bind automaton.number)
      (fun _ => List.length_map _) index inside
    rw [listed, Option.bind_some, List.getElem?_map, List.getElem?_eq_getElem inside, same] at entry
    have column_found : (ofAutomaton automaton).alphabet.idxOf? symbol = some column := found
    rw [column_found, if_pos known]
    exact congrArg Option.join entry
  · have absent : (ofAutomaton automaton).alphabet.idxOf? symbol = none :=
      List.idxOf?_eq_none_iff.mpr fun member => known (Std.ExtTreeSet.mem_toList.mp member)
    rw [absent, if_neg known]

theorem isAccepting_ofAutomaton {index : Nat} {state : σ}
    (listed : automaton.numbering[index]? = some state) :
    (ofAutomaton automaton).isAccepting index = automaton.isAccepting state := by
  change ((automaton.numbering.map automaton.isAccepting)[index]?).getD false = _
  rw [List.getElem?_map, listed]
  rfl

theorem target_ofAutomaton_eq_some_iff {index : Nat} {state : σ}
    (listed : automaton.numbering[index]? = some state) (symbol : Char) (number : Nat) :
    (ofAutomaton automaton).target index symbol = some number ↔
      ∃ target, automaton.next state symbol = some target ∧ symbol ∈ automaton.alphabet ∧
        automaton.numbering[number]? = some target := by
  rw [target_ofAutomaton automaton listed]
  by_cases known : symbol ∈ automaton.alphabet
  · simp [known, Option.bind_eq_some_iff, Automaton.number_eq_some_iff]
  · simp [known]

/-- The number behind a run of the table is that of the state behind a listed run. -/
theorem runFrom_ofAutomaton_eq_some_iff {index : Nat} {state : σ}
    (listed : automaton.numbering[index]? = some state) (word : List Char) (stop : Nat) :
    (ofAutomaton automaton).runFrom index word = some stop ↔
      ∃ final, automaton.ListedRun state word final ∧
        automaton.numbering[stop]? = some final := by
  induction word generalizing index state with
  | nil =>
      constructor
      · intro ended
        cases ended
        exact ⟨state, Automaton.ListedRun.stop state, listed⟩
      · rintro ⟨final, run, found⟩
        cases run
        -- no state is listed twice
        rw [← Automaton.number_eq_some_iff] at listed found
        exact listed.symm.trans found
  | cons symbol word ih =>
      rw [runFrom, Option.bind_eq_some_iff]
      constructor
      · rintro ⟨number, moved, ended⟩
        obtain ⟨target, next, readable, found⟩ :=
          (target_ofAutomaton_eq_some_iff automaton listed symbol number).mp moved
        obtain ⟨final, run, last⟩ := (ih found).mp ended
        have into := (automaton.mem_numbering_iff target).mp (List.mem_of_getElem? found)
        exact ⟨final, Automaton.ListedRun.move next readable into.symm run, last⟩
      · rintro ⟨final, run, last⟩
        cases run with
        | move next readable into onward =>
            obtain ⟨number, found⟩ :=
              List.mem_iff_getElem?.mp ((automaton.mem_numbering_iff _).mpr into.symm)
            exact ⟨number, (target_ofAutomaton_eq_some_iff automaton listed symbol number).mpr
              ⟨_, next, readable, found⟩, (ih found).mpr ⟨final, onward, last⟩⟩

theorem recognizes_ofAutomaton_iff (word : List Char) :
    (ofAutomaton automaton).recognizes word = true ↔
      ∃ final, automaton.ListedRun automaton.start word final ∧
        automaton.isAccepting final = true := by
  rw [recognizes, Option.any_eq_true]
  constructor
  · rintro ⟨stop, ended, accepted⟩
    obtain ⟨final, run, found⟩ :=
      (runFrom_ofAutomaton_eq_some_iff automaton List.getElem?_cons_zero word stop).mp ended
    rw [isAccepting_ofAutomaton automaton found] at accepted
    exact ⟨final, run, accepted⟩
  · rintro ⟨final, run, accepted⟩
    obtain ⟨stop, found⟩ := List.mem_iff_getElem?.mp
      (automaton.mem_numbering_of_listedRun List.mem_cons_self run)
    refine ⟨stop, ?_, ?_⟩
    · exact (runFrom_ofAutomaton_eq_some_iff automaton List.getElem?_cons_zero word stop).mpr
        ⟨final, run, found⟩
    · rwa [isAccepting_ofAutomaton automaton found]

theorem recognizes_ofAutomaton (edges : automaton.EdgesListed) (word : List Char) :
    (ofAutomaton automaton).recognizes word = automaton.recognizes word := by
  rw [Bool.eq_iff_iff, recognizes_ofAutomaton_iff, Automaton.recognizes_iff_mem_language]
  simp only [Automaton.listedRun_iff edges (Or.inr rfl)]
  rfl

end Table

end Recognizer
