import Recognizer.Proofs.Automaton.Closure
import Recognizer.Proofs.Automaton.Objections

/-!
The loop of the search for states. A round reads the oldest pending set and pushes those of
its targets that were not found before. All sets that were pushed were read or are pending, so
none is pushed twice, and once nothing is pending there was one round for each. They have
positions of the tree as members, so there are no more of them than such sets.
-/

namespace Recognizer.Construction

namespace Search

/-- The loop to its end, with the sets that its rounds push and the number of these rounds. A
round takes one set from the front of the queue and leaves those it pushes at the end. -/
inductive Loop (rowOf : Positions → FiniteMap Char Positions) :
    Search → List Positions → Nat → Search → Prop where
  | ends {search : Search} (none : search.pending = []) : Loop rowOf search [] 0 search
  | round {search final : Search} {state : Positions} {others fresh pushed : List Positions}
      {rounds : Nat} (head : search.pending = state :: others)
      (queued : (search.step rowOf).pending = others ++ fresh)
      (onward : Loop rowOf (search.step rowOf) pushed rounds final) :
      Loop rowOf search (fresh ++ pushed) (rounds + 1) final

variable {rowOf : Positions → FiniteMap Char Positions} {start : Positions}

theorem exists_queued {search : Search} {state : Positions} {others : List Positions}
    (head : search.pending = state :: others) :
    ∃ fresh, (search.step rowOf).pending = others ++ fresh := by
  obtain ⟨fresh, queued, _⟩ := foldl_enqueue (targets rowOf state)
    { search with pending := [] ++ others }
  rw [step_of_pending head]
  exact ⟨fresh, queued⟩

namespace Loop

variable {search final : Search} {pushed : List Positions} {rounds : Nat}

theorem finished (loop : Loop rowOf search pushed rounds final) : final.pending = [] := by
  induction loop with
  | ends none => exact none
  | round _ _ _ ih => exact ih

theorem unique (loop : Loop rowOf search pushed rounds final) {pushed' : List Positions}
    {rounds' : Nat} {final' : Search} (again : Loop rowOf search pushed' rounds' final') :
    pushed' = pushed ∧ rounds' = rounds ∧ final' = final := by
  induction loop generalizing pushed' rounds' final' with
  | ends none =>
      cases again with
      | ends _ => exact ⟨rfl, rfl, rfl⟩
      | round head _ _ =>
          rw [none] at head
          cases head
  | round head queued _ ih =>
      cases again with
      | ends none =>
          rw [none] at head
          cases head
      | round head' queued' onward =>
          cases head.symm.trans head'
          cases List.append_cancel_left (queued.symm.trans queued')
          obtain ⟨rfl, rfl, rfl⟩ := ih onward
          exact ⟨rfl, rfl, rfl⟩

/-- A bound on the rounds makes no difference when it is large enough. -/
theorem run_eq (loop : Loop rowOf search pushed rounds final) {bound : Nat}
    (enough : rounds ≤ bound) : search.run rowOf bound = final := by
  induction loop generalizing bound with
  | ends none =>
      cases bound with
      | zero => rfl
      | succ bound => rw [run, none]
  | round head _ _ ih =>
      cases bound with
      | zero => exact absurd enough (Nat.not_succ_le_zero _)
      | succ bound =>
          rw [run, head]
          exact ih (Nat.le_of_succ_le_succ enough)

theorem of_run {bound : Nat} (finished : (search.run rowOf bound).pending = []) :
    ∃ pushed rounds, Loop rowOf search pushed rounds (search.run rowOf bound) := by
  induction bound generalizing search with
  | zero => exact ⟨[], 0, .ends finished⟩
  | succ bound ih =>
      cases head : search.pending with
      | nil =>
          rw [run, head]
          exact ⟨[], 0, .ends head⟩
      | cons state others =>
          rw [run, head] at finished ⊢
          obtain ⟨fresh, queued⟩ := exists_queued head
          obtain ⟨pushed, rounds, onward⟩ := ih finished
          exact ⟨fresh ++ pushed, rounds + 1, .round head queued onward⟩

/-- Each round reads one set, and in the end all that was pending or pushed has been read. -/
theorem explored (loop : Loop rowOf search pushed rounds final) {read : List Positions}
    (begun : Explored rowOf start read search) :
    (search.pending ++ pushed).length = rounds ∧
      Explored rowOf start (read ++ (search.pending ++ pushed)) final := by
  induction loop generalizing read with
  | ends none =>
      rw [none, List.append_nil, List.append_nil]
      exact ⟨rfl, begun⟩
  | round head queued _ ih =>
      obtain ⟨count, onward⟩ := ih (explored_step begun head)
      rw [queued, List.append_assoc] at count onward
      rw [head, List.cons_append, List.length_cons, count]
      rw [List.append_assoc, List.singleton_append] at onward
      exact ⟨rfl, onward⟩

section Whole

variable (loop : Loop rowOf (initial start) pushed rounds final)

include loop

theorem length_pushed : (start :: pushed).length = rounds := (loop.explored explored_initial).1

theorem explored_pushed : Explored rowOf start (start :: pushed) final :=
  (loop.explored explored_initial).2

theorem nodup_pushed : (start :: pushed).Nodup := by
  have once := loop.explored_pushed.once
  rwa [loop.finished, List.append_nil] at once

theorem mem_found_iff (state : Positions) : state ∈ final.found ↔ Reached rowOf start state :=
  loop.explored_pushed.found_iff loop.finished state

theorem mem_pushed_iff (state : Positions) :
    state ∈ start :: pushed ↔ Reached rowOf start state := by
  rw [← loop.mem_found_iff, loop.explored_pushed.known, loop.finished, List.append_nil]

theorem size_found : final.found.size = rounds := by
  rw [← Std.ExtTreeSet.length_toList, ← loop.length_pushed]
  apply List.Perm.length_eq
  rw [List.perm_ext_iff_of_nodup (FiniteSet.nodup_toList _) loop.nodup_pushed]
  intro state
  rw [Std.ExtTreeSet.mem_toList, loop.mem_found_iff, loop.mem_pushed_iff]

end Whole

end Loop

/-- A search that stays among finitely many positions comes to an end. -/
theorem exists_loop {carrier : List Nat}
    (inside : ∀ state, Reached rowOf start state → ∀ position ∈ state, position ∈ carrier) :
    ∃ pushed rounds final, Loop rowOf (initial start) pushed rounds final := by
  obtain ⟨pushed, rounds, loop⟩ := Loop.of_run (pending_run inside)
  exact ⟨pushed, rounds, _, loop⟩

end Search

open Search

/-- How the states of an automaton were found. -/
structure SearchedBy (construction : Construction) (tree : Tree) (pushed : List Positions) :
    Prop where
  ends : ∃ final, Loop (construction.reading tree) (initial tree.first) pushed
      construction.automaton.states.size final ∧
    final.found = construction.automaton.states ∧
    ∀ bound, construction.automaton.states.size ≤ bound →
      (initial tree.first).run (construction.reading tree) bound = final
  only : ∀ others rounds final,
    Loop (construction.reading tree) (initial tree.first) others rounds final →
      others = pushed ∧ rounds = construction.automaton.states.size
  once : (tree.first :: pushed).Nodup
  states : ∀ state, state ∈ tree.first :: pushed ↔ state ∈ construction.automaton.states
  inhabited : ∀ state ∈ tree.first :: pushed, state ≠ ∅
  inside : ∀ state ∈ tree.first :: pushed, ∀ position ∈ state,
    1 ≤ position ∧ position ≤ tree.leafCount
  few : construction.automaton.states.size ≤ 2 ^ tree.leafCount - 1

theorem length_lt_two_pow {carrier : List Nat} {states : List Positions} (once : states.Nodup)
    (inside : ∀ state ∈ states, ∀ position ∈ state, position ∈ carrier)
    (inhabited : ∀ state ∈ states, state ≠ ∅) : states.length < 2 ^ carrier.length := by
  -- the empty set would be one more
  have apart : (∅ :: states).Nodup :=
    List.nodup_cons.mpr ⟨fun member => inhabited ∅ member rfl, once⟩
  have among : ∀ state ∈ ∅ :: states, ∀ position ∈ state, position ∈ carrier := by
    intro state member position held
    rcases List.mem_cons.mp member with rfl | listed
    · exact absurd held Std.ExtTreeSet.not_mem_empty
    · exact inside state listed position held
  exact length_le_two_pow apart among

/-- The loop over the sets of a tree comes to an end, with one round for every state. -/
theorem one_round_for_every_state (tree : Tree) (dense : tree.Dense)
    (one : tree.markerCount = 1) :
    ∃ construction, ofTree tree = .ok construction ∧
      ∃ pushed, construction.SearchedBy tree pushed := by
  obtain ⟨construction, built⟩ := (exists_ofTree_iff tree).mpr ⟨dense, one⟩
  refine ⟨construction, built, ?_⟩
  obtain ⟨_, endPosition, marked, rfl⟩ := (ofTree_eq_ok_iff tree construction).mp built
  have represents := represents_build tree dense endPosition marked
  have within := mem_positions_of_reached tree dense endPosition
  obtain ⟨pushed, rounds, final, loop⟩ := exists_loop within
  have reached := mem_states_build tree dense endPosition
  have same : final.found = (build tree tree.symbols endPosition).automaton.states := by
    apply Std.ExtTreeSet.ext_mem
    intro state
    rw [loop.mem_found_iff, reached]
  have size := loop.size_found
  rw [same] at size
  have states : ∀ state, state ∈ tree.first :: pushed ↔
      state ∈ (build tree tree.symbols endPosition).automaton.states := by
    intro state
    rw [loop.mem_pushed_iff, reached]
  have inhabited : ∀ state ∈ tree.first :: pushed, state ≠ ∅ := fun state member =>
    represents.inhabited ((states state).mp member)
  have inside : ∀ state ∈ tree.first :: pushed, ∀ position ∈ state, position ∈ tree.positions :=
    fun state member => within state ((loop.mem_pushed_iff state).mp member)
  refine ⟨pushed, ?_⟩
  constructor
  case ends =>
    rw [size]
    exact ⟨_, loop, same, fun _ => loop.run_eq⟩
  case only =>
    intro others rounds' final again
    obtain ⟨others_eq, rounds_eq, _⟩ := loop.unique again
    exact ⟨others_eq, rounds_eq.trans size.symm⟩
  case once => exact loop.nodup_pushed
  case states => exact states
  case inhabited => exact inhabited
  case inside =>
    intro state member position held
    have counted := (dense.mem_positions_iff position).mp (inside state member position held)
    omega
  case few =>
    have fits := length_lt_two_pow loop.nodup_pushed inside inhabited
    rw [loop.length_pushed, ← size, Tree.positions, List.length_map] at fits
    exact Nat.le_sub_one_of_lt fits

/-- All three positions come first, then the one inside the star and the end marker, and the
second round finds nothing new. -/
theorem second_round_pushes_nothing :
    let tree := Tree.star (.concat (.union (.leaf 'a' 3) (.star (.leaf 'a' 1)))
      (.leaf endMarker 2))
    let later : Positions := FiniteSet.ofList [1, 2]
    tree.Dense ∧ tree.markerCount = 1 ∧ ∃ construction, ofTree tree = .ok construction ∧
      construction.SearchedBy tree [later] ∧ construction.automaton.states.size = 2 := by
  intro tree later
  have dense : tree.Dense := by
    change tree.positions.Perm (List.range' 1 tree.leafCount)
    decide
  have one : tree.markerCount = 1 := by decide
  obtain ⟨construction, built, pushed, searched⟩ := one_round_for_every_state tree dense one
  have listed : construction.automaton.states.toList.map Std.ExtTreeSet.toList =
      [[1, 2], [1, 2, 3]] := by
    obtain ⟨_, _, _, rfl⟩ := (ofTree_eq_ok_iff tree construction).mp built
    -- the states are the same whichever position the end marker has
    change (build tree tree.symbols 0).automaton.states.toList.map _ = _
    decide +kernel
  have size : construction.automaton.states.size = 2 := by
    rw [← Std.ExtTreeSet.length_toList, ← List.length_map Std.ExtTreeSet.toList, listed]
    rfl
  have isLater : later ∈ tree.first :: pushed := by
    obtain ⟨state, known, same⟩ : ∃ state ∈ construction.automaton.states.toList,
        state.toList = [1, 2] := List.mem_map.mp (listed ▸ List.mem_cons_self)
    have here : state = later := FiniteSet.toList_injective (by rw [same]; decide +kernel)
    rw [searched.states, ← here]
    exact Std.ExtTreeSet.mem_toList.mp known
  have other : later ≠ tree.first := by
    intro same
    have contents := congrArg Std.ExtTreeSet.toList same
    revert contents
    decide +kernel
  obtain ⟨final, loop, _⟩ := searched.ends
  have count := loop.length_pushed
  rw [size] at count
  have single : pushed = [later] := by
    obtain ⟨last, rfl⟩ := List.length_eq_one_iff.mp (Nat.succ.inj count)
    rw [List.mem_singleton.mp ((List.mem_cons.mp isLater).resolve_left other)]
  exact ⟨dense, one, construction, built, single ▸ searched, size⟩

end Recognizer.Construction
