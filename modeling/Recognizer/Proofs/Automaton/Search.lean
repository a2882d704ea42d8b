import Mathlib.Data.Finset.Powerset
import Mathlib.Data.List.Nodup
import Mathlib.Logic.Relation
import Recognizer.Automaton.Construction

/-!
The search for states. Every found state was read or is still pending, never both
and never twice, so a search over sets of `n` positions is over after `2 ^ n`
readings, and it has found the states that can be reached and no others. The
oldest pending state is read first, but any other could be.
-/

namespace Recognizer.Construction

def targets (rowOf : Positions → FiniteMap Char Positions) (state : Positions) :
    List Positions := (rowOf state).toList.map Prod.snd

inductive Reached (rowOf : Positions → FiniteMap Char Positions) (start : Positions) :
    Positions → Prop where
  | start : Reached rowOf start start
  | step {state target : Positions} :
      Reached rowOf start state → target ∈ targets rowOf state → Reached rowOf start target

namespace Search

/-- What holds of a search after some states were read, in that order. -/
structure Explored (rowOf : Positions → FiniteMap Char Positions) (start : Positions)
    (read : List Positions) (search : Search) : Prop where
  known : ∀ state, state ∈ search.found ↔ state ∈ read ++ search.pending
  once : (read ++ search.pending).Nodup
  reached : ∀ state ∈ search.found, Reached rowOf start state
  root : start ∈ search.found
  closed : ∀ state ∈ read, ∀ target ∈ targets rowOf state, target ∈ search.found

variable {rowOf : Positions → FiniteMap Char Positions} {start : Positions}

theorem explored_initial : Explored rowOf start [] (initial start) where
  known state := by simp only [initial, FiniteSet.mem_singleton_iff, List.nil_append,
    List.mem_singleton]
  once := List.nodup_singleton start
  reached state found := by
    rw [initial, FiniteSet.mem_singleton_iff] at found
    exact found ▸ Reached.start
  root := (FiniteSet.mem_singleton_iff start start).mpr rfl
  closed _ member := absurd member List.not_mem_nil

/-- Queueing states keeps the old ones in front and adds those that are new. -/
theorem foldl_enqueue (states : List Positions) (search : Search) :
    ∃ fresh,
      (states.foldl enqueue search).pending = search.pending ++ fresh ∧ fresh.Nodup ∧
      (∀ state ∈ fresh, state ∈ states ∧ state ∉ search.found) ∧
      (∀ state, state ∈ (states.foldl enqueue search).found ↔
        state ∈ search.found ∨ state ∈ fresh) ∧
      ∀ state ∈ states, state ∈ (states.foldl enqueue search).found := by
  induction states generalizing search with
  | nil => exact ⟨[], by simp⟩
  | cons state states ih =>
      obtain ⟨fresh, queued, once, new, found, every⟩ := ih (search.enqueue state)
      rw [List.foldl_cons]
      by_cases old : state ∈ search.found
      · have kept : search.enqueue state = search := by
          rw [enqueue, if_pos (Std.ExtTreeSet.mem_iff_contains.mp old)]
        rw [kept] at queued new found every ⊢
        refine ⟨fresh, queued, once, ?_, found, ?_⟩
        · exact fun other member => ⟨List.mem_cons_of_mem _ (new other member).1,
            (new other member).2⟩
        · intro other member
          rcases List.mem_cons.mp member with here | later
          · exact (found other).mpr (Or.inl (here ▸ old))
          · exact every other later
      · have added : search.enqueue state =
            ⟨search.found.insert state, search.pending ++ [state]⟩ := by
          rw [enqueue, if_neg (fun held => old (Std.ExtTreeSet.mem_iff_contains.mpr held))]
        rw [added] at queued new found every ⊢
        have unseen : ∀ other ∈ fresh, other ≠ state ∧ other ∉ search.found := by
          intro other member
          have absent := (new other member).2
          rwa [FiniteSet.mem_insert_iff, not_or] at absent
        refine ⟨state :: fresh, ?_, ?_, ?_, ?_, ?_⟩
        · rw [queued, List.append_assoc, List.singleton_append]
        · exact List.nodup_cons.mpr ⟨fun member => (unseen state member).1 rfl, once⟩
        · intro other member
          rcases List.mem_cons.mp member with here | later
          · subst here
            exact ⟨List.mem_cons_self, old⟩
          · exact ⟨List.mem_cons_of_mem _ (new other later).1, (unseen other later).2⟩
        · intro other
          rw [found, FiniteSet.mem_insert_iff, List.mem_cons, or_assoc, or_left_comm]
        · intro other member
          rcases List.mem_cons.mp member with here | later
          · exact (found other).mpr (Or.inl ((FiniteSet.mem_insert_iff _ _ _).mpr (Or.inl here)))
          · exact every other later

/-- A pending state is read, whichever it is. -/
inductive Takes (rowOf : Positions → FiniteMap Char Positions) : Search → Search → Prop where
  | take {search : Search} {front back : List Positions} {state : Positions} :
      search.pending = front ++ state :: back →
      Takes rowOf search
        ((targets rowOf state).foldl enqueue { search with pending := front ++ back })

theorem explored_take {read : List Positions} {search : Search}
    (explored : Explored rowOf start read search) {state : Positions}
    {front back : List Positions} (listed : search.pending = front ++ state :: back) :
    Explored rowOf start (read ++ [state])
      ((targets rowOf state).foldl enqueue { search with pending := front ++ back }) := by
  obtain ⟨fresh, queued, once, new, found, every⟩ :=
    foldl_enqueue (targets rowOf state) { search with pending := front ++ back }
  -- the state changes its place, and nothing else does
  have moved : (read ++ [state] ++ (front ++ back ++ fresh)).Perm
      (read ++ search.pending ++ fresh) := by
    simp only [listed, List.append_assoc, List.cons_append, List.nil_append]
    apply List.Perm.append_left
    exact List.perm_middle.symm
  have here : state ∈ search.found := by
    apply (explored.known state).mpr
    simp [listed]
  constructor
  case known =>
    intro other
    rw [found, queued, moved.mem_iff, List.mem_append, explored.known]
  case once =>
    rw [queued, moved.nodup_iff, List.nodup_append]
    refine ⟨explored.once, once, fun earlier old later member same => ?_⟩
    exact (new later member).2 (same ▸ (explored.known earlier).mpr old)
  case reached =>
    intro other member
    rcases (found other).mp member with old | added
    · exact explored.reached other old
    · exact Reached.step (explored.reached state here) (new other added).1
  case root => exact (found start).mpr (Or.inl explored.root)
  case closed =>
    intro earlier member target next
    rcases List.mem_append.mp member with old | last
    · exact (found target).mpr (Or.inl (explored.closed earlier old target next))
    · rw [List.mem_singleton.mp last] at next
      exact every target next

theorem step_of_pending {search : Search} {state : Positions} {others : List Positions}
    (head : search.pending = state :: others) :
    search.step rowOf =
      (targets rowOf state).foldl enqueue { search with pending := [] ++ others } := by
  rw [step, head, targets, List.nil_append]

theorem explored_step {read : List Positions} {search : Search}
    (explored : Explored rowOf start read search) {state : Positions} {others : List Positions}
    (head : search.pending = state :: others) :
    Explored rowOf start (read ++ [state]) (search.step rowOf) := by
  rw [step_of_pending head]
  exact explored_take explored head

/-- The oldest pending state is one of those that could be read. -/
theorem takes_run (bound : Nat) (search : Search) :
    Relation.ReflTransGen (Takes rowOf) search (search.run rowOf bound) := by
  induction bound generalizing search with
  | zero => exact Relation.ReflTransGen.refl
  | succ bound ih =>
      cases head : search.pending with
      | nil =>
          rw [run, head]
      | cons state others =>
          rw [run, head]
          apply Relation.ReflTransGen.head _ (ih (search.step rowOf))
          rw [step_of_pending head]
          apply Takes.take
          exact head

theorem explored_of_takes {search : Search}
    (taken : Relation.ReflTransGen (Takes rowOf) (initial start) search) :
    ∃ read, Explored rowOf start read search := by
  induction taken with
  | refl => exact ⟨[], explored_initial⟩
  | tail _ take ih =>
      obtain ⟨read, explored⟩ := ih
      cases take with
      | take listed => exact ⟨_, explored_take explored listed⟩

/-- Once nothing is pending, what was found is all that can be reached. -/
theorem Explored.found_iff {read : List Positions} {search : Search}
    (explored : Explored rowOf start read search) (finished : search.pending = [])
    (state : Positions) : state ∈ search.found ↔ Reached rowOf start state := by
  constructor
  · exact explored.reached state
  · intro reached
    induction reached with
    | start => exact explored.root
    | step _ next ih =>
        have known := (explored.known _).mp ih
        rw [finished, List.append_nil] at known
        exact explored.closed _ known _ next

/-- A search that is not over has made every step it was allowed. -/
theorem explored_run (bound : Nat) {read : List Positions} {search : Search}
    (explored : Explored rowOf start read search) :
    ∃ more, Explored rowOf start (read ++ more) (search.run rowOf bound) ∧
      ((search.run rowOf bound).pending = [] ∨ more.length = bound) := by
  -- the bound counts readings, and each reading moves one state to the ghost list
  induction bound generalizing read search with
  | zero => exact ⟨[], by rw [List.append_nil]; exact explored, Or.inr rfl⟩
  | succ bound ih =>
      cases head : search.pending with
      | nil =>
          rw [run, head]
          exact ⟨[], by rw [List.append_nil]; exact explored, Or.inl head⟩
      | cons state others =>
          obtain ⟨more, onward, stopped⟩ := ih (explored_step explored head)
          rw [run, head]
          refine ⟨state :: more, by simpa using onward, stopped.imp_right ?_⟩
          intro used
          rw [List.length_cons, used]

end Search

theorem length_le_two_pow {carrier : List Nat} {states : List Positions}
    (once : states.Nodup) (inside : ∀ state ∈ states, ∀ position ∈ state, position ∈ carrier) :
    states.length ≤ 2 ^ carrier.length := by
  have injective : Function.Injective fun state : Positions => state.toList.toFinset := by
    intro state other same
    apply Std.ExtTreeSet.ext_mem
    intro position
    simpa using congrArg (position ∈ ·) same
  have among : (states.map fun state => state.toList.toFinset).toFinset ⊆
      carrier.toFinset.powerset := by
    intro members listed
    obtain ⟨state, known, rfl⟩ := List.mem_map.mp (List.mem_toFinset.mp listed)
    refine Finset.mem_powerset.mpr fun position member => List.mem_toFinset.mpr ?_
    exact inside state known position (by simpa using member)
  calc states.length
      = (states.map fun state => state.toList.toFinset).toFinset.card := by
        rw [List.toFinset_card_of_nodup (once.map injective), List.length_map]
    _ ≤ carrier.toFinset.powerset.card := Finset.card_le_card among
    _ = 2 ^ carrier.toFinset.card := Finset.card_powerset _
    _ ≤ 2 ^ carrier.length := Nat.pow_le_pow_right (by omega) (List.toFinset_card_le carrier)

section Bound

variable {rowOf : Positions → FiniteMap Char Positions} {start : Positions} {carrier : List Nat}
  (inside : ∀ state, Reached rowOf start state → ∀ position ∈ state, position ∈ carrier)

include inside

/-- The bound on the search is large enough: nothing is left pending. -/
theorem pending_run :
    ((Search.initial start).run rowOf (2 ^ carrier.length)).pending = [] := by
  have begun : Search.Explored rowOf start [] (Search.initial start) := Search.explored_initial
  obtain ⟨read, explored, stopped⟩ := Search.explored_run (2 ^ carrier.length) begun
  rcases stopped with finished | used
  · exact finished
  · -- a pending state besides all those readings would be one too many
    have fits := length_le_two_pow explored.once fun state member =>
      inside state (explored.reached state ((explored.known state).mpr member))
    rw [List.nil_append, List.length_append, used] at fits
    exact List.eq_nil_of_length_eq_zero (by omega)

theorem mem_reachable_iff (state : Positions) :
    state ∈ reachable carrier.length rowOf start ↔ Reached rowOf start state := by
  obtain ⟨read, explored⟩ := Search.explored_of_takes
    (Search.takes_run (2 ^ carrier.length) (Search.initial start))
  exact explored.found_iff (pending_run inside) state

end Bound

end Recognizer.Construction
