import Mathlib.Data.List.Nodup
import Recognizer.Automaton.Basic

/-!
Edges as they are listed, state by state. An edge stands there once, and those that are
listed are the moves of the states.
-/

namespace Recognizer.Automaton

variable {σ : Type} [Ordered σ] (automaton : Automaton σ)

def edgesFrom (state : σ) : List (σ × Char × σ) :=
  match automaton.outgoing state with
  | none => []
  | some row => row.toList.map fun entry => (state, entry.1, entry.2)

theorem edges_eq : automaton.edges = automaton.states.toList.flatMap automaton.edgesFrom := rfl

theorem mem_edgesFrom_iff (state source target : σ) (symbol : Char) :
    (source, symbol, target) ∈ automaton.edgesFrom state ↔
      source = state ∧ automaton.next source symbol = some target := by
  rw [edgesFrom, next]
  cases found : automaton.outgoing state with
  | none =>
      refine iff_of_false List.not_mem_nil ?_
      rintro ⟨rfl, moved⟩
      rw [found] at moved
      cases moved
  | some row =>
      simp only [List.mem_map]
      constructor
      · rintro ⟨⟨read, reached⟩, entry, same⟩
        cases same
        rw [found]
        exact ⟨rfl, Std.ExtTreeMap.mem_toList_iff_getElem?_eq_some.mp entry⟩
      · rintro ⟨rfl, moved⟩
        rw [found] at moved
        exact ⟨(symbol, target), Std.ExtTreeMap.mem_toList_iff_getElem?_eq_some.mpr moved, rfl⟩

theorem nodup_edgesFrom (state : σ) : (automaton.edgesFrom state).Nodup := by
  rw [edgesFrom]
  cases automaton.outgoing state with
  | none => exact List.nodup_nil
  | some row =>
      refine List.pairwise_map.mpr (Std.ExtTreeMap.distinct_keys_toList.imp ?_)
      rintro ⟨read, reached⟩ ⟨other, target⟩ different same
      cases same
      exact different Std.ReflOrd.compare_self

theorem mem_edges_iff (source target : σ) (symbol : Char) :
    (source, symbol, target) ∈ automaton.edges ↔
      source ∈ automaton.states ∧ automaton.next source symbol = some target := by
  rw [edges_eq, List.mem_flatMap]
  simp only [mem_edgesFrom_iff, Std.ExtTreeSet.mem_toList]
  constructor
  · rintro ⟨_, known, rfl, moved⟩
    exact ⟨known, moved⟩
  · rintro ⟨known, moved⟩
    exact ⟨source, known, rfl, moved⟩

theorem nodup_edges : automaton.edges.Nodup := by
  refine List.nodup_flatMap.mpr ⟨fun state _ => automaton.nodup_edgesFrom state, ?_⟩
  refine (FiniteSet.nodup_toList automaton.states).imp ?_
  rintro state other different ⟨source, symbol, target⟩ member also
  exact different (((automaton.mem_edgesFrom_iff state source target symbol).mp member).1.symm.trans
    ((automaton.mem_edgesFrom_iff other source target symbol).mp also).1)

end Recognizer.Automaton
