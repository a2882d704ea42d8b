import Std.Data.ExtTreeMap
import Std.Data.ExtTreeSet

/-!
Ordered types and the finite sets and maps over them. A finite set is again
ordered, by its ascending members, so sets of sets are states of automata too.
-/

namespace Recognizer

class Ordered (α : Type) extends Ord α, Std.TransOrd α, Std.LawfulEqOrd α

instance : Ordered Nat := {}

instance : Ordered Char := {}

instance {α : Type} [Ordered α] : Ordered (Option α) := {}

instance {α : Type} [Ordered α] : Ordered (List α) := {}

abbrev FiniteSet (α : Type) [Ordered α] := Std.ExtTreeSet α compare

abbrev FiniteMap (κ : Type) [Ordered κ] (ν : Type) := Std.ExtTreeMap κ ν compare

namespace FiniteSet

variable {α : Type} [Ordered α]

theorem toList_injective {s t : FiniteSet α} (same : s.toList = t.toList) : s = t := by
  apply Std.ExtTreeSet.ext_mem
  intro a
  rw [← Std.ExtTreeSet.mem_toList, ← Std.ExtTreeSet.mem_toList, same]

/-- Sets compare as their ascending lists do: a proper initial part is smaller. -/
instance : Ord (FiniteSet α) := ⟨fun s t => compare s.toList t.toList⟩

instance : Ordered (FiniteSet α) where
  eq_swap := Std.OrientedOrd.eq_swap (α := List α)
  isLE_trans := Std.TransOrd.isLE_trans (α := List α)
  compare_self := Std.ReflOrd.compare_self (α := List α)
  eq_of_compare equal := toList_injective (Std.LawfulEqOrd.eq_of_compare (α := List α) equal)

theorem nodup_toList (s : FiniteSet α) : s.toList.Nodup :=
  Std.ExtTreeSet.distinct_toList.imp fun different same =>
    different (by rw [same, Std.ReflOrd.compare_self])

@[simp]
theorem mem_insert_iff (s : FiniteSet α) (a b : α) : a ∈ s.insert b ↔ a = b ∨ a ∈ s := by
  rw [Std.ExtTreeSet.mem_insert, Std.LawfulEqOrd.compare_eq_iff_eq, eq_comm]

@[simp]
theorem mem_singleton_iff (a b : α) : a ∈ ({b} : FiniteSet α) ↔ a = b := by
  change a ∈ (∅ : FiniteSet α).insert b ↔ a = b
  rw [mem_insert_iff]
  simp

/-- An ascending list of the members is the list of the set. -/
theorem toList_eq_of_ascending {s : FiniteSet α} {members : List α}
    (ascending : members.Pairwise fun a b => compare a b = .lt)
    (same : ∀ a, a ∈ members ↔ a ∈ s) : s.toList = members := by
  have ordered : s.toList.Pairwise fun a b => compare a b = .lt := Std.ExtTreeSet.ordered_toList
  have once : members.Nodup := by
    apply ascending.imp
    intro a b less same
    rw [same, Std.ReflOrd.compare_self] at less
    cases less
  apply List.Perm.eq_of_pairwise (fun a b _ _ less more => ?_) ordered ascending
  · rw [List.perm_ext_iff_of_nodup (nodup_toList s) once]
    intro a
    rw [Std.ExtTreeSet.mem_toList, same]
  · rw [Std.OrientedOrd.eq_swap, more] at less
    cases less

@[simp]
theorem toList_singleton (a : α) : ({a} : FiniteSet α).toList = [a] := by
  apply toList_eq_of_ascending (List.pairwise_singleton _ a)
  intro b
  rw [List.mem_singleton, mem_singleton_iff]

theorem compare_singleton (a b : α) :
    compare ({a} : FiniteSet α) ({b} : FiniteSet α) = compare a b := by
  change compare ({a} : FiniteSet α).toList ({b} : FiniteSet α).toList = _
  rw [toList_singleton, toList_singleton, List.compare_cons_cons, List.compare_nil_nil]
  cases compare a b <;> rfl

theorem mem_filter_iff (s : FiniteSet α) (keep : α → Bool) (a : α) :
    a ∈ s.filter keep ↔ a ∈ s ∧ keep a = true := by
  simp

theorem eq_empty_iff (s : FiniteSet α) : s = ∅ ↔ ∀ a, a ∉ s := by
  constructor
  · intro same a
    simp [same]
  · intro none
    exact Std.ExtTreeSet.ext_mem fun a => by simp [none a]

theorem isEmpty_eq_false_iff_exists (s : FiniteSet α) : s.isEmpty = false ↔ ∃ a, a ∈ s := by
  rw [Std.ExtTreeSet.isEmpty_eq_false_iff, eq_empty_iff]
  simp

theorem ite_isEmpty_eq_some_iff (s t : FiniteSet α) :
    (if s.isEmpty then none else some s) = some t ↔ t = s ∧ ∃ a, a ∈ t := by
  cases empty : s.isEmpty with
  | true =>
      have none := (eq_empty_iff s).mp (Std.ExtTreeSet.isEmpty_iff.mp empty)
      simp only [↓reduceIte, reduceCtorEq, false_iff]
      rintro ⟨rfl, a, member⟩
      exact none a member
  | false =>
      have some := (isEmpty_eq_false_iff_exists s).mp empty
      simp only [Bool.false_eq_true, ↓reduceIte, Option.some.injEq]
      constructor
      · rintro rfl
        exact ⟨rfl, some⟩
      · exact fun same => same.1.symm

def ofList : List α → FiniteSet α
  | [] => ∅
  | member :: rest => (ofList rest).insert member

theorem mem_ofList (members : List α) (a : α) : a ∈ ofList members ↔ a ∈ members := by
  induction members with
  | nil => simp [ofList]
  | cons member rest ih =>
      simp only [ofList, Std.ExtTreeSet.mem_insert, Std.LawfulEqOrd.compare_eq_iff_eq, ih,
        List.mem_cons, @eq_comm _ a]

def unions : List (FiniteSet α) → FiniteSet α
  | [] => ∅
  | set :: rest => set ∪ unions rest

theorem mem_unions (sets : List (FiniteSet α)) (a : α) :
    a ∈ unions sets ↔ ∃ set ∈ sets, a ∈ set := by
  induction sets with
  | nil => simp [unions]
  | cons set rest ih => simp [unions, Std.ExtTreeSet.mem_union_iff, ih]

end FiniteSet

namespace FiniteMap

variable {κ ν : Type} [Ordered κ]

theorem getElem?_insert_ne (map : FiniteMap κ ν) {key other : κ} (found : ν)
    (different : other ≠ key) : (map.insert key found)[other]? = map[other]? := by
  simp [Std.ExtTreeMap.getElem?_insert, different.symm]

/-- The entries of those keys for which there is a value. -/
def tabulate (value : κ → Option ν) : List κ → FiniteMap κ ν
  | [] => ∅
  | key :: rest =>
      match value key with
      | none => tabulate value rest
      | some found => (tabulate value rest).insert key found

theorem getElem?_tabulate_eq_some (value : κ → Option ν) (keys : List κ) (key : κ) (found : ν) :
    (tabulate value keys)[key]? = some found ↔ key ∈ keys ∧ value key = some found := by
  induction keys with
  | nil => simp [tabulate]
  | cons head rest ih =>
      cases here : value head with
      | none =>
          simp only [tabulate, here, ih, List.mem_cons]
          constructor
          · exact fun entry => ⟨Or.inr entry.1, entry.2⟩
          · rintro ⟨same | later, present⟩
            · subst same
              rw [here] at present
              cases present
            · exact ⟨later, present⟩
      | some other =>
          simp only [tabulate, here, Std.ExtTreeMap.getElem?_insert,
            Std.LawfulEqOrd.compare_eq_iff_eq, List.mem_cons]
          by_cases same : head = key
          · subst same
            simp [here]
          · simp [same, Ne.symm same, ih]

theorem getElem?_tabulate_of_mem (value : κ → Option ν) {keys : List κ} {key : κ}
    (listed : key ∈ keys) : (tabulate value keys)[key]? = value key := by
  ext found
  rw [getElem?_tabulate_eq_some, and_iff_right listed]

end FiniteMap

end Recognizer
