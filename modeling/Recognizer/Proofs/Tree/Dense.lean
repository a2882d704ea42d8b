import Mathlib.Data.List.Perm.Basic
import Recognizer.Proofs.Tree.Language

/-!
Trees whose positions are `1..n`, each once. They are the trees that pass the
check of positions, which then looks symbols up as the leaves have them.
-/

namespace Recognizer.Tree

def Dense (tree : Tree) : Prop :=
  tree.positions.Perm (List.range' 1 tree.leafCount)

theorem Dense.distinct {tree : Tree} (dense : tree.Dense) : tree.Distinct :=
  dense.nodup_iff.mpr List.nodup_range'

theorem Dense.mem_positions_iff {tree : Tree} (dense : tree.Dense) (position : Nat) :
    position ∈ tree.positions ↔ 1 ≤ position ∧ position < 1 + tree.leafCount := by
  rw [dense.mem_iff, List.mem_range'_1]

/-- Leaves are recorded without complaint when their positions are new. -/
theorem foldlM_record_eq_ok_iff (entries : List (Nat × Char)) (known found : FiniteMap Nat Char) :
    entries.foldlM record known = .ok found ↔
      ((entries.map Prod.fst).Nodup ∧ ∀ entry ∈ entries, known[entry.1]? = none) ∧
        found = entries.foldl (fun found entry => found.insert entry.1 entry.2) known := by
  -- on the leaves to come, for any map of those before them
  induction entries generalizing known with
  | nil =>
      simp [pure, Except.pure, eq_comm]
  | cons entry entries ih =>
      rw [List.foldlM_cons]
      cases old : known[entry.1]? with
      | some earlier =>
          have rejected :
              record known entry = .error (.sharedPosition entry.1 earlier entry.2) := by
            rw [record, old]
          rw [rejected]
          constructor
          · intro passed
            cases passed
          · rintro ⟨⟨_, absent⟩, _⟩
            have unused := absent entry List.mem_cons_self
            rw [old] at unused
            cases unused
      | none =>
          have unused : ∀ other : Nat × Char, (known.insert entry.1 entry.2)[other.1]? = none ↔
              other.1 ≠ entry.1 ∧ known[other.1]? = none := by
            intro other
            by_cases same : other.1 = entry.1
            · simp [same]
            · rw [FiniteMap.getElem?_insert_ne known entry.2 same]
              simp [same]
          simp only [record, old, bind, Except.bind, ih, unused, List.map_cons, List.nodup_cons,
            List.mem_map, List.mem_cons, List.foldl_cons]
          constructor
          · rintro ⟨⟨fresh, absent⟩, same⟩
            refine ⟨⟨⟨?_, fresh⟩, ?_⟩, same⟩
            · rintro ⟨other, later, again⟩
              exact (absent other later).1 again
            · rintro other (here | later)
              · exact here ▸ old
              · exact (absent other later).2
          · rintro ⟨⟨⟨once, fresh⟩, absent⟩, same⟩
            refine ⟨⟨fresh, fun other later => ⟨?_, absent other (Or.inr later)⟩⟩, same⟩
            exact fun again => once ⟨other, later, again⟩

theorem getElem?_foldl_insert (entries : List (Nat × Char)) (known : FiniteMap Nat Char)
    (fresh : (entries.map Prod.fst).Nodup) (absent : ∀ entry ∈ entries, known[entry.1]? = none)
    (position : Nat) (symbol : Char) :
    (entries.foldl (fun found entry => found.insert entry.1 entry.2) known)[position]? =
        some symbol ↔
      known[position]? = some symbol ∨ (position, symbol) ∈ entries := by
  induction entries generalizing known with
  | nil => simp
  | cons entry entries ih =>
      obtain ⟨once, fresh⟩ := List.nodup_cons.mp fresh
      have unused : ∀ other ∈ entries, other.1 ≠ entry.1 := fun other later again =>
        once (List.mem_map.mpr ⟨other, later, again⟩)
      rw [List.foldl_cons, ih _ fresh, List.mem_cons]
      · by_cases here : position = entry.1
        · subst here
          rw [Std.ExtTreeMap.getElem?_insert_self, absent entry List.mem_cons_self, Prod.ext_iff]
          simp [eq_comm]
        · have other : (position, symbol) ≠ entry := fun same => here (congrArg Prod.fst same)
          rw [FiniteMap.getElem?_insert_ne known entry.2 here, or_iff_right other]
      · intro other later
        rw [FiniteMap.getElem?_insert_ne known entry.2 (unused other later)]
        exact absent other (List.mem_cons_of_mem _ later)

theorem getElem?_symbols (tree : Tree) (distinct : tree.Distinct) (position : Nat)
    (symbol : Char) :
    tree.symbols[position]? = some symbol ↔ (position, symbol) ∈ tree.leaves := by
  rw [symbols, getElem?_foldl_insert tree.leaves ∅ distinct (by simp)]
  simp

theorem gap?_eq_none_iff (expected : Nat) (found : List Nat) :
    gap? expected found = none ↔ found = List.range' expected found.length := by
  induction found generalizing expected with
  | nil => simp [gap?]
  | cons head tail ih =>
      rw [gap?, List.length_cons, List.range'_succ, List.cons.injEq]
      split
      · next same => rw [ih, and_iff_right same]
      · next differ => simp [differ]

theorem keys_symbols_perm (tree : Tree) (distinct : tree.Distinct) :
    tree.symbols.keys.Perm tree.positions := by
  apply (List.perm_ext_iff_of_nodup Std.ExtTreeMap.nodup_keys distinct).mpr
  intro position
  rw [Std.ExtTreeMap.mem_keys, Std.ExtTreeMap.mem_iff_isSome_getElem?, Option.isSome_iff_exists]
  simp only [getElem?_symbols tree distinct, positions, List.mem_map, Prod.exists,
    exists_and_right, exists_eq_right]

theorem gap?_keys_eq_none_iff (tree : Tree) (distinct : tree.Distinct) :
    gap? 1 tree.symbols.keys = none ↔ tree.Dense := by
  have same := keys_symbols_perm tree distinct
  have size : tree.symbols.keys.length = tree.leafCount :=
    same.length_eq.trans (List.length_map _)
  rw [gap?_eq_none_iff, size]
  constructor
  · intro counted
    exact same.symm.trans (counted ▸ List.Perm.refl _)
  · intro dense
    have ascending : tree.symbols.keys.Pairwise (· < ·) :=
      Std.ExtTreeMap.ordered_keys.imp fun before => Nat.compare_eq_lt.mp before
    -- both lists ascend, so they can only be permuted in one way
    exact (same.trans dense).eq_of_pairwise (fun _ _ _ _ before after => by omega)
      ascending List.pairwise_lt_range'

theorem checkedSymbols_eq_ok_iff (tree : Tree) (found : FiniteMap Nat Char) :
    tree.checkedSymbols = .ok found ↔ tree.Dense ∧ found = tree.symbols := by
  rw [checkedSymbols]
  by_cases distinct : tree.Distinct
  · have recorded : tree.leaves.foldlM record ∅ = .ok tree.symbols :=
      (foldlM_record_eq_ok_iff _ _ _).mpr ⟨⟨distinct, by simp⟩, rfl⟩
    have counted := gap?_keys_eq_none_iff tree distinct
    rw [recorded]
    cases hole : gap? 1 tree.symbols.keys with
    | none =>
        have dense := counted.mp hole
        simp [bind, Except.bind, hole, dense, eq_comm]
    | some gap =>
        have sparse : ¬tree.Dense := fun dense => by
          rw [counted.mpr dense] at hole
          cases hole
        simp [bind, Except.bind, hole, sparse]
  · constructor
    · intro passed
      cases recorded : tree.leaves.foldlM record ∅ with
      | error cause =>
          rw [recorded] at passed
          cases passed
      | ok known =>
          exact absurd ((foldlM_record_eq_ok_iff _ _ _).mp recorded).1.1 distinct
    · rintro ⟨dense, _⟩
      exact absurd dense.distinct distinct

end Recognizer.Tree
