import Recognizer.Proofs.Automaton.Direct

/-!
What speaks against an automaton for a tree. Leaves are looked at from left to right
until a position comes up again, then the positions from 1 on until one is missing, and
only then the end markers are counted, leaf by leaf. A tree without any of these defects
has an automaton, any other is refused for the first one.
-/

namespace Recognizer

namespace Tree

/-- Leaves are counted, whatever their positions. -/
def markerCount (tree : Tree) : Nat :=
  tree.leaves.countP fun leaf => leaf.2 = endMarker

/-- The positions below the one found are those before the expected one, each of them. -/
structure Gap (tree : Tree) (found expected : Nat) : Prop where
  used : found ∈ tree.positions
  positive : 0 < expected
  other : found ≠ expected
  below : ∀ position, position ∈ tree.positions ∧ position < found ↔
    1 ≤ position ∧ position < expected

inductive Objection (tree : Tree) : Cause → Prop where
  | shared {before after : List (Nat × Char)} {position : Nat} {earlier later : Char}
      (leaves : tree.leaves = before ++ (position, later) :: after)
      (apart : (before.map Prod.fst).Nodup) (used : (position, earlier) ∈ before) :
      Objection tree (.sharedPosition position earlier later)
  | sparse {found expected : Nat} (distinct : tree.Distinct) (gap : tree.Gap found expected) :
      Objection tree (.sparsePosition found expected)
  | unmarked (dense : tree.Dense) (none : tree.markerCount = 0) : Objection tree .noEndMarker
  | marked (dense : tree.Dense) (several : 2 ≤ tree.markerCount) :
      Objection tree (.severalEndMarkers tree.markerCount)

theorem exists_first_repeated (entries : List (Nat × Char))
    (repeated : ¬(entries.map Prod.fst).Nodup) :
    ∃ before after position earlier later, entries = before ++ (position, later) :: after ∧
      (before.map Prod.fst).Nodup ∧ (position, earlier) ∈ before := by
  -- from the right end, so that what comes before is judged first
  induction entries using List.reverseRecOn with
  | nil => exact absurd List.nodup_nil repeated
  | append_singleton entries last ih =>
      by_cases apart : (entries.map Prod.fst).Nodup
      · have again : last.1 ∈ entries.map Prod.fst := by
          by_contra fresh
          apply repeated
          rw [List.map_append, List.nodup_append]
          refine ⟨apart, List.nodup_singleton _, fun position member other here same => ?_⟩
          rw [List.map_singleton, List.mem_singleton] at here
          exact fresh (here ▸ same ▸ member)
        obtain ⟨⟨position, earlier⟩, member, same⟩ := List.mem_map.mp again
        exact ⟨entries, [], last.1, earlier, last.2, rfl, apart, same ▸ member⟩
      · obtain ⟨before, after, position, earlier, later, rfl, known⟩ := ih apart
        exact ⟨before, after ++ [last], position, earlier, later, by simp, known⟩

theorem foldlM_record_of_repeated {before after : List (Nat × Char)} {position : Nat}
    {earlier later : Char} (apart : (before.map Prod.fst).Nodup)
    (used : (position, earlier) ∈ before) :
    (before ++ (position, later) :: after).foldlM record ∅ =
      .error (.sharedPosition position earlier later) := by
  have recorded := (foldlM_record_eq_ok_iff before ∅ _).mpr ⟨⟨apart, by simp⟩, rfl⟩
  have found := (getElem?_foldl_insert before ∅ apart (by simp) position earlier).mpr (Or.inr used)
  rw [List.foldlM_append, recorded]
  simp only [bind, Except.bind, List.foldlM_cons, record, found]

/-- Up to the number that breaks the count every number was found. -/
theorem gap?_eq_some {due found expected : Nat} {listed : List Nat}
    (gap : gap? due listed = some (found, expected)) :
    due ≤ expected ∧ found ≠ expected ∧
      ∃ rest, listed = List.range' due (expected - due) ++ found :: rest := by
  induction listed generalizing due with
  | nil => simp [gap?] at gap
  | cons head tail ih =>
      rw [gap?] at gap
      by_cases same : head = due
      · rw [if_pos same] at gap
        obtain ⟨later, other, rest, rfl⟩ := ih gap
        refine ⟨by omega, other, rest, ?_⟩
        have longer : expected - due = expected - (due + 1) + 1 := by omega
        rw [longer, List.range'_succ, same, List.cons_append]
      · rw [if_neg same] at gap
        cases gap
        exact ⟨Nat.le_refl _, same, tail, by simp⟩

theorem gap_of_keys {tree : Tree} (distinct : tree.Distinct) {found expected : Nat}
    (broken : gap? 1 tree.symbols.keys = some (found, expected)) : tree.Gap found expected := by
  obtain ⟨positive, other, rest, listed⟩ := gap?_eq_some broken
  have members := fun position => (keys_symbols_perm tree distinct).mem_iff (a := position)
  have ascending : tree.symbols.keys.Pairwise (· < ·) :=
    Std.ExtTreeMap.ordered_keys.imp fun before => Nat.compare_eq_lt.mp before
  rw [listed] at members ascending
  obtain ⟨_, later, smaller⟩ := List.pairwise_append.mp ascending
  refine ⟨(members found).mp (by simp), positive, other, fun position => ?_⟩
  rw [← members, List.mem_append, List.mem_range'_1, List.mem_cons]
  constructor
  · rintro ⟨counted | same | after, less⟩
    · omega
    · omega
    · have beyond := (List.pairwise_cons.mp later).1 position after
      omega
  · intro counted
    have early : position ∈ List.range' 1 (expected - 1) := List.mem_range'_1.mpr (by omega)
    exact ⟨Or.inl (by omega), smaller position early found List.mem_cons_self⟩

namespace Gap

variable {tree : Tree} {found expected found' expected' : Nat}

theorem not_lt (gap : tree.Gap found expected) (gap' : tree.Gap found' expected') :
    ¬found < found' := by
  intro less
  have counted := (gap'.below found).mp ⟨gap.used, less⟩
  rcases Nat.lt_or_gt_of_ne gap.other with early | late
  · have itself := (gap.below found).mpr ⟨counted.1, early⟩
    exact Nat.lt_irrefl found itself.2
  · -- the number that one gap misses is found on the way to the other
    have present := (gap'.below expected).mpr ⟨gap.positive, Nat.lt_trans late counted.2⟩
    have itself := (gap.below expected).mp ⟨present.1, late⟩
    exact Nat.lt_irrefl expected itself.2

theorem expected_le (gap : tree.Gap found expected) (gap' : tree.Gap found expected') :
    expected ≤ expected' := by
  by_contra more
  have present := (gap.below expected').mpr ⟨gap'.positive, Nat.lt_of_not_le more⟩
  exact Nat.lt_irrefl expected' ((gap'.below expected').mp present).2

theorem unique (gap : tree.Gap found expected) (gap' : tree.Gap found' expected') :
    found = found' ∧ expected = expected' := by
  have same : found = found' := by
    have lower := gap.not_lt gap'
    have upper := gap'.not_lt gap
    omega
  subst same
  exact ⟨rfl, Nat.le_antisymm (gap.expected_le gap') (gap'.expected_le gap)⟩

end Gap

theorem checkedSymbols_of_distinct {tree : Tree} (distinct : tree.Distinct) :
    tree.checkedSymbols =
      match gap? 1 tree.symbols.keys with
      | some (found, expected) => .error (.sparsePosition found expected)
      | none => .ok tree.symbols := by
  have recorded : tree.leaves.foldlM record ∅ = .ok tree.symbols :=
    (foldlM_record_eq_ok_iff _ _ _).mpr ⟨⟨distinct, by simp⟩, rfl⟩
  rw [checkedSymbols, recorded]
  rfl

theorem exists_gap {tree : Tree} (distinct : tree.Distinct) (sparse : ¬tree.Dense) :
    ∃ found expected, tree.Gap found expected ∧
      tree.checkedSymbols = .error (.sparsePosition found expected) := by
  cases broken : gap? 1 tree.symbols.keys with
  | none => exact absurd ((gap?_keys_eq_none_iff tree distinct).mp broken) sparse
  | some gap =>
      refine ⟨gap.1, gap.2, gap_of_keys distinct broken, ?_⟩
      rw [checkedSymbols_of_distinct distinct, broken]

theorem Gap.not_dense {tree : Tree} {found expected : Nat} (gap : tree.Gap found expected) :
    ¬tree.Dense := by
  intro dense
  have used := (dense.mem_positions_iff found).mp gap.used
  rcases Nat.lt_or_gt_of_ne gap.other with early | late
  · exact Nat.lt_irrefl found ((gap.below found).mpr ⟨used.1, early⟩).2
  · have present := (dense.mem_positions_iff expected).mpr
      ⟨gap.positive, Nat.lt_trans late used.2⟩
    exact Nat.lt_irrefl expected ((gap.below expected).mp ⟨present, late⟩).2

theorem toList_symbols_perm {tree : Tree} (distinct : tree.Distinct) :
    tree.symbols.toList.Perm tree.leaves := by
  have once : tree.symbols.toList.Nodup := by
    apply List.Nodup.of_map Prod.fst
    rw [Std.ExtTreeMap.map_fst_toList_eq_keys]
    exact Std.ExtTreeMap.nodup_keys
  apply (List.perm_ext_iff_of_nodup once (List.Nodup.of_map Prod.fst distinct)).mpr
  rintro ⟨position, symbol⟩
  rw [Std.ExtTreeMap.mem_toList_iff_getElem?_eq_some, getElem?_symbols tree distinct]

end Tree

namespace Construction

variable {tree : Tree}

theorem ofTree_of_refused {cause : Cause} (refused : tree.checkedSymbols = .error cause) :
    ofTree tree = .error cause := by
  rw [ofTree, refused]
  rfl

theorem ofTree_of_dense (dense : tree.Dense) :
    (tree.markerCount = 0 → ofTree tree = .error .noEndMarker) ∧
    (tree.markerCount = 1 → ∃ construction, ofTree tree = .ok construction) ∧
    (2 ≤ tree.markerCount → ofTree tree = .error (.severalEndMarkers tree.markerCount)) := by
  have checked := (tree.checkedSymbols_eq_ok_iff _).mpr ⟨dense, rfl⟩
  -- the check of positions has folded no two leaves into one
  have count : ((tree.symbols.toList.filter fun entry => entry.2 = endMarker).map
      Prod.fst).length = tree.markerCount := by
    rw [List.length_map, ← List.countP_eq_length_filter, Tree.markerCount]
    exact (tree.toList_symbols_perm dense.distinct).countP_eq _
  rw [ofTree, checked]
  simp only [bind, Except.bind]
  generalize (tree.symbols.toList.filter fun entry => entry.2 = endMarker).map Prod.fst =
    positions at count
  rw [← count]
  rcases positions with _ | ⟨position, _ | ⟨other, rest⟩⟩
  · simp
  · simp
  · simp

theorem raised_of_objection {cause : Cause} (objection : tree.Objection cause) :
    ofTree tree = .error cause := by
  cases objection with
  | shared leaves apart used =>
      apply ofTree_of_refused
      rw [Tree.checkedSymbols, leaves, Tree.foldlM_record_of_repeated apart used]
      rfl
  | sparse distinct gap =>
      obtain ⟨found, expected, gap', refused⟩ := Tree.exists_gap distinct gap.not_dense
      obtain ⟨rfl, rfl⟩ := gap.unique gap'
      exact ofTree_of_refused refused
  | unmarked dense none => exact (ofTree_of_dense dense).1 none
  | marked dense several => exact (ofTree_of_dense dense).2.2 several

theorem exists_objection_of_not_dense (sparse : ¬tree.Dense) :
    ∃ cause, tree.Objection cause ∧ cause.kind = .argument := by
  by_cases distinct : tree.Distinct
  · obtain ⟨found, expected, gap, _⟩ := Tree.exists_gap distinct sparse
    exact ⟨_, .sparse distinct gap, rfl⟩
  · obtain ⟨before, after, position, earlier, later, leaves, apart, used⟩ :=
      Tree.exists_first_repeated tree.leaves distinct
    exact ⟨_, .shared leaves apart used, rfl⟩

/-- Either nothing speaks against an automaton or there is a first objection. -/
theorem sound_or_objection (tree : Tree) :
    tree.Dense ∧ tree.markerCount = 1 ∨ ∃ cause, tree.Objection cause := by
  by_cases dense : tree.Dense
  · rcases Nat.lt_trichotomy tree.markerCount 1 with none | one | several
    · exact Or.inr ⟨_, .unmarked dense (by omega)⟩
    · exact Or.inl ⟨dense, one⟩
    · exact Or.inr ⟨_, .marked dense (by omega)⟩
  · obtain ⟨cause, objection, _⟩ := exists_objection_of_not_dense dense
    exact Or.inr ⟨cause, objection⟩

theorem ofTree_eq_error_iff (tree : Tree) (cause : Cause) :
    ofTree tree = .error cause ↔ tree.Objection cause := by
  refine ⟨fun refused => ?_, raised_of_objection⟩
  rcases sound_or_objection tree with ⟨dense, one⟩ | ⟨other, objection⟩
  · obtain ⟨construction, built⟩ := (ofTree_of_dense dense).2.1 one
    rw [built] at refused
    cases refused
  · cases (raised_of_objection objection).symm.trans refused
    exact objection

theorem exists_ofTree_iff (tree : Tree) :
    (∃ construction, ofTree tree = .ok construction) ↔ tree.Dense ∧ tree.markerCount = 1 := by
  constructor
  · rintro ⟨construction, built⟩
    rcases sound_or_objection tree with sound | ⟨cause, objection⟩
    · exact sound
    · rw [raised_of_objection objection] at built
      cases built
  · rintro ⟨dense, one⟩
    exact (ofTree_of_dense dense).2.1 one

/-- What comes of a tree. The positions are judged before the end markers, and markers
that share a position are no single one. -/
structure DecidesOn (tree : Tree) : Prop where
  checked : (∃ found, tree.checkedSymbols = .ok found) ↔
    tree.positions.Perm (List.range' 1 tree.leafCount)
  found : ∀ found, tree.checkedSymbols = .ok found → found = tree.symbols
  built : (∃ construction, ofTree tree = .ok construction) ↔
    (∃ found, tree.checkedSymbols = .ok found) ∧ tree.markerCount = 1
  positions : ¬tree.Dense → ∃ cause, ofTree tree = .error cause ∧ cause.kind = .argument
  unmarked : tree.Dense → tree.markerCount = 0 → ofTree tree = .error .noEndMarker
  marked : tree.Dense → 2 ≤ tree.markerCount →
    ofTree tree = .error (.severalEndMarkers tree.markerCount)
  folded : ∀ position, 2 ≤ tree.leaves.count (position, endMarker) →
    ∃ cause, ofTree tree = .error cause ∧ cause.kind = .argument
  refused : ∀ cause, ofTree tree = .error cause ↔ tree.Objection cause

/-- A tree has an automaton when its positions are `1..n`, each once, and one leaf carries
the end marker; any other is refused for its first defect. -/
theorem dense_trees_with_one_marker_have_automata (tree : Tree) : DecidesOn tree := by
  have checked : (∃ found, tree.checkedSymbols = .ok found) ↔ tree.Dense := by
    simp [tree.checkedSymbols_eq_ok_iff]
  have sparse : ¬tree.Dense → ∃ cause, ofTree tree = .error cause ∧ cause.kind = .argument := by
    intro sparse
    obtain ⟨cause, objection, argument⟩ := exists_objection_of_not_dense sparse
    exact ⟨cause, raised_of_objection objection, argument⟩
  constructor
  case checked => exact checked
  case found =>
    intro found passed
    exact ((tree.checkedSymbols_eq_ok_iff found).mp passed).2
  case built =>
    rw [checked]
    exact exists_ofTree_iff tree
  case positions => exact sparse
  case unmarked => exact fun dense => (ofTree_of_dense dense).1
  case marked => exact fun dense => (ofTree_of_dense dense).2.2
  case folded =>
    intro position folded
    apply sparse
    intro dense
    have once := List.nodup_iff_count_le_one.mp (List.Nodup.of_map Prod.fst dense.distinct)
      (position, endMarker)
    omega
  case refused => exact ofTree_eq_error_iff tree

/-- Later defects do not hide the first one. The two markers share a position, and where
the marker is missing there is a gap as well. -/
theorem first_defect_is_reported :
    let shared := Tree.concat (.leaf 'a' 0) (.union (.leaf '#' 2) (.leaf '#' 2))
    let sparse := Tree.concat (.leaf 'b' 3) (.leaf 'a' 1)
    let unmarked := Tree.concat (.leaf 'b' 2) (.leaf 'a' 1)
    let marked := Tree.union (.leaf '#' 2) (.leaf '#' 1)
    (∃ cause, ofTree shared = .error cause ∧ cause.kind = .argument) ∧
      ofTree shared = .error (.sharedPosition 2 '#' '#') ∧
      (∃ cause, ofTree sparse = .error cause ∧ cause.kind = .argument) ∧
      ofTree sparse = .error (.sparsePosition 3 2) ∧
      ofTree unmarked = .error .noEndMarker ∧
      ofTree marked = .error (.severalEndMarkers 2) := by
  intro shared sparse unmarked marked
  have ofShared := dense_trees_with_one_marker_have_automata shared
  have ofSparse := dense_trees_with_one_marker_have_automata sparse
  have ofUnmarked := dense_trees_with_one_marker_have_automata unmarked
  have ofMarked := dense_trees_with_one_marker_have_automata marked
  have gap : ¬sparse.positions.Perm (List.range' 1 sparse.leafCount) := by decide
  have dense : unmarked.positions.Perm (List.range' 1 unmarked.leafCount) := by decide
  have dense' : marked.positions.Perm (List.range' 1 marked.leafCount) := by decide
  have leaves : shared.leaves = [(0, 'a'), (2, '#')] ++ (2, '#') :: [] := rfl
  refine ⟨ofShared.folded 2 (by decide), ?_, ofSparse.positions gap, rfl,
    ofUnmarked.unmarked dense (by decide), ofMarked.marked dense' (by decide)⟩
  exact (ofShared.refused _).mpr (.shared leaves (by decide) (by simp))

end Construction

end Recognizer
