import Mathlib.Data.Char
import Recognizer.Proofs.Automaton.Numbering
import Recognizer.Proofs.Automaton.Runs

/-!
Tables from parts. Parts are refused for the first thing that is wrong with them, and all
others make a table. It moves by the entry in the row of the state and the column of the
symbol, of which there is only one, and a number without a row has no moves. So it stays
within its states, and accepts what the automaton does that its rows spell out. The parts
of a table that was made of an automaton are never refused.
-/

namespace Recognizer

namespace Table

section Search

variable {alphabet : List Char} {symbol : Char}

theorem lt_of_columns (sorted : alphabet.Pairwise (· < ·)) {first second : Nat} {low high : Char}
    (left : alphabet[first]? = some low) (right : alphabet[second]? = some high)
    (before : first < second) : low < high := by
  obtain ⟨_, rfl⟩ := List.getElem?_eq_some_iff.mp left
  obtain ⟨_, rfl⟩ := List.getElem?_eq_some_iff.mp right
  exact List.pairwise_iff_getElem.mp sorted _ _ _ _ before

theorem column_unique (sorted : alphabet.Pairwise (· < ·)) {first second : Nat}
    (left : alphabet[first]? = some symbol) (right : alphabet[second]? = some symbol) :
    first = second := by
  rcases Nat.lt_trichotomy first second with before | same | behind
  · exact absurd (lt_of_columns sorted left right before) (lt_irrefl symbol)
  · exact same
  · exact absurd (lt_of_columns sorted right left behind) (lt_irrefl symbol)

theorem idxOf?_eq_some_iff (sorted : alphabet.Pairwise (· < ·)) (column : Nat) :
    alphabet.idxOf? symbol = some column ↔ alphabet[column]? = some symbol := by
  constructor
  · intro found
    obtain ⟨inside, same, _⟩ := List.idxOf?_eq_some_iff.mp found
    exact List.getElem?_eq_some_iff.mpr ⟨inside, same⟩
  · intro listed
    obtain ⟨first, found⟩ :=
      Option.isSome_iff_exists.mp (List.isSome_idxOf?.mpr (List.mem_of_getElem? listed))
    obtain ⟨inside, same, _⟩ := List.idxOf?_eq_some_iff.mp found
    rw [found, column_unique sorted (List.getElem?_eq_some_iff.mpr ⟨inside, same⟩) listed]

/-- Halves the columns that are left, and looks at the last of them only. -/
def bisect (alphabet : List Char) (symbol : Char) (low size : Nat) : Option Nat :=
  if size ≤ 1 then
    if alphabet[low]? = some symbol then some low else none
  else if alphabet[low + size / 2]?.any (symbol < ·) then
    bisect alphabet symbol low (size - size / 2)
  else
    bisect alphabet symbol (low + size / 2) (size - size / 2)
termination_by size

/-- A column of the symbol is among those that are left. -/
theorem bisect_eq_some_iff (sorted : alphabet.Pairwise (· < ·)) {low size : Nat}
    (inside : low + size ≤ alphabet.length)
    (left : ∀ column, alphabet[column]? = some symbol → low ≤ column ∧ column < low + size)
    (column : Nat) :
    bisect alphabet symbol low size = some column ↔ alphabet[column]? = some symbol := by
  fun_induction bisect alphabet symbol low size with
  | case1 low size small found =>
      constructor
      · rintro ⟨⟩
        exact found
      · intro listed
        rw [column_unique sorted found listed]
  | case2 low size small absent =>
      refine iff_of_false (Option.some_ne_none column).symm fun listed => absent ?_
      have near := left column listed
      rwa [show low = column by omega]
  | case3 low size large below ih =>
      obtain ⟨middle, found, less⟩ := (Option.any_eq_true _ _).mp below
      refine ih (by omega) fun column listed => ⟨(left column listed).1, ?_⟩
      by_contra beyond
      rcases Nat.eq_or_lt_of_le (show low + size / 2 ≤ column by omega) with rfl | before
      · cases found.symm.trans listed
        exact lt_irrefl _ (of_decide_eq_true less)
      · exact lt_asymm (of_decide_eq_true less) (lt_of_columns sorted found listed before)
  | case4 low size large passed ih =>
      have known : low + size / 2 < alphabet.length := by omega
      refine ih (by omega) fun column listed => ⟨?_, ?_⟩
      · by_contra before
        have less := lt_of_columns sorted listed (List.getElem?_eq_getElem known) (by omega)
        exact passed ((Option.any_eq_true _ _).mpr
          ⟨_, List.getElem?_eq_getElem known, decide_eq_true less⟩)
      · have := (left column listed).2
        omega

/-- However the alphabet is searched, there is only one column to find. -/
theorem bisect_eq_idxOf? (sorted : alphabet.Pairwise (· < ·)) :
    bisect alphabet symbol 0 alphabet.length = alphabet.idxOf? symbol := by
  ext column
  rw [idxOf?_eq_some_iff sorted, bisect_eq_some_iff sorted (Nat.zero_add _).le]
  intro column listed
  have inside := (List.getElem?_eq_some_iff.mp listed).1
  omega

-- without the order a symbol may be there and not be found
example : bisect ['b', 'a'] 'b' 0 2 = none := by cbv

end Search

section Parts

variable (alphabet : List Char) (accepting : List Bool) (next : List (Option Nat))

structure Fits : Prop where
  started : accepting ≠ []
  sorted : alphabet.Pairwise (· < ·)
  filled : next.length = accepting.length * alphabet.length
  known : ∀ target, some target ∈ next → target < accepting.length

/-- What is wrong, when all that is looked at earlier is as it should be. -/
inductive Flaw : Cause → Prop where
  | startless (none : accepting = []) : Flaw .noStartState
  | unsorted (started : accepting ≠ []) (disorder : ¬alphabet.Pairwise (· < ·)) :
      Flaw .unsortedAlphabet
  | miscounted (started : accepting ≠ []) (sorted : alphabet.Pairwise (· < ·))
      (other : next.length ≠ accepting.length * alphabet.length) :
      Flaw (.wrongTransitionCount (accepting.length * alphabet.length) next.length)
  | stray {target : Nat} (started : accepting ≠ []) (sorted : alphabet.Pairwise (· < ·))
      (filled : next.length = accepting.length * alphabet.length)
      (listed : some target ∈ next) (beyond : accepting.length ≤ target) : Flaw .unknownTarget

/-- The edge that the parts have for a state and a symbol. -/
def Entry (state : Nat) (symbol : Char) (target : Nat) : Prop :=
  state < accepting.length ∧ ∃ column, alphabet[column]? = some symbol ∧
    next[state * alphabet.length + column]? = some (some target)

/-- The parts as an automaton on the numbers of the rows. -/
structure Spells (automaton : Automaton Nat) : Prop where
  states : ∀ state, state ∈ automaton.states ↔ state < accepting.length
  symbols : ∀ symbol, symbol ∈ automaton.alphabet ↔ symbol ∈ alphabet
  start : automaton.start = 0
  accepts : ∀ state, automaton.isAccepting state = true ↔ accepting[state]? = some true
  moves : ∀ state symbol target, automaton.next state symbol = some target ↔
    Entry alphabet accepting next state symbol target

/-- Every row by itself, its entries beside their symbols. -/
def spelledRow (state : Nat) : FiniteMap Char Nat :=
  FiniteMap.tabulate
    (fun symbol => ((alphabet.zip (next.drop (state * alphabet.length))).lookup symbol).join)
    alphabet

def spelledOut : Automaton Nat where
  states := FiniteSet.ofList (List.range accepting.length)
  alphabet := FiniteSet.ofList alphabet
  start := 0
  accepts := FiniteSet.ofList
    ((List.range accepting.length).filter fun state => accepting[state]? = some true)
  rows := FiniteMap.tabulate (fun state => some (spelledRow alphabet next state))
    (List.range accepting.length)

variable {alphabet accepting next}

theorem ascending_iff (symbols : List Char) :
    ascending symbols = true ↔ symbols.Pairwise (· < ·) := by
  rw [← List.isChain_iff_pairwise]
  induction symbols using ascending.induct with
  | case1 earlier later rest ih =>
      rw [ascending, Bool.and_eq_true, decide_eq_true_eq, ih, List.isChain_cons_cons]
  | case2 symbols few =>
      match symbols with
      | [] | [_] => simp [ascending]
      | earlier :: later :: rest => exact absurd rfl (few earlier later rest)

theorem any_beyond_iff : (next.any fun target =>
    target.any fun state => accepting.length ≤ state) = true ↔
      ∃ target, some target ∈ next ∧ accepting.length ≤ target := by
  simp only [List.any_eq_true, Option.any_eq_true, decide_eq_true_eq]
  constructor
  · rintro ⟨_, listed, target, rfl, beyond⟩
    exact ⟨target, listed, beyond⟩
  · rintro ⟨target, listed, beyond⟩
    exact ⟨some target, listed, target, rfl, beyond⟩

theorem ofParts_of_fits (fits : Fits alphabet accepting next) :
    ofParts alphabet accepting next = .ok ⟨alphabet, accepting, next⟩ := by
  have inside : ¬(next.any fun target =>
      target.any fun state => accepting.length ≤ state) = true := by
    rw [any_beyond_iff]
    rintro ⟨target, listed, beyond⟩
    exact absurd (fits.known target listed) beyond.not_gt
  simp [ofParts, fits.started, (ascending_iff alphabet).mpr fits.sorted, fits.filled, inside]

theorem ofParts_of_flaw {cause : Cause} (flaw : Flaw alphabet accepting next cause) :
    ofParts alphabet accepting next = .error cause := by
  cases flaw with
  | startless none => simp [ofParts, none]
  | unsorted started disorder =>
      rw [← ascending_iff] at disorder
      simp [ofParts, started, disorder]
  | miscounted started sorted other =>
      simp [ofParts, started, (ascending_iff alphabet).mpr sorted, other]
  | stray started sorted filled listed beyond =>
      have outside := any_beyond_iff.mpr ⟨_, listed, beyond⟩
      simp only [ofParts, List.isEmpty_eq_false_iff.mpr started, filled, outside,
        (ascending_iff alphabet).mpr sorted, Bool.false_eq_true, Bool.not_true, ne_eq,
        not_true_eq_false, if_false, if_true]

theorem fits_or_flaw :
    Fits alphabet accepting next ∨ ∃ cause, Flaw alphabet accepting next cause := by
  by_cases started : accepting = []
  · exact Or.inr ⟨_, .startless started⟩
  by_cases sorted : alphabet.Pairwise (· < ·)
  case neg => exact Or.inr ⟨_, .unsorted started sorted⟩
  by_cases filled : next.length = accepting.length * alphabet.length
  case neg => exact Or.inr ⟨_, .miscounted started sorted filled⟩
  by_cases known : ∀ target, some target ∈ next → target < accepting.length
  · exact Or.inl ⟨started, sorted, filled, known⟩
  · push Not at known
    obtain ⟨target, listed, beyond⟩ := known
    exact Or.inr ⟨_, .stray started sorted filled listed beyond⟩

theorem ofParts_eq_ok_iff (table : Table) : ofParts alphabet accepting next = .ok table ↔
    Fits alphabet accepting next ∧ table = ⟨alphabet, accepting, next⟩ := by
  constructor
  · intro made
    rcases fits_or_flaw with fits | ⟨cause, flaw⟩
    · rw [ofParts_of_fits fits] at made
      exact ⟨fits, (Except.ok.inj made).symm⟩
    · rw [ofParts_of_flaw flaw] at made
      cases made
  · rintro ⟨fits, rfl⟩
    exact ofParts_of_fits fits

theorem ofParts_eq_error_iff (cause : Cause) : ofParts alphabet accepting next = .error cause ↔
    Flaw alphabet accepting next cause := by
  constructor
  · intro refused
    rcases fits_or_flaw with fits | ⟨reason, flaw⟩
    · rw [ofParts_of_fits fits] at refused
      cases refused
    · rw [ofParts_of_flaw flaw] at refused
      cases refused
      exact flaw
  · exact ofParts_of_flaw

namespace Fits

variable (fits : Fits alphabet accepting next)

include fits

/-- Only the rows of states are there to be read. -/
theorem lt_of_entry {state column : Nat} {target : Option Nat}
    (listed : next[state * alphabet.length + column]? = some target) :
    state < accepting.length := by
  have below := (List.getElem?_eq_some_iff.mp listed).1
  rw [fits.filled] at below
  -- the row of any other number would start behind the last entry
  by_contra beyond
  have := Nat.mul_le_mul_right alphabet.length (Nat.le_of_not_lt beyond)
  omega

theorem target_eq_some_iff (state : Nat) (symbol : Char) (target : Nat) :
    (Table.mk alphabet accepting next).target state symbol = some target ↔
      Entry alphabet accepting next state symbol target := by
  rw [Table.target, Entry]
  cases found : alphabet.idxOf? symbol with
  | none =>
      refine iff_of_false (Option.some_ne_none target).symm ?_
      rintro ⟨_, column, listed, _⟩
      rw [← idxOf?_eq_some_iff fits.sorted, found] at listed
      cases listed
  | some column =>
      rw [idxOf?_eq_some_iff fits.sorted] at found
      rw [Option.join_eq_some_iff]
      constructor
      · intro entry
        exact ⟨fits.lt_of_entry entry, column, found, entry⟩
      · rintro ⟨_, other, listed, entry⟩
        rwa [column_unique fits.sorted found listed]

theorem lt_of_target {state target : Nat} {symbol : Char}
    (moved : (Table.mk alphabet accepting next).target state symbol = some target) :
    target < accepting.length := by
  obtain ⟨_, _, _, entry⟩ := (fits.target_eq_some_iff state symbol target).mp moved
  exact fits.known target (List.mem_of_getElem? entry)

theorem lt_of_runFrom {state final : Nat} {word : List Char} (inside : state < accepting.length)
    (run : (Table.mk alphabet accepting next).runFrom state word = some final) :
    final < accepting.length := by
  induction word generalizing state with
  | nil =>
      cases run
      exact inside
  | cons symbol word ih =>
      obtain ⟨target, moved, onward⟩ := Option.bind_eq_some_iff.mp run
      exact ih (fits.lt_of_target moved) onward

end Fits

theorem lookup_zip_eq_some_iff {entries : List (Option Nat)} {symbol : Char} {entry : Option Nat}
    (once : alphabet.Nodup) : (alphabet.zip entries).lookup symbol = some entry ↔
      ∃ column : Nat, alphabet[column]? = some symbol ∧ entries[column]? = some entry := by
  induction alphabet generalizing entries with
  | nil => simp
  | cons first alphabet ih =>
      obtain ⟨fresh, later⟩ := List.nodup_cons.mp once
      cases entries with
      | nil => simp
      | cons own entries =>
          rw [List.zip_cons_cons, List.lookup_cons, ← Nat.or_exists_add_one]
          by_cases here : symbol = first
          · subst here
            have absent : ¬∃ column : Nat, alphabet[column]? = some symbol ∧
                entries[column]? = some entry :=
              fun ⟨_, listed, _⟩ => fresh (List.mem_of_getElem? listed)
            simp [absent]
          · simp [beq_false_of_ne here, Ne.symm here, ih later]

theorem next_spelledOut_eq_some_iff (sorted : alphabet.Pairwise (· < ·)) (state : Nat)
    (symbol : Char) (target : Nat) :
    (spelledOut alphabet accepting next).next state symbol = some target ↔
      Entry alphabet accepting next state symbol target := by
  have once : alphabet.Nodup := sorted.imp ne_of_lt
  rw [Automaton.next, Automaton.outgoing, Option.bind_eq_some_iff, Entry]
  simp only [spelledOut, FiniteMap.getElem?_tabulate_eq_some, List.mem_range, Option.some.injEq]
  constructor
  · rintro ⟨row, ⟨inside, rfl⟩, moved⟩
    obtain ⟨_, entry⟩ := (FiniteMap.getElem?_tabulate_eq_some _ _ _ _).mp moved
    rw [Option.join_eq_some_iff, lookup_zip_eq_some_iff once] at entry
    simp only [List.getElem?_drop] at entry
    exact ⟨inside, entry⟩
  · rintro ⟨inside, column, listed, entry⟩
    refine ⟨_, ⟨inside, rfl⟩, (FiniteMap.getElem?_tabulate_eq_some _ _ _ _).mpr
      ⟨List.mem_of_getElem? listed, ?_⟩⟩
    rw [Option.join_eq_some_iff, lookup_zip_eq_some_iff once]
    exact ⟨column, listed, by rw [List.getElem?_drop, entry]⟩

theorem isAccepting_spelledOut_iff (state : Nat) :
    (spelledOut alphabet accepting next).isAccepting state = true ↔
      accepting[state]? = some true := by
  rw [Automaton.isAccepting, ← Std.ExtTreeSet.mem_iff_contains, spelledOut, FiniteSet.mem_ofList,
    List.mem_filter, List.mem_range, decide_eq_true_eq, and_iff_right_iff_imp]
  exact fun listed => (List.getElem?_eq_some_iff.mp listed).1

theorem spells_spelledOut (sorted : alphabet.Pairwise (· < ·)) :
    Spells alphabet accepting next (spelledOut alphabet accepting next) where
  states state := by rw [spelledOut, FiniteSet.mem_ofList, List.mem_range]
  symbols := FiniteSet.mem_ofList alphabet
  start := rfl
  accepts := isAccepting_spelledOut_iff
  moves := next_spelledOut_eq_some_iff sorted

theorem isAccepting_iff (table : Table) (state : Nat) :
    table.isAccepting state = true ↔ table.accepting[state]? = some true := by
  rw [isAccepting, Option.getD_eq_iff]
  simp

namespace Spells

variable {automaton : Automaton Nat} (spells : Spells alphabet accepting next automaton)
  (fits : Fits alphabet accepting next)

include spells fits

theorem runFrom_eq (state : Nat) (word : List Char) :
    (Table.mk alphabet accepting next).runFrom state word = automaton.runFrom state word := by
  induction word generalizing state with
  | nil => rfl
  | cons symbol word ih =>
      have same : (Table.mk alphabet accepting next).target state symbol =
          automaton.next state symbol := by
        ext target
        rw [fits.target_eq_some_iff, spells.moves]
      rw [runFrom, Automaton.runFrom_cons, same]
      exact congrArg _ (funext ih)

theorem recognizes_eq (word : List Char) :
    (Table.mk alphabet accepting next).recognizes word = automaton.recognizes word := by
  rw [recognizes, Automaton.recognizes, spells.runFrom_eq fits, spells.start]
  cases automaton.runFrom 0 word with
  | none => rfl
  | some state =>
      exact Bool.eq_iff_iff.mpr ((isAccepting_iff _ state).trans (spells.accepts state).symm)

end Spells

variable (alphabet accepting next)

/-- A table with the meaning of the parts. -/
structure Shows (table : Table) : Prop where
  moves : ∀ state symbol target, table.target state symbol = some target ↔
    Entry alphabet accepting next state symbol target
  searched : ∀ symbol, table.alphabet.idxOf? symbol =
    bisect table.alphabet symbol 0 table.alphabet.length
  stays : ∀ word front state, front <+: word → table.runFrom 0 front = some state →
    state < table.stateCount
  reads : ∀ automaton, Spells alphabet accepting next automaton →
    ∀ word, table.recognizes word = automaton.recognizes word

/-- Which parts make a table, which they make, and why the others do not. -/
structure DecidesParts : Prop where
  made : ∀ table, ofParts alphabet accepting next = .ok table ↔
    Fits alphabet accepting next ∧ table = ⟨alphabet, accepting, next⟩
  refused : ∀ cause, ofParts alphabet accepting next = .error cause ↔
    Flaw alphabet accepting next cause
  shown : ∀ table, ofParts alphabet accepting next = .ok table →
    Shows alphabet accepting next table
  spelled : ∀ table, ofParts alphabet accepting next = .ok table →
    Spells alphabet accepting next (spelledOut alphabet accepting next)

variable {alphabet accepting next}

theorem shows_of_fits (fits : Fits alphabet accepting next) :
    Shows alphabet accepting next ⟨alphabet, accepting, next⟩ where
  moves := fits.target_eq_some_iff
  searched _ := (bisect_eq_idxOf? fits.sorted).symm
  stays _ _ _ _ run := fits.lt_of_runFrom (List.length_pos_iff.mpr fits.started) run
  reads _ spells := spells.recognizes_eq fits

/-- Parts that fit make the automaton that they spell out, in the form of a table. -/
theorem parts_make_the_automaton_they_spell (alphabet : List Char) (accepting : List Bool)
    (next : List (Option Nat)) : DecidesParts alphabet accepting next where
  made := ofParts_eq_ok_iff
  refused := ofParts_eq_error_iff
  shown table made := by
    obtain ⟨fits, rfl⟩ := (ofParts_eq_ok_iff table).mp made
    exact shows_of_fits fits
  spelled table made := spells_spelledOut ((ofParts_eq_ok_iff table).mp made).1.sorted

end Parts

section OfAutomaton

variable {σ : Type} [Ordered σ] (automaton : Automaton σ)

theorem pairwise_toList (alphabet : FiniteSet Char) : alphabet.toList.Pairwise (· < ·) := by
  have sorted : alphabet.toList.Pairwise fun earlier later => compare earlier later = .lt :=
    Std.ExtTreeSet.ordered_toList
  exact sorted.imp compareOfLessAndEq_eq_lt.mp

theorem fits_ofAutomaton : Fits (ofAutomaton automaton).alphabet (ofAutomaton automaton).accepting
    (ofAutomaton automaton).next where
  started := List.cons_ne_nil _ _
  sorted := pairwise_toList automaton.alphabet
  filled := by simp [ofAutomaton, List.length_flatMap]
  known target listed := by
    obtain ⟨state, _, among⟩ := List.mem_flatMap.mp listed
    obtain ⟨symbol, _, entry⟩ := List.mem_map.mp among
    obtain ⟨reached, _, numbered⟩ := Option.bind_eq_some_iff.mp entry
    have found := (Automaton.number_eq_some_iff automaton reached target).mp numbered
    rw [ofAutomaton, List.length_map]
    exact (List.getElem?_eq_some_iff.mp found).1

/-- The parts of a table of an automaton fit together, for any automaton. -/
theorem ofParts_ofAutomaton :
    ofParts (ofAutomaton automaton).alphabet (ofAutomaton automaton).accepting
      (ofAutomaton automaton).next = .ok (ofAutomaton automaton) :=
  ofParts_of_fits (fits_ofAutomaton automaton)

end OfAutomaton

end Table

end Recognizer
