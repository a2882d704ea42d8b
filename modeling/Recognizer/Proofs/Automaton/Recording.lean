import Recognizer.Proofs.Automaton.Simulation

/-!
Runs on record. A trace ends where the run ends, and it is dead from the first symbol on for
which there is no move. A recording never stops: it writes down every symbol and where the run
is after it, dead or alive. Each visit follows from the one before it, so the first is alive,
no dead run comes back to life, and the end of the record tells whether the word is accepted,
just as a run does that gives up as soon as it is stuck.
-/

namespace Recognizer

namespace Automaton

variable {σ : Type} [Ordered σ] (automaton : Automaton σ)

theorem last_trace (word : List Char) :
    (automaton.trace word).last = automaton.runFrom automaton.start word := by
  simp [Trace.last, trace, getLast?_visitsFrom]

/-- The first visit is alive, so it can be left out of the count. -/
theorem deadAt_trace (word : List Char) :
    (automaton.trace word).deadAt =
      (automaton.visitsFrom (some automaton.start) word).findIdx? Option.isNone := by
  simp [Trace.deadAt, trace, List.findIdx?_cons, Function.comp_def]

theorem findIdx?_visitsFrom (state : σ) (word : List Char) (index : Nat) :
    (automaton.visitsFrom (some state) word).findIdx? Option.isNone = some index ↔
      index < word.length ∧ (automaton.runFrom state (word.take index)).isSome = true ∧
        automaton.runFrom state (word.take (index + 1)) = none := by
  induction word generalizing state index with
  | nil => simp [visitsFrom]
  | cons symbol word ih =>
      cases moved : automaton.next state symbol with
      | none =>
          -- the run ends here, and no longer part of the word can be read
          cases index <;> simp [visitsFrom, List.findIdx?_cons, runFrom_cons, moved, runFrom]
      | some target =>
          cases index with
          | zero => simp [visitsFrom, List.findIdx?_cons, runFrom_cons, moved, runFrom]
          | succ index =>
              simp [visitsFrom, List.findIdx?_cons, runFrom_cons, moved, ih target index]

theorem deadAt_trace_eq_some_iff (word : List Char) (index : Nat) :
    (automaton.trace word).deadAt = some index ↔
      index < word.length ∧
        (automaton.runFrom automaton.start (word.take index)).isSome = true ∧
        automaton.runFrom automaton.start (word.take (index + 1)) = none := by
  rw [deadAt_trace, findIdx?_visitsFrom]

end Automaton

/-- A run under way, with what has been written down of it. -/
structure Recording (σ : Type) where
  symbols : List Char
  visits : List (Option σ)
  now : Option σ

namespace Trace

variable {σ : Type}

theorem findIdx?_isNone_eq_some_iff (visits : List (Option σ)) (position : Nat) :
    visits.findIdx? Option.isNone = some position ↔
      visits[position]? = some none ∧ ∀ earlier < position, visits[earlier]? ≠ some none := by
  rw [List.findIdx?_eq_some_iff_getElem]
  constructor
  · rintro ⟨inside, dead, alive⟩
    refine ⟨List.getElem?_eq_some_iff.mpr ⟨inside, Option.isNone_iff_eq_none.mp dead⟩, ?_⟩
    intro earlier before visited
    obtain ⟨_, same⟩ := List.getElem?_eq_some_iff.mp visited
    exact alive earlier before (Option.isNone_iff_eq_none.mpr same)
  · rintro ⟨dead, alive⟩
    obtain ⟨inside, same⟩ := List.getElem?_eq_some_iff.mp dead
    refine ⟨inside, Option.isNone_iff_eq_none.mpr same, ?_⟩
    intro earlier before visited
    exact alive earlier before
      (List.getElem?_eq_some_iff.mpr ⟨before.trans inside, Option.isNone_iff_eq_none.mp visited⟩)

theorem deadAt_eq_none_iff (trace : Trace σ) : trace.deadAt = none ↔ none ∉ trace.visits := by
  rw [deadAt, Option.map_eq_none_iff, List.findIdx?_eq_none_iff]
  constructor
  · intro alive dead
    cases alive none dead
  · intro alive visit visited
    cases visit with
    | none => exact absurd visited alive
    | some state => rfl

end Trace

namespace Automaton

variable {σ : Type} [Ordered σ] (automaton : Automaton σ)

/-- Nothing follows the dead state but itself. -/
def after (visit : Option σ) (symbol : Char) : Option σ :=
  visit.bind fun state => automaton.next state symbol

def initialRecording : Recording σ :=
  ⟨[], [some automaton.start], some automaton.start⟩

def record (recording : Recording σ) (symbol : Char) : Recording σ :=
  ⟨recording.symbols ++ [symbol], recording.visits ++ [automaton.after recording.now symbol],
    automaton.after recording.now symbol⟩

def recordAll (recording : Recording σ) (word : List Char) : Recording σ :=
  word.foldl automaton.record recording

def closeRecording (recording : Recording σ) : Trace σ :=
  ⟨recording.symbols, recording.visits, recording.now.any automaton.isAccepting⟩

theorem recordAll_eq (recording : Recording σ) (word : List Char) :
    automaton.recordAll recording word =
      ⟨recording.symbols ++ word, recording.visits ++ automaton.visitsFrom recording.now word,
        recording.now.bind fun state => automaton.runFrom state word⟩ := by
  induction word generalizing recording with
  | nil => simp [recordAll, visitsFrom, runFrom]
  | cons symbol word ih =>
      rw [recordAll, List.foldl_cons, ← recordAll, ih]
      simp [record, visitsFrom, runFrom_cons, after, Option.bind_assoc]

/-- Tracing a word records it symbol after symbol. -/
theorem trace_eq_recorded (word : List Char) :
    automaton.trace word =
      automaton.closeRecording (automaton.recordAll automaton.initialRecording word) := by
  rw [recordAll_eq, trace, getLast?_visitsFrom]
  rfl

/-- Everything on record follows from what comes before it. -/
structure Consistent (recording : Recording σ) : Prop where
  length : recording.visits.length = recording.symbols.length + 1
  first : recording.visits[0]? = some (some automaton.start)
  now : recording.visits[recording.symbols.length]? = some recording.now
  moves : ∀ index symbol, recording.symbols[index]? = some symbol →
    ∃ visit, recording.visits[index]? = some visit ∧
      recording.visits[index + 1]? = some (automaton.after visit symbol)

theorem consistent_initialRecording : automaton.Consistent automaton.initialRecording where
  length := rfl
  first := rfl
  now := rfl
  moves _ _ written := by cases written

section Consistent

variable {automaton} {recording : Recording σ} (consistent : automaton.Consistent recording)

include consistent

/-- What is written down stays as it is. -/
theorem getElem?_record_of_le {index : Nat} (symbol : Char)
    (before : index ≤ recording.symbols.length) :
    (automaton.record recording symbol).visits[index]? = recording.visits[index]? :=
  List.getElem?_append_left (consistent.length ▸ Nat.lt_succ_of_le before)

theorem getElem?_record_last (symbol : Char) :
    (automaton.record recording symbol).visits[recording.symbols.length + 1]? =
      some (automaton.after recording.now symbol) := by
  rw [← consistent.length]
  exact List.getElem?_concat_length

theorem consistent_record (symbol : Char) :
    automaton.Consistent (automaton.record recording symbol) where
  length := by simp [record, consistent.length]
  first := by rw [getElem?_record_of_le consistent symbol (Nat.zero_le _), consistent.first]
  now := by
    rw [record, List.length_append, List.length_singleton]
    exact getElem?_record_last consistent symbol
  moves index written entry := by
    have inside := (List.getElem?_eq_some_iff.mp entry).1
    rw [record, List.length_append, List.length_singleton] at inside
    rw [getElem?_record_of_le consistent symbol (Nat.le_of_lt_succ inside)]
    -- A move that was on record before, or the one just made.
    rcases Nat.lt_succ_iff_lt_or_eq.mp inside with earlier | rfl
    · rw [getElem?_record_of_le consistent symbol earlier]
      rw [record, List.getElem?_append_left earlier] at entry
      exact consistent.moves index written entry
    · cases List.getElem?_concat_length.symm.trans entry
      exact ⟨recording.now, consistent.now, getElem?_record_last consistent symbol⟩

theorem consistent_recordAll (word : List Char) :
    automaton.Consistent (automaton.recordAll recording word) := by
  induction word generalizing recording with
  | nil => exact consistent
  | cons symbol word ih => exact ih (consistent_record consistent symbol)

/-- A dead visit is followed by dead ones only. -/
theorem Consistent.dead_of_le {early late : Nat} (dead : recording.visits[early]? = some none)
    (onward : early ≤ late) (inside : late ≤ recording.symbols.length) :
    recording.visits[late]? = some none := by
  induction late, onward using Nat.le_induction with
  | base => exact dead
  | succ late _ ih =>
      obtain ⟨visit, before, next⟩ :=
        consistent.moves late _ (List.getElem?_eq_getElem (Nat.lt_of_succ_le inside))
      cases (ih (Nat.le_of_succ_le inside)).symm.trans before
      exact next

end Consistent

/-- What the trace of a word has to say, visit by visit and in the end. -/
structure Records (word : List Char) (trace : Trace σ) : Prop where
  recorded : trace = automaton.closeRecording (automaton.recordAll automaton.initialRecording word)
  symbols : trace.symbols = word
  length : trace.visits.length = trace.symbols.length + 1
  first : trace.visits[0]? = some (some automaton.start)
  moves : ∀ index symbol, word[index]? = some symbol → ∃ visit next,
    trace.visits[index]? = some visit ∧ trace.visits[index + 1]? = some next ∧
      ∀ target, next = some target ↔
        ∃ state, visit = some state ∧ automaton.next state symbol = some target
  dead : ∀ early late, trace.visits[early]? = some none → early ≤ late →
    late < trace.visits.length → trace.visits[late]? = some none
  behind : ∀ position, trace.visits.findIdx? Option.isNone = some position → 0 < position
  died : ∀ index, trace.deadAt = some index ↔
    trace.visits[index + 1]? = some none ∧ ∀ earlier ≤ index, trace.visits[earlier]? ≠ some none
  survived : trace.deadAt = none ↔ none ∉ trace.visits
  accepted : trace.accepted = true ↔
    ∃ state, trace.last = some state ∧ automaton.isAccepting state = true
  verdict : trace.accepted = automaton.recognizes word

section Trace

variable (word : List Char)

theorem consistent_of_word :
    automaton.Consistent (automaton.recordAll automaton.initialRecording word) :=
  consistent_recordAll automaton.consistent_initialRecording word

theorem symbols_recordAll :
    (automaton.recordAll automaton.initialRecording word).symbols = word := by
  rw [recordAll_eq]
  rfl

theorem visits_trace : (automaton.trace word).visits =
    (automaton.recordAll automaton.initialRecording word).visits := by
  rw [trace_eq_recorded]
  rfl

theorem pos_of_findIdx? {position : Nat}
    (found : (automaton.trace word).visits.findIdx? Option.isNone = some position) :
    0 < position := by
  refine Nat.pos_of_ne_zero ?_
  rintro rfl
  have dead := ((Trace.findIdx?_isNone_eq_some_iff _ 0).mp found).1
  rw [visits_trace, (automaton.consistent_of_word word).first] at dead
  cases dead

/-- Nothing is taken from the position of the first dead visit that is not there. -/
theorem deadAt_eq_some_iff_findIdx? (index : Nat) :
    (automaton.trace word).deadAt = some index ↔
      (automaton.trace word).visits.findIdx? Option.isNone = some (index + 1) := by
  rw [Trace.deadAt, Option.map_eq_some_iff]
  constructor
  · rintro ⟨position, found, rfl⟩
    rwa [Nat.sub_add_cancel (automaton.pos_of_findIdx? word found)]
  · exact fun found => ⟨index + 1, found, rfl⟩

/-- A trace is the full record of the run on its word, and its verdict that of the run. -/
theorem trace_records (word : List Char) : automaton.Records word (automaton.trace word) := by
  have consistent := automaton.consistent_of_word word
  have symbols := automaton.symbols_recordAll word
  constructor
  case recorded => exact automaton.trace_eq_recorded word
  case symbols => rfl
  case length =>
    rw [visits_trace, consistent.length, symbols]
    rfl
  case first => rw [visits_trace, consistent.first]
  case moves =>
    intro index symbol entry
    obtain ⟨visit, before, next⟩ := consistent.moves index symbol (symbols.symm ▸ entry)
    rw [visits_trace]
    exact ⟨visit, _, before, next, fun target => Option.bind_eq_some_iff⟩
  case dead =>
    intro early late dead onward inside
    rw [visits_trace] at dead inside ⊢
    rw [consistent.length] at inside
    exact consistent.dead_of_le dead onward (Nat.le_of_lt_succ inside)
  case behind => exact fun position found => automaton.pos_of_findIdx? word found
  case died =>
    intro index
    rw [deadAt_eq_some_iff_findIdx?, Trace.findIdx?_isNone_eq_some_iff]
    simp only [Nat.lt_succ_iff]
  case survived => exact Trace.deadAt_eq_none_iff _
  case accepted => exact Option.any_eq_true _ _
  case verdict => exact automaton.accepted_trace word

end Trace

end Automaton

end Recognizer
