/-!
The characters between two ends, both included, taken one at a time from either
end. The bounds are bytes and may be the last of them, so that nothing is left
has its own flag.
-/

namespace Recognizer

structure Span where
  low : UInt8
  high : UInt8
  spent : Bool
  deriving DecidableEq, Repr

namespace Span

inductive Fault where
  | reversed
  | notAscii
  deriving DecidableEq, Repr

def Fault.message : Fault → String
  | .reversed => "Invalid range!"
  | .notAscii => "Non ASCII range!"

/-- The ends in order, the upper one among the first 128 characters. -/
def between (low high : Char) (_ordered : low ≤ high) (_ascii : high.toNat < 128) : Span :=
  ⟨low.toUInt8, high.toUInt8, false⟩

def ofEnds (low high : Char) : Except Fault Span :=
  if ordered : low ≤ high then
    if ascii : high.toNat < 128 then .ok (between low high ordered ascii)
    else .error .notAscii
  else .error .reversed

def length (span : Span) : Nat :=
  if span.spent then 0 else (span.high - span.low).toNat + 1

/-- The fewest and the most characters that may be left. -/
def sizeHint (span : Span) : Nat × Option Nat := (span.length, some span.length)

def front (span : Span) : Option Char × Span :=
  if span.spent then (none, span)
  else if span.low = span.high then (some (Char.ofUInt8 span.low), { span with spent := true })
  else (some (Char.ofUInt8 span.low), { span with low := span.low + 1 })

def back (span : Span) : Option Char × Span :=
  if span.spent then (none, span)
  else if span.low = span.high then (some (Char.ofUInt8 span.high), { span with spent := true })
  else (some (Char.ofUInt8 span.high), { span with high := span.high - 1 })

def take (step : Span → Option Char × Span) : Nat → Span → List Char × Span
  | 0, span => ([], span)
  | count + 1, span =>
      match step span with
      | (none, after) => ([], after)
      | (some c, after) =>
          let rest := take step count after
          (c :: rest.1, rest.2)

/-- What is left, taken from the front or from the back to the end. -/
def drain (step : Span → Option Char × Span) (span : Span) : List Char × Span :=
  take step span.length span

end Span

end Recognizer
