import Pgfault.Classify
import Pgfault.Loops

namespace Pgfault

open Classify Loops

namespace Checked

/-!
# The SQL scanner with its panics

The scanner once more, with every index and slice checked and every loop run
on fuel, so that a panic or an endless loop would show.  It follows the source
loop by loop and returns what `classify` returns.

A position never passes the length of the text, so `usize` positions are natural
numbers.  The comment depth is an `i32`, and the build profile decides what its
overflow does.
-/

/-! ## The loops of the scanner -/

/-- `sql[i..].starts_with(literal)`. -/
def startsWith (sql : Bytes) (i : Nat) (literal : String) : Outcome Bool := do
  let rest ← sliceFrom sql i
  return (ascii literal).isPrefixOf rest

/-- `i < sql.len() && test(sql[i])`. -/
def byteIs (sql : Bytes) (i : Nat) (test : UInt8 → Bool) : Outcome Bool :=
  if i < sql.length then do
    let byte ← indexAt sql i
    return test byte
  else
    return false

/-- One pass of `while i < sql.len() && keep(sql[i]) { i += 1 }`. -/
def skipPass
    (sql : Bytes)
    (keep : UInt8 → Bool)
    (i : Nat) : Outcome (Round Nat Nat) := do
  if ← byteIs sql i keep then
    return .next (i + 1)
  else
    return .done i

/-- One pass of the nested block comment loop, over the position and the depth. -/
def blockPass
    (overflow : Overflow)
    (sql : Bytes) : Nat × Int → Outcome (Round (Nat × Int) (Nat × Int))
  | (i, depth) =>
      if i < sql.length ∧ 0 < depth then do
        if ← startsWith sql i "/*" then
          let deeper ← addSigned 32 overflow depth 1
          return .next (i + 2, deeper)
        else if ← startsWith sql i "*/" then
          let higher ← addSigned 32 overflow depth (-1)
          return .next (i + 2, higher)
        else
          return .next (i + 1, depth)
      else
        return .done (i, depth)

/-- One pass of the quoted text loop; its result says whether it closed. -/
def quotePass
    (sql : Bytes)
    (quote : UInt8)
    (i : Nat) : Outcome (Round Nat (Nat × Bool)) :=
  if i < sql.length then do
    let byte ← indexAt sql i
    if byte = 92 then
      return .next (min (i + 2) sql.length)
    else if byte = quote then
      if ← byteIs sql (i + 1) (· == quote) then
        return .next (i + 2)
      else
        return .done (i + 1, true)
    else
      return .next (i + 1)
  else
    return .done (i, false)

/-- One pass of the search among the windows, from the `n`-th window on. -/
def searchPass
    (rest delim : Bytes)
    (n : Nat) : Outcome (Round Nat (Option Nat)) :=
  if n + delim.length ≤ rest.length then do
    let window ← sliceAt rest n (n + delim.length)
    if window = delim then
      return .done (some n)
    else
      return .next (n + 1)
  else
    return .done none

/-- `rest.windows(delim.len()).position(|w| w == delim)`. -/
def windowPosition
    (fuel : Nat)
    (rest delim : Bytes) : Outcome (Option Nat) :=
  if delim.length = 0 then
    -- `windows` refuses the width zero.
    .panic
  else
    loop (searchPass rest delim) fuel 0

/-- The bare word or single byte at the end of a pass of the main loop. -/
def wordPass
    (fuel : Nat)
    (sql : Bytes)
    (scan : Scan)
    (byte : UInt8) : Outcome (Round Scan (Option (List String))) :=
  if isAsciiAlphabetic byte then do
    let stop ← loop (skipPass sql isWordByte) fuel scan.position
    let word ← sliceAt sql scan.position stop
    return .next { scan with
      position := stop
      words := scan.words ++ [uppercaseWord word] }
  else
    return .next { scan with position := scan.position + 1 }

/-- The dollar-quote rule, which falls through to the word without a tag. -/
def dollarPass
    (fuel : Nat)
    (sql : Bytes)
    (scan : Scan)
    (byte : UInt8) : Outcome (Round Scan (Option (List String))) := do
  let j ← loop (skipPass sql isWordByte) fuel (scan.position + 1)
  if ← byteIs sql j (· == 36) then
    -- `sql[i..=j]`
    let delim ← sliceAt sql scan.position (j + 1)
    let rest ← sliceFrom sql (j + 1)
    match ← windowPosition fuel rest delim with
    | some n =>
        return .next { scan with position := j + 1 + n + delim.length }
    | none => return .done none
  else
    wordPass fuel sql scan byte

/--
One pass of the main loop.  It is done with the collected words at the end of
the text, and with nothing at an early return of `Other`.
-/
def mainPass
    (overflow : Overflow)
    (fuel : Nat)
    (sql : Bytes)
    (scan : Scan) : Outcome (Round Scan (Option (List String))) :=
  if scan.position < sql.length then do
    let byte ← indexAt sql scan.position
    if isAsciiWhitespace byte then
      return .next { scan with position := scan.position + 1 }
    else if ← startsWith sql scan.position "--" then
      let stop ← loop (skipPass sql (· != 10)) fuel scan.position
      return .next { scan with position := stop }
    else if ← startsWith sql scan.position "/*" then
      let stop ← loop (blockPass overflow sql) fuel (scan.position + 2, 1)
      if 0 < stop.2 then
        return .done none
      else
        return .next { scan with position := stop.1 }
    else if scan.ended then
      return .done none
    else if byte = 59 then
      return .next { scan with position := scan.position + 1, ended := true }
    else if byte = 39 ∨ byte = 34 then
      let stop ← loop (quotePass sql byte) fuel (scan.position + 1)
      if stop.2 then
        return .next { scan with position := stop.1 }
      else
        return .done none
    else if byte = 36 then
      dollarPass fuel sql scan byte
    else
      wordPass fuel sql scan byte
  else
    return .done (some scan.words)

/-- `classify`, with its panics. -/
def classify
    (overflow : Overflow)
    (fuel : Nat)
    (sql : Bytes) : Outcome StatementClass := do
  match ← loop (mainPass overflow fuel sql) fuel ⟨0, [], false⟩ with
  | some words => return classOfWords words
  | none => return .other

/-! ## What one pass does -/

theorem startsWith_of_le
    {sql : Bytes}
    {i : Nat}
    (inRange : i ≤ sql.length)
    (literal : String) :
    startsWith sql i literal = .value (Classify.startsWith sql i literal) := by
  rw [startsWith, sliceFrom_of_le inRange]
  rfl

/-- A literal that stands at a position ends within the text. -/
theorem le_length_of_startsWith
    {sql : Bytes}
    {i : Nat}
    {literal : String}
    (inRange : i ≤ sql.length)
    (starts : Classify.startsWith sql i literal = true) :
    i + (ascii literal).length ≤ sql.length := by
  have fits := (List.isPrefixOf_iff_prefix.mp starts).length_le
  rw [List.length_drop] at fits
  omega

/-- A literal that stands at a position starts with its first byte. -/
theorem getElem?_of_startsWith
    {sql : Bytes}
    {i : Nat}
    {literal : String}
    {first : UInt8}
    {later : Bytes}
    (spelled : ascii literal = first :: later)
    (starts : Classify.startsWith sql i literal = true) :
    sql[i]? = some first := by
  obtain ⟨rest, shape⟩ := List.isPrefixOf_iff_prefix.mp starts
  rw [← List.head?_drop, ← shape, spelled]
  rfl

/-- A guarded test never leaves the text. -/
theorem byteIs_eq
    (sql : Bytes)
    (i : Nat)
    (test : UInt8 → Bool) :
    byteIs sql i test = .value (sql[i]?.any test) := by
  unfold byteIs
  by_cases inRange : i < sql.length
  · have found := List.getElem?_eq_getElem inRange
    rw [if_pos inRange, indexAt_of_getElem? found, found]
    rfl
  · rw [if_neg inRange, List.getElem?_eq_none (Nat.le_of_not_lt inRange)]
    rfl

theorem lt_length_of_any
    {sql : Bytes}
    {i : Nat}
    {test : UInt8 → Bool}
    (passed : sql[i]?.any test = true) :
    i < sql.length := by
  obtain ⟨byte, found, -⟩ := (Option.any_eq_true _ _).mp passed
  exact (List.getElem?_eq_some_iff.mp found).1

theorem skipPass_eq
    (sql : Bytes)
    (keep : UInt8 → Bool)
    (i : Nat) :
    skipPass sql keep i =
      .value (if sql[i]?.any keep then .next (i + 1) else .done i) := by
  rw [skipPass, byteIs_eq, Outcome.value_bind]
  split <;> rfl

/-- The quoted text loop on a byte of the text. -/
theorem quotePass_of_byte
    {sql : Bytes}
    {i : Nat}
    {byte : UInt8}
    (found : sql[i]? = some byte)
    (quote : UInt8) :
    quotePass sql quote i =
      .value
        (if byte = 92 then
          .next (min (i + 2) sql.length)
        else if byte = quote then
          if sql[i + 1]?.any (· == quote) then .next (i + 2)
          else .done (i + 1, true)
        else
          .next (i + 1)) := by
  have inRange := (List.getElem?_eq_some_iff.mp found).1
  rw [quotePass, if_pos inRange, indexAt_of_getElem? found, Outcome.value_bind,
    byteIs_eq, Outcome.value_bind]
  simp only [Outcome.pure_eq]
  split
  · rfl
  · split
    · split <;> rfl
    · rfl

theorem searchPass_eq
    (rest delim : Bytes)
    (n : Nat) :
    searchPass rest delim n =
      .value
        (if n + delim.length ≤ rest.length then
          if (rest.drop n).take delim.length = delim then .done (some n)
          else .next (n + 1)
        else
          .done none) := by
  unfold searchPass
  by_cases fits : n + delim.length ≤ rest.length
  · rw [if_pos fits, if_pos fits, sliceAt_of_le (Nat.le_add_right _ _) fits,
      Outcome.value_bind, List.drop_take, Nat.add_sub_cancel_left]
    split <;> rfl
  · rw [if_neg fits, if_neg fits]
    rfl

end Checked

end Pgfault
