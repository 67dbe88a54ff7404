import Pgfault.Wire

namespace Pgfault

/-!
# The SQL scanner

`classify` walks over a statement text by position.  It skips whitespace,
comments, quoted text and dollar-quoted text, collects the bare words, and
looks only at those words to choose a class.  A text with anything behind a
top-level semicolon is `Other`.

Each `while` loop of the source is a recursion on a fuel argument.  Every pass
of every loop moves the position forward, so the number of bytes is always
enough fuel.
-/

/-- The class of a statement, as far as its words tell. -/
inductive StatementClass where
  | begin
  | commit
  | rollback
  | select
  | insert
  | update
  | delete
  | merge
  | ddl
  | other
  deriving Repr, DecidableEq, Inhabited

namespace Classify

/-- `u8::is_ascii_whitespace`. -/
def isAsciiWhitespace (byte : UInt8) : Bool :=
  byte == 32 || byte == 9 || byte == 10 || byte == 12 || byte == 13

/-- `u8::is_ascii_alphabetic`. -/
def isAsciiAlphabetic (byte : UInt8) : Bool :=
  (65 ≤ byte && byte ≤ 90) || (97 ≤ byte && byte ≤ 122)

/-- `u8::is_ascii_alphanumeric`. -/
def isAsciiAlphanumeric (byte : UInt8) : Bool :=
  isAsciiAlphabetic byte || (48 ≤ byte && byte ≤ 57)

/-- The bytes of a bare word and of a dollar tag: alphanumeric or `_`. -/
def isWordByte (byte : UInt8) : Bool :=
  isAsciiAlphanumeric byte || byte == 95

/-- `sql[i..].starts_with(literal)`. -/
def startsWith (sql : Bytes) (i : Nat) (literal : String) : Bool :=
  (ascii literal).isPrefixOf (sql.drop i)

/-- `while i < sql.len() && keep(sql[i]) { i += 1 }`. -/
def advanceWhile (sql : Bytes) (keep : UInt8 → Bool) : Nat → Nat → Nat
  | 0, i => i
  | fuel + 1, i =>
      if inRange : i < sql.length then
        if keep (sql.get ⟨i, inRange⟩) then
          advanceWhile sql keep fuel (i + 1)
        else
          i
      else
        i

/-- The nested block comment loop: the position and depth at which it stops. -/
def blockComment (sql : Bytes) : Nat → Nat → Nat → Nat × Nat
  | 0, i, depth => (i, depth)
  | fuel + 1, i, depth =>
      if i < sql.length ∧ 0 < depth then
        if startsWith sql i "/*" then
          blockComment sql fuel (i + 2) (depth + 1)
        else if startsWith sql i "*/" then
          blockComment sql fuel (i + 2) (depth - 1)
        else
          blockComment sql fuel (i + 1) depth
      else
        (i, depth)

/-- The quoted text loop: the position at which it stops and whether it closed. -/
def quotedText (sql : Bytes) (quote : UInt8) : Nat → Nat → Nat × Bool
  | 0, i => (i, false)
  | fuel + 1, i =>
      if inRange : i < sql.length then
        if sql.get ⟨i, inRange⟩ = 92 then
          -- A backslash skips the byte behind it in every kind of quote.
          quotedText sql quote fuel (min (i + 2) sql.length)
        else if sql.get ⟨i, inRange⟩ = quote then
          if sql[i + 1]? = some quote then
            quotedText sql quote fuel (i + 2)
          else
            (i + 1, true)
        else
          quotedText sql quote fuel (i + 1)
      else
        (i, false)

/-- `rest.windows(delim.len()).position(|w| w == delim)`. -/
def windowPosition (rest delim : Bytes) : Option Nat :=
  (List.range (rest.length + 1 - delim.length)).find? fun n =>
    (rest.drop n).take delim.length == delim

/-- `String::to_ascii_uppercase`, on one character. -/
def asciiUppercase (char : Char) : Char :=
  if 'a' ≤ char ∧ char ≤ 'z' then Char.ofNat (char.toNat - 32) else char

/-- The upper-case text of one bare word. -/
def uppercaseWord (word : Bytes) : String :=
  String.ofList ((utf8Lossy word.length word).map asciiUppercase)

/-- The variables of the main loop. -/
structure Scan where
  position : Nat
  words : List String
  ended : Bool
  deriving Repr, DecidableEq

/-- The bare word or single byte at a position no other rule took. -/
def scanWord
    (sql : Bytes)
    (scan : Scan)
    (inRange : scan.position < sql.length) : Scan :=
  if isAsciiAlphabetic (sql.get ⟨scan.position, inRange⟩) then
    let stop := advanceWhile sql isWordByte sql.length scan.position
    { scan with
      position := stop
      words := scan.words ++
        [uppercaseWord ((sql.take stop).drop scan.position)] }
  else
    { scan with position := scan.position + 1 }

/-- The dollar-quote rule, which falls through when no tag closes. -/
def scanDollar
    (sql : Bytes)
    (scan : Scan)
    (inRange : scan.position < sql.length) : Option Scan :=
  let stop := advanceWhile sql isWordByte sql.length (scan.position + 1)
  if sql[stop]? = some 36 then
    let delim := (sql.take (stop + 1)).drop scan.position
    match windowPosition (sql.drop (stop + 1)) delim with
    | some n => some { scan with position := stop + 1 + n + delim.length }
    | none => none
  else
    some (scanWord sql scan inRange)

/-- One pass of the main loop; `none` is the early return of `Other`. -/
def scanStep
    (sql : Bytes)
    (scan : Scan)
    (inRange : scan.position < sql.length) : Option Scan :=
  let byte := sql.get ⟨scan.position, inRange⟩
  if isAsciiWhitespace byte then
    some { scan with position := scan.position + 1 }
  else if startsWith sql scan.position "--" then
    some { scan with
      position := advanceWhile sql (· != 10) sql.length scan.position }
  else if startsWith sql scan.position "/*" then
    let stop := blockComment sql sql.length (scan.position + 2) 1
    if 0 < stop.2 then none else some { scan with position := stop.1 }
  else if scan.ended then
    none
  else if byte = 59 then
    some { scan with position := scan.position + 1, ended := true }
  else if byte = 39 ∨ byte = 34 then
    let stop := quotedText sql byte sql.length (scan.position + 1)
    if stop.2 then some { scan with position := stop.1 } else none
  else if byte = 36 then
    scanDollar sql scan inRange
  else
    some (scanWord sql scan inRange)

/-- The main loop: the collected words, or `none` on the early return. -/
def scanLoop (sql : Bytes) : Nat → Scan → Option (List String)
  | 0, scan => some scan.words
  | fuel + 1, scan =>
      if inRange : scan.position < sql.length then
        match scanStep sql scan inRange with
        | some next => scanLoop sql fuel next
        | none => none
      else
        some scan.words

/-- Choose the class from the collected words. -/
def classOfWords (words : List String) : StatementClass :=
  match words.head? with
  | none => .other
  | some first =>
      if first = "BEGIN" ∨ first = "START" then
        .begin
      else if (first = "COMMIT" ∨ first = "END") ∧
          ¬ (words.any fun w => w == "PREPARED" || w == "CHAIN") then
        .commit
      else if (first = "ROLLBACK" ∨ first = "ABORT") ∧
          ¬ (words.any fun w =>
            w == "TO" || w == "PREPARED" || w == "CHAIN") then
        .rollback
      else if first = "SELECT" ∨ first = "VALUES" ∨ first = "TABLE" then
        .select
      else if first = "INSERT" then
        .insert
      else if first = "UPDATE" then
        .update
      else if first = "DELETE" then
        .delete
      else if first = "MERGE" then
        .merge
      else if first = "CREATE" ∨ first = "ALTER" ∨ first = "DROP" ∨
          first = "TRUNCATE" then
        .ddl
      else
        .other

end Classify

open Classify in
/-- Classify a statement text by a conservative lexical scan. -/
def classify (sql : Bytes) : StatementClass :=
  match scanLoop sql sql.length ⟨0, [], false⟩ with
  | some words => classOfWords words
  | none => .other

example :
    classify (ascii " /* outer /* nested */ x */ -- hi\nCOMMIT;") = .commit := by
  decide +kernel

example : classify (ascii "SELECT ';', $$a;b$$;") = .select := by
  decide +kernel

end Pgfault
