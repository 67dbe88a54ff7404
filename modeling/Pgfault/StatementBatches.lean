import Pgfault.Regions

namespace Pgfault

open Classify

/-!
# Several statements in one text

The lexical rules of PostgreSQL, with `standard_conforming_strings` on, are set
beside the scanner.  A text with a further token behind a semicolon has to be
`Other`.  This is so as long as both read the texts in front of that token alike.
They do not for a plain string with a backslash before a quote, for a line
comment that a carriage return ends, and for some texts with dollars.
-/

namespace Postgres

/-! ## Lexical rules -/

/-- What the lexer tells apart. -/
inductive Kind where
  | trivia
  | semicolon
  | token
  deriving DecidableEq

/-- The text in front, by its width. -/
structure Lexeme where
  width : Nat
  kind : Kind
  deriving DecidableEq

/-- A byte of a dollar tag; bytes from 128 on are letters. -/
def isTagByte (byte : UInt8) : Bool :=
  isWordByte byte || 128 ≤ byte

/-- A byte of an identifier behind its first one. -/
def isIdentifierByte (byte : UInt8) : Bool :=
  isTagByte byte || byte == 36

/-- The width of the rest of a plain string or a quoted identifier. -/
def closeString (quote : UInt8) : Bytes → Option Nat
  | [] => none
  | [byte] => if byte = quote then some 1 else none
  | byte :: next :: later =>
      if byte = quote then
        if next = quote then (closeString quote later).map (· + 2) else some 1
      else
        (closeString quote (next :: later)).map (· + 1)

/-- Whether a dollar starts a dollar quote: the tag is empty or an identifier. -/
def opensDollar (later : Bytes) : Bool :=
  (later.dropWhile isTagByte).head? == some 36 &&
    !later.head?.any fun byte => 48 ≤ byte && byte ≤ 57

/-- A dollar quote, or a dollar on its own. -/
def lexDollar (later : Bytes) : Option Lexeme :=
  if opensDollar later then
    let tag := later.takeWhile isTagByte
    let delim := 36 :: tag ++ [36]
    (closeDollar delim (later.dropWhile isTagByte).tail).map fun width =>
      ⟨delim.length + width, .token⟩
  else
    some ⟨1, .token⟩

/--
An identifier, a number, or an escape string.  Only the letter `E` on its own
opens an escape string, in which a backslash takes the next byte with it.
-/
def lexIdentifier (byte : UInt8) (later : Bytes) : Option Lexeme :=
  let run := (byte :: later).takeWhile isIdentifierByte
  if (run = [69] ∨ run = [101]) ∧ later.head? = some 39 then
    (closeQuote 39 later.tail).map fun width => ⟨width + 2, .token⟩
  else
    some ⟨run.length, .token⟩

/-- The text in front; nothing when it is not closed. -/
def lexeme : Bytes → Option Lexeme
  | [] => none
  | byte :: later =>
      if isAsciiWhitespace byte then
        some ⟨1, .trivia⟩
      else if byte = 45 ∧ later.head? = some 45 then
        some ⟨((byte :: later).takeWhile fun b => b != 10 && b != 13).length,
          .trivia⟩
      else if byte = 47 ∧ later.head? = some 42 then
        (closeBlock 1 later.tail).map fun width => ⟨width + 2, .trivia⟩
      else if byte = 59 then
        some ⟨1, .semicolon⟩
      else if byte = 39 ∨ byte = 34 then
        (closeString byte later).map fun width => ⟨width + 1, .token⟩
      else if byte = 36 then
        lexDollar later
      else if isIdentifierByte byte then
        lexIdentifier byte later
      else
        some ⟨1, .token⟩

/-- A further token behind a semicolon, which may have been seen already. -/
def severalFrom : Nat → Bool → Bytes → Bool
  | 0, _, _ => false
  | fuel + 1, seen, rest =>
      match lexeme rest with
      | none => false
      | some l =>
          if seen && l.kind ≠ .trivia then true
          else severalFrom fuel (seen || l.kind = .semicolon) (rest.drop l.width)

/-- A text with a semicolon and at least one further token behind it. -/
def Several (sql : Bytes) : Prop :=
  severalFrom sql.length false sql = true

instance (sql : Bytes) : Decidable (Several sql) :=
  inferInstanceAs (Decidable (severalFrom sql.length false sql = true))

/-- Every lexeme has a byte of its own. -/
theorem lexeme_width
    {rest : Bytes}
    {l : Lexeme}
    (reads : lexeme rest = some l) :
    0 < l.width := by
  match rest with
  | [] =>
      cases reads
  | byte :: later =>
      rw [lexeme] at reads
      split at reads
      · cases reads
        exact Nat.one_pos
      split at reads
      · rename_i dashes
        cases reads
        exact length_takeWhile_pos (by rw [dashes.1]; decide) later
      split at reads
      · obtain ⟨inner, -, rfl⟩ := Option.map_eq_some_iff.mp reads
        exact Nat.succ_pos _
      split at reads
      · cases reads
        exact Nat.one_pos
      split at reads
      · obtain ⟨inner, -, rfl⟩ := Option.map_eq_some_iff.mp reads
        exact Nat.succ_pos _
      split at reads
      · unfold lexDollar at reads
        split at reads
        · obtain ⟨inner, -, rfl⟩ := Option.map_eq_some_iff.mp reads
          exact Nat.add_pos_left (Nat.succ_pos _) _
        · cases reads
          exact Nat.one_pos
      split at reads
      · rename_i identifier
        unfold lexIdentifier at reads
        simp only at reads
        split at reads
        · obtain ⟨inner, -, rfl⟩ := Option.map_eq_some_iff.mp reads
          exact Nat.succ_pos _
        · cases reads
          exact length_takeWhile_pos identifier later
      · cases reads
        exact Nat.one_pos

/-- The length of the rest is enough fuel. -/
theorem severalFrom_enough
    {fuel enough : Nat}
    {seen : Bool}
    {rest : Bytes}
    (several : severalFrom fuel seen rest = true)
    (bound : rest.length ≤ enough) :
    severalFrom enough seen rest = true := by
  induction fuel generalizing enough seen rest with
  | zero =>
      cases several
  | succ fuel inductionHypothesis =>
      unfold severalFrom at several
      cases reads : lexeme rest with
      | none =>
          rw [reads] at several
          cases several
      | some l =>
          simp only [reads] at several
          have forward := lexeme_width reads
          cases rest with
          | nil =>
              cases reads
          | cons byte later =>
              cases enough with
              | zero =>
                  cases bound
              | succ enough =>
                  unfold severalFrom
                  simp only [reads]
                  split
                  · rfl
                  · rename_i waits
                    rw [if_neg waits] at several
                    refine inductionHypothesis several ?_
                    rw [List.length_cons] at bound
                    rw [List.length_drop, List.length_cons]
                    omega

theorem several_iff {sql : Bytes} :
    Several sql ↔ ∃ fuel, severalFrom fuel false sql = true := by
  constructor
  · intro several
    exact ⟨sql.length, several⟩
  · rintro ⟨fuel, several⟩
    exact severalFrom_enough several (Nat.le_refl _)

/-! ## Texts both read alike -/

/-- Whether a backslash, paired from the left, stands before a quote. -/
def pairsQuote (quote : UInt8) : Bytes → Bool
  | byte :: next :: later =>
      if byte = 92 then next == quote || pairsQuote quote later
      else pairsQuote quote (next :: later)
  | _ => false

/-- Whether a dollar, letters and digits, and another dollar follow each other. -/
def holdsTag : Bytes → Bool
  | [] => false
  | byte :: later =>
      (byte == 36 && (later.dropWhile isWordByte).head? == some 36) ||
        holdsTag later

/-- Whether a carriage return ends a line comment before the end of its line. -/
def breaksLine (rest : Bytes) : Bool :=
  ((rest.takeWhile (· != 10)).dropWhile (· != 13)).any fun byte =>
    !isAsciiWhitespace byte

/--
Whether the scanner reads the text in front like the lexer: no backslash before
a quote in a plain string or quoted identifier, nothing but space behind a
carriage return in a line comment, only letters and digits of ASCII in a dollar
tag, a dollar tag that is no number, and no dollar tag in an identifier.
-/
def plain : Bytes → Bool
  | [] => true
  | byte :: later =>
      if isAsciiWhitespace byte then
        true
      else if byte = 45 ∧ later.head? = some 45 then
        !breaksLine (byte :: later)
      else if byte = 39 ∨ byte = 34 then
        (closeString byte later).all fun width =>
          !pairsQuote byte (later.take width)
      else if byte = 36 then
        if opensDollar later then (later.takeWhile isTagByte).all isWordByte
        else (later.dropWhile isWordByte).head? != some 36
      else
        !holdsTag ((byte :: later).takeWhile isIdentifierByte)

/-- Whether all texts in front of the second statement are read alike. -/
def plainFrom : Nat → Bool → Bytes → Bool
  | 0, _, _ => true
  | fuel + 1, seen, rest =>
      match lexeme rest with
      | none => true
      | some l =>
          if seen && l.kind ≠ .trivia then true
          else
            plain rest &&
              plainFrom fuel (seen || l.kind = .semicolon) (rest.drop l.width)

/-- A text whose first statement the scanner reads like the lexer. -/
def Plain (sql : Bytes) : Prop :=
  plainFrom sql.length false sql = true

instance (sql : Bytes) : Decidable (Plain sql) :=
  inferInstanceAs (Decidable (plainFrom sql.length false sql = true))

/-! ## One lexeme -/

theorem wordsOf_none_of_pass
    {ended : Bool}
    {rest : Bytes}
    {p : Pass}
    (passes : passOn ended rest = some p)
    (behind : wordsOf p.ended (rest.drop p.width) = none) :
    wordsOf ended rest = none := by
  rw [wordsOf_of_pass passes, behind]
  rfl

theorem pairsQuote_cons
    {quote byte : UInt8}
    (plain : byte ≠ 92)
    (rest : Bytes) :
    pairsQuote quote (byte :: rest) = pairsQuote quote rest := by
  cases rest with
  | nil =>
      rfl
  | cons next later =>
      rw [pairsQuote, if_neg plain]

/-- A string whose first byte is no quote closes behind that byte. -/
theorem closeString_cons
    {quote byte : UInt8}
    (other : byte ≠ quote)
    (rest : Bytes) :
    closeString quote (byte :: rest) = (closeString quote rest).map (· + 1) := by
  cases rest with
  | nil =>
      simp [closeString, other]
  | cons next later =>
      rw [closeString, if_neg other]

theorem closeString_pos
    {quote : UInt8}
    {rest : Bytes}
    {width : Nat}
    (closes : closeString quote rest = some width) :
    0 < width := by
  match rest with
  | [] =>
      cases closes
  | [byte] =>
      rw [closeString] at closes
      split at closes
      · cases closes
        exact Nat.one_pos
      · cases closes
  | byte :: next :: later =>
      rw [closeString] at closes
      split at closes
      · split at closes
        · obtain ⟨inner, -, rfl⟩ := Option.map_eq_some_iff.mp closes
          exact Nat.succ_pos _
        · cases closes
          exact Nat.one_pos
      · obtain ⟨inner, -, rfl⟩ := Option.map_eq_some_iff.mp closes
        exact Nat.succ_pos _

/-- Without a paired backslash a plain string closes at the same quote. -/
theorem closeQuote_of_closeString
    {quote : UInt8}
    (noEscape : quote ≠ 92)
    {rest : Bytes}
    {width : Nat}
    (closes : closeString quote rest = some width)
    (unpaired : pairsQuote quote (rest.take width) = false) :
    closeQuote quote rest = some width := by
  match rest with
  | [] =>
      cases closes
  | [byte] =>
      rw [closeString] at closes
      split at closes
      · rename_i quotes
        rw [closeQuote, if_pos ⟨by rw [quotes]; exact noEscape, quotes⟩]
        exact closes
      · cases closes
  | byte :: next :: later =>
      rw [closeQuote]
      by_cases quotes : byte = quote
      · have unescaped : ¬ byte = 92 := by
          rw [quotes]
          exact noEscape
        rw [closeString, if_pos quotes] at closes
        rw [if_neg unescaped, if_pos quotes]
        by_cases doubled : next = quote
        · rw [if_pos doubled] at closes ⊢
          obtain ⟨inner, closed, rfl⟩ := Option.map_eq_some_iff.mp closes
          rw [List.take_succ_cons, List.take_succ_cons,
            pairsQuote_cons unescaped,
            pairsQuote_cons (by rw [doubled]; exact noEscape)] at unpaired
          rw [closeQuote_of_closeString noEscape closed unpaired]
          rfl
        · rw [if_neg doubled] at closes ⊢
          exact closes
      · rw [closeString_cons quotes] at closes
        obtain ⟨inner, closed, rfl⟩ := Option.map_eq_some_iff.mp closes
        rw [List.take_succ_cons] at unpaired
        by_cases escapes : byte = 92
        · -- The scanner skips the next byte, which is no quote.
          rw [if_pos escapes]
          cases inner with
          | zero =>
              exact absurd (closeString_pos closed) (Nat.lt_irrefl 0)
          | succ inner =>
              rw [List.take_succ_cons, pairsQuote, if_pos escapes,
                Bool.or_eq_false_iff, beq_eq_false_iff_ne] at unpaired
              rw [closeString_cons unpaired.1, map_add_eq_some] at closed
              rw [closeQuote_of_closeString noEscape closed unpaired.2]
              rfl
        · rw [if_neg escapes, if_neg quotes]
          rw [pairsQuote_cons escapes] at unpaired
          rw [closeQuote_of_closeString noEscape closed unpaired]
          rfl

theorem wordsOf_blank
    {blank : Bytes}
    (isBlank : ∀ byte ∈ blank, isAsciiWhitespace byte = true)
    (ended : Bool)
    (rest : Bytes) :
    wordsOf ended (blank ++ rest) = wordsOf ended rest := by
  induction blank with
  | nil =>
      rfl
  | cons byte later inductionHypothesis =>
      rw [List.cons_append, wordsOf_whitespace (isBlank byte (by simp))]
      exact inductionHypothesis fun other member =>
        isBlank other (List.mem_cons_of_mem _ member)

/-- Behind a carriage return only space is left of a line comment. -/
theorem wordsOf_lineComment
    {rest : Bytes}
    (first : rest.head? = some 45)
    (second : rest.tail.head? = some 45)
    (whole : breaksLine rest = false)
    (ended : Bool) :
    wordsOf ended rest =
      wordsOf ended
        (rest.drop (rest.takeWhile fun b => b != 10 && b != 13).length) := by
  have passes := @pass_dashes ended rest first second []
  rw [List.append_nil] at passes
  have split := List.takeWhile_append_dropWhile (p := (· != 10)) (l := rest)
  have cut := drop_length_takeWhile (· != 10) rest
  unfold breaksLine at whole
  generalize rest.dropWhile (· != 10) = tail at split cut
  have nested :
      (rest.takeWhile fun b => b != 10 && b != 13) =
        (rest.takeWhile (· != 10)).takeWhile (· != 13) := by
    rw [List.takeWhile_takeWhile]
    congr 1
    funext b
    cases b != 10 <;> cases b != 13 <;> rfl
  rw [wordsOf_of_pass passes, nested]
  simp only [cut, List.nil_append, Option.map_id']
  generalize rest.takeWhile (· != 10) = line at split whole
  rw [← split]
  have behind :
      (line ++ tail).drop (line.takeWhile (· != 13)).length =
        line.dropWhile (· != 13) ++ tail := by
    rw [List.drop_append_of_le_length (List.takeWhile_prefix _).length_le,
      drop_length_takeWhile]
  rw [behind, wordsOf_blank]
  simpa using whole

/-! ## Identifiers -/

theorem isIdentifierByte_of_word
    {byte : UInt8}
    (word : isWordByte byte = true) :
    isIdentifierByte byte = true := by
  simp [isIdentifierByte, isTagByte, word]

/-- A text that starts with no identifier byte starts with no word. -/
theorem takeWhile_word_eq_nil
    {tail : Bytes}
    (stops : tail.head?.any isIdentifierByte = false) :
    tail.takeWhile isWordByte = [] ∧ tail.dropWhile isWordByte = tail := by
  cases tail with
  | nil =>
      exact ⟨rfl, rfl⟩
  | cons byte later =>
      have other : isWordByte byte = false := by
        by_contra word
        rw [Bool.not_eq_false] at word
        rw [List.head?_cons, Option.any_some, isIdentifierByte_of_word word]
          at stops
        cases stops
      simp [other]

theorem takeWhile_word_append
    (run : Bytes)
    {tail : Bytes}
    (stops : tail.head?.any isIdentifierByte = false) :
    (run ++ tail).takeWhile isWordByte = run.takeWhile isWordByte := by
  rw [List.takeWhile_append, (takeWhile_word_eq_nil stops).1]
  split
  · rename_i whole
    rw [List.append_nil]
    exact ((List.takeWhile_prefix isWordByte).eq_of_length whole).symm
  · rfl

theorem untagged_append
    {run tail : Bytes}
    (alone : (run.dropWhile isWordByte).head? ≠ some 36)
    (stops : tail.head?.any isIdentifierByte = false) :
    ((run ++ tail).dropWhile isWordByte).head? ≠ some 36 := by
  rw [List.dropWhile_append]
  split
  · rw [(takeWhile_word_eq_nil stops).2]
    intro dollar
    rw [dollar] at stops
    exact absurd stops (by decide)
  · rename_i remains
    cases rest : run.dropWhile isWordByte with
    | nil =>
        rw [rest] at remains
        exact absurd rfl remains
    | cons byte later =>
        rw [rest] at alone
        exact alone

theorem holdsTag_dropWhile
    (keep : UInt8 → Bool)
    {run : Bytes}
    (untagged : holdsTag run = false) :
    holdsTag (run.dropWhile keep) = false := by
  induction run with
  | nil =>
      rfl
  | cons byte later inductionHypothesis =>
      rw [List.dropWhile_cons]
      split
      · rw [holdsTag, Bool.or_eq_false_iff] at untagged
        exact inductionHypothesis untagged.2
      · exact untagged

/-- Apart from dollars the scanner reads identifier bytes as words or single. -/
theorem pass_identifier
    {byte : UInt8}
    (identifier : isIdentifierByte byte = true)
    (noDollar : byte ≠ 36)
    (later : Bytes) :
    passOn false (byte :: later) = some (passWord byte later) := by
  have visible : ¬ isAsciiWhitespace byte = true := by
    intro blank
    simp only [isAsciiWhitespace, Bool.or_eq_true, beq_iff_eq] at blank
    rcases blank with (((rfl | rfl) | rfl) | rfl) | rfl <;>
      exact absurd identifier (by decide)
  have unlike (other : UInt8) (isOther : isIdentifierByte other = false) :
      byte ≠ other := by
    rintro rfl
    rw [isOther] at identifier
    cases identifier
  have noQuote : ¬ (byte = 39 ∨ byte = 34) :=
    not_or.mpr ⟨unlike 39 (by decide), unlike 34 (by decide)⟩
  rw [passOn, if_neg visible, if_neg fun both => unlike 45 (by decide) both.1,
    if_neg fun both => unlike 47 (by decide) both.1, if_neg (by simp),
    if_neg (unlike 59 (by decide)), if_neg noQuote, if_neg noDollar]

/-- Without a dollar tag the scanner comes to the end of an identifier. -/
theorem wordsOf_none_of_run
    {run tail : Bytes}
    (identifier : ∀ byte ∈ run, isIdentifierByte byte = true)
    (untagged : holdsTag run = false)
    (stops : tail.head?.any isIdentifierByte = false)
    (behind : wordsOf false tail = none) :
    wordsOf false (run ++ tail) = none := by
  induction sized : run.length using Nat.strong_induction_on generalizing run with
  | _ size inductionHypothesis =>
      cases run with
      | nil =>
          exact behind
      | cons byte later =>
          have inRest : ∀ other ∈ later, isIdentifierByte other = true :=
            fun other member => identifier other (List.mem_cons_of_mem _ member)
          have shorter : later.length < size := by
            rw [← sized]
            exact Nat.lt_succ_self _
          have tagless := untagged
          rw [holdsTag, Bool.or_eq_false_iff] at untagged
          have rest :=
            inductionHypothesis later.length shorter inRest untagged.2 rfl
          by_cases dollar : byte = 36
          · subst dollar
            have alone : (later.dropWhile isWordByte).head? ≠ some 36 := by
              simpa using untagged.1
            have passes :
                passOn false (36 :: (later ++ tail)) = some ⟨1, [], false⟩ := by
              have rules :
                  passOn false (36 :: (later ++ tail)) =
                    passDollar (later ++ tail) := by
                simp [passOn, isAsciiWhitespace]
              rw [rules]
              exact passDollar_untagged (untagged_append alone stops)
            exact wordsOf_none_of_pass passes rest
          · have passes :=
              pass_identifier (identifier byte (by simp)) dollar (later ++ tail)
            refine wordsOf_none_of_pass passes ?_
            unfold passWord
            split
            · rename_i alphabetic
              have word := isWordByte_of_alphabetic alphabetic
              have read := takeWhile_word_append (byte :: later) stops
              rw [List.cons_append] at read
              rw [read]
              change wordsOf false ((byte :: later ++ tail).drop
                ((byte :: later).takeWhile isWordByte).length) = none
              rw [List.drop_append_of_le_length
                (List.takeWhile_prefix _).length_le, drop_length_takeWhile]
              refine inductionHypothesis _ ?_ ?_ (holdsTag_dropWhile _ tagless) rfl
              · rw [← sized, List.dropWhile_cons, if_pos word]
                exact Nat.lt_succ_of_le (List.length_dropWhile_le _ _)
              · intro other member
                exact identifier other ((List.dropWhile_suffix _).mem member)
            · exact rest

/-! ## From lexeme to lexeme -/

/-- A dollar that the scanner reads like the lexer. -/
theorem passDollar_of_lexDollar
    {later : Bytes}
    {l : Lexeme}
    (reads : lexDollar later = some l)
    (alike :
      (if opensDollar later then (later.takeWhile isTagByte).all isWordByte
        else (later.dropWhile isWordByte).head? != some 36) = true) :
    l.kind = .token ∧ passDollar later = some ⟨l.width, [], false⟩ := by
  unfold lexDollar at reads
  cases opens : opensDollar later with
  | false =>
      rw [opens, if_neg (by simp)] at reads alike
      cases reads
      refine ⟨rfl, passDollar_untagged ?_⟩
      simpa using alike
  | true =>
      rw [opens, if_pos rfl] at reads alike
      obtain ⟨inner, closes, rfl⟩ := Option.map_eq_some_iff.mp reads
      refine ⟨rfl, ?_⟩
      have split := List.takeWhile_append_dropWhile (p := isTagByte) (l := later)
      have dollar : (later.dropWhile isTagByte).head? = some 36 := by
        simp only [opensDollar, Bool.and_eq_true, beq_iff_eq] at opens
        exact opens.1
      rw [List.eq_cons_of_mem_head? dollar] at split
      generalize later.takeWhile isTagByte = tag at split closes alike ⊢
      generalize (later.dropWhile isTagByte).tail = after at split closes
      rw [← split, passDollar_tagged (List.all_eq_true.mp alike), closes]
      rfl

/-- An identifier, a number or an escape string. -/
theorem wordsOf_none_of_identifier
    {byte : UInt8}
    (identifier : isIdentifierByte byte = true)
    (noDollar : byte ≠ 36)
    {later : Bytes}
    {l : Lexeme}
    (reads : lexIdentifier byte later = some l)
    (alike : holdsTag ((byte :: later).takeWhile isIdentifierByte) = false)
    (behind : wordsOf false ((byte :: later).drop l.width) = none) :
    wordsOf false (byte :: later) = none := by
  unfold lexIdentifier at reads
  simp only at reads
  split at reads
  · rename_i escape
    obtain ⟨letter, quote⟩ := escape
    obtain ⟨inner, closes, rfl⟩ := Option.map_eq_some_iff.mp reads
    obtain ⟨text, rfl⟩ : ∃ text, later = 39 :: text :=
      ⟨_, List.eq_cons_of_mem_head? quote⟩
    have isLetter : byte = 69 ∨ byte = 101 := by
      rw [List.takeWhile_cons, if_pos identifier] at letter
      rcases letter with upper | lower
      · exact Or.inl (List.cons.inj upper).1
      · exact Or.inr (List.cons.inj lower).1
    -- The scanner reads the letter as a word and the string behind it.
    have word : passWord byte (39 :: text) = ⟨1, [uppercaseWord [byte]], false⟩ := by
      rcases isLetter with rfl | rfl <;> rfl
    have first := pass_identifier identifier noDollar (39 :: text)
    rw [word] at first
    have second : passOn false (39 :: text) = some ⟨inner + 1, [], false⟩ := by
      simp only [List.tail_cons] at closes
      simp [passOn, isAsciiWhitespace, closes]
    exact wordsOf_none_of_pass first (wordsOf_none_of_pass second behind)
  · cases reads
    have split :=
      List.takeWhile_append_dropWhile (p := isIdentifierByte) (l := byte :: later)
    have all := @List.all_takeWhile _ isIdentifierByte (byte :: later)
    have stops :
        ((byte :: later).dropWhile isIdentifierByte).head?.any isIdentifierByte =
          false := by
      have boundary := List.head?_dropWhile_not isIdentifierByte (byte :: later)
      cases next : ((byte :: later).dropWhile isIdentifierByte).head? with
      | none =>
          rfl
      | some other =>
          rw [next] at boundary
          exact boundary
    rw [drop_length_takeWhile] at behind
    rw [← split]
    exact wordsOf_none_of_run (List.all_eq_true.mp all) alike stops behind

/-- A text that is read alike leads the scanner to the next one. -/
theorem wordsOf_none_of_lexeme
    {seen : Bool}
    {rest : Bytes}
    {l : Lexeme}
    (reads : lexeme rest = some l)
    (alike : plain rest = true)
    (opened : seen = false ∨ l.kind = .trivia)
    (behind :
      wordsOf (seen || l.kind = .semicolon) (rest.drop l.width) = none) :
    wordsOf seen rest = none := by
  match rest with
  | [] =>
      cases reads
  | byte :: later =>
      rw [lexeme] at reads
      rw [plain] at alike
      by_cases blank : isAsciiWhitespace byte = true
      · rw [if_pos blank] at reads
        cases reads
        rw [wordsOf_whitespace blank]
        simpa using behind
      rw [if_neg blank] at reads alike
      by_cases dashes : byte = 45 ∧ later.head? = some 45
      · rw [if_pos dashes] at reads alike
        cases reads
        have first : (byte :: later).head? = some 45 := by
          rw [dashes.1]
          rfl
        rw [wordsOf_lineComment first dashes.2 (by simpa using alike)]
        simpa using behind
      rw [if_neg dashes] at reads alike
      by_cases opens : byte = 47 ∧ later.head? = some 42
      · rw [if_pos opens] at reads
        obtain ⟨inner, closes, rfl⟩ := Option.map_eq_some_iff.mp reads
        have passes : passOn seen (byte :: later) = some ⟨inner + 2, [], seen⟩ := by
          rw [passOn, if_neg blank, if_neg dashes, if_pos opens, closes]
          rfl
        exact wordsOf_none_of_pass passes (by simpa using behind)
      rw [if_neg opens] at reads
      by_cases semicolon : byte = 59
      · rw [if_pos semicolon] at reads
        cases reads
        have unseen : seen = false := by simpa using opened
        subst unseen
        have passes : passOn false (byte :: later) = some ⟨1, [], true⟩ := by
          rw [passOn, if_neg blank, if_neg dashes, if_neg opens, if_neg (by simp),
            if_pos semicolon]
        exact wordsOf_none_of_pass passes behind
      rw [if_neg semicolon] at reads
      -- The rest are tokens, which come before the semicolon.
      have token (isToken : l.kind = .token) :
          seen = false ∧ wordsOf false ((byte :: later).drop l.width) = none := by
        rw [isToken] at opened behind
        have unseen : seen = false := by simpa using opened
        subst unseen
        exact ⟨rfl, behind⟩
      have unended : ¬ false = true := by simp
      by_cases quotes : byte = 39 ∨ byte = 34
      · rw [if_pos quotes] at reads alike
        obtain ⟨inner, closes, rfl⟩ := Option.map_eq_some_iff.mp reads
        obtain ⟨rfl, next⟩ := token rfl
        have noEscape : byte ≠ 92 := by
          rcases quotes with rfl | rfl <;> decide
        have unpaired : pairsQuote byte (later.take inner) = false := by
          rw [closes, Option.all_some] at alike
          simpa using alike
        have passes : passOn false (byte :: later) = some ⟨inner + 1, [], false⟩ := by
          rw [passOn, if_neg blank, if_neg dashes, if_neg opens, if_neg unended,
            if_neg semicolon, if_pos quotes,
            closeQuote_of_closeString noEscape closes unpaired]
          rfl
        exact wordsOf_none_of_pass passes next
      rw [if_neg quotes] at reads alike
      by_cases dollar : byte = 36
      · rw [if_pos dollar] at reads alike
        obtain ⟨isToken, passes⟩ := passDollar_of_lexDollar reads alike
        obtain ⟨rfl, next⟩ := token isToken
        have reached : passOn false (byte :: later) = some ⟨l.width, [], false⟩ := by
          rw [passOn, if_neg blank, if_neg dashes, if_neg opens, if_neg unended,
            if_neg semicolon, if_neg quotes, if_pos dollar]
          exact passes
        exact wordsOf_none_of_pass reached next
      rw [if_neg dollar] at reads alike
      by_cases identifier : isIdentifierByte byte = true
      · rw [if_pos identifier] at reads
        have isToken : l.kind = .token := by
          unfold lexIdentifier at reads
          simp only at reads
          split at reads
          · obtain ⟨inner, -, rfl⟩ := Option.map_eq_some_iff.mp reads
            rfl
          · cases reads
            rfl
        obtain ⟨rfl, next⟩ := token isToken
        exact wordsOf_none_of_identifier identifier dollar reads
          (by simpa using alike) next
      · rw [if_neg identifier] at reads
        cases reads
        obtain ⟨rfl, next⟩ := token rfl
        have single : passWord byte later = ⟨1, [], false⟩ := by
          refine if_neg fun alphabetic => identifier ?_
          exact isIdentifierByte_of_word (isWordByte_of_alphabetic alphabetic)
        have passes : passOn false (byte :: later) = some ⟨1, [], false⟩ := by
          rw [passOn, if_neg blank, if_neg dashes, if_neg opens, if_neg unended,
            if_neg semicolon, if_neg quotes, if_neg dollar, single]
        exact wordsOf_none_of_pass passes next

/-- Behind a semicolon the scanner gives up at the first token. -/
theorem wordsOf_none_of_token
    {rest : Bytes}
    {l : Lexeme}
    (reads : lexeme rest = some l)
    (further : l.kind ≠ .trivia) :
    wordsOf true rest = none := by
  match rest with
  | [] =>
      cases reads
  | byte :: later =>
      rw [lexeme] at reads
      refine wordsOf_of_stuck (List.cons_ne_nil _ _) ?_
      rw [passOn]
      split at reads
      · cases reads
        exact absurd rfl further
      rename_i visible
      rw [if_neg visible]
      split at reads
      · cases reads
        exact absurd rfl further
      rename_i undashed
      rw [if_neg undashed]
      split at reads
      · obtain ⟨inner, -, rfl⟩ := Option.map_eq_some_iff.mp reads
        exact absurd rfl further
      rename_i unopened
      rw [if_neg unopened]
      rfl

/-- The scanner finds the second statement when it reads the first one alike. -/
theorem wordsOf_none_of_several
    {fuel : Nat}
    {seen : Bool}
    {rest : Bytes}
    (several : severalFrom fuel seen rest = true)
    (alike : plainFrom fuel seen rest = true) :
    wordsOf seen rest = none := by
  induction fuel generalizing seen rest with
  | zero =>
      cases several
  | succ fuel inductionHypothesis =>
      unfold severalFrom at several
      unfold plainFrom at alike
      cases reads : lexeme rest with
      | none =>
          rw [reads] at several
          cases several
      | some l =>
          simp only [reads] at several alike
          by_cases further : (seen && decide (l.kind ≠ .trivia)) = true
          · rw [Bool.and_eq_true, decide_eq_true_eq] at further
            rw [further.1]
            exact wordsOf_none_of_token reads further.2
          · rw [if_neg further] at several alike
            rw [Bool.and_eq_true] at alike
            refine wordsOf_none_of_lexeme reads alike.1 ?_
              (inductionHypothesis several alike.2)
            cases seen with
            | false =>
                exact Or.inl rfl
            | true =>
                simpa using further

end Postgres

open Postgres

/--
A text with several statements is `Other`, provided the scanner reads everything
in front of the second statement as the lexer does.
-/
theorem classify_several
    {sql : Bytes}
    (several : Several sql)
    (alike : Plain sql) :
    classify sql = .other := by
  rw [classify_eq, wordsOf_none_of_several several alike]
  rfl

theorem classify_several_escaped :
    classify (ascii "SELECT E'\\';', $a$;$a$, b$c -- ;\r\n; COMMIT") = .other :=
  classify_several (by decide +kernel) (by decide +kernel)

/--
Texts with a second statement that the scanner takes for one `SELECT`: a
backslash before the quote that ends a string or an identifier, a carriage
return that ends a comment, a dollar tag in an identifier, a number between two
dollars, and a dollar tag with a letter beyond ASCII.
-/
def hiddenStatements : List Bytes :=
  [ascii "SELECT '\\'; COMMIT; --'",
    ascii "SELECT \"\\\"; COMMIT; --\"",
    ascii "SELECT 1 -- one\r; COMMIT",
    ascii "SELECT a$$; COMMIT -- $$",
    ascii "SELECT $1$; COMMIT -- $1$",
    ascii "SELECT $" ++ [195, 169] ++ ascii "$'$" ++ [195, 169] ++
      ascii "$; COMMIT; --'"]

theorem hidden_statements_select :
    Several (ascii "SELECT '\\'; COMMIT; --'") ∧
      classify (ascii "SELECT '\\'; COMMIT; --'") ≠ .other ∧
      (hiddenStatements.all fun sql =>
        decide (Several sql ∧ classify sql = .select)) = true := by
  decide +kernel

end Pgfault
