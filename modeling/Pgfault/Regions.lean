import Pgfault.Lookahead

namespace Pgfault

namespace Classify

/-!
# Comments, quotes and surrounding space

The scanner skips quoted texts, dollar-quoted texts and comments as a whole.
What stands inside one of them, and how much space and how many comments stand
around a statement, has no influence on the class.
-/

/-! ## Regions -/

/-- The texts the scanner skips as a whole. -/
inductive RegionKind where
  | singleQuoted
  | doubleQuoted
  | dollarQuoted
  | blockComment
  deriving DecidableEq

namespace RegionKind

/-- The quote character of a quoted kind. -/
def quote : RegionKind → Option UInt8
  | .singleQuoted => some 39
  | .doubleQuoted => some 34
  | _ => none

/-- The first byte of a text of the kind. -/
def opener : RegionKind → UInt8
  | .singleQuoted => 39
  | .doubleQuoted => 34
  | .dollarQuoted => 36
  | .blockComment => 47

/-- How a text of the kind begins. -/
def Opens (x : Bytes) : RegionKind → Prop
  | .singleQuoted => x.head? = some 39
  | .doubleQuoted => x.head? = some 34
  | .dollarQuoted =>
      x.head? = some 36 ∧
        x[advanceWhile x isWordByte x.length 1]? = some 36
  | .blockComment => startsWith x 0 "/*" = true

instance (x : Bytes) : (kind : RegionKind) → Decidable (kind.Opens x)
  | .singleQuoted => inferInstanceAs (Decidable (x.head? = some 39))
  | .doubleQuoted => inferInstanceAs (Decidable (x.head? = some 34))
  | .dollarQuoted =>
      inferInstanceAs (Decidable (x.head? = some 36 ∧
        x[advanceWhile x isWordByte x.length 1]? = some 36))
  | .blockComment => inferInstanceAs (Decidable (startsWith x 0 "/*" = true))

end RegionKind

/--
A text of some kind that the scanner, started at its first byte, closes exactly
at its last byte.
-/
structure Region (kind : RegionKind) (x : Bytes) : Prop where
  opens : kind.Opens x
  inRange : 0 < x.length
  closes : scanStep x ⟨0, [], false⟩ inRange = some ⟨x.length, [], false⟩

namespace Region

variable {kind : RegionKind} {x : Bytes}

/-- The pass that skips the text on its own. -/
theorem pass_self
    (region : Region kind x) :
    passOn false x = some ⟨x.length, [], false⟩ := by
  have closes := region.closes
  rw [scanStep_eq, List.drop_zero] at closes
  obtain ⟨⟨width, words, ended⟩, passes, same⟩ :=
    Option.map_eq_some_iff.mp closes
  simp only [Scan.behind, Nat.zero_add, List.nil_append, Scan.mk.injEq] at same
  obtain ⟨rfl, rfl, rfl⟩ := same
  exact passes

/-- A quoted text is skipped in front of anything but its quote. -/
theorem pass_quoted
    {quote : UInt8}
    (isQuote : quote = 39 ∨ quote = 34)
    {body r : Bytes}
    (closes : passOn false (quote :: body) = some ⟨body.length + 1, [], false⟩)
    (single : r.head? ≠ some quote)
    (ended : Bool) :
    passOn ended (quote :: body ++ r) =
      if ended then none else some ⟨body.length + 1, [], false⟩ := by
  have rules (ended : Bool) (later : Bytes) :
      passOn ended (quote :: later) =
        if ended then none
        else (closeQuote quote later).map fun width => ⟨width + 1, [], false⟩ := by
    rcases isQuote with rfl | rfl <;>
      simp [passOn, isAsciiWhitespace]
  have closed : closeQuote quote (body ++ []) = some body.length := by
    rw [rules, if_neg (by simp)] at closes
    obtain ⟨width, closed, same⟩ := Option.map_eq_some_iff.mp closes
    rw [List.append_nil, closed]
    simpa using same
  have alike : ([] : Bytes).head? = some quote ↔ r.head? = some quote :=
    iff_of_false (by simp) single
  rw [List.cons_append, rules, closeQuote_local alike closed]
  rfl

/-- A block comment is skipped in front of anything. -/
theorem pass_block
    {body : Bytes}
    (closes :
      passOn false (47 :: 42 :: body) = some ⟨body.length + 2, [], false⟩)
    (r : Bytes)
    (ended : Bool) :
    passOn ended (47 :: 42 :: body ++ r) =
      some ⟨body.length + 2, [], ended⟩ := by
  have rules (ended : Bool) (later : Bytes) :
      passOn ended (47 :: 42 :: later) =
        (closeBlock 1 later).map fun width => ⟨width + 2, [], ended⟩ := by
    simp [passOn, isAsciiWhitespace]
  have closed : closeBlock 1 (body ++ []) = some body.length := by
    rw [rules] at closes
    obtain ⟨width, closed, same⟩ := Option.map_eq_some_iff.mp closes
    rw [List.append_nil, closed]
    simpa using same
  rw [List.cons_append, List.cons_append, rules, closeBlock_local [] r closed]
  rfl

/-- A dollar-quoted text is skipped in front of anything. -/
theorem pass_dollar
    {body : Bytes}
    (tagged : (body.dropWhile isWordByte).head? = some 36)
    (closes : passOn false (36 :: body) = some ⟨body.length + 1, [], false⟩)
    (r : Bytes)
    (ended : Bool) :
    passOn ended (36 :: body ++ r) =
      if ended then none else some ⟨body.length + 1, [], false⟩ := by
  have rules (ended : Bool) (later : Bytes) :
      passOn ended (36 :: later) = if ended then none else passDollar later := by
    simp [passOn, isAsciiWhitespace]
  obtain ⟨tag, after, rfl, isTag⟩ := tagged_of_head? tagged
  rw [rules, if_neg (by simp), passDollar_tagged isTag] at closes
  obtain ⟨inner, closed, same⟩ := Option.map_eq_some_iff.mp closes
  obtain ⟨n, found, isInner⟩ := Option.map_eq_some_iff.mp closed
  rw [Pass.mk.injEq] at same
  have width := same.1
  rw [← isInner] at width
  have inside : n + (36 :: tag ++ [36]).length ≤ after.length := by
    simp only [List.length_append, List.length_cons, List.length_nil]
      at width ⊢
    omega
  have found' : windowPosition (after ++ []) (36 :: tag ++ [36]) = some n := by
    rw [List.append_nil]
    exact found
  rw [List.cons_append, rules, List.append_assoc, List.cons_append,
    passDollar_tagged isTag, closeDollar,
    windowPosition_local [] r inside found']
  simp only [Option.map_some, width]

/-- A region is skipped, unless it stands behind the end of the statement. -/
theorem pass_append
    (region : Region kind x)
    {r : Bytes}
    (single : ∀ quote ∈ kind.quote, r.head? ≠ some quote)
    (ended : Bool) :
    passOn ended (x ++ r) =
      if ended = true ∧ kind ≠ .blockComment then none
      else some ⟨x.length, [], ended⟩ := by
  have closes := region.pass_self
  have opens := region.opens
  cases kind with
  | singleQuoted =>
      have shape := List.eq_cons_of_mem_head? opens
      generalize x.tail = body at shape
      subst shape
      rw [pass_quoted (Or.inl rfl) closes (single 39 rfl) ended]
      cases ended <;> simp
  | doubleQuoted =>
      have shape := List.eq_cons_of_mem_head? opens
      generalize x.tail = body at shape
      subst shape
      rw [pass_quoted (Or.inr rfl) closes (single 34 rfl) ended]
      cases ended <;> simp
  | dollarQuoted =>
      obtain ⟨first, stop⟩ := opens
      have shape := List.eq_cons_of_mem_head? first
      generalize x.tail = body at shape
      subst shape
      have tagged : (body.dropWhile isWordByte).head? = some 36 := by
        have suffix : (36 :: body).drop 1 = body := rfl
        rw [advanceWhile_eq isWordByte suffix (length_le_of_drop suffix),
          ← List.head?_drop, drop_add_of_drop suffix, drop_length_takeWhile]
          at stop
        exact stop
      rw [pass_dollar tagged closes r ended]
      cases ended <;> simp
  | blockComment =>
      have opener : ascii "/*" = [47, 42] := by decide
      obtain ⟨first, second⟩ := (startsWith_pair opener rfl).mp opens
      rw [List.drop_zero] at first second
      have shape := List.eq_cons_of_mem_head? first
      rw [List.eq_cons_of_mem_head? second] at shape
      generalize x.tail.tail = body at shape
      subst shape
      rw [pass_block closes r ended]
      simp

/-- The words behind a region. -/
theorem wordsOf_append
    (region : Region kind x)
    {r : Bytes}
    (single : ∀ quote ∈ kind.quote, r.head? ≠ some quote)
    (ended : Bool) :
    wordsOf ended (x ++ r) =
      if ended = true ∧ kind ≠ .blockComment then none
      else wordsOf ended r := by
  have passes := region.pass_append single ended
  by_cases behind : ended = true ∧ kind ≠ .blockComment
  · rw [if_pos behind] at passes ⊢
    refine wordsOf_of_stuck ?_ passes
    have inRange := region.inRange
    intro empty
    rw [(List.append_eq_nil_iff.mp empty).1] at inRange
    exact absurd inRange (Nat.lt_irrefl 0)
  · rw [if_neg behind] at passes ⊢
    rw [wordsOf_of_pass passes, List.drop_left]
    simp

theorem head?_eq
    (region : Region kind x) :
    x.head? = some kind.opener := by
  have opens := region.opens
  cases kind with
  | singleQuoted =>
      exact opens
  | doubleQuoted =>
      exact opens
  | dollarQuoted =>
      exact opens.1
  | blockComment =>
      have opener : ascii "/*" = [47, 42] := by decide
      have both := (startsWith_pair opener rfl).mp opens
      rw [List.drop_zero] at both
      exact both.1

end Region

/-- Texts with one first byte, which is in no word, look alike. -/
theorem Alike.of_head?
    {u v : Bytes}
    {byte : UInt8}
    (first : u.head? = some byte)
    (second : v.head? = some byte)
    (wordless : isWordByte byte = false) :
    Alike u v := by
  have shapeU := List.eq_cons_of_mem_head? first
  have shapeV := List.eq_cons_of_mem_head? second
  generalize u.tail = tailU at shapeU
  generalize v.tail = tailV at shapeV
  subst shapeU
  subst shapeV
  refine ⟨Iff.rfl, Iff.rfl, Iff.rfl, Iff.rfl, rfl, ?_⟩
  simp [wordless]

theorem wordsOf_of_reaches_start
    {sql : Bytes}
    {scan : Scan}
    (reaches : Reaches sql ⟨0, [], false⟩ scan) :
    wordsOf false sql =
      (wordsOf scan.ended (sql.drop scan.position)).map (scan.words ++ ·) := by
  have same := wordsOf_of_reaches reaches
  simpa using same

/-! ## Trivia -/

/-- A concatenation of whitespace, line comments and closed block comments. -/
inductive Trivia : Bytes → Prop where
  | nil :
      Trivia []
  | whitespace
      {byte : UInt8}
      {t : Bytes}
      (blank : isAsciiWhitespace byte = true)
      (later : Trivia t) :
      Trivia (byte :: t)
  | lineComment
      {body t : Bytes}
      (oneLine : 10 ∉ body)
      (later : Trivia t) :
      Trivia (ascii "--" ++ body ++ 10 :: t)
  | blockComment
      {x t : Bytes}
      (region : Region .blockComment x)
      (later : Trivia t) :
      Trivia (x ++ t)

theorem wordsOf_whitespace
    {byte : UInt8}
    (blank : isAsciiWhitespace byte = true)
    (ended : Bool)
    (rest : Bytes) :
    wordsOf ended (byte :: rest) = wordsOf ended rest := by
  have passes : passOn ended (byte :: rest) = some ⟨1, [], ended⟩ := by
    rw [passOn, if_pos blank]
  rw [wordsOf_of_pass passes]
  simp

/-- Trivia in front of a text leave no word and no mark. -/
theorem Trivia.wordsOf_append
    {t : Bytes}
    (trivia : Trivia t)
    (ended : Bool)
    (s : Bytes) :
    wordsOf ended (t ++ s) = wordsOf ended s := by
  induction trivia with
  | nil =>
      rfl
  | whitespace blank _ inductionHypothesis =>
      rw [List.cons_append, wordsOf_whitespace blank]
      exact inductionHypothesis
  | @lineComment body t oneLine _ inductionHypothesis =>
      have dashes : ascii "--" = [45, 45] := by decide
      have visible : ∀ byte ∈ 45 :: 45 :: body, (byte != 10) = true := by
        intro byte member
        rw [bne_iff_ne]
        rintro rfl
        simp at member
        exact oneLine member
      have passes :=
        @pass_dashes ended (45 :: 45 :: body) rfl rfl (10 :: (t ++ s))
      have stops :
          ((45 :: 45 :: body) ++ 10 :: (t ++ s)).takeWhile (· != 10) =
            45 :: 45 :: body := by
        rw [List.takeWhile_append_of_pos visible]
        simp
      rw [stops] at passes
      have shape :
          ascii "--" ++ body ++ 10 :: t ++ s =
            (45 :: 45 :: body) ++ 10 :: (t ++ s) := by
        rw [dashes]
        simp
      rw [shape, wordsOf_of_pass passes, List.drop_left,
        wordsOf_whitespace (by decide), inductionHypothesis]
      simp
  | blockComment region _ inductionHypothesis =>
      rw [List.append_assoc, region.wordsOf_append nofun, if_neg (by simp)]
      exact inductionHypothesis

/--
The scan reaches the end of a text outside any quote, dollar-quoted text or
comment, and without a semicolon.  Only a line comment can be open at the end of
a text the main loop comes to the end of.
-/
structure EndsOutside (s : Bytes) : Prop where
  reaches : ∃ words, Reaches s ⟨0, [], false⟩ ⟨s.length, words, false⟩
  comments :
    ∀ scan, Reaches s ⟨0, [], false⟩ scan →
      startsWith s scan.position "--" = true → 10 ∈ s.drop scan.position

/-- A semicolon and trivia behind a whole statement. -/
theorem EndsOutside.wordsOf_append
    {s t : Bytes}
    (outside : EndsOutside s)
    (trivia : Trivia t) :
    wordsOf false (s ++ 59 :: t) = wordsOf false s := by
  obtain ⟨words, reaches⟩ := outside.reaches
  have alike : Alike [] (59 :: t) :=
    ⟨iff_of_false nofun (by simp), iff_of_false nofun (by simp),
      iff_of_false nofun (by simp), iff_of_false nofun (by simp),
      by simp [isWordByte, isAsciiAlphanumeric, isAsciiAlphabetic],
      iff_of_false nofun
        (by simp [isWordByte, isAsciiAlphanumeric, isAsciiAlphabetic])⟩
  have start : s ++ [] = s := List.append_nil s
  have further : Reaches (s ++ 59 :: t) ⟨0, [], false⟩ ⟨s.length, words, false⟩ := by
    refine Reaches.congr alike ?_ (Or.inr ?_) (Nat.le_refl _)
    · rw [start]
      exact reaches
    · rw [start]
      exact outside.comments
  have ends : passOn false (59 :: t) = some ⟨1, [], true⟩ := by
    simp [passOn, isAsciiWhitespace]
  have rest := trivia.wordsOf_append true []
  rw [List.append_nil, wordsOf_nil] at rest
  rw [wordsOf_of_reaches_start further, wordsOf_of_reaches_start reaches,
    List.drop_left, List.drop_length, wordsOf_of_pass ends]
  simp [rest]

end Classify

open Classify

/--
Space and comments in front of a statement do not change its class, and neither
do a semicolon, space and comments behind one.
-/
theorem classify_trivia :
    (∀ t s, Trivia t → classify (t ++ s) = classify s) ∧
      ∀ s t, EndsOutside s → Trivia t →
        classify (s ++ ascii ";" ++ t) = classify s := by
  have semicolon : ascii ";" = [59] := by decide
  constructor
  · intro t s trivia
    rw [classify_eq, classify_eq, trivia.wordsOf_append]
  · intro s t outside trivia
    rw [semicolon, List.append_assoc, List.singleton_append, classify_eq,
      classify_eq, outside.wordsOf_append trivia]

/-- A nested comment and a line comment around a commit. -/
theorem classify_trivia_commit :
    classify (ascii "/* a /* b */ */ -- c\n" ++ ascii "COMMIT") =
        classify (ascii "COMMIT") ∧
      classify (ascii "COMMIT" ++ ascii ";" ++ ascii "/* a /* b */ */ -- c\n") =
        classify (ascii "COMMIT") := by
  have nested : Region .blockComment (ascii "/* a /* b */ */") :=
    ⟨by decide, by decide, by decide +kernel⟩
  have line : Trivia (ascii " -- c\n") :=
    .whitespace (by decide) (@Trivia.lineComment (ascii " c") [] (by decide) .nil)
  have trivia : Trivia (ascii "/* a /* b */ */ -- c\n") :=
    .blockComment nested line
  have outside : EndsOutside (ascii "COMMIT") := by
    refine ⟨⟨["COMMIT"], Relation.ReflTransGen.single
      ⟨by decide, by decide +kernel⟩⟩, ?_⟩
    intro scan _ comment
    have dashes : ascii "--" = [45, 45] := by decide
    have first := ((startsWith_pair dashes rfl).mp comment).1
    have member := List.mem_of_mem_drop (List.mem_of_mem_head? first)
    exact absurd member (by decide)
  exact ⟨classify_trivia.1 _ _ trivia, classify_trivia.2 _ _ outside trivia⟩

/--
What stands inside a quoted text, a dollar-quoted text or a block comment does
not matter.  When the main loop starts a pass at one, it does so for every other
text of the same kind in its place, and the classes are equal.
-/
theorem classify_region
    {kind : RegionKind}
    {p x y r : Bytes}
    (first : Region kind x)
    (second : Region kind y)
    (single : ∀ quote ∈ kind.quote, r.head? ≠ some quote)
    {scan : Scan}
    (reaches : Reaches (p ++ (x ++ r)) ⟨0, [], false⟩ scan)
    (position : scan.position = p.length) :
    classify (p ++ (x ++ r)) = classify (p ++ (y ++ r)) := by
  have headX : (x ++ r).head? = some kind.opener := by
    rw [List.head?_append, first.head?_eq]
    rfl
  have headY : (y ++ r).head? = some kind.opener := by
    rw [List.head?_append, second.head?_eq]
    rfl
  have alike : Alike (x ++ r) (y ++ r) :=
    Alike.of_head? headX headY (by cases kind <;> decide)
  have other : Reaches (p ++ (y ++ r)) ⟨0, [], false⟩ scan :=
    reaches.congr alike (Or.inl (headX.trans headY.symm))
      (Nat.le_of_eq position)
  rw [classify_eq, classify_eq, wordsOf_of_reaches_start reaches,
    wordsOf_of_reaches_start other, position, List.drop_left, List.drop_left,
    first.wordsOf_append single, second.wordsOf_append single]

/-- Two literals in one place of a query. -/
theorem classify_region_literal :
    classify (ascii "SELECT " ++ (ascii "'a'" ++ ascii ", 1;")) =
      classify (ascii "SELECT " ++ (ascii "'; COMMIT -- '' /*'" ++ ascii ", 1;")) := by
  have short : Region .singleQuoted (ascii "'a'") :=
    ⟨by decide, by decide, by decide +kernel⟩
  have long : Region .singleQuoted (ascii "'; COMMIT -- '' /*'") :=
    ⟨by decide, by decide, by decide +kernel⟩
  have word :
      Reaches (ascii "SELECT " ++ (ascii "'a'" ++ ascii ", 1;")) ⟨0, [], false⟩
        ⟨6, ["SELECT"], false⟩ :=
    .single ⟨by decide, by decide +kernel⟩
  have reaches :
      Reaches (ascii "SELECT " ++ (ascii "'a'" ++ ascii ", 1;")) ⟨0, [], false⟩
        ⟨7, ["SELECT"], false⟩ :=
    word.tail ⟨by decide, by decide +kernel⟩
  have single :
      ∀ quote ∈ RegionKind.singleQuoted.quote,
        (ascii ", 1;").head? ≠ some quote := by
    intro quote isQuote
    cases isQuote
    decide
  exact classify_region short long single reaches (by decide)

end Pgfault
