import Mathlib.Logic.Relation
import Pgfault.Classify

namespace Pgfault

namespace Classify

/-!
# The scanner on the rest of a text

`classify` works with positions in the whole text.  What one pass of its loop
does depends on the bytes from the position on, so every pass is a function of
the rest of the text, and the words behind a position are too.

The sub-scanners come back as functions on the rest of the text without fuel:
the width of what they skip, or nothing when it is not closed.
-/

/-! ## Sub-scanners -/

/-- The width of the rest of a block comment of some depth. -/
def closeBlock : Nat → Bytes → Option Nat
  | 0, _ => some 0
  | _ + 1, [] => none
  | _ + 1, [_] => none
  | depth + 1, byte :: next :: later =>
      if byte = 47 ∧ next = 42 then
        (closeBlock (depth + 2) later).map (· + 2)
      else if byte = 42 ∧ next = 47 then
        (closeBlock depth later).map (· + 2)
      else
        (closeBlock (depth + 1) (next :: later)).map (· + 1)

/-- The width of the rest of a quoted text, with its closing quote. -/
def closeQuote (quote : UInt8) : Bytes → Option Nat
  | [] => none
  | [byte] => if byte ≠ 92 ∧ byte = quote then some 1 else none
  | byte :: next :: later =>
      if byte = 92 then
        (closeQuote quote later).map (· + 2)
      else if byte = quote then
        if next = quote then (closeQuote quote later).map (· + 2) else some 1
      else
        (closeQuote quote (next :: later)).map (· + 1)

/-- The width of the rest of a dollar-quoted text behind its first delimiter. -/
def closeDollar (delim rest : Bytes) : Option Nat :=
  (windowPosition rest delim).map (· + delim.length)

theorem startsWith_pair
    {literal : String}
    {first second : UInt8}
    (spelled : ascii literal = [first, second])
    {sql : Bytes}
    {i : Nat}
    {rest : Bytes}
    (suffix : sql.drop i = rest) :
    startsWith sql i literal = true ↔
      rest.head? = some first ∧ rest.tail.head? = some second := by
  rw [startsWith, suffix, spelled]
  match rest with
  | [] => simp
  | [byte] => simp
  | byte :: next :: later =>
      simp only [List.isPrefixOf, Bool.and_true, Bool.and_eq_true, beq_iff_eq,
        List.head?_cons, List.tail_cons, Option.some.injEq]
      exact ⟨fun both => ⟨both.1.symm, both.2.symm⟩,
        fun both => ⟨both.1.symm, both.2.symm⟩⟩

theorem lt_length_of_drop
    {sql : Bytes}
    {i : Nat}
    {byte : UInt8}
    {later : Bytes}
    (suffix : sql.drop i = byte :: later) :
    i < sql.length := by
  by_contra outside
  rw [List.drop_eq_nil_of_le (Nat.le_of_not_lt outside)] at suffix
  cases suffix

theorem drop_add_of_drop
    {sql : Bytes}
    {i : Nat}
    {rest : Bytes}
    (suffix : sql.drop i = rest)
    (n : Nat) :
    sql.drop (i + n) = rest.drop n := by
  rw [← suffix, List.drop_drop]

theorem get_of_drop
    {sql : Bytes}
    {i : Nat}
    {byte : UInt8}
    {later : Bytes}
    (suffix : sql.drop i = byte :: later)
    (inRange : i < sql.length) :
    sql.get ⟨i, inRange⟩ = byte := by
  have found : sql[i]? = some byte := by
    rw [← List.head?_drop, suffix]
    rfl
  exact (List.getElem?_eq_some_iff.mp found).2

/-- `advanceWhile` counts the bytes it keeps. -/
theorem advanceWhile_eq
    {sql : Bytes}
    (keep : UInt8 → Bool)
    {fuel i : Nat}
    {rest : Bytes}
    (suffix : sql.drop i = rest)
    (enough : rest.length ≤ fuel) :
    advanceWhile sql keep fuel i = i + (rest.takeWhile keep).length := by
  induction fuel generalizing i rest with
  | zero =>
      rw [List.eq_nil_of_length_eq_zero (Nat.le_zero.mp enough)]
      rfl
  | succ fuel inductionHypothesis =>
      unfold advanceWhile
      cases rest with
      | nil =>
          have outside : ¬ i < sql.length :=
            Nat.not_lt.mpr (List.drop_eq_nil_iff.mp suffix)
          rw [dif_neg outside]
          rfl
      | cons byte later =>
          have inRange := lt_length_of_drop suffix
          rw [dif_pos inRange, get_of_drop suffix inRange]
          cases kept : keep byte with
          | true =>
              rw [if_pos rfl,
                inductionHypothesis (drop_add_of_drop suffix 1)
                  (Nat.le_of_succ_le_succ enough)]
              simp [kept]
              omega
          | false =>
              simp [kept]

/--
How a loop from a position ends: with the mark of a closed text behind some
width, or without it.
-/
structure Stops
    {α : Type}
    (mark : α)
    (i : Nat)
    (closed : Option Nat)
    (stop : Nat × α) : Prop where
  closes : ∀ width, closed = some width → stop = (i + width, mark)
  runsOut : closed = none → stop.2 ≠ mark

theorem Stops.shift
    {α : Type}
    {mark : α}
    {i n : Nat}
    {closed : Option Nat}
    {stop : Nat × α}
    (stops : Stops mark (i + n) closed stop) :
    Stops mark i (closed.map (· + n)) stop := by
  constructor
  · intro width mapped
    obtain ⟨inner, isClosed, rfl⟩ := Option.map_eq_some_iff.mp mapped
    rw [stops.closes inner isClosed, Nat.add_assoc, Nat.add_comm n]
  · intro mapped
    exact stops.runsOut (Option.map_eq_none_iff.mp mapped)

/-- The block comment loop closes where `closeBlock` says. -/
theorem blockComment_stops
    {sql : Bytes}
    {fuel i depth : Nat}
    {rest : Bytes}
    (suffix : sql.drop i = rest)
    (enough : rest.length ≤ fuel) :
    Stops 0 i (closeBlock depth rest) (blockComment sql fuel i depth) := by
  induction fuel generalizing i depth rest with
  | zero =>
      rw [List.eq_nil_of_length_eq_zero (Nat.le_zero.mp enough)]
      cases depth with
      | zero =>
          exact ⟨by simp [closeBlock, blockComment], nofun⟩
      | succ depth =>
          exact ⟨nofun, by simp [blockComment]⟩
  | succ fuel inductionHypothesis =>
      have openSpelled : ascii "/*" = [47, 42] := by decide
      have closeSpelled : ascii "*/" = [42, 47] := by decide
      unfold blockComment
      cases depth with
      | zero =>
          exact ⟨by simp [closeBlock], by simp [closeBlock]⟩
      | succ depth =>
          match rest with
          | [] =>
              have outside : ¬ i < sql.length :=
                Nat.not_lt.mpr (List.drop_eq_nil_iff.mp suffix)
              exact ⟨by simp [closeBlock], by simp [outside]⟩
          | [byte] =>
              have inRange := lt_length_of_drop suffix
              have noOpen : ¬ startsWith sql i "/*" = true := by
                rw [startsWith_pair openSpelled suffix]
                simp
              have noClose : ¬ startsWith sql i "*/" = true := by
                rw [startsWith_pair closeSpelled suffix]
                simp
              rw [if_pos ⟨inRange, Nat.succ_pos _⟩, if_neg noOpen, if_neg noClose]
              exact
                (@inductionHypothesis (i + 1) (depth + 1) []
                  (drop_add_of_drop suffix 1) (Nat.zero_le fuel)).shift
          | byte :: second :: later =>
              have inRange := lt_length_of_drop suffix
              have shorter : later.length + 1 ≤ fuel := by
                simpa using enough
              rw [if_pos ⟨inRange, Nat.succ_pos _⟩, closeBlock]
              simp only [startsWith_pair openSpelled suffix,
                startsWith_pair closeSpelled suffix, List.head?_cons,
                List.tail_cons, Option.some.injEq]
              by_cases opens : byte = 47 ∧ second = 42
              · rw [if_pos opens, if_pos opens]
                exact
                  (inductionHypothesis (drop_add_of_drop suffix 2)
                    (Nat.le_of_succ_le shorter)).shift
              · rw [if_neg opens, if_neg opens]
                by_cases closes : byte = 42 ∧ second = 47
                · rw [if_pos closes, if_pos closes]
                  exact
                    (inductionHypothesis (drop_add_of_drop suffix 2)
                      (Nat.le_of_succ_le shorter)).shift
                · rw [if_neg closes, if_neg closes]
                  exact
                    (inductionHypothesis (drop_add_of_drop suffix 1)
                      shorter).shift

/-- The quoted text loop closes where `closeQuote` says. -/
theorem quotedText_stops
    {sql : Bytes}
    (quote : UInt8)
    {fuel i : Nat}
    {rest : Bytes}
    (suffix : sql.drop i = rest)
    (enough : rest.length ≤ fuel) :
    Stops true i (closeQuote quote rest) (quotedText sql quote fuel i) := by
  induction fuel generalizing i rest with
  | zero =>
      rw [List.eq_nil_of_length_eq_zero (Nat.le_zero.mp enough)]
      exact ⟨nofun, fun _ => Bool.false_ne_true⟩
  | succ fuel inductionHypothesis =>
      unfold quotedText
      match rest with
      | [] =>
          have outside : ¬ i < sql.length :=
            Nat.not_lt.mpr (List.drop_eq_nil_iff.mp suffix)
          rw [dif_neg outside]
          exact ⟨nofun, fun _ => Bool.false_ne_true⟩
      | [byte] =>
          have inRange := lt_length_of_drop suffix
          have last : sql.length = i + 1 := by
            have length := congrArg List.length suffix
            simp only [List.length_drop, List.length_singleton] at length
            omega
          have behind : sql[i + 1]? = none :=
            List.getElem?_eq_none (Nat.le_of_eq last)
          have runsOut :=
            @inductionHypothesis (i + 1) [] (drop_add_of_drop suffix 1)
              (Nat.zero_le fuel)
          rw [dif_pos inRange, get_of_drop suffix inRange, closeQuote, behind,
            last, Nat.min_eq_right (Nat.le_succ _)]
          by_cases escapes : byte = 92
          · rw [if_pos escapes, if_neg fun both => both.1 escapes]
            exact ⟨nofun, fun _ => runsOut.runsOut rfl⟩
          · rw [if_neg escapes]
            by_cases quotes : byte = quote
            · rw [if_pos quotes, if_pos ⟨escapes, quotes⟩]
              exact ⟨by simp, nofun⟩
            · rw [if_neg quotes, if_neg fun both => quotes both.2]
              exact ⟨nofun, fun _ => runsOut.runsOut rfl⟩
      | byte :: second :: later =>
          have inRange := lt_length_of_drop suffix
          have shorter : later.length + 1 ≤ fuel := by
            simpa using enough
          have behind : sql[i + 1]? = some second := by
            rw [← List.head?_drop, drop_add_of_drop suffix 1]
            rfl
          have inside : i + 2 ≤ sql.length := by
            have length := congrArg List.length suffix
            simp only [List.length_drop, List.length_cons] at length
            omega
          rw [dif_pos inRange, get_of_drop suffix inRange, closeQuote, behind,
            Nat.min_eq_left inside]
          have skips :=
            (inductionHypothesis (drop_add_of_drop suffix 2)
              (Nat.le_of_succ_le shorter)).shift
          by_cases escapes : byte = 92
          · rw [if_pos escapes, if_pos escapes]
            exact skips
          · rw [if_neg escapes, if_neg escapes]
            by_cases quotes : byte = quote
            · rw [if_pos quotes, if_pos quotes]
              simp only [Option.some.injEq]
              by_cases doubled : second = quote
              · rw [if_pos doubled, if_pos doubled]
                exact skips
              · rw [if_neg doubled, if_neg doubled]
                exact ⟨by simp, nofun⟩
            · rw [if_neg quotes, if_neg quotes]
              exact
                (inductionHypothesis (drop_add_of_drop suffix 1) shorter).shift

/-! ## One pass -/

/-- What one pass of the main loop reads: its width, its word, and the mark. -/
structure Pass where
  width : Nat
  words : List String
  ended : Bool

/-- The bare word or single byte in front of a text. -/
def passWord (byte : UInt8) (later : Bytes) : Pass :=
  if isAsciiAlphabetic byte then
    ⟨((byte :: later).takeWhile isWordByte).length,
      [uppercaseWord ((byte :: later).takeWhile isWordByte)], false⟩
  else
    ⟨1, [], false⟩

/-- The dollar-quote rule on the bytes behind the dollar. -/
def passDollar (later : Bytes) : Option Pass :=
  let tag := later.takeWhile isWordByte
  let behind := later.drop tag.length
  if behind.head? = some 36 then
    let delim := 36 :: tag ++ [36]
    (closeDollar delim behind.tail).map fun width =>
      ⟨delim.length + width, [], false⟩
  else
    some ⟨1, [], false⟩

/-- One pass of the main loop on the rest of the text. -/
def passOn (ended : Bool) : Bytes → Option Pass
  | [] => none
  | byte :: later =>
      if isAsciiWhitespace byte then
        some ⟨1, [], ended⟩
      else if byte = 45 ∧ later.head? = some 45 then
        some ⟨((byte :: later).takeWhile (· != 10)).length, [], ended⟩
      else if byte = 47 ∧ later.head? = some 42 then
        (closeBlock 1 later.tail).map fun width => ⟨width + 2, [], ended⟩
      else if ended then
        none
      else if byte = 59 then
        some ⟨1, [], true⟩
      else if byte = 39 ∨ byte = 34 then
        (closeQuote byte later).map fun width => ⟨width + 1, [], false⟩
      else if byte = 36 then
        passDollar later
      else
        some (passWord byte later)

/-- The scan behind a pass. -/
def Scan.behind (scan : Scan) (p : Pass) : Scan where
  position := scan.position + p.width
  words := scan.words ++ p.words
  ended := p.ended

theorem take_length_takeWhile
    (keep : UInt8 → Bool)
    (rest : Bytes) :
    rest.take (rest.takeWhile keep).length = rest.takeWhile keep :=
  (List.prefix_iff_eq_take.mp (List.takeWhile_prefix keep)).symm

/-- The bytes between two positions. -/
theorem slice_of_drop
    {sql : Bytes}
    {i : Nat}
    {rest : Bytes}
    (suffix : sql.drop i = rest)
    (n : Nat) :
    (sql.take (i + n)).drop i = rest.take n := by
  rw [List.drop_take, suffix, Nat.add_sub_cancel_left]

theorem length_le_of_drop
    {sql : Bytes}
    {i : Nat}
    {rest : Bytes}
    (suffix : sql.drop i = rest) :
    rest.length ≤ sql.length := by
  rw [← suffix, List.length_drop]
  exact Nat.sub_le _ _

theorem scanWord_eq
    {sql : Bytes}
    {scan : Scan}
    (inRange : scan.position < sql.length)
    (unended : scan.ended = false)
    {byte : UInt8}
    {later : Bytes}
    (suffix : sql.drop scan.position = byte :: later) :
    scanWord sql scan inRange = scan.behind (passWord byte later) := by
  have stops :=
    advanceWhile_eq isWordByte suffix (length_le_of_drop suffix)
  unfold scanWord passWord
  simp only [get_of_drop suffix inRange, stops, slice_of_drop suffix,
    take_length_takeWhile]
  split
  · simp [Scan.behind, unended]
  · simp [Scan.behind, unended]

theorem scanDollar_eq
    {sql : Bytes}
    {scan : Scan}
    (inRange : scan.position < sql.length)
    (unended : scan.ended = false)
    {later : Bytes}
    (suffix : sql.drop scan.position = 36 :: later) :
    scanDollar sql scan inRange = (passDollar later).map scan.behind := by
  have next := drop_add_of_drop suffix 1
  have stops :=
    advanceWhile_eq isWordByte next (length_le_of_drop next)
  unfold scanDollar passDollar
  simp only [List.drop_succ_cons, List.drop_zero] at stops next
  rw [stops]
  generalize tagged : later.takeWhile isWordByte = tag
  have isTag : later.take tag.length = tag := by
    rw [← tagged]
    exact take_length_takeWhile isWordByte later
  have behind :
      sql.drop (scan.position + 1 + tag.length) = later.drop tag.length :=
    drop_add_of_drop next tag.length
  have closing :
      sql[scan.position + 1 + tag.length]? = (later.drop tag.length).head? := by
    rw [← List.head?_drop, behind]
  simp only [closing]
  by_cases dollar : (later.drop tag.length).head? = some 36
  · rw [if_pos dollar, if_pos dollar]
    have shape := List.take_append_drop tag.length later
    rw [isTag] at shape
    have cell := List.eq_cons_of_mem_head? dollar
    generalize (later.drop tag.length).tail = after at cell ⊢
    rw [cell] at behind shape
    have position : scan.position + 1 + tag.length + 1 =
        scan.position + (tag.length + 2) := by omega
    have delim :
        (sql.take (scan.position + 1 + tag.length + 1)).drop scan.position =
          36 :: tag ++ [36] := by
      rw [position, slice_of_drop suffix, ← shape, List.take_succ_cons,
        List.take_append, List.take_of_length_le (by omega)]
      simp
    have content : sql.drop (scan.position + 1 + tag.length + 1) = after :=
      drop_add_of_drop behind 1
    simp only [delim, content, closeDollar]
    cases windowPosition after (36 :: tag ++ [36]) with
    | none =>
        rfl
    | some n =>
        simp [Scan.behind, unended]
        omega
  · rw [if_neg dollar, if_neg dollar, scanWord_eq inRange unended suffix]
    simp [passWord, isAsciiAlphabetic]

/-- One pass of the main loop depends on the rest of the text only. -/
theorem scanStep_eq
    {sql : Bytes}
    {scan : Scan}
    (inRange : scan.position < sql.length) :
    scanStep sql scan inRange =
      (passOn scan.ended (sql.drop scan.position)).map scan.behind := by
  have dashes : ascii "--" = [45, 45] := by decide
  have opens : ascii "/*" = [47, 42] := by decide
  cases suffix : sql.drop scan.position with
  | nil =>
      exact absurd (List.drop_eq_nil_iff.mp suffix) (Nat.not_le.mpr inRange)
  | cons byte later =>
      have comment := advanceWhile_eq (· != 10) suffix (length_le_of_drop suffix)
      have behindOpener := drop_add_of_drop suffix 2
      have block :=
        @blockComment_stops sql sql.length (scan.position + 2) 1 _ behindOpener
          (length_le_of_drop behindOpener)
      have behindQuote := drop_add_of_drop suffix 1
      have quoted :=
        quotedText_stops byte behindQuote (length_le_of_drop behindQuote)
      simp only [List.drop_succ_cons, List.drop_zero, List.drop_one]
        at block quoted
      unfold scanStep passOn
      simp only [get_of_drop suffix inRange, startsWith_pair dashes suffix,
        startsWith_pair opens suffix, List.head?_cons, List.tail_cons,
        Option.some.injEq, comment]
      by_cases blank : isAsciiWhitespace byte = true
      · rw [if_pos blank, if_pos blank]
        simp [Scan.behind]
      rw [if_neg blank, if_neg blank]
      by_cases dashed : byte = 45 ∧ later.head? = some 45
      · rw [if_pos dashed, if_pos dashed]
        simp [Scan.behind]
      rw [if_neg dashed, if_neg dashed]
      by_cases opened : byte = 47 ∧ later.head? = some 42
      · rw [if_pos opened, if_pos opened]
        cases closed : closeBlock 1 later.tail with
        | none =>
            rw [if_pos (Nat.pos_of_ne_zero (block.runsOut closed))]
            rfl
        | some width =>
            rw [block.closes width closed, Nat.add_assoc, Nat.add_comm 2]
            simp [Scan.behind]
      rw [if_neg opened, if_neg opened]
      cases unended : scan.ended with
      | true =>
          rfl
      | false =>
          rw [if_neg Bool.false_ne_true, if_neg Bool.false_ne_true]
          by_cases semicolon : byte = 59
          · rw [if_pos semicolon, if_pos semicolon]
            simp [Scan.behind]
          rw [if_neg semicolon, if_neg semicolon]
          by_cases quotes : byte = 39 ∨ byte = 34
          · rw [if_pos quotes, if_pos quotes]
            cases closed : closeQuote byte later with
            | none =>
                rw [if_neg (quoted.runsOut closed)]
                rfl
            | some width =>
                rw [quoted.closes width closed, Nat.add_assoc, Nat.add_comm 1]
                simp [Scan.behind]
          rw [if_neg quotes, if_neg quotes]
          by_cases dollar : byte = 36
          · rw [if_pos dollar, if_pos dollar]
            subst dollar
            exact scanDollar_eq inRange unended suffix
          rw [if_neg dollar, if_neg dollar, scanWord_eq inRange unended suffix]
          rfl

theorem length_takeWhile_pos
    {keep : UInt8 → Bool}
    {byte : UInt8}
    (kept : keep byte = true)
    (later : Bytes) :
    0 < ((byte :: later).takeWhile keep).length := by
  simp [kept]

theorem isWordByte_of_alphabetic
    {byte : UInt8}
    (alphabetic : isAsciiAlphabetic byte = true) :
    isWordByte byte = true := by
  simp [isWordByte, isAsciiAlphanumeric, alphabetic]

/-- Every pass moves forward. -/
theorem pass_width
    {ended : Bool}
    {rest : Bytes}
    {p : Pass}
    (passes : passOn ended rest = some p) :
    0 < p.width := by
  unfold passOn at passes
  match rest with
  | [] =>
      cases passes
  | byte :: later =>
      simp only at passes
      split at passes
      · cases passes
        exact Nat.one_pos
      split at passes
      · rename_i dashes
        cases passes
        exact length_takeWhile_pos (by rw [dashes.1]; decide) later
      split at passes
      · obtain ⟨width, -, rfl⟩ := Option.map_eq_some_iff.mp passes
        exact Nat.succ_pos _
      split at passes
      · cases passes
      split at passes
      · cases passes
        exact Nat.one_pos
      split at passes
      · obtain ⟨width, -, rfl⟩ := Option.map_eq_some_iff.mp passes
        exact Nat.succ_pos _
      split at passes
      · unfold passDollar at passes
        simp only at passes
        split at passes
        · obtain ⟨width, -, rfl⟩ := Option.map_eq_some_iff.mp passes
          exact Nat.add_pos_left (Nat.succ_pos _) _
        · cases passes
          exact Nat.one_pos
      · cases passes
        unfold passWord
        split
        · rename_i alphabetic
          exact length_takeWhile_pos (isWordByte_of_alphabetic alphabetic) later
        · exact Nat.one_pos

/-! ## The main loop -/

/-- The words behind a position, or nothing on an early return. -/
def wordsOf (ended : Bool) (rest : Bytes) : Option (List String) :=
  match _passes : passOn ended rest with
  | none => if rest = [] then some [] else none
  | some p => (wordsOf p.ended (rest.drop p.width)).map (p.words ++ ·)
termination_by rest.length
decreasing_by
  have forward := pass_width _passes
  cases rest with
  | nil =>
      cases _passes
  | cons byte later =>
      simp only [List.length_drop, List.length_cons]
      omega

@[simp] theorem wordsOf_nil (ended : Bool) :
    wordsOf ended [] = some [] := by
  rw [wordsOf]
  rfl

theorem wordsOf_of_pass
    {ended : Bool}
    {rest : Bytes}
    {p : Pass}
    (passes : passOn ended rest = some p) :
    wordsOf ended rest =
      (wordsOf p.ended (rest.drop p.width)).map (p.words ++ ·) := by
  rw [wordsOf]
  split
  · rename_i stuck
    rw [passes] at stuck
    cases stuck
  · rename_i q same
    rw [passes, Option.some.injEq] at same
    rw [same]

theorem wordsOf_of_stuck
    {ended : Bool}
    {rest : Bytes}
    (remains : rest ≠ [])
    (stuck : passOn ended rest = none) :
    wordsOf ended rest = none := by
  rw [wordsOf]
  split
  · exact if_neg remains
  · rename_i p passes
    rw [stuck] at passes
    cases passes

/-- With enough fuel the main loop collects the words behind its position. -/
theorem scanLoop_eq
    {sql : Bytes}
    {fuel : Nat}
    {scan : Scan}
    (enough : sql.length ≤ scan.position + fuel) :
    scanLoop sql fuel scan =
      (wordsOf scan.ended (sql.drop scan.position)).map (scan.words ++ ·) := by
  induction fuel generalizing scan with
  | zero =>
      have outside : sql.length ≤ scan.position := enough
      rw [List.drop_eq_nil_of_le outside, wordsOf_nil]
      simp [scanLoop]
  | succ fuel inductionHypothesis =>
      unfold scanLoop
      by_cases inRange : scan.position < sql.length
      · rw [dif_pos inRange, scanStep_eq inRange]
        cases passes : passOn scan.ended (sql.drop scan.position) with
        | none =>
            have remains : sql.drop scan.position ≠ [] := by
              rw [Ne, List.drop_eq_nil_iff]
              exact Nat.not_le.mpr inRange
            rw [wordsOf_of_stuck remains passes]
            rfl
        | some p =>
            have forward := pass_width passes
            have next := @inductionHypothesis (scan.behind p)
              (by simp only [Scan.behind]; omega)
            rw [wordsOf_of_pass passes, List.drop_drop]
            refine next.trans ?_
            simp only [Scan.behind, Option.map_map]
            congr 1
            funext words
            exact List.append_assoc _ _ _
      · have outside := Nat.le_of_not_lt inRange
        rw [dif_neg inRange, List.drop_eq_nil_of_le outside, wordsOf_nil]
        simp

/-- The class of a text is the class of its words. -/
theorem classify_eq (sql : Bytes) :
    classify sql = (wordsOf false sql).elim .other classOfWords := by
  have collected :
      scanLoop sql sql.length ⟨0, [], false⟩ = wordsOf false sql := by
    rw [scanLoop_eq (Nat.le_add_left _ _)]
    simp
  unfold classify
  rw [collected]
  cases wordsOf false sql <;> rfl

end Classify

end Pgfault
