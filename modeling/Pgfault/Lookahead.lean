import Mathlib.Data.List.TakeWhile
import Pgfault.Scanner

namespace Pgfault

namespace Classify

/-!
# How far the scanner looks

A pass that skips some bytes looks at these bytes and, beyond them, only at the
next byte, or at the bytes of a dollar tag.  So two texts that go on alike behind
a common part are scanned alike up to the end of that part.
-/

/-! ## Sub-scanners -/

theorem closeBlock_two_le
    {depth width : Nat}
    {rest : Bytes}
    (closes : closeBlock (depth + 1) rest = some width) :
    2 ≤ width := by
  match rest with
  | [] =>
      cases closes
  | [_] =>
      cases closes
  | byte :: next :: later =>
      rw [closeBlock] at closes
      split at closes
      · obtain ⟨inner, -, rfl⟩ := Option.map_eq_some_iff.mp closes
        exact Nat.le_add_left 2 inner
      split at closes
      · obtain ⟨inner, -, rfl⟩ := Option.map_eq_some_iff.mp closes
        exact Nat.le_add_left 2 inner
      · obtain ⟨inner, closed, rfl⟩ := Option.map_eq_some_iff.mp closes
        exact Nat.le_succ_of_le (closeBlock_two_le closed)

theorem closeQuote_pos
    {quote : UInt8}
    {width : Nat}
    {rest : Bytes}
    (closes : closeQuote quote rest = some width) :
    0 < width := by
  match rest with
  | [] =>
      cases closes
  | [byte] =>
      rw [closeQuote] at closes
      split at closes
      · cases closes
        exact Nat.one_pos
      · cases closes
  | byte :: next :: later =>
      rw [closeQuote] at closes
      split at closes
      · obtain ⟨inner, -, rfl⟩ := Option.map_eq_some_iff.mp closes
        exact Nat.succ_pos _
      split at closes
      · split at closes
        · obtain ⟨inner, -, rfl⟩ := Option.map_eq_some_iff.mp closes
          exact Nat.succ_pos _
        · cases closes
          exact Nat.one_pos
      · obtain ⟨inner, -, rfl⟩ := Option.map_eq_some_iff.mp closes
        exact Nat.succ_pos _

theorem map_add_eq_some
    {closed : Option Nat}
    {n width : Nat} :
    closed.map (· + n) = some (width + n) ↔ closed = some width := by
  cases closed with
  | none =>
      simp
  | some inner =>
      simp

/-- A block comment is closed by its own bytes. -/
theorem closeBlock_local
    {depth : Nat}
    {x : Bytes}
    (u v : Bytes)
    (closes : closeBlock depth (x ++ u) = some x.length) :
    closeBlock depth (x ++ v) = some x.length := by
  fun_induction closeBlock depth x with
  | case1 x =>
      simp only [closeBlock] at closes ⊢
      exact closes
  | case2 depth =>
      have two := closeBlock_two_le closes
      simp at two
  | case3 depth byte =>
      have two := closeBlock_two_le closes
      simp at two
  | case4 depth byte next later opens inductionHypothesis =>
      simp only [List.cons_append, closeBlock, if_pos opens, List.length_cons,
        map_add_eq_some] at closes ⊢
      exact inductionHypothesis closes
  | case5 depth byte next later noOpen closing inductionHypothesis =>
      simp only [List.cons_append, closeBlock, if_neg noOpen, if_pos closing,
        List.length_cons, map_add_eq_some] at closes ⊢
      exact inductionHypothesis closes
  | case6 depth byte next later noOpen noClose inductionHypothesis =>
      simp only [List.cons_append, closeBlock, if_neg noOpen, if_neg noClose,
        List.length_cons, map_add_eq_some] at closes ⊢
      exact inductionHypothesis closes

/-- When a quoted text is closed by the first byte. -/
theorem closeQuote_one
    {quote byte : UInt8}
    {u : Bytes} :
    closeQuote quote (byte :: u) = some 1 ↔
      byte ≠ 92 ∧ byte = quote ∧ u.head? ≠ some quote := by
  have longer (n : Nat) (rest : Bytes) :
      (closeQuote quote rest).map (· + (n + 1)) ≠ some 1 := by
    intro closes
    obtain ⟨inner, closed, sum⟩ := Option.map_eq_some_iff.mp closes
    have pos := closeQuote_pos closed
    omega
  match u with
  | [] =>
      rw [closeQuote]
      split
      · rename_i both
        exact iff_of_true rfl ⟨both.1, both.2, by simp⟩
      · rename_i other
        exact iff_of_false (by simp) fun all => other ⟨all.1, all.2.1⟩
  | next :: later =>
      rw [closeQuote]
      by_cases escapes : byte = 92
      · rw [if_pos escapes]
        exact iff_of_false (longer 1 later) fun all => all.1 escapes
      · rw [if_neg escapes]
        by_cases quotes : byte = quote
        · rw [if_pos quotes]
          by_cases doubled : next = quote
          · rw [if_pos doubled]
            refine iff_of_false (longer 1 later) fun all => all.2.2 ?_
            rw [doubled]
            rfl
          · rw [if_neg doubled]
            refine iff_of_true rfl ⟨escapes, quotes, ?_⟩
            simpa using doubled
        · rw [if_neg quotes]
          exact iff_of_false (longer 0 _) fun all => quotes all.2.1

/-- A quoted text is closed by its own bytes and a byte that is no quote. -/
theorem closeQuote_local
    {quote : UInt8}
    {x u v : Bytes}
    (alike : u.head? = some quote ↔ v.head? = some quote)
    (closes : closeQuote quote (x ++ u) = some x.length) :
    closeQuote quote (x ++ v) = some x.length := by
  match x with
  | [] =>
      exact absurd (closeQuote_pos closes) (Nat.lt_irrefl 0)
  | [byte] =>
      rw [List.singleton_append, List.length_singleton, closeQuote_one]
        at closes ⊢
      obtain ⟨plain, quotes, single⟩ := closes
      exact ⟨plain, quotes, fun doubled => single (alike.mpr doubled)⟩
  | byte :: next :: later =>
      rw [List.cons_append, List.cons_append, closeQuote] at closes ⊢
      by_cases escapes : byte = 92
      · rw [if_pos escapes, List.length_cons, List.length_cons] at closes ⊢
        rw [map_add_eq_some] at closes ⊢
        exact closeQuote_local alike closes
      · rw [if_neg escapes] at closes ⊢
        by_cases quotes : byte = quote
        · rw [if_pos quotes] at closes ⊢
          by_cases doubled : next = quote
          · rw [if_pos doubled, List.length_cons, List.length_cons] at closes ⊢
            rw [map_add_eq_some] at closes ⊢
            exact closeQuote_local alike closes
          · rw [if_neg doubled] at closes
            simp at closes
        · rw [if_neg quotes, List.length_cons] at closes ⊢
          rw [map_add_eq_some, ← List.cons_append] at closes ⊢
          exact closeQuote_local alike closes

/-- The first window is found in the bytes up to its end. -/
theorem windowPosition_local
    {delim x : Bytes}
    {n : Nat}
    (u v : Bytes)
    (inside : n + delim.length ≤ x.length)
    (found : windowPosition (x ++ u) delim = some n) :
    windowPosition (x ++ v) delim = some n := by
  have same (m : Nat) (bound : m ≤ n) :
      ((x ++ u).drop m).take delim.length =
        ((x ++ v).drop m).take delim.length := by
    have short : m ≤ x.length := by omega
    rw [List.drop_append_of_le_length short, List.drop_append_of_le_length short]
    rw [List.take_append_of_le_length, List.take_append_of_le_length]
    · rw [List.length_drop]
      omega
    · rw [List.length_drop]
      omega
  unfold windowPosition at found ⊢
  rw [List.find?_range_eq_some] at found ⊢
  obtain ⟨isWindow, inRange, first⟩ := found
  refine ⟨?_, ?_, ?_⟩
  · rw [← same n (Nat.le_refl n)]
    exact isWindow
  · rw [List.mem_range] at inRange ⊢
    simp only [List.length_append] at inRange ⊢
    omega
  · intro m earlier
    rw [← same m (Nat.le_of_lt earlier)]
    exact first m earlier

/-- A run of bytes ends where a byte of another kind follows. -/
theorem takeWhile_local
    {keep : UInt8 → Bool}
    {x u v : Bytes}
    (alike : u.head?.any keep = v.head?.any keep)
    (stops : ((x ++ u).takeWhile keep).length = x.length) :
    (x ++ u).takeWhile keep = x ∧ (x ++ v).takeWhile keep = x := by
  induction x with
  | nil =>
      have none : u.takeWhile keep = [] := List.eq_nil_of_length_eq_zero stops
      refine ⟨none, ?_⟩
      cases v with
      | nil =>
          rfl
      | cons byte later =>
          have unkept : u.head?.any keep = false := by
            cases u with
            | nil =>
                rfl
            | cons other _ =>
                simpa [List.takeWhile_cons] using none
          rw [unkept] at alike
          simpa [List.takeWhile_cons] using alike.symm
  | cons byte later inductionHypothesis =>
      cases kept : keep byte with
      | false =>
          simp [kept] at stops
      | true =>
          simp only [List.cons_append, List.takeWhile_cons, kept, if_true,
            List.length_cons, Nat.add_right_cancel_iff] at stops ⊢
          obtain ⟨first, second⟩ := inductionHypothesis stops
          exact ⟨by rw [first], by rw [second]⟩

/-! ## One pass -/

/-- Two texts that look the same to a pass that stops right before them. -/
structure Alike (u v : Bytes) : Prop where
  quote : u.head? = some 39 ↔ v.head? = some 39
  doubleQuote : u.head? = some 34 ↔ v.head? = some 34
  star : u.head? = some 42 ↔ v.head? = some 42
  dash : u.head? = some 45 ↔ v.head? = some 45
  word : u.head?.any isWordByte = v.head?.any isWordByte
  tag :
    (u.dropWhile isWordByte).head? = some 36 ↔
      (v.dropWhile isWordByte).head? = some 36

/-- What looks alike does so behind a common text. -/
theorem Alike.append
    {u v : Bytes}
    (alike : Alike u v)
    (x : Bytes) :
    Alike (x ++ u) (x ++ v) := by
  have tag :
      ((x ++ u).dropWhile isWordByte).head? = some 36 ↔
        ((x ++ v).dropWhile isWordByte).head? = some 36 := by
    rw [List.dropWhile_append, List.dropWhile_append]
    cases rest : x.dropWhile isWordByte with
    | nil =>
        exact alike.tag
    | cons byte later =>
        exact Iff.rfl
  cases x with
  | nil =>
      exact alike
  | cons byte later =>
      exact ⟨Iff.rfl, Iff.rfl, Iff.rfl, Iff.rfl, rfl, tag⟩

theorem drop_length_takeWhile
    (keep : UInt8 → Bool)
    (rest : Bytes) :
    rest.drop (rest.takeWhile keep).length = rest.dropWhile keep := by
  have cut := @List.drop_left _ (rest.takeWhile keep) (rest.dropWhile keep)
  rw [List.takeWhile_append_dropWhile] at cut
  exact cut

/-- The dollar-quote rule behind a tag. -/
theorem passDollar_tagged
    {tag : Bytes}
    (isTag : ∀ byte ∈ tag, isWordByte byte = true)
    (after : Bytes) :
    passDollar (tag ++ 36 :: after) =
      (closeDollar (36 :: tag ++ [36]) after).map fun width =>
        ⟨(36 :: tag ++ [36]).length + width, [], false⟩ := by
  have read : (tag ++ 36 :: after).takeWhile isWordByte = tag := by
    rw [List.takeWhile_append_of_pos isTag]
    simp [isWordByte, isAsciiAlphanumeric, isAsciiAlphabetic]
  unfold passDollar
  simp only [read, List.drop_left]
  rfl

/-- The dollar-quote rule without a tag. -/
theorem passDollar_untagged
    {later : Bytes}
    (untagged : (later.dropWhile isWordByte).head? ≠ some 36) :
    passDollar later = some ⟨1, [], false⟩ := by
  unfold passDollar
  simp only [drop_length_takeWhile]
  rw [if_neg untagged]

/-- A text with a tag in front. -/
theorem tagged_of_head?
    {later : Bytes}
    (tagged : (later.dropWhile isWordByte).head? = some 36) :
    ∃ tag after, later = tag ++ 36 :: after ∧
      ∀ byte ∈ tag, isWordByte byte = true := by
  have split := List.takeWhile_append_dropWhile (p := isWordByte) (l := later)
  rw [List.eq_cons_of_mem_head? tagged] at split
  have isTag := @List.all_takeWhile _ isWordByte later
  exact ⟨_, _, split.symm, List.all_eq_true.mp isTag⟩

/-- The dollar-quote rule looks at its own bytes and, without a tag, at one. -/
theorem passDollar_local
    {x u v : Bytes}
    (alike : Alike u v)
    {p : Pass}
    (passes : passDollar (x ++ u) = some p)
    (width : p.width = x.length + 1) :
    passDollar (x ++ v) = some p := by
  by_cases tagged : ((x ++ u).dropWhile isWordByte).head? = some 36
  · obtain ⟨tag, after, shape, isTag⟩ := tagged_of_head? tagged
    rw [shape, passDollar_tagged isTag] at passes
    obtain ⟨inner, closes, rfl⟩ := Option.map_eq_some_iff.mp passes
    obtain ⟨n, found, isInner⟩ := Option.map_eq_some_iff.mp closes
    simp only [List.length_append, List.length_cons, List.length_nil]
      at width isInner
    rcases List.append_eq_append_iff.mp shape with
        ⟨more, isTagged, -⟩ | ⟨cell, isX, isAfter⟩
    · have longer := congrArg List.length isTagged
      rw [List.length_append] at longer
      omega
    · cases cell with
      | nil =>
          have short := congrArg List.length isX
          rw [List.append_nil] at short
          omega
      | cons dollar body =>
          rw [List.cons_append, List.cons.injEq] at isAfter
          obtain ⟨rfl, rfl⟩ := isAfter
          subst isX
          rw [List.append_assoc, List.cons_append, passDollar_tagged isTag,
            closeDollar, windowPosition_local u v _ found]
          · simp only [Option.map_some, ← isInner]
            simp
          · simp only [List.length_append, List.length_cons, List.length_nil]
              at width ⊢
            omega
  · rw [passDollar_untagged tagged] at passes
    cases passes
    have empty : x = [] :=
      List.eq_nil_of_length_eq_zero (Nat.succ.inj width).symm
    subst empty
    exact passDollar_untagged fun found => tagged (alike.tag.mpr found)

/-- A common text in front hides the difference. -/
theorem head?_append_iff
    {u v : Bytes}
    {byte : UInt8}
    (alike : u.head? = some byte ↔ v.head? = some byte)
    (x : Bytes) :
    (x ++ u).head? = some byte ↔ (x ++ v).head? = some byte := by
  cases x with
  | nil =>
      exact alike
  | cons first later =>
      exact Iff.rfl

/-- A text with a second byte. -/
theorem cons_of_head?_append
    {x u : Bytes}
    {byte : UInt8}
    (second : (x ++ u).head? = some byte)
    (longer : x.length ≠ 0) :
    ∃ later, x = byte :: later := by
  cases x with
  | nil =>
      exact absurd rfl longer
  | cons first later =>
      rw [List.cons_append, List.head?_cons, Option.some.injEq] at second
      exact ⟨later, by rw [second]⟩

/--
A pass is the same on two texts that go on alike behind the bytes it skips.  Only
a line comment looks for its end, so behind one the next byte has to be the same.
-/
theorem pass_local
    {ended : Bool}
    {x u v : Bytes}
    (alike : Alike u v)
    (comment :
      x.head? = some 45 → x.tail.head? = some 45 → u.head? = v.head?)
    {p : Pass}
    (passes : passOn ended (x ++ u) = some p)
    (width : p.width = x.length) :
    passOn ended (x ++ v) = some p := by
  have forward := pass_width passes
  cases x with
  | nil =>
      rw [width] at forward
      exact absurd forward (Nat.lt_irrefl 0)
  | cons byte x =>
      rw [List.cons_append, passOn] at passes ⊢
      rw [List.length_cons] at width
      simp only [← head?_append_iff alike.dash x,
        ← head?_append_iff alike.star x]
      split at passes
      · rename_i blank
        rw [if_pos blank]
        exact passes
      rename_i visible
      rw [if_neg visible]
      split at passes
      · rename_i dashes
        rw [if_pos dashes]
        cases passes
        change ((byte :: (x ++ u)).takeWhile (· != 10)).length = x.length + 1
          at width
        have two :
            2 ≤ ((byte :: (x ++ u)).takeWhile (· != 10)).length := by
          rw [dashes.1, List.eq_cons_of_mem_head? dashes.2]
          simp
        obtain ⟨later, rfl⟩ :=
          cons_of_head?_append dashes.2 fun empty => by
            rw [width, empty] at two
            exact absurd two (by decide)
        have next := comment (by rw [dashes.1]; rfl) rfl
        have stops :=
          @takeWhile_local (· != 10) (byte :: 45 :: later) u v (by rw [next])
            width
        simp only [List.cons_append] at stops ⊢
        rw [stops.1, stops.2]
      rename_i undashed
      rw [if_neg undashed]
      split at passes
      · rename_i opens
        rw [if_pos opens]
        obtain ⟨inner, closes, rfl⟩ := Option.map_eq_some_iff.mp passes
        have isInner : inner + 1 = x.length := Nat.succ.inj width
        obtain ⟨body, rfl⟩ :=
          cons_of_head?_append opens.2 (by rw [← isInner]; nofun)
        rw [List.cons_append, List.tail_cons, Nat.succ.inj isInner] at closes
        rw [List.cons_append, List.tail_cons, closeBlock_local u v closes,
          Nat.succ.inj isInner]
        rfl
      rename_i unopened
      rw [if_neg unopened]
      split at passes
      · cases passes
      rename_i unended
      rw [if_neg unended]
      split at passes
      · rename_i semicolon
        rw [if_pos semicolon]
        exact passes
      rename_i other
      rw [if_neg other]
      split at passes
      · rename_i quotes
        rw [if_pos quotes]
        obtain ⟨inner, closes, rfl⟩ := Option.map_eq_some_iff.mp passes
        have isInner : inner = x.length := Nat.succ.inj width
        have sameQuote : u.head? = some byte ↔ v.head? = some byte := by
          rcases quotes with rfl | rfl
          · exact alike.quote
          · exact alike.doubleQuote
        rw [isInner] at closes
        rw [closeQuote_local sameQuote closes, isInner]
        rfl
      rename_i unquoted
      rw [if_neg unquoted]
      split at passes
      · rename_i dollar
        rw [if_pos dollar]
        exact passDollar_local alike passes width
      rename_i plain
      rw [if_neg plain]
      cases passes
      unfold passWord at width ⊢
      split at width
      · rename_i alphabetic
        have stops := @takeWhile_local _ (byte :: x) u v alike.word width
        rw [List.cons_append, List.cons_append] at stops
        rw [if_pos alphabetic, if_pos alphabetic, stops.1, stops.2]
      · rename_i single
        rw [if_neg single, if_neg single]

/-! ## Positions the main loop reaches -/

/-- The scans that start a pass of the main loop, from some scan on. -/
def Reaches (sql : Bytes) : Scan → Scan → Prop :=
  Relation.ReflTransGen fun a b =>
    ∃ inRange, scanStep sql a inRange = some b

/-- The words of a text, from any scan the main loop reaches. -/
theorem wordsOf_of_reaches
    {sql : Bytes}
    {a b : Scan}
    (reaches : Reaches sql a b) :
    (wordsOf a.ended (sql.drop a.position)).map (a.words ++ ·) =
      (wordsOf b.ended (sql.drop b.position)).map (b.words ++ ·) := by
  induction reaches with
  | refl =>
      rfl
  | @tail b c _ step inductionHypothesis =>
      obtain ⟨inRange, moves⟩ := step
      rw [scanStep_eq inRange] at moves
      obtain ⟨p, passes, rfl⟩ := Option.map_eq_some_iff.mp moves
      rw [inductionHypothesis, wordsOf_of_pass passes, List.drop_drop]
      simp only [Option.map_map, Scan.behind]
      congr 1
      funext words
      exact (List.append_assoc _ _ _).symm

/-- A line comment skips the bytes up to a newline. -/
theorem pass_dashes
    {ended : Bool}
    {x : Bytes}
    (first : x.head? = some 45)
    (second : x.tail.head? = some 45)
    (u : Bytes) :
    passOn ended (x ++ u) =
      some ⟨((x ++ u).takeWhile (· != 10)).length, [], ended⟩ := by
  obtain ⟨later, rfl⟩ : ∃ later, x = 45 :: later :=
    ⟨_, List.eq_cons_of_mem_head? first⟩
  obtain ⟨more, rfl⟩ : ∃ more, later = 45 :: more :=
    ⟨_, List.eq_cons_of_mem_head? second⟩
  have visible : ¬ isAsciiWhitespace 45 = true := by decide
  rw [List.cons_append, passOn, if_neg visible, if_pos ⟨rfl, rfl⟩]

/--
Texts that go on alike are scanned alike up to there, unless a line comment runs
into the part where they differ.
-/
theorem Reaches.congr
    {p u v : Bytes}
    (alike : Alike u v)
    {a b : Scan}
    (reaches : Reaches (p ++ u) a b)
    (comment :
      u.head? = v.head? ∨
        ∀ scan, Reaches (p ++ u) a scan →
          startsWith p scan.position "--" = true →
          10 ∈ p.drop scan.position)
    (inside : b.position ≤ p.length) :
    Reaches (p ++ v) a b := by
  induction reaches with
  | refl =>
      exact Relation.ReflTransGen.refl
  | @tail b c earlier step inductionHypothesis =>
      obtain ⟨inRange, moves⟩ := step
      rw [scanStep_eq inRange] at moves
      obtain ⟨q, passes, rfl⟩ := Option.map_eq_some_iff.mp moves
      have forward := pass_width passes
      simp only [Scan.behind] at inside
      have short : b.position ≤ p.length := by omega
      refine (inductionHypothesis short).tail ⟨?_, ?_⟩
      · rw [List.length_append]
        omega
      rw [List.drop_append_of_le_length short] at passes
      rw [scanStep_eq, List.drop_append_of_le_length short]
      -- The bytes of this pass, and the rest of the common part.
      have split := List.take_append_drop q.width (p.drop b.position)
      have width : q.width = ((p.drop b.position).take q.width).length := by
        rw [List.length_take, List.length_drop]
        omega
      generalize (p.drop b.position).take q.width = x at split width
      generalize (p.drop b.position).drop q.width = common at split
      rw [← split, List.append_assoc] at passes ⊢
      rw [pass_local (alike.append common) ?_ passes width]
      · rfl
      · intro first second
        cases common with
        | cons byte later =>
            rfl
        | nil =>
            rcases comment with same | closed
            · exact same
            rw [List.append_nil] at split
            have dashes : ascii "--" = [45, 45] := by decide
            have newline :=
              closed b earlier
                ((startsWith_pair dashes split.symm).mpr ⟨first, second⟩)
            -- The comment would have stopped at its newline.
            rw [← split] at newline
            have runs := @pass_dashes b.ended x first second u
            rw [List.nil_append, runs, Option.some.injEq] at passes
            subst passes
            have whole := (@takeWhile_local (· != 10) x u u rfl width).1
            rw [← whole] at newline
            have visible := List.mem_takeWhile_imp newline
            exact absurd visible (by decide)

end Classify

end Pgfault
