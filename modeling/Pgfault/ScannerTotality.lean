import Mathlib.Data.List.Range
import Pgfault.CheckedScanner
import Pgfault.Framing

namespace Pgfault

open Classify Loops

namespace Checked

/-!
# The scanner ends and does not panic

Every loop of the scanner moves forward through the text from wherever it
starts.  So every inner loop ends, then every pass of the main loop, and then
the main loop.  What it returns is what `classify` returns.
-/

/-! ## Every pass of every loop -/

section

variable (sql : Bytes)

/-- The loops over comment lines, tags and words. -/
theorem forward_skip
    (keep : UInt8 → Bool)
    {start : Nat}
    (inRange : start ≤ sql.length) :
    Forward sql.length id some (skipPass sql keep) start := by
  refine forward_of_invariant (fun i => i ≤ sql.length) (fun _ held => held)
    ?_ inRange
  intro i held
  rw [skipPass_eq, Outcome.returns_value]
  split
  · next kept =>
      exact ⟨lt_length_of_any kept, Nat.lt_succ_self i⟩
  · rintro stop ⟨⟩
    exact ⟨Nat.le_refl i, held⟩

/-- The loop over a quoted text. -/
theorem forward_quote
    (quote : UInt8)
    {start : Nat}
    (inRange : start ≤ sql.length) :
    Forward sql.length id (fun r => some r.1) (quotePass sql quote) start := by
  refine forward_of_invariant (fun i => i ≤ sql.length) (fun _ held => held)
    ?_ inRange
  intro i held
  by_cases inside : i < sql.length
  · have found := List.getElem?_eq_getElem inside
    rw [quotePass_of_byte found, Outcome.returns_value]
    split
    · have skips : i < min (i + 2) sql.length := by omega
      exact ⟨Nat.min_le_right _ _, skips⟩
    · split
      · split
        · next doubled =>
            exact ⟨lt_length_of_any doubled,
              Nat.lt_add_of_pos_right (by decide)⟩
        · rintro stop ⟨⟩
          exact ⟨Nat.le_succ i, inside⟩
      · exact ⟨inside, Nat.lt_succ_self i⟩
  · rw [quotePass, if_neg inside, Outcome.pure_eq, Outcome.returns_value]
    rintro stop ⟨⟩
    exact ⟨Nat.le_refl i, held⟩

/-- The search for the end of a dollar-quoted text. -/
theorem forward_search
    (rest : Bytes)
    {delim : Bytes}
    (nonempty : delim ≠ []) :
    Forward rest.length id (fun found => found.map (· + delim.length))
      (searchPass rest delim) 0 := by
  have width := List.length_pos_of_ne_nil nonempty
  refine forward_of_invariant (fun n => n ≤ rest.length) (fun _ held => held)
    ?_ (Nat.zero_le _)
  intro n held
  rw [searchPass_eq, Outcome.returns_value]
  split
  · next fits =>
      split
      · rintro stop ⟨⟩
        exact ⟨Nat.le_add_right n _, fits⟩
      · exact ⟨by omega, Nat.lt_succ_self n⟩
  · rintro stop ⟨⟩

variable (overflow : Overflow)

/--
The loop over a block comment.  Every level of depth stands for two bytes of the
text, so the depth of a text below 4 GiB does not overflow.
-/
theorem forward_block
    (fits : overflow = .panics → sql.length < 2 ^ 32)
    {start : Nat}
    (inRange : start + 2 ≤ sql.length) :
    Forward sql.length Prod.fst (fun r => some r.1) (blockPass overflow sql)
      (start + 2, 1) := by
  refine forward_of_invariant
    (fun s : Nat × Int =>
      s.1 ≤ sql.length ∧ (overflow = .panics → 2 * s.2 ≤ s.1))
    (fun _ held => held.1) ?_ ⟨inRange, fun _ => by omega⟩
  rintro ⟨i, depth⟩ ⟨held, counted⟩
  rw [blockPass]
  by_cases inside : i < sql.length ∧ 0 < depth
  · -- Both delimiters move two bytes on and the depth by one at most.
    have delimiter
        {change : Int}
        (small : -1 ≤ change ∧ change ≤ 1)
        (two : i + 2 ≤ sql.length) :
        (addSigned 32 overflow depth change >>= fun level =>
          (.value (.next (i + 2, level)) :
            Outcome (Round (Nat × Int) (Nat × Int)))).Returns
          (Round.Meets
            (fun t =>
              (t.1 ≤ sql.length ∧ (overflow = .panics → 2 * t.2 ≤ t.1)) ∧
                i < t.1)
            (fun r => ∀ stop ∈ some r.1, i ≤ stop ∧ stop ≤ sql.length)) := by
      refine (addSigned_returns overflow ?_).bind ?_
      · intro panics
        have short := fits panics
        have level := counted panics
        omega
      · intro level sum
        refine ⟨_, rfl, ⟨two, ?_⟩, Nat.lt_add_of_pos_right (by decide)⟩
        intro panics
        have before := counted panics
        have after := sum panics
        omega
    rw [if_pos inside, startsWith_of_le held, startsWith_of_le held,
      Outcome.value_bind, Outcome.value_bind]
    split
    · next opens =>
        exact delimiter (by decide) (le_length_of_startsWith held opens)
    · split
      · next closes =>
          exact delimiter (by decide) (le_length_of_startsWith held closes)
      · refine ⟨_, rfl, ⟨inside.1, ?_⟩, Nat.lt_succ_self i⟩
        intro panics
        have before := counted panics
        omega
  · rw [if_neg inside]
    refine ⟨_, rfl, ?_⟩
    rintro stop ⟨⟩
    exact ⟨Nat.le_refl i, held⟩

/-! ## The main loop -/

/-- A pass from a scan is done or goes on behind it within the text. -/
def Onward (scan : Scan) : Round Scan (Option (List String)) → Prop :=
  Round.Meets
    (fun t => t.position ≤ sql.length ∧ scan.position < t.position)
    (fun _ => True)

/-- Skipping from a position on ends within the text. -/
theorem settles_skip
    (keep : UInt8 → Bool)
    {start : Nat}
    (inRange : start ≤ sql.length) :
    Settles sql.length (fun fuel => loop (skipPass sql keep) fuel start)
      fun stop => start ≤ stop ∧ stop ≤ sql.length := by
  refine ((forward_skip sql keep inRange).settles.mono (Nat.sub_le _ _)).imp ?_
  intro stop within
  exact within stop rfl

/-- Where the first byte is skipped, the position moves on. -/
theorem settles_skip_kept
    {keep : UInt8 → Bool}
    {start : Nat}
    (kept : sql[start]?.any keep = true) :
    Settles sql.length (fun fuel => loop (skipPass sql keep) fuel start)
      fun stop => start < stop ∧ stop ≤ sql.length := by
  have inRange := lt_length_of_any kept
  have moves : skipPass sql keep start = .value (.next (start + 1)) := by
    rw [skipPass_eq, if_pos kept]
  obtain ⟨stop, ends, within⟩ := (forward_skip sql keep inRange).settles
  refine ⟨stop, ?_, within stop rfl⟩
  intro fuel enough
  obtain ⟨less, rfl⟩ :=
    Nat.exists_eq_succ_of_ne_zero (Nat.ne_zero_of_lt enough)
  refine (loop_next moves less).trans (ends less ?_)
  simp only [id_eq]
  omega

theorem settles_word
    {scan : Scan}
    {byte : UInt8}
    (found : sql[scan.position]? = some byte) :
    Settles sql.length (fun fuel => wordPass fuel sql scan byte)
      (Onward sql scan) := by
  unfold wordPass
  refine Settles.ite ?_ ?_
  · intro letter
    have kept : sql[scan.position]?.any isWordByte = true := by
      simp [found, isWordByte, isAsciiAlphanumeric, letter]
    refine (settles_skip_kept sql kept).bind ?_
    rintro stop ⟨further, within⟩
    simp only [sliceAt_of_le (Nat.le_of_lt further) within,
      Outcome.value_bind]
    exact Settles.of_returns ⟨_, rfl, within, further⟩
  · intro _
    have inRange := (List.getElem?_eq_some_iff.mp found).1
    exact Settles.of_returns ⟨_, rfl, inRange, Nat.lt_succ_self _⟩

theorem settles_search
    {rest delim : Bytes}
    (shorter : rest.length ≤ sql.length)
    (nonempty : delim ≠ []) :
    Settles sql.length (fun fuel => windowPosition fuel rest delim)
      fun found => ∀ n ∈ found, n + delim.length ≤ rest.length := by
  have width : delim.length ≠ 0 :=
    Nat.ne_of_gt (List.length_pos_of_ne_nil nonempty)
  unfold windowPosition
  simp only [if_neg width]
  refine ((forward_search rest nonempty).settles.mono ?_).imp ?_
  · exact Nat.le_trans (Nat.sub_le _ _) shorter
  · rintro found within n rfl
    exact (within _ rfl).2

theorem settles_dollar
    {scan : Scan}
    {byte : UInt8}
    (found : sql[scan.position]? = some byte) :
    Settles sql.length (fun fuel => dollarPass fuel sql scan byte)
      (Onward sql scan) := by
  have inRange := (List.getElem?_eq_some_iff.mp found).1
  unfold dollarPass
  refine (settles_skip sql isWordByte inRange).bind ?_
  rintro j ⟨behind, -⟩
  simp only [byteIs_eq, Outcome.value_bind]
  refine Settles.ite ?_ ?_
  · intro tagged
    have inside : j + 1 ≤ sql.length := lt_length_of_any tagged
    have ordered : scan.position ≤ j + 1 := by omega
    have remains : (sql.drop (j + 1)).length = sql.length - (j + 1) :=
      List.length_drop
    have width :
        ((sql.take (j + 1)).drop scan.position).length =
          j + 1 - scan.position := by
      rw [List.length_drop, List.length_take, Nat.min_eq_left inside]
    simp only [sliceAt_of_le ordered inside, sliceFrom_of_le inside,
      Outcome.value_bind]
    refine (settles_search sql ?_ ?_).bind ?_
    · rw [remains]
      exact Nat.sub_le _ _
    · refine List.ne_nil_of_length_pos ?_
      omega
    · intro window within
      cases window with
      | none =>
          exact Settles.of_returns ⟨_, rfl, trivial⟩
      | some n =>
          have fits := within n rfl
          rw [width, remains] at fits
          refine Settles.of_returns ⟨_, rfl, ?_, ?_⟩
          · simp only [width]
            omega
          · simp only [width]
            omega
  · intro _
    exact settles_word sql found

/-- One pass of the main loop, with all loops it runs. -/
theorem settles_main
    (fits : overflow = .panics → sql.length < 2 ^ 32)
    {scan : Scan}
    (held : scan.position ≤ sql.length) :
    Settles sql.length (fun fuel => mainPass overflow fuel sql scan)
      (Onward sql scan) := by
  unfold mainPass
  refine Settles.ite ?_ ?_
  · intro inRange
    have found := List.getElem?_eq_getElem inRange
    generalize sql[scan.position] = byte at found
    have oneOn {t : Scan} (moved : t.position = scan.position + 1) :
        Settles sql.length
          (fun _ => (.value (.next t) :
            Outcome (Round Scan (Option (List String)))))
          (Onward sql scan) := by
      refine Settles.of_returns ⟨_, rfl, ?_, ?_⟩
      · rw [moved]
        exact inRange
      · rw [moved]
        exact Nat.lt_succ_self _
    have returned :
        Settles sql.length
          (fun _ => (.value (.done none) :
            Outcome (Round Scan (Option (List String)))))
          (Onward sql scan) :=
      Settles.of_returns ⟨_, rfl, trivial⟩
    simp only [indexAt_of_getElem? found, startsWith_of_le held,
      Outcome.value_bind, Outcome.pure_eq]
    refine Settles.ite (fun _ => oneOn rfl) fun _ => ?_
    refine Settles.ite ?_ fun _ => Settles.ite ?_ fun _ => ?_
    · intro dashes
      -- The first dash is no line end, so the comment loop passes it.
      have spelled : ascii "--" = [45, 45] := by decide
      have dash := getElem?_of_startsWith spelled dashes
      have kept : sql[scan.position]?.any (· != 10) = true := by
        rw [dash]
        rfl
      refine (settles_skip_kept sql kept).bind ?_
      rintro stop ⟨further, within⟩
      exact Settles.of_returns ⟨_, rfl, within, further⟩
    · intro opens
      have two : scan.position + 2 ≤ sql.length :=
        le_length_of_startsWith held opens
      refine ((forward_block sql overflow fits two).settles.mono
        (Nat.sub_le _ _)).bind ?_
      intro stop inside
      obtain ⟨behind, within⟩ := inside stop.1 rfl
      refine Settles.ite (fun _ => returned) fun _ => ?_
      refine Settles.of_returns ⟨_, rfl, within, ?_⟩
      exact Nat.lt_of_lt_of_le (Nat.lt_add_of_pos_right (by decide)) behind
    · refine Settles.ite (fun _ => returned) fun _ => ?_
      refine Settles.ite (fun _ => oneOn rfl) fun _ => ?_
      refine Settles.ite ?_ fun _ => ?_
      · intro _
        refine ((forward_quote sql byte inRange).settles.mono
          (Nat.sub_le _ _)).bind ?_
        intro stop inside
        obtain ⟨behind, within⟩ := inside stop.1 rfl
        exact Settles.ite
          (fun _ => Settles.of_returns ⟨_, rfl, within, behind⟩)
          fun _ => returned
      · exact Settles.ite (fun _ => settles_dollar sql found)
          fun _ => settles_word sql found
  · intro _
    exact Settles.of_returns ⟨_, rfl, trivial⟩

/-- The main loop moves forward through the text. -/
theorem forward_main
    (fits : overflow = .panics → sql.length < 2 ^ 32)
    {fuel : Nat}
    (enough : sql.length < fuel) :
    Forward sql.length Scan.position (fun _ => none)
      (mainPass overflow fuel sql) ⟨0, [], false⟩ := by
  refine forward_of_invariant (fun scan : Scan => scan.position ≤ sql.length)
    (fun _ held => held) ?_ (Nat.zero_le _)
  intro scan held
  refine ((settles_main sql overflow fits held).returns enough).imp ?_
  intro round onward
  cases round with
  | next t =>
      exact onward
  | done r =>
      intro stop leaves
      cases leaves

theorem settles_classify
    (fits : overflow = .panics → sql.length < 2 ^ 32) :
    Settles sql.length (fun fuel => classify overflow fuel sql)
      fun _ => True := by
  have same :
      ∀ scan : Scan, scan.position ≤ sql.length → ∀ fuel, sql.length < fuel →
        mainPass overflow fuel sql scan =
          mainPass overflow (sql.length + 1) sql scan :=
    fun scan held fuel enough =>
      (settles_main sql overflow fits held).congr enough (Nat.lt_succ_self _)
  have ends :=
    settles_loop (forward_main sql overflow fits (Nat.lt_succ_self _)) same
  unfold classify
  refine ends.bind ?_
  intro words _
  cases words with
  | none =>
      exact Settles.of_returns ⟨_, rfl, trivial⟩
  | some words =>
      exact Settles.of_returns ⟨_, rfl, trivial⟩

end

/--
The scanner on a text, with all it takes to end: every pass of every loop stays
in the text, moves forward and does not panic, and the whole ends with a class.
-/
structure Total (overflow : Overflow) (sql : Bytes) : Prop where
  main :
    ∀ fuel, sql.length < fuel →
      Forward sql.length Scan.position (fun _ => none)
        (mainPass overflow fuel sql) ⟨0, [], false⟩
  /-- Comment lines, dollar tags and words. -/
  skip :
    ∀ keep start, start ≤ sql.length →
      Forward sql.length id some (skipPass sql keep) start
  block :
    ∀ start, start + 2 ≤ sql.length →
      Forward sql.length Prod.fst (fun r => some r.1) (blockPass overflow sql)
        (start + 2, 1)
  quote :
    ∀ quote start, start ≤ sql.length →
      Forward sql.length id (fun r => some r.1) (quotePass sql quote) start
  search :
    ∀ rest delim, delim ≠ [] →
      Forward rest.length id (fun found => found.map (· + delim.length))
        (searchPass rest delim) 0
  returns :
    ∃ statementClass, ∀ fuel, sql.length < fuel →
      classify overflow fuel sql = .value statementClass

theorem total_of_fits
    {overflow : Overflow}
    {sql : Bytes}
    (fits : overflow = .panics → sql.length < 2 ^ 32) :
    Total overflow sql where
  main fuel enough := forward_main sql overflow fits enough
  skip keep start inRange := forward_skip sql keep inRange
  block start inRange := forward_block sql overflow fits inRange
  quote quote start inRange := forward_quote sql quote inRange
  search rest delim nonempty := forward_search rest nonempty
  returns := by
    obtain ⟨statementClass, ends, -⟩ := settles_classify sql overflow fits
    exact ⟨statementClass, ends⟩

/--
The scanner is total.  Where overflow wraps, as in a release build, this holds of
every text.  Where it panics, the comment depth is safe in every text below
4 GiB, and a frame carries 64 MiB at most.
-/
theorem classify_total (sql : Bytes) :
    Total .wraps sql ∧ (sql.length < 2 ^ 32 → Total .panics sql) := by
  constructor
  · refine total_of_fits ?_
    intro wraps
    cases wraps
  · intro short
    exact total_of_fits fun _ => short

/-- A text that is cut off behind a backslash. -/
theorem classify_total_cutOff :
    Total .panics (ascii "SELECT /* a */ $a$ 'b\\") :=
  (classify_total _).2 (by decide)

/-- No text in a frame that the proxy decodes makes the scanner panic. -/
theorem total_of_decode
    {buffer rest : Bytes}
    {f : Frame}
    (taken : decode buffer = (.ok (some f), rest))
    {sql : Bytes}
    (inside : sql <:+: f.body)
    (overflow : Overflow) :
    Total overflow sql := by
  have bound := (frame_of_decode taken).2
  unfold MAX_FRAME at bound
  have shorter := inside.length_le
  refine total_of_fits ?_
  intro _
  omega

/-! ## The class it returns -/

section

variable {sql : Bytes} {fuel : Nat}

theorem any_beq_iff {found : Option UInt8} {byte : UInt8} :
    found.any (· == byte) = true ↔ found = some byte := by
  cases found <;> simp

theorem exists_succ_of_lt
    {i length n : Nat}
    (inRange : i < length)
    (deep : length - i ≤ n) :
    ∃ m, n = m + 1 :=
  Nat.exists_eq_succ_of_ne_zero (by omega)

theorem loop_skip
    (enough : sql.length < fuel)
    (keep : UInt8 → Bool)
    (i : Nat) :
    loop (skipPass sql keep) fuel i =
      .value (advanceWhile sql keep sql.length i) := by
  have near := Nat.sub_le sql.length i
  refine loop_simulates sql.length id (fun _ => True)
    (advanceWhile sql keep) ?_ trivial (Nat.lt_of_le_of_lt near enough) near
  intro i n _ deep
  rw [skipPass_eq]
  by_cases kept : sql[i]?.any keep = true
  · left
    have inRange := lt_length_of_any kept
    obtain ⟨m, rfl⟩ := exists_succ_of_lt inRange deep
    refine ⟨i + 1, m, by rw [if_pos kept], rfl, trivial, Nat.lt_succ_self i,
      inRange, ?_⟩
    rw [List.getElem?_eq_getElem inRange] at kept
    rw [advanceWhile, dif_pos inRange]
    exact if_pos kept
  · right
    rw [if_neg kept]
    cases n with
    | zero =>
        rfl
    | succ m =>
        rw [advanceWhile]
        split
        · next inRange =>
            rw [List.getElem?_eq_getElem inRange] at kept
            rw [if_neg]
            exact kept
        · rfl

theorem loop_quote
    (enough : sql.length < fuel)
    (quote : UInt8)
    (i : Nat) :
    loop (quotePass sql quote) fuel i =
      .value (quotedText sql quote sql.length i) := by
  have near := Nat.sub_le sql.length i
  refine loop_simulates sql.length id (fun _ => True)
    (quotedText sql quote) ?_ trivial (Nat.lt_of_le_of_lt near enough) near
  intro i n _ deep
  by_cases inRange : i < sql.length
  · obtain ⟨m, rfl⟩ := exists_succ_of_lt inRange deep
    have found := List.getElem?_eq_getElem inRange
    have read : sql.get ⟨i, inRange⟩ = sql[i] := rfl
    rw [quotePass_of_byte found, quotedText, dif_pos inRange, read]
    by_cases escapes : sql[i] = 92
    · left
      rw [if_pos escapes, if_pos escapes]
      have skips : i < min (i + 2) sql.length := by omega
      exact ⟨_, m, rfl, rfl, trivial, skips, Nat.min_le_right _ _, rfl⟩
    · rw [if_neg escapes, if_neg escapes]
      by_cases quotes : sql[i] = quote
      · rw [if_pos quotes, if_pos quotes]
        by_cases doubled : sql[i + 1]? = some quote
        · left
          have two := (List.getElem?_eq_some_iff.mp doubled).1
          rw [if_pos (any_beq_iff.mpr doubled), if_pos doubled]
          exact ⟨_, m, rfl, rfl, trivial, Nat.lt_add_of_pos_right (by decide),
            two, rfl⟩
        · right
          rw [if_neg (mt any_beq_iff.mp doubled), if_neg doubled]
      · left
        rw [if_neg quotes, if_neg quotes]
        exact ⟨_, m, rfl, rfl, trivial, Nat.lt_succ_self i, inRange, rfl⟩
  · right
    rw [quotePass, if_neg inRange]
    cases n with
    | zero =>
        rfl
    | succ m =>
        rw [quotedText, dif_neg inRange]
        rfl

/-- Below 4 GiB the depth does not overflow, in either build profile. -/
theorem loop_block
    (short : sql.length < 2 ^ 32)
    (enough : sql.length < fuel)
    (overflow : Overflow)
    {i : Nat}
    (depth : Nat)
    (inRange : i ≤ sql.length)
    (counted : 2 * depth ≤ i) :
    loop (blockPass overflow sql) fuel (i, (depth : Int)) =
      .value ((blockComment sql sql.length i depth).1,
        ((blockComment sql sql.length i depth).2 : Int)) := by
  have near := Nat.sub_le sql.length i
  refine loop_simulates sql.length Prod.fst
    (fun s : Nat × Int =>
      s.1 ≤ sql.length ∧ ∃ level : Nat, s.2 = level ∧ 2 * level ≤ s.1)
    (fun n s =>
      ((blockComment sql n s.1 s.2.toNat).1,
        ((blockComment sql n s.1 s.2.toNat).2 : Int)))
    ?_ ⟨inRange, depth, rfl, counted⟩ (Nat.lt_of_le_of_lt near enough) near
  rintro ⟨i, -⟩ n ⟨held, level, rfl, counted⟩ deep
  simp only [Int.toNat_natCast] at deep ⊢
  have adds {change : Int} (small : -1 ≤ change ∧ change ≤ 1)
      (two : i + 2 ≤ sql.length) :
      addSigned 32 overflow level change = .value (level + change) :=
    if_pos (by omega)
  rw [blockPass]
  by_cases inside : i < sql.length ∧ 0 < level
  · left
    obtain ⟨m, rfl⟩ := exists_succ_of_lt inside.1 deep
    have isDeep : i < sql.length ∧ 0 < (level : Int) := by omega
    rw [if_pos isDeep, blockComment, if_pos inside, startsWith_of_le held,
      startsWith_of_le held, Outcome.value_bind, Outcome.value_bind]
    by_cases opens : Classify.startsWith sql i "/*" = true
    · have two : i + 2 ≤ sql.length := le_length_of_startsWith held opens
      rw [if_pos opens, if_pos opens, adds (by decide) two]
      refine ⟨_, m, rfl, rfl, ⟨two, level + 1, by simp, ?_⟩,
        Nat.lt_add_of_pos_right (by decide), two, by simp⟩
      simp only
      omega
    · rw [if_neg opens, if_neg opens]
      by_cases closes : Classify.startsWith sql i "*/" = true
      · have two : i + 2 ≤ sql.length := le_length_of_startsWith held closes
        have higher : (level : Int) + -1 = ((level - 1 : Nat) : Int) := by
          omega
        rw [if_pos closes, if_pos closes, adds (by decide) two, higher]
        refine ⟨_, m, rfl, rfl, ⟨two, level - 1, rfl, ?_⟩,
          Nat.lt_add_of_pos_right (by decide), two, by simp⟩
        simp only
        omega
      · rw [if_neg closes, if_neg closes]
        refine ⟨_, m, rfl, rfl, ⟨inside.1, level, rfl, ?_⟩, Nat.lt_succ_self i,
          inside.1, by simp⟩
        exact Nat.le_succ_of_le counted
  · right
    have isShallow : ¬ (i < sql.length ∧ 0 < (level : Int)) := by omega
    rw [if_neg isShallow]
    cases n with
    | zero =>
        rfl
    | succ m =>
        rw [blockComment, if_neg inside]
        rfl

/-- The windows are compared from the first one on. -/
theorem loop_search
    {rest delim : Bytes}
    (nonempty : delim ≠ [])
    (enough : rest.length < fuel) :
    windowPosition fuel rest delim =
      .value (Classify.windowPosition rest delim) := by
  have width := List.length_pos_of_ne_nil nonempty
  have start :
      Classify.windowPosition rest delim =
        (List.range' 0 (rest.length + 1 - delim.length - 0)).find? fun n =>
          (rest.drop n).take delim.length == delim := by
    rw [Classify.windowPosition, List.range_eq_range', Nat.sub_zero]
  rw [windowPosition, if_neg (Nat.ne_of_gt width), start]
  refine loop_simulates rest.length id (fun _ => True)
    (fun _ n =>
      (List.range' n (rest.length + 1 - delim.length - n)).find? fun n =>
        (rest.drop n).take delim.length == delim)
    ?_ trivial (Nat.lt_of_le_of_lt (Nat.sub_le _ _) enough) (Nat.sub_le _ _)
  intro n m _ deep
  rw [searchPass_eq]
  by_cases fits : n + delim.length ≤ rest.length
  · have remains :
        rest.length + 1 - delim.length - n =
          (rest.length + 1 - delim.length - (n + 1)) + 1 := by
      omega
    simp only [remains, List.range'_succ, List.find?_cons, if_pos fits]
    by_cases same : (rest.drop n).take delim.length = delim
    · right
      rw [if_pos same, beq_iff_eq.mpr same]
    · left
      obtain ⟨k, rfl⟩ := exists_succ_of_lt (by omega : n < rest.length) deep
      have differs : ((rest.drop n).take delim.length == delim) = false :=
        beq_eq_false_iff_ne.mpr same
      rw [if_neg same, differs]
      exact ⟨n + 1, k, rfl, rfl, trivial, Nat.lt_succ_self n,
        (by omega : n + 1 ≤ rest.length), rfl⟩
  · right
    have none : rest.length + 1 - delim.length - n = 0 := by omega
    rw [if_neg fits, none]
    rfl

theorem advanceWhile_bounds
    (keep : UInt8 → Bool)
    {i : Nat}
    (inRange : i ≤ sql.length) :
    i ≤ advanceWhile sql keep sql.length i ∧
      advanceWhile sql keep sql.length i ≤ sql.length := by
  have enough := Nat.lt_succ_self sql.length
  obtain ⟨stop, ends, bounds⟩ := (settles_skip sql keep inRange).returns enough
  rw [loop_skip enough, Outcome.value.injEq] at ends
  rw [ends]
  exact bounds

/-- How a pass of the main loop ends, from what `scanStep` returns. -/
def roundOf (step : Option Scan) : Round Scan (Option (List String)) :=
  step.elim (.done none) .next

theorem wordPass_eq
    (enough : sql.length < fuel)
    {scan : Scan}
    (inRange : scan.position < sql.length) :
    wordPass fuel sql scan (sql.get ⟨scan.position, inRange⟩) =
      .value (roundOf (some (scanWord sql scan inRange))) := by
  obtain ⟨ordered, within⟩ :=
    advanceWhile_bounds isWordByte (Nat.le_of_lt inRange)
  unfold wordPass scanWord
  rw [loop_skip enough, Outcome.value_bind, sliceAt_of_le ordered within,
    Outcome.value_bind]
  split <;> rfl

theorem dollarPass_eq
    (enough : sql.length < fuel)
    {scan : Scan}
    (inRange : scan.position < sql.length) :
    dollarPass fuel sql scan (sql.get ⟨scan.position, inRange⟩) =
      .value (roundOf (scanDollar sql scan inRange)) := by
  obtain ⟨ordered, within⟩ := advanceWhile_bounds isWordByte inRange
  unfold dollarPass scanDollar
  rw [loop_skip enough, Outcome.value_bind, byteIs_eq, Outcome.value_bind,
    wordPass_eq enough inRange]
  generalize advanceWhile sql isWordByte sql.length (scan.position + 1) = stop
    at ordered within
  by_cases tagged : sql[stop]? = some 36
  · have inside : stop + 1 ≤ sql.length :=
      (List.getElem?_eq_some_iff.mp tagged).1
    have nonempty : (sql.take (stop + 1)).drop scan.position ≠ [] := by
      refine List.ne_nil_of_length_pos ?_
      rw [List.length_drop, List.length_take, Nat.min_eq_left inside]
      omega
    have shorter : (sql.drop (stop + 1)).length < fuel := by
      rw [List.length_drop]
      omega
    simp only [if_pos (any_beq_iff.mpr tagged), if_pos tagged,
      sliceAt_of_le (by omega : scan.position ≤ stop + 1) inside,
      sliceFrom_of_le inside, Outcome.value_bind, loop_search nonempty shorter]
    cases Classify.windowPosition (sql.drop (stop + 1))
        ((sql.take (stop + 1)).drop scan.position) <;> rfl
  · rw [if_neg (mt any_beq_iff.mp tagged), if_neg tagged]

/-- A pass of the main loop is `scanStep`. -/
theorem mainPass_eq
    (short : sql.length < 2 ^ 32)
    (enough : sql.length < fuel)
    (overflow : Overflow)
    {scan : Scan}
    (inRange : scan.position < sql.length) :
    mainPass overflow fuel sql scan =
      .value (roundOf (scanStep sql scan inRange)) := by
  have held := Nat.le_of_lt inRange
  have found :
      sql[scan.position]? = some (sql.get ⟨scan.position, inRange⟩) :=
    List.getElem?_eq_getElem inRange
  have comment (opens : Classify.startsWith sql scan.position "/*" = true) :
      loop (blockPass overflow sql) fuel (scan.position + 2, 1) =
        .value
          ((blockComment sql sql.length (scan.position + 2) 1).1,
            ((blockComment sql sql.length (scan.position + 2) 1).2 : Int)) :=
    loop_block short enough overflow 1
      (le_length_of_startsWith held opens) (Nat.le_add_left 2 _)
  unfold mainPass scanStep
  rw [if_pos inRange, indexAt_of_getElem? found, Outcome.value_bind,
    startsWith_of_le held, startsWith_of_le held]
  simp only [Outcome.value_bind, Outcome.pure_eq, loop_skip enough,
    loop_quote enough, wordPass_eq enough inRange,
    dollarPass_eq enough inRange]
  generalize sql.get ⟨scan.position, inRange⟩ = byte
  by_cases space : isAsciiWhitespace byte = true
  · rw [if_pos space, if_pos space]
    rfl
  rw [if_neg space, if_neg space]
  by_cases dashes : Classify.startsWith sql scan.position "--" = true
  · rw [if_pos dashes, if_pos dashes]
    rfl
  rw [if_neg dashes, if_neg dashes]
  by_cases opens : Classify.startsWith sql scan.position "/*" = true
  · rw [if_pos opens, if_pos opens, comment opens]
    simp only [Outcome.value_bind, Int.natCast_pos]
    split <;> rfl
  rw [if_neg opens, if_neg opens]
  by_cases ended : scan.ended = true
  · rw [if_pos ended, if_pos ended]
    rfl
  rw [if_neg ended, if_neg ended]
  by_cases semicolon : byte = 59
  · rw [if_pos semicolon, if_pos semicolon]
    rfl
  rw [if_neg semicolon, if_neg semicolon]
  by_cases quotes : byte = 39 ∨ byte = 34
  · rw [if_pos quotes, if_pos quotes]
    split <;> rfl
  rw [if_neg quotes, if_neg quotes]
  by_cases dollar : byte = 36
  · rw [if_pos dollar, if_pos dollar]
  · rw [if_neg dollar, if_neg dollar]

/--
The checked scanner returns the class of the unchecked one, so whatever is
proved of `classify` is about code that neither panics nor hangs.
-/
theorem classify_refines
    (short : sql.length < 2 ^ 32)
    (enough : sql.length < fuel)
    (overflow : Overflow) :
    classify overflow fuel sql = .value (Pgfault.classify sql) := by
  have words :
      loop (mainPass overflow fuel sql) fuel ⟨0, [], false⟩ =
        .value (scanLoop sql sql.length ⟨0, [], false⟩) := by
    refine loop_simulates sql.length Scan.position
      (fun scan => scan.position ≤ sql.length) (scanLoop sql) ?_
      (Nat.zero_le _) enough (Nat.sub_le _ _)
    intro scan n held deep
    by_cases inRange : scan.position < sql.length
    · obtain ⟨m, rfl⟩ := exists_succ_of_lt inRange deep
      have passes := mainPass_eq short enough overflow inRange
      rw [scanLoop, dif_pos inRange]
      cases step : scanStep sql scan inRange with
      | none =>
          right
          rw [passes, step]
          rfl
      | some next =>
          left
          obtain ⟨round, ends, onward⟩ :=
            (settles_main sql overflow (fun _ => short) held).returns enough
          rw [step] at passes
          rw [passes, Outcome.value.injEq] at ends
          subst ends
          exact ⟨next, m, passes, rfl, onward.1, onward.2, onward.1, rfl⟩
    · right
      rw [mainPass, if_neg inRange]
      cases n with
      | zero =>
          rfl
      | succ m =>
          rw [scanLoop, dif_neg inRange]
          rfl
  rw [classify, words, Outcome.value_bind, Pgfault.classify]
  cases scanLoop sql sql.length ⟨0, [], false⟩ <;> rfl

end

end Checked

end Pgfault
