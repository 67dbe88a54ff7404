import Pgfault.SharedTrace

namespace Pgfault

/-!
# The trace on disk

`Recorder::record` writes the JSON text of a record and a newline; `replay` reads
the file line by line.  A proxy that is killed leaves a file that ends anywhere,
so what matters is every prefix of what it would have written
(`replay_of_cut_file`).

The JSON texts are a parameter.  `Json.Lawful` is what is relied on of them: they
are read back, they are one line of UTF-8 that ends with a brace, and no proper
part of one is a text.
-/

/-- `serde_json::to_vec` and `serde_json::from_str` on records. -/
structure Json where
  toVec : Record → Bytes
  fromStr : Bytes → Except String Record

/-- Whether bytes are a text. -/
def isUtf8 (bytes : Bytes) : Bool :=
  (ByteArray.mk bytes.toArray).validateUTF8

/-! ## Lines -/

def newline : UInt8 := 10

/-- A line without the carriage return in front of its newline. -/
def dropReturn (line : Bytes) : Bytes :=
  if line.getLast? = some 13 then line.dropLast else line

/-- `BufRead::lines` behind the beginning of a line. -/
def linesFrom (current : Bytes) : Bytes → List Bytes
  | [] => if current = [] then [] else [current]
  | b :: rest =>
      if b = newline then
        dropReturn current :: linesFrom [] rest
      else
        linesFrom (current ++ [b]) rest

/-- The lines of a file; bytes behind the last newline are a line too. -/
def lines (bytes : Bytes) : List Bytes :=
  linesFrom [] bytes

theorem linesFrom_terminated
    (current : Bytes)
    {block : Bytes}
    (inside : newline ∉ block)
    (rest : Bytes) :
    linesFrom current (block ++ newline :: rest) =
      dropReturn (current ++ block) :: linesFrom [] rest := by
  induction block generalizing current with
  | nil =>
      simp [linesFrom]
  | cons b later inductionHypothesis =>
      have other : b ≠ newline := by
        rintro rfl
        exact inside List.mem_cons_self
      rw [List.cons_append, linesFrom, if_neg other,
        inductionHypothesis _ fun member =>
          inside (List.mem_cons_of_mem _ member)]
      simp

theorem linesFrom_open
    (current : Bytes)
    {part : Bytes}
    (inside : newline ∉ part) :
    linesFrom current part =
      if current ++ part = [] then [] else [current ++ part] := by
  induction part generalizing current with
  | nil =>
      simp [linesFrom]
  | cons b later inductionHypothesis =>
      have other : b ≠ newline := by
        rintro rfl
        exact inside List.mem_cons_self
      rw [linesFrom, if_neg other,
        inductionHypothesis _ fun member =>
          inside (List.mem_cons_of_mem _ member)]
      simp

namespace Json

section

variable (json : Json)

/-- One call of `Recorder::record`. -/
def line (r : Record) : Bytes :=
  json.toVec r ++ [newline]

/-- The file of some records. -/
def file (records : List Record) : Bytes :=
  records.flatMap json.line

/-- Read one line, counted from zero. -/
def readRecord (n : Nat) (line : Bytes) : Except String Record :=
  if isUtf8 line then
    match json.fromStr line with
    | .ok record => .ok record
    | .error _ => .error ("trace line " ++ toString (n + 1))
  else
    .error "stream did not contain valid UTF-8"

variable (parseDuration : String → Except String Nat)

/-- The loop of `replay` over the lines of a file. -/
def replayLines (n : Nat) :
    List Bytes → List Scenario → Except String (List Scenario)
  | [], schedules => .ok schedules
  | line :: rest, schedules => do
      let record ← json.readRecord n line
      let schedules ← Trace.replayLoop parseDuration [record] schedules
      replayLines (n + 1) rest schedules

/-- What `replay` reports of a part of a text behind some whole lines. -/
def tornMessage (n : Nat) (part : Bytes) : String :=
  if isUtf8 part then "trace line " ++ toString (n + 1)
  else "stream did not contain valid UTF-8"

/-- `replay` on the bytes of a file. -/
def replayFile (bytes : Bytes) : Except String (List Scenario) := do
  let schedules ← json.replayLines parseDuration 0 (lines bytes) []
  if schedules.isEmpty then
    .error "trace contains no fired faults"
  else
    .ok schedules

/-- A cut file has a part of a text behind its first `k` lines. -/
def Torn (records : List Record) (cut k : Nat) : Prop :=
  (json.file (records.take k)).length < cut ∧ k < records.length

/-- What is relied on of the JSON texts of some records. -/
structure Lawful (records : List Record) : Prop where
  reads : ∀ r ∈ records, json.fromStr (json.toVec r) = .ok r
  oneLine : ∀ r ∈ records, newline ∉ json.toVec r
  closes : ∀ r ∈ records, (json.toVec r).getLast? = some 125
  text : ∀ r ∈ records, isUtf8 (json.toVec r) = true
  unfinished :
    ∀ r ∈ records, ∀ part,
      part <+: json.toVec r →
      part ≠ json.toVec r →
      ∃ message, json.fromStr part = .error message

end

section

variable {json : Json} {parseDuration : String → Except String Nat}

theorem Lawful.subset
    {records fewer : List Record}
    (lawful : json.Lawful records)
    (inside : ∀ r ∈ fewer, r ∈ records) :
    json.Lawful fewer where
  reads r member := lawful.reads r (inside r member)
  oneLine r member := lawful.oneLine r (inside r member)
  closes r member := lawful.closes r (inside r member)
  text r member := lawful.text r (inside r member)
  unfinished r member := lawful.unfinished r (inside r member)

/-- The lines of a file, with the beginning of another line behind it. -/
theorem lines_file
    {records : List Record}
    (lawful : json.Lawful records)
    {part : Bytes}
    (inside : newline ∉ part) :
    lines (json.file records ++ part) =
      records.map json.toVec ++ if part = [] then [] else [part] := by
  induction records with
  | nil =>
      exact linesFrom_open [] inside
  | cons r rest inductionHypothesis =>
      have later := inductionHypothesis
        (lawful.subset fun x member => List.mem_cons_of_mem r member)
      have kept : dropReturn (json.toVec r) = json.toVec r := by
        rw [dropReturn, lawful.closes r List.mem_cons_self]
        rfl
      have split :
          json.file (r :: rest) ++ part =
            json.toVec r ++ newline :: (json.file rest ++ part) := by
        simp [file, line]
      rw [split, lines,
        linesFrom_terminated [] (lawful.oneLine r List.mem_cons_self),
        List.nil_append, kept]
      exact congrArg (json.toVec r :: ·) later

variable (parseDuration) in
theorem replayLoop_append
    (records later : List Record)
    (schedules : List Scenario) :
    Trace.replayLoop parseDuration (records ++ later) schedules =
      (Trace.replayLoop parseDuration records schedules).bind fun reached =>
        Trace.replayLoop parseDuration later reached := by
  induction records generalizing schedules with
  | nil =>
      rfl
  | cons record rest inductionHypothesis =>
      cases record with
      | semantic e =>
          exact inductionHypothesis schedules
      | lifecycle id event detail =>
          exact inductionHypothesis schedules
      | fault e s =>
          simp only [List.cons_append, Trace.replayLoop, inductionHypothesis]
          cases (Trace.reschedule e s).validate parseDuration with
          | error message =>
              rfl
          | ok done =>
              rfl

/-- Lines that are texts of records are read back. -/
theorem replayLines_file
    {records : List Record}
    (lawful : json.Lawful records)
    (n : Nat)
    (rest : List Bytes)
    (schedules : List Scenario) :
    json.replayLines parseDuration n (records.map json.toVec ++ rest)
        schedules =
      (Trace.replayLoop parseDuration records schedules).bind fun reached =>
        json.replayLines parseDuration (n + records.length) rest reached := by
  induction records generalizing n schedules with
  | nil =>
      rfl
  | cons r later inductionHypothesis =>
      have read : json.readRecord n (json.toVec r) = .ok r := by
        rw [readRecord, if_pos (lawful.text r List.mem_cons_self),
          lawful.reads r List.mem_cons_self]
      have hypothesis := inductionHypothesis
        (lawful.subset fun x member => List.mem_cons_of_mem r member) (n + 1)
      have first :=
        replayLoop_append parseDuration [r] later schedules
      rw [List.singleton_append] at first
      rw [List.map_cons, List.cons_append, replayLines, read, first]
      simp only [bind, Except.bind]
      cases Trace.replayLoop parseDuration [r] schedules with
      | error message =>
          rfl
      | ok reached =>
          have shift : n + (r :: later).length = n + 1 + later.length := by
            rw [List.length_cons]
            omega
          rw [shift]
          exact hypothesis reached

variable (json) in
/-- A cut of a file: whole lines, and the beginning of the next text. -/
theorem exists_cut (records : List Record) (cut : Nat) :
    ∃ k part,
      k ≤ records.length ∧
        (json.file records).take cut = json.file (records.take k) ++ part ∧
        (json.file (records.take k)).length + part.length ≤ cut ∧
        (part = [] ∧ k = records.length ∨
          ∃ r, records[k]? = some r ∧ part <+: json.toVec r ∧
            (json.file (records.take k)).length + part.length = cut) := by
  induction records generalizing cut with
  | nil =>
      refine ⟨0, [], Nat.le_refl _, by simp [file], by simp [file], ?_⟩
      exact Or.inl ⟨rfl, rfl⟩
  | cons r rest inductionHypothesis =>
      have split : json.file (r :: rest) = json.line r ++ json.file rest := rfl
      by_cases short : cut ≤ (json.toVec r).length
      · -- The cut is in the text of the first record.
        refine ⟨0, (json.toVec r).take cut, Nat.zero_le _, ?_, ?_,
          Or.inr ⟨r, rfl, List.take_prefix _ _, ?_⟩⟩
        · rw [split, line, List.append_assoc,
            List.take_append_of_le_length short]
          rfl
        · simp only [List.take_zero, file, List.flatMap_nil, List.length_nil,
            Nat.zero_add, List.length_take]
          exact Nat.min_le_left _ _
        · simp [file, short]
      · obtain ⟨k, part, known, shape, size, ends⟩ :=
          inductionHypothesis (cut - (json.line r).length)
        have whole : (json.line r).length ≤ cut := by
          rw [line, List.length_append, List.length_singleton]
          omega
        have longer :
            (json.file ((r :: rest).take (k + 1))).length =
              (json.line r).length + (json.file (rest.take k)).length := by
          rw [List.take_succ_cons]
          exact List.length_append
        refine ⟨k + 1, part, Nat.succ_le_succ known, ?_, ?_, ?_⟩
        · rw [split, List.take_append, List.take_of_length_le whole, shape,
            List.take_succ_cons, ← List.append_assoc]
          rfl
        · omega
        · rcases ends with ⟨rfl, rfl⟩ | ⟨next, isNext, begins, exact_⟩
          · exact Or.inl ⟨rfl, rfl⟩
          · refine Or.inr ⟨next, by simpa using isNext, begins, ?_⟩
            omega

variable (parseDuration) in
/-- A file of whole lines, with the beginning of another line behind it. -/
theorem replayFile_file
    {records : List Record}
    (lawful : json.Lawful records)
    {part : Bytes}
    (inside : newline ∉ part) :
    json.replayFile parseDuration (json.file records ++ part) =
      ((Trace.replayLoop parseDuration records []).bind fun reached =>
        json.replayLines parseDuration records.length
          (if part = [] then [] else [part]) reached).bind fun schedules =>
        if schedules.isEmpty then .error "trace contains no fired faults"
        else .ok schedules := by
  rw [replayFile, lines_file lawful inside, replayLines_file lawful,
    Nat.zero_add]
  rfl

variable (parseDuration) in
/-- The last line of a cut file: nothing, a text without its newline, or less. -/
theorem replayFile_part
    {records : List Record}
    (lawful : json.Lawful records)
    {k : Nat}
    {r : Record}
    (isNext : records[k]? = some r)
    {part : Bytes}
    (begins : part <+: json.toVec r) :
    part = [] ∧
        json.replayFile parseDuration (json.file (records.take k) ++ part) =
          Trace.replay parseDuration (records.take k) ∨
      part = json.toVec r ∧
        json.replayFile parseDuration (json.file (records.take k) ++ part) =
          Trace.replay parseDuration (records.take (k + 1)) ∨
      part ≠ [] ∧ part ≠ json.toVec r ∧
        json.replayFile parseDuration (json.file (records.take k) ++ part) =
          (Trace.replayLoop parseDuration (records.take k) []).bind fun _ =>
            .error (tornMessage k part) := by
  have member := List.mem_of_getElem? isNext
  have inside : newline ∉ part := fun found =>
    lawful.oneLine r member (begins.subset found)
  have counted : (records.take k).length = k := by
    rw [List.length_take]
    exact Nat.min_eq_left
      (Nat.le_of_lt (List.getElem?_eq_some_iff.mp isNext).1)
  have fewer : json.Lawful (records.take k) :=
    lawful.subset fun x found => List.mem_of_mem_take found
  have split :=
    replayFile_file parseDuration fewer inside
  rw [counted] at split
  by_cases nothing : part = []
  · subst nothing
    refine Or.inl ⟨rfl, ?_⟩
    rw [split, Trace.replay]
    cases Trace.replayLoop parseDuration (records.take k) [] <;> rfl
  · rw [if_neg nothing] at split
    by_cases whole : part = json.toVec r
    · subst whole
      refine Or.inr (Or.inl ⟨rfl, ?_⟩)
      have read : json.readRecord k (json.toVec r) = .ok r := by
        rw [readRecord, if_pos (lawful.text r member), lawful.reads r member]
      have longer : records.take (k + 1) = records.take k ++ [r] := by
        rw [List.take_add_one, isNext]
        rfl
      rw [split, Trace.replay, longer, replayLoop_append]
      cases Trace.replayLoop parseDuration (records.take k) [] with
      | error message =>
          rfl
      | ok reached =>
          simp only [Except.bind, replayLines, read, bind]
          cases Trace.replayLoop parseDuration [r] reached <;> rfl
    · refine Or.inr (Or.inr ⟨nothing, whole, ?_⟩)
      obtain ⟨unread, failed⟩ :=
        lawful.unfinished r member part begins whole
      have fails : json.readRecord k part = .error (tornMessage k part) := by
        unfold readRecord tornMessage
        split
        · rw [failed]
        · rfl
      rw [split]
      cases Trace.replayLoop parseDuration (records.take k) [] with
      | error message =>
          rfl
      | ok reached =>
          simp only [Except.bind, replayLines, fails, bind]

variable (json parseDuration)

/--
A trace file that was cut anywhere.  If the first `k` texts are in it as a whole
and the next one is not, then `replay` takes the faults of these `k` records; but
where there is a part of the next one, it fails: at one of the records as it would
without the rest, or else at the line behind them, which it names unless the line
is no text.
-/
theorem replay_of_cut_file
    (records : List Record)
    (lawful : json.Lawful records)
    (cut : Nat) :
    ∃ k,
      k ≤ records.length ∧
        (json.file (records.take k)).length ≤ cut + 1 ∧
        (∀ r ∈ records[k]?,
          cut < (json.file (records.take k)).length +
            (json.toVec r).length) ∧
        (¬ json.Torn records cut k →
          json.replayFile parseDuration ((json.file records).take cut) =
            Trace.replay parseDuration (records.take k)) ∧
        (json.Torn records cut k →
          json.replayFile parseDuration ((json.file records).take cut) =
            (Trace.replayLoop parseDuration (records.take k) []).bind fun _ =>
              .error
                (tornMessage k
                  (((json.file records).take cut).drop
                    (json.file (records.take k)).length))) := by
  obtain ⟨k, part, known, shape, size, ends⟩ :=
    exists_cut json records cut
  rw [shape]
  rcases ends with ⟨rfl, rfl⟩ | ⟨r, isNext, begins, ends⟩
  · refine ⟨records.length, Nat.le_refl _, ?_, ?_, ?_, ?_⟩
    · omega
    · intro r isNext
      simp at isNext
    · intro _
      have split := replayFile_file parseDuration lawful List.not_mem_nil
      rw [List.take_length, split, Trace.replay]
      cases Trace.replayLoop parseDuration records [] <;> rfl
    · exact fun torn => absurd torn.2 (Nat.lt_irrefl _)
  · have member := List.mem_of_getElem? isNext
    have within : k < records.length := (List.getElem?_eq_some_iff.mp isNext).1
    have some_ : json.toVec r ≠ [] := by
      intro nothing
      have closes := lawful.closes r member
      rw [nothing] at closes
      cases closes
    have positive := List.length_pos_iff.mpr some_
    rcases replayFile_part parseDuration lawful isNext
        begins with ⟨rfl, replays⟩ | ⟨rfl, replays⟩ |
          ⟨nonempty, proper, fails⟩
    · rw [List.length_nil, Nat.add_zero] at ends
      refine ⟨k, known, by omega, ?_, fun _ => replays, fun torn => ?_⟩
      · intro next isAt
        rw [isNext] at isAt
        cases isAt
        omega
      · exact absurd ends (Nat.ne_of_lt torn.1)
    · have longer :
          (json.file (records.take (k + 1))).length = cut + 1 := by
        rw [List.take_add_one, isNext, file, List.flatMap_append,
          List.length_append]
        simp only [Option.toList_some, List.flatMap_singleton, line,
          List.length_append, List.length_singleton]
        rw [← ends]
        rfl
      refine ⟨k + 1, within, by omega, ?_, fun _ => replays, fun torn => ?_⟩
      · intro next _
        omega
      · have shorter := torn.1
        omega
    · have shorter : part.length < (json.toVec r).length := by
        refine Nat.lt_of_le_of_ne begins.length_le ?_
        intro same
        exact proper (begins.eq_of_length same)
      have behind := List.length_pos_iff.mpr nonempty
      refine ⟨k, known, by omega, ?_, fun whole => ?_, fun _ => ?_⟩
      · intro next isAt
        rw [isNext] at isAt
        cases isAt
        omega
      · exact absurd ⟨by omega, within⟩ whole
      · rw [List.drop_left]
        exact fails

end

end Json

namespace System

/-! ## The file of two clients -/

/-- The fields of an event of a query. -/
def coordinateText (id name event : String) : String :=
  "\"connection_id\":" ++ id ++ ",\"semantic_reliable\":true,\"user\":\"" ++
    name ++ "\",\"database\":null,\"application_name\":null," ++
    "\"transaction_epoch\":1,\"query_cycle\":1,\"statement_index\":1," ++
    "\"statement_class\":\"select\",\"sql_fingerprint\":\"" ++
    "e004ebd5b5532a4b85984a62f8ad48a81aa3460c1ca07701f386135d72cdecf5" ++
    "\",\"event\":\"" ++ event ++ "\",\"occurrence\":1"

def semanticText (id name event : String) : String :=
  "\x7b\"type\":\"semantic\"," ++ coordinateText id name event ++ "\x7d"

def lifecycleText (id event : String) : String :=
  "\x7b\"type\":\"lifecycle\",\"connection_id\":" ++ id ++ ",\"event\":\"" ++
    event ++ "\",\"detail\":\"\"\x7d"

def cutAppText : String :=
  "\x7b\"version\":1,\"name\":\"cut-app\",\"match\":\x7b" ++
    "\"application_name\":null,\"user\":\"app\",\"database\":null," ++
    "\"connection_ordinal\":null,\"transaction\":null,\"query_cycle\":null," ++
    "\"statement\":null,\"sql_fingerprint\":null\x7d,\"when\":\x7b" ++
    "\"event\":\"query.received\",\"occurrence\":null," ++
    "\"statement_class\":[],\"row\":null\x7d,\"action\":\x7b" ++
    "\"suppress\":null,\"disconnect\":\x7b\"side\":\"frontend\"," ++
    "\"mode\":\"reset\"\x7d,\"delay\":null,\"truncate_result\":null\x7d\x7d"

def faultText : String :=
  "\x7b\"type\":\"fault\",\"coordinate\":\x7b" ++
    coordinateText "1" "app" "query.received" ++ "\x7d,\"scenario\":" ++
    cutAppText ++ "\x7d"

theorem trace_oneCut :
    (run (fun _ => true) sampleSha256 (fun _ => .ok 0) guarded
      (bothOpen ++ oneCut)).trace = cutRecords := by
  rw [run_behind]
  decide +kernel

/-- The JSON texts of the records until one client is cut off. -/
def cutTexts : List (Record × String) :=
  cutRecords.zip
    [lifecycleText "2" "startup", lifecycleText "1" "startup",
      semanticText "2" "guest" "query.received",
      semanticText "1" "app" "query.received",
      faultText, semanticText "1" "app" "statement.execution_started"]

def utf8 (text : String) : Bytes :=
  text.toUTF8.data.toList

theorem isUtf8_utf8 (text : String) : isUtf8 (utf8 text) = true :=
  ByteArray.validateUTF8_eq_true_iff.mpr text.isValidUTF8

def cutJson : Json where
  toVec r := utf8 (((cutTexts.find? (·.1 = r)).map Prod.snd).getD "")
  fromStr text :=
    match cutTexts.find? (utf8 ·.2 = text) with
    | some entry => .ok entry.1
    | none => .error "EOF while parsing an object"

/-- No text of the table is the beginning of another one. -/
theorem cutTexts_apart :
    ∀ entry ∈ cutTexts, ∀ r ∈ cutRecords,
      utf8 entry.2 <+: cutJson.toVec r →
      utf8 entry.2 = cutJson.toVec r := by
  decide +kernel

theorem cutJson_lawful : cutJson.Lawful cutRecords where
  reads := by decide +kernel
  oneLine := by decide +kernel
  closes := by decide +kernel
  text r _ := isUtf8_utf8 _
  unfinished := by
    intro r member part begins proper
    cases found : cutTexts.find? (utf8 ·.2 = part) with
    | none =>
        refine ⟨"EOF while parsing an object", ?_⟩
        unfold cutJson
        simp only [found]
    | some entry =>
        have isPart : utf8 entry.2 = part := by
          simpa using List.find?_some found
        rw [← isPart] at begins proper
        exact absurd
          (cutTexts_apart entry (List.mem_of_find?_eq_some found) r member
            begins) proper

/-- A cut where the line of the fault ends. -/
def behindFault : Nat :=
  (cutJson.file (cutRecords.take 5)).length

theorem whole_behindFault :
    ∀ k ≤ cutRecords.length,
      (cutJson.file (cutRecords.take k)).length ≤ behindFault + 1 →
      (∀ r ∈ cutRecords[k]?,
        behindFault <
          (cutJson.file (cutRecords.take k)).length +
            (cutJson.toVec r).length) →
      k = 5 := by
  decide +kernel

end System

/-! ## The file of a proxy -/

namespace Trace

/-- Replaying due faults of valid scenarios does not fail. -/
theorem replayLoop_of_genuine
    {parseDuration : String → Except String Nat}
    {scenarios : List Scenario}
    (valid : ∀ s ∈ scenarios, s.validate parseDuration = .ok ())
    {records : List Record}
    (genuine : Genuine scenarios records) :
    ∃ schedules, replayLoop parseDuration records [] = .ok schedules := by
  refine replayLoop_ok ?_ []
  intro e s member
  have due := genuine e s member
  exact reschedule_valid (valid s due.listed) due.named due.row

/-- Scenarios that repeat the faults of a trace. -/
structure Repeats
    (parseDuration : String → Except String Nat)
    (records : List Record)
    (schedules : List Scenario) : Prop where
  nonempty : schedules ≠ []
  distinct : schedules.Nodup
  valid :
    ∀ scheduled ∈ schedules, scheduled.validate parseDuration = .ok ()
  source :
    ∀ scheduled ∈ schedules,
      ∃ e s, .fault e s ∈ records ∧ scheduled = reschedule e s
  repeats :
    ∀ e s, .fault e s ∈ records →
      ∃ scheduled ∈ schedules,
        scheduled.name = s.name ∧ scheduled.action = s.action ∧
          scheduled.selects e = true

/-- What a replay of due faults returns. -/
theorem replay_of_genuine
    {parseDuration : String → Except String Nat}
    {scenarios : List Scenario}
    (valid : ∀ s ∈ scenarios, s.validate parseDuration = .ok ())
    {records : List Record}
    (genuine : Genuine scenarios records) :
    ((∀ e s, .fault e s ∉ records) →
        replay parseDuration records =
          .error "trace contains no fired faults") ∧
      ∀ e s, .fault e s ∈ records →
        ∃ schedules,
          replay parseDuration records = .ok schedules ∧
            Repeats parseDuration records schedules := by
  obtain ⟨schedules, looped⟩ := replayLoop_of_genuine valid genuine
  have replayed := replayed_of_ok looped
  have source {scheduled : Scenario} (member : scheduled ∈ schedules) :
      ∃ e s, .fault e s ∈ records ∧ scheduled = reschedule e s ∧
        scheduled.validate parseDuration = .ok () := by
    rcases replayed.source scheduled member with old | isNew
    · simp at old
    · exact isNew
  refine ⟨?_, ?_⟩
  · intro none
    have empty : schedules = [] := by
      refine List.eq_nil_iff_forall_not_mem.mpr ?_
      intro scheduled member
      obtain ⟨e, s, fault, -⟩ := source member
      exact none e s fault
    rw [replay, looped, empty]
    rfl
  · intro e s fault
    have some_ : schedules ≠ [] :=
      List.ne_nil_of_mem (replayed.repeats e s fault)
    refine ⟨schedules, ?_, some_, replayed.nodup List.nodup_nil, ?_, ?_, ?_⟩
    · rw [replay, looped]
      simp [bind, Except.bind, some_]
    · intro scheduled member
      obtain ⟨-, -, -, -, isValid⟩ := source member
      exact isValid
    · intro scheduled member
      obtain ⟨e, s, fault, same, -⟩ := source member
      exact ⟨e, s, fault, same⟩
    · intro e s fault
      exact ⟨reschedule e s, replayed.repeats e s fault, rfl, rfl,
        reschedule_selects (genuine e s fault).selected⟩

end Trace

namespace System

/-- Every fault in the trace of a proxy is due. -/
theorem Isolated.genuine
    {serverName : String → Bool}
    {sha256 : Bytes → String}
    {parseDuration : String → Except String Nat}
    {config : Config}
    {events : List SystemEvent}
    {s : System}
    (isolated : Isolated serverName sha256 parseDuration config events s) :
    Genuine config.scenarios s.trace := by
  intro e scenario member
  have known := isolated.logged _ member
  obtain ⟨client, server, slot, serves⟩ :=
    isolated.serves _ known.1 known.2
  refine serves.good.2.stands.genuine e scenario ?_
  have own :
      .fault e scenario ∈ slot.task.records.take slot.written := by
    rw [← serves.trace]
    exact List.mem_filter.mpr ⟨member, decide_eq_true rfl⟩
  exact List.mem_of_mem_take own

/--
What a proxy leaves on disk can be replayed.  After every run, with the trace
file cut anywhere, there is a number of whole lines that `replay` reads.  A part of
another line behind them is what it reports; where there is none, it returns valid
and distinct scenarios, each from a fault on a whole line and for each of these one
that keeps its name and action and selects the event it fired at, unless no fault
is there.
-/
theorem proxy_file_replays
    (serverName : String → Bool)
    (sha256 : Bytes → String)
    (parseDuration : String → Except String Nat)
    (config : Config)
    (valid : ∀ s ∈ config.scenarios, s.validate parseDuration = .ok ())
    (events : List SystemEvent)
    (json : Json)
    (lawful :
      json.Lawful (run serverName sha256 parseDuration config events).trace)
    (cut : Nat) :
    let records := (run serverName sha256 parseDuration config events).trace
    let replayed :=
      json.replayFile parseDuration ((json.file records).take cut)
    ∃ k,
      k ≤ records.length ∧
        (json.file (records.take k)).length ≤ cut + 1 ∧
        (∀ r ∈ records[k]?,
          cut < (json.file (records.take k)).length + (json.toVec r).length) ∧
        (json.Torn records cut k →
          replayed =
            .error
              (Json.tornMessage k
                (((json.file records).take cut).drop
                  (json.file (records.take k)).length))) ∧
        (¬ json.Torn records cut k →
          ((∀ e s, .fault e s ∉ records.take k) →
              replayed = .error "trace contains no fired faults") ∧
            ∀ e s, .fault e s ∈ records.take k →
              ∃ schedules,
                replayed = .ok schedules ∧
                  Trace.Repeats parseDuration (records.take k) schedules) := by
  intro records replayed
  have genuine : Genuine config.scenarios records :=
    (isolated_run serverName sha256 valid events).genuine
  obtain ⟨k, known, size, maximal, whole, torn⟩ :=
    json.replay_of_cut_file parseDuration records lawful cut
  have fewer : Genuine config.scenarios (records.take k) :=
    fun e s member => genuine e s (List.mem_of_mem_take member)
  refine ⟨k, known, size, maximal, ?_, ?_⟩
  · intro isTorn
    obtain ⟨schedules, looped⟩ := Trace.replayLoop_of_genuine valid fewer
    have fails := torn isTorn
    rw [looped] at fails
    exact fails
  · intro isWhole
    have replays := Trace.replay_of_genuine valid fewer
    rw [← whole isWhole] at replays
    exact replays

theorem proxy_file_replays_oneCut :
    let records :=
      (run (fun _ => true) sampleSha256 (fun _ => .ok 0) guarded
        (bothOpen ++ oneCut)).trace
    cutJson.replayFile (fun _ => .ok 0)
        ((cutJson.file records).take behindFault) =
      .ok
        [Trace.reschedule (firstQuery 1 "app" "query.received") cutApp] := by
  intro records
  have traced : records = cutRecords := trace_oneCut
  obtain ⟨k, known, size, maximal, -, whole⟩ :=
    proxy_file_replays (fun _ => true) sampleSha256 (fun _ => .ok 0) guarded
      guarded_valid (bothOpen ++ oneCut) cutJson
      (by rw [trace_oneCut]; exact cutJson_lawful) behindFault
  rw [trace_oneCut] at known size maximal whole
  have five := whole_behindFault k known size maximal
  subst five
  have faults := (whole fun torn => Nat.lt_irrefl _ torn.1).2
  have fault :
      .fault (firstQuery 1 "app" "query.received") cutApp ∈
        cutRecords.take 5 := by
    decide +kernel
  have only (e : Event) (s : Scenario) :
      .fault e s ∈ cutRecords.take 5 →
      Trace.reschedule e s =
        Trace.reschedule (firstQuery 1 "app" "query.received") cutApp := by
    intro other
    have same : e = firstQuery 1 "app" "query.received" ∧ s = cutApp := by
      simpa [cutRecords] using other
    rw [same.1, same.2]
  obtain ⟨schedules, replayed, repeats⟩ := faults _ _ fault
  rw [traced, replayed]
  have all (x : Scenario) (member : x ∈ schedules) :
      x = Trace.reschedule (firstQuery 1 "app" "query.received") cutApp := by
    obtain ⟨e, s, isFault, rfl⟩ := repeats.source x member
    exact only e s isFault
  have isReplicate := List.eq_replicate_of_mem all
  have single : schedules.length = 1 := by
    have atMost : schedules.length ≤ 1 := by
      have distinct := repeats.distinct
      rw [isReplicate] at distinct
      simpa using List.nodup_replicate.mp distinct
    have atLeast := List.length_pos_iff.mpr repeats.nonempty
    omega
  rw [isReplicate, single]
  rfl

end System

end Pgfault
