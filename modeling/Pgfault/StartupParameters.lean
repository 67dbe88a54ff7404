import Pgfault.Startup

namespace Pgfault

/-!
# The parameters of a startup packet

`metadata` reads pairs of zero-terminated strings up to an empty key.  It accepts
exactly the encodings of parameter lists, and every parameter it stores has the
last value of its name.
-/

/-- Startup parameters that can be encoded. -/
def Encodable (params : List (Bytes × Bytes)) : Prop :=
  ∀ param ∈ params, param.1 ≠ [] ∧ 0 ∉ param.1 ∧ 0 ∉ param.2

/-- Key, zero, value, zero for every parameter, and a closing zero. -/
def encodeParameters : List (Bytes × Bytes) → Bytes
  | [] => [0]
  | (key, value) :: rest => key ++ 0 :: (value ++ 0 :: encodeParameters rest)

/-- The text of the last parameter with a name. -/
def lastValue (name : String) (params : List (Bytes × Bytes)) :
    Option String :=
  (params.filter fun param => param.1 = ascii name).getLast?.map fun param =>
    fromUtf8Lossy param.2

/-- What `cstr` splits off: the bytes in front of the first zero. -/
theorem cstr_eq_some_iff
    {bytes text rest : Bytes} :
    cstr bytes = some (text, rest) ↔ 0 ∉ text ∧ bytes = text ++ 0 :: rest := by
  induction bytes generalizing text with
  | nil =>
      simp [cstr]
  | cons byte later inductionHypothesis =>
      unfold cstr
      by_cases zero : byte = 0
      · rw [if_pos zero]
        subst zero
        constructor
        · intro read
          cases read
          exact ⟨by simp, rfl⟩
        · rintro ⟨free, shape⟩
          cases text with
          | nil =>
              rw [List.nil_append, List.cons.injEq] at shape
              rw [shape.2]
          | cons first others =>
              rw [List.cons_append, List.cons.injEq] at shape
              rw [← shape.1] at free
              simp at free
      · rw [if_neg zero]
        constructor
        · intro read
          obtain ⟨⟨inner, behind⟩, isInner, same⟩ :=
            Option.map_eq_some_iff.mp read
          cases same
          obtain ⟨free, shape⟩ := inductionHypothesis.mp isInner
          refine ⟨?_, ?_⟩
          · simp [free, Ne.symm zero]
          · rw [shape]
            rfl
        · rintro ⟨free, shape⟩
          cases text with
          | nil =>
              rw [List.nil_append, List.cons.injEq] at shape
              exact absurd shape.1 zero
          | cons first others =>
              rw [List.cons_append, List.cons.injEq] at shape
              obtain ⟨rfl, behind⟩ := shape
              have inner :=
                inductionHypothesis.mpr
                  ⟨fun inside => free (List.mem_cons_of_mem _ inside), behind⟩
              rw [inner]
              rfl

/-- Everything the loop stores for some parameters. -/
def storeAll
    (m : StartupMetadata)
    (params : List (Bytes × Bytes)) : StartupMetadata :=
  params.foldl (fun m param => m.store param.1 param.2) m

/-- The loop reads back the encoding of parameters. -/
theorem parameters_encode
    (params : List (Bytes × Bytes))
    (encodable : Encodable params)
    (m : StartupMetadata) :
    parameters m (encodeParameters params) = .value (storeAll m params) := by
  induction params generalizing m with
  | nil =>
      rw [parameters]
      rfl
  | cons param rest inductionHypothesis =>
      obtain ⟨key, value⟩ := param
      obtain ⟨nonempty, keyFree, valueFree⟩ := encodable (key, value) (by simp)
      have isKey :
          cstr (encodeParameters ((key, value) :: rest)) =
            some (key, value ++ 0 :: encodeParameters rest) :=
        cstr_eq_some_iff.mpr ⟨keyFree, rfl⟩
      have isValue :
          cstr (value ++ 0 :: encodeParameters rest) =
            some (value, encodeParameters rest) :=
        cstr_eq_some_iff.mpr ⟨valueFree, rfl⟩
      have later :=
        inductionHypothesis
          (fun other member => encodable other (List.mem_cons_of_mem _ member))
          (m.store key value)
      rw [parameters]
      split
      · rename_i missing
        rw [isKey] at missing
        cases missing
      · rename_i key' tail' read
        rw [isKey] at read
        cases read
        rw [if_neg (by simpa using nonempty)]
        split
        · rename_i missing
          rw [isValue] at missing
          cases missing
        · rename_i value' behind' read
          rw [isValue] at read
          cases read
          exact later

/-- What the loop accepts is the encoding of parameters. -/
theorem exists_of_parameters
    (m : StartupMetadata)
    (rest : Bytes)
    {r : StartupMetadata}
    (accepted : parameters m rest = .value r) :
    ∃ params, Encodable params ∧ rest = encodeParameters params := by
  fun_induction parameters m rest with
  | case1 => cases accepted
  | case2 m rest key tail isKey empty last =>
      refine ⟨[], by simp [Encodable], ?_⟩
      obtain ⟨-, shape⟩ := cstr_eq_some_iff.mp isKey
      rw [shape, List.isEmpty_iff.mp empty, List.isEmpty_iff.mp last]
      rfl
  | case3 => cases accepted
  | case4 => cases accepted
  | case5 m rest key tail isKey nonempty value behind isValue
      inductionHypothesis =>
      obtain ⟨params, encodable, shape⟩ := inductionHypothesis accepted
      obtain ⟨keyFree, isRest⟩ := cstr_eq_some_iff.mp isKey
      obtain ⟨valueFree, isTail⟩ := cstr_eq_some_iff.mp isValue
      refine ⟨(key, value) :: params, ?_, ?_⟩
      · intro param member
        rcases List.mem_cons.mp member with rfl | later
        · exact ⟨by simpa using nonempty, keyFree, valueFree⟩
        · exact encodable param later
      · rw [isRest, isTail, shape]
        rfl

theorem lastValue_concat
    (name : String)
    (params : List (Bytes × Bytes))
    (param : Bytes × Bytes) :
    lastValue name (params ++ [param]) =
      if param.1 = ascii name then some (fromUtf8Lossy param.2)
      else lastValue name params := by
  unfold lastValue
  rw [List.filter_append]
  by_cases named : param.1 = ascii name
  · simp [named]
  · simp [named]

/-- The stored parameters have the last values of their names. -/
theorem storeAll_default (params : List (Bytes × Bytes)) :
    storeAll default params =
      { user := lastValue "user" params
        database := lastValue "database" params
        applicationName := lastValue "application_name" params } := by
  induction params using List.reverseRecOn with
  | nil =>
      rfl
  | append_singleton earlier param inductionHypothesis =>
      have stored :
          storeAll default (earlier ++ [param]) =
            (storeAll default earlier).store param.1 param.2 :=
        List.foldl_append
      have names :
          ascii "user" ≠ ascii "database" ∧
            ascii "user" ≠ ascii "application_name" ∧
            ascii "database" ≠ ascii "application_name" := by
        decide
      obtain ⟨userDatabase, userApplication, databaseApplication⟩ := names
      rw [stored, inductionHypothesis]
      simp only [lastValue_concat]
      unfold StartupMetadata.store
      by_cases user : param.1 = ascii "user"
      · simp [user, userDatabase, userApplication]
      · by_cases database : param.1 = ascii "database"
        · simp [database, databaseApplication, Ne.symm userDatabase]
        · by_cases application : param.1 = ascii "application_name"
          · simp [application, Ne.symm userApplication,
              Ne.symm databaseApplication]
          · simp [user, database, application]

/--
Startup parameters.  On every packet with a code, `metadata` ends with a value or
an error.  It accepts exactly the encodings of parameter lists with non-empty
keys, and gives back the last value of each of the three names.
-/
theorem metadata_exact
    (packet : Bytes)
    (withCode : 8 ≤ packet.length) :
    ((∃ m, metadata packet = .value m) ∨
        ∃ message, metadata packet = .error message) ∧
      ((∃ m, metadata packet = .value m) ↔
        ∃ params,
          Encodable params ∧ packet.drop 8 = encodeParameters params) ∧
      ∀ params,
        Encodable params →
        packet.drop 8 = encodeParameters params →
        metadata packet =
          .value
            { user := lastValue "user" params
              database := lastValue "database" params
              applicationName := lastValue "application_name" params } := by
  have read : metadata packet = parameters default (packet.drop 8) := by
    rw [metadata, slice_of_le withCode (Nat.le_refl _), List.take_length]
    rfl
  have accepts (params : List (Bytes × Bytes)) (encodable : Encodable params)
      (shape : packet.drop 8 = encodeParameters params) :
      metadata packet =
        .value
          { user := lastValue "user" params
            database := lastValue "database" params
            applicationName := lastValue "application_name" params } := by
    rw [read, shape, parameters_encode params encodable, storeAll_default]
  refine ⟨?_, ⟨?_, ?_⟩, accepts⟩
  · have noPanic := metadata_panics withCode
    cases result : metadata packet with
    | value m =>
        exact Or.inl ⟨m, rfl⟩
    | error message =>
        exact Or.inr ⟨message, rfl⟩
    | panic message =>
        rw [result] at noPanic
        cases noPanic
  · rintro ⟨m, accepted⟩
    rw [read] at accepted
    exact exists_of_parameters default (packet.drop 8) accepted
  · rintro ⟨params, encodable, shape⟩
    exact ⟨_, accepts params encodable shape⟩

/-- A startup packet that names its user twice. -/
def twiceNamed : List (Bytes × Bytes) :=
  [(ascii "user", ascii "alice"), (ascii "options", []),
    (ascii "user", ascii "bob")]

theorem metadata_exact_twiceNamed :
    metadata ([0, 0, 0, 38, 0, 3, 0, 0] ++ encodeParameters twiceNamed) =
      .value
        { user := lastValue "user" twiceNamed
          database := lastValue "database" twiceNamed
          applicationName := lastValue "application_name" twiceNamed } :=
  (metadata_exact ([0, 0, 0, 38, 0, 3, 0, 0] ++ encodeParameters twiceNamed)
    (by decide)).2.2 twiceNamed (by unfold Encodable; decide) rfl

end Pgfault
