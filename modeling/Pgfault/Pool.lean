import Pgfault.Machine

/-!
# Tasks with a shared log

A pool runs tasks side by side.  A task computes records, and writes them one by
one to a log all tasks share; it goes on when all it has computed is written.
A task and what the log holds of it are then those of the task by itself (`move`),
told the same, whatever the others do (`Alone`).
-/

/-- A task in a pool, with how many of its records are in the log. -/
structure Slot (Task : Type) where
  id : Nat
  task : Task
  written : Nat := 0

/-- Tasks and their log. -/
structure Pool (Task Record : Type) where
  slots : List (Slot Task) := []
  log : List Record := []

namespace Pool

open Machine

variable {Task Event Record : Type}

/-- A new task. -/
def spawn (p : Pool Task Record) (id : Nat) (task : Task) :
    Pool Task Record :=
  { p with slots := p.slots ++ [⟨id, task, 0⟩] }

/-- Take a task out. -/
def remove (p : Pool Task Record) (id : Nat) : Pool Task Record :=
  { p with slots := p.slots.filter (·.id ≠ id) }

/-- The slot of a task. -/
def find? (p : Pool Task Record) (id : Nat) : Option (Slot Task) :=
  p.slots.find? (·.id = id)

section

variable (step : Task → Event → Task) (records : Task → List Record)

/-- Whether all a task has computed is written. -/
def flushed (slot : Slot Task) : Bool :=
  slot.written = (records slot.task).length

/-- Let a task go on, if all it has computed is written. -/
def advance (p : Pool Task Record) (id : Nat) (event : Event) :
    Pool Task Record :=
  { p with
    slots :=
      p.slots.map fun slot =>
        if slot.id = id ∧ flushed records slot then
          { slot with task := step slot.task event }
        else
          slot }

/-- Write the next record of a task. -/
def write (p : Pool Task Record) (id : Nat) : Pool Task Record :=
  match (p.find? id).bind fun slot => (records slot.task)[slot.written]? with
  | none => p
  | some record =>
      { slots :=
          p.slots.map fun slot =>
            if slot.id = id then { slot with written := slot.written + 1 }
            else slot
        log := p.log ++ [record] }

variable (owner : Record → Nat)

/-- What a pool needs of its tasks: own records, and no record taken back. -/
structure Tidy (good : Nat → Task → Prop) : Prop where
  keeps : ∀ {id task} event, good id task → good id (step task event)
  grows :
    ∀ {id task} event, good id task → records task <+: records (step task event)
  own : ∀ {id task}, good id task → ∀ r ∈ records task, owner r = id

/-- Every task of a pool is good. -/
def Good (good : Nat → Task → Prop) (p : Pool Task Record) : Prop :=
  ∀ slot ∈ p.slots, good slot.id slot.task

/-- What a task is told. -/
inductive Move (Event : Type) where
  | goes (event : Event)
  | writes

/-- A task by itself: it goes on when all it has computed is written. -/
def move (slot : Slot Task) (m : Move Event) : Slot Task :=
  match m with
  | .goes event =>
      if flushed records slot then
        { slot with task := step slot.task event }
      else
        slot
  | .writes =>
      if slot.written < (records slot.task).length then
        { slot with written := slot.written + 1 }
      else
        slot

/-- Whether a task is in a pool. -/
def present (p : Pool Task Record) (id : Nat) : Bool :=
  p.slots.any (·.id = id)

/--
A slot is what a pool and its log have of a task: the log holds the records it has
written, and if the task is still in the pool, it is this one.
-/
structure Alone (p : Pool Task Record) (slot : Slot Task) : Prop where
  log :
    p.log.filter (owner · = slot.id) = (records slot.task).take slot.written
  within : slot.written ≤ (records slot.task).length
  slot : ∀ other ∈ p.slots, other.id = slot.id → other = slot

end

section

variable {step : Task → Event → Task} {records : Task → List Record}
variable {owner : Record → Nat} {good : Nat → Task → Prop}

/-! ## The tasks stay good -/

theorem Good.spawn
    {p : Pool Task Record}
    (holds : Good good p)
    {id : Nat}
    {task : Task}
    (isGood : good id task) :
    Good good (p.spawn id task) := by
  intro slot member
  rcases List.mem_append.mp member with old | isNew
  · exact holds slot old
  · rw [List.mem_singleton.mp isNew]
    exact isGood

theorem Good.remove
    {p : Pool Task Record}
    (holds : Good good p)
    (id : Nat) :
    Good good (p.remove id) :=
  fun slot member => holds slot ((List.mem_filter.mp member).1)

theorem Good.advance
    (tidy : Tidy step records owner good)
    {p : Pool Task Record}
    (holds : Good good p)
    (id : Nat)
    (event : Event) :
    Good good (p.advance step records id event) := by
  intro slot member
  obtain ⟨old, isOld, rfl⟩ := List.mem_map.mp member
  split
  · exact tidy.keeps event (holds old isOld)
  · exact holds old isOld

variable (records) in
/-- What writing a record does, if there is one to write. -/
theorem write_cases (p : Pool Task Record) (id : Nat) :
    p.write records id = p ∨
      ∃ slot ∈ p.slots,
        slot.id = id ∧
          ∃ record,
            (records slot.task)[slot.written]? = some record ∧
              p.write records id =
                { slots :=
                    p.slots.map fun slot =>
                      if slot.id = id then
                        { slot with written := slot.written + 1 }
                      else slot
                  log := p.log ++ [record] } := by
  unfold write
  cases next : (p.find? id).bind
      fun slot => (records slot.task)[slot.written]? with
  | none =>
      exact Or.inl rfl
  | some record =>
      obtain ⟨slot, found, isNext⟩ := Option.bind_eq_some_iff.mp next
      have isId : slot.id = id := by
        simpa using List.find?_some found
      exact Or.inr ⟨slot, List.mem_of_find?_eq_some found, isId, record, isNext,
        rfl⟩

theorem Good.write
    {p : Pool Task Record}
    (holds : Good good p)
    (id : Nat) :
    Good good (p.write records id) := by
  rcases write_cases records p id with
      same | ⟨-, -, -, record, -, written⟩
  · rw [same]
    exact holds
  · rw [written]
    intro slot member
    obtain ⟨old, isOld, rfl⟩ := List.mem_map.mp member
    split <;> exact holds old isOld

/-! ## Which tasks there are -/

@[simp] theorem map_id_advance
    (p : Pool Task Record)
    (id : Nat)
    (event : Event) :
    (p.advance step records id event).slots.map Slot.id =
      p.slots.map Slot.id := by
  rw [advance, List.map_map]
  refine List.map_congr_left ?_
  intro slot _
  simp only [Function.comp_apply]
  split <;> rfl

@[simp] theorem map_id_write (p : Pool Task Record) (id : Nat) :
    (p.write records id).slots.map Slot.id = p.slots.map Slot.id := by
  rcases write_cases records p id with
      same | ⟨-, -, -, record, -, written⟩
  · rw [same]
  · rw [written, List.map_map]
    refine List.map_congr_left ?_
    intro slot _
    simp only [Function.comp_apply]
    split <;> rfl

/-- Everything in the log was there or comes from a task. -/
theorem owner_of_write
    (tidy : Tidy step records owner good)
    {p : Pool Task Record}
    (holds : Good good p)
    {id : Nat}
    {r : Record}
    (member : r ∈ (p.write records id).log) :
    r ∈ p.log ∨ owner r ∈ p.slots.map Slot.id := by
  rcases write_cases records p id with
      same | ⟨slot, isSlot, -, record, isNext, written⟩
  · rw [same] at member
    exact Or.inl member
  · rw [written] at member
    rcases List.mem_append.mp member with old | isNew
    · exact Or.inl old
    · right
      rw [List.mem_singleton.mp isNew,
        tidy.own (holds slot isSlot) record (List.mem_of_getElem? isNext)]
      exact List.mem_map_of_mem isSlot

/-! ## Every task is alone -/

@[simp] theorem move_id (slot : Slot Task) (m : Move Event) :
    (move step records slot m).id = slot.id := by
  cases m <;> simp only [move] <;> split <;> rfl

theorem present_iff {p : Pool Task Record} {id : Nat} :
    p.present id = true ↔ ∃ slot ∈ p.slots, slot.id = id := by
  simp [present]

theorem not_present_iff {p : Pool Task Record} {id : Nat} :
    p.present id = false ↔ ∀ slot ∈ p.slots, slot.id ≠ id := by
  simp [present]

theorem present_iff_mem {p : Pool Task Record} {id : Nat} :
    p.present id = true ↔ id ∈ p.slots.map Slot.id := by
  rw [present_iff, List.mem_map]

/-- A task that is not there does not go on. -/
theorem advance_of_absent
    {p : Pool Task Record}
    {id : Nat}
    (absent : p.present id = false)
    (event : Event) :
    p.advance step records id event = p := by
  have away := not_present_iff.mp absent
  unfold advance
  have same :
      (p.slots.map fun slot =>
        if slot.id = id ∧ flushed records slot = true then
          { slot with task := step slot.task event }
        else slot) = p.slots := by
    refine (List.map_congr_left fun slot member => ?_).trans (List.map_id _)
    rw [if_neg fun chosen => away slot member chosen.1]
    rfl
  rw [same]

/-- A task that is not there writes nothing. -/
theorem write_of_absent
    {p : Pool Task Record}
    {id : Nat}
    (absent : p.present id = false) :
    p.write records id = p := by
  have away := not_present_iff.mp absent
  rcases write_cases records p id with same | ⟨slot, isSlot, isId, -⟩
  · exact same
  · exact absurd isId (away slot isSlot)

/-- A task that is new to the pool and to the log. -/
theorem alone_spawn
    {p : Pool Task Record}
    {id : Nat}
    (fresh : ∀ slot ∈ p.slots, slot.id ≠ id)
    (unlogged : ∀ r ∈ p.log, owner r ≠ id)
    (task : Task) :
    Alone records owner (p.spawn id task) ⟨id, task, 0⟩ where
  log := by
    rw [List.take_zero, List.filter_eq_nil_iff]
    intro r member
    simpa using unlogged r member
  within := Nat.zero_le _
  slot other member isId := by
    rcases List.mem_append.mp member with old | isNew
    · exact absurd isId (fresh other old)
    · exact List.mem_singleton.mp isNew

section

variable {p : Pool Task Record} {slot : Slot Task}

/-- Another task comes. -/
theorem Alone.spawn
    (alone : Alone records owner p slot)
    {other : Nat}
    (different : other ≠ slot.id)
    (another : Task) :
    Alone records owner (p.spawn other another) slot where
  log := alone.log
  within := alone.within
  slot found member isId := by
    rcases List.mem_append.mp member with old | isNew
    · exact alone.slot found old isId
    · rw [List.mem_singleton.mp isNew] at isId
      exact absurd isId different

/-- A task goes. -/
theorem Alone.remove
    (alone : Alone records owner p slot)
    (other : Nat) :
    Alone records owner (p.remove other) slot where
  log := alone.log
  within := alone.within
  slot found member := alone.slot found ((List.mem_filter.mp member).1)

/-- Another task goes on. -/
theorem Alone.advance_other
    (alone : Alone records owner p slot)
    {other : Nat}
    (different : other ≠ slot.id)
    (event : Event) :
    Alone records owner (p.advance step records other event) slot where
  log := alone.log
  within := alone.within
  slot found member isId := by
    obtain ⟨old, isOld, rfl⟩ := List.mem_map.mp member
    split at isId
    · rename_i chosen
      exact absurd (chosen.1.symm.trans isId) different
    · rename_i kept
      rw [if_neg kept]
      exact alone.slot old isOld isId

/-- The task goes on, or does not, as it does by itself. -/
theorem Alone.advance
    (tidy : Tidy step records owner good)
    (isGood : good slot.id slot.task)
    (alone : Alone records owner p slot)
    (event : Event) :
    Alone records owner (p.advance step records slot.id event)
      (move step records slot (.goes event)) := by
  have moved (found : Slot Task) (member : found ∈ p.slots) :
      found.id = slot.id →
      (if found.id = slot.id ∧ flushed records found = true then
          { found with task := step found.task event }
        else found) =
        move step records slot (.goes event) := by
    intro same
    rw [alone.slot found member same]
    simp [move]
  refine ⟨?_, ?_, ?_⟩
  · rw [move_id]
    refine alone.log.trans ?_
    by_cases all : flushed records slot = true
    · obtain ⟨more, longer⟩ := tidy.grows event isGood
      simp only [move, if_pos all]
      rw [← longer, List.take_append_of_le_length alone.within]
    · simp only [move, if_neg all]
  · by_cases all : flushed records slot = true
    · simp only [move, if_pos all]
      exact Nat.le_trans alone.within (tidy.grows event isGood).length_le
    · simp only [move, if_neg all]
      exact alone.within
  · intro other member isId
    obtain ⟨old, isOld, rfl⟩ := List.mem_map.mp member
    refine moved old isOld ?_
    rw [move_id] at isId
    split at isId <;> exact isId

/-- The task writes a record, or does not, as it does by itself. -/
theorem Alone.write
    (tidy : Tidy step records owner good)
    (isGood : good slot.id slot.task)
    (alone : Alone records owner p slot)
    (there : p.present slot.id = true) :
    Alone records owner (p.write records slot.id)
      (move step records slot .writes) := by
  have isFound : p.find? slot.id = some slot := by
    obtain ⟨other, isOther, isId⟩ := present_iff.mp there
    cases found : p.find? slot.id with
    | none =>
        have none := List.find?_eq_none.mp found other isOther
        simp [isId] at none
    | some first =>
        have isFirst := List.mem_of_find?_eq_some found
        have firstId : first.id = slot.id := by
          simpa using List.find?_some found
        rw [alone.slot first isFirst firstId]
  unfold Pool.write
  rw [isFound, Option.bind_some]
  by_cases room : slot.written < (records slot.task).length
  · have next :
        (records slot.task)[slot.written]? =
          some (records slot.task)[slot.written] :=
      List.getElem?_eq_getElem room
    have isOwn :
        owner (records slot.task)[slot.written] = slot.id :=
      tidy.own isGood _ (List.getElem_mem room)
    rw [next]
    simp only [move, if_pos room]
    refine ⟨?_, room, ?_⟩
    · rw [List.filter_append, alone.log, List.take_add_one, next]
      simp [isOwn]
    · intro other member isId
      obtain ⟨old, isOld, rfl⟩ := List.mem_map.mp member
      by_cases chosen : old.id = slot.id
      · rw [if_pos chosen, alone.slot old isOld chosen]
      · rw [if_neg chosen] at isId
        exact absurd isId chosen
  · have nothing : (records slot.task)[slot.written]? = none :=
      List.getElem?_eq_none (Nat.le_of_not_lt room)
    rw [nothing]
    simp only [move, if_neg room]
    exact alone

/-- Another task writes a record. -/
theorem Alone.write_other
    (tidy : Tidy step records owner good)
    (holds : Good good p)
    (alone : Alone records owner p slot)
    {other : Nat}
    (different : other ≠ slot.id) :
    Alone records owner (p.write records other) slot := by
  rcases write_cases records p other with
      same | ⟨writer, isWriter, isOther, record, isNext, wrote⟩
  · rw [same]
    exact alone
  · have isOwn : owner record = other := by
      rw [← isOther]
      exact tidy.own (holds writer isWriter) record
        (List.mem_of_getElem? isNext)
    rw [wrote]
    refine ⟨?_, alone.within, ?_⟩
    · rw [List.filter_append, alone.log]
      simp [isOwn, different]
    · intro found member isId
      obtain ⟨old, isOld, rfl⟩ := List.mem_map.mp member
      by_cases chosen : old.id = other
      · rw [if_pos chosen] at isId
        exact absurd (chosen.symm.trans isId) different
      · rw [if_neg chosen] at isId ⊢
        exact alone.slot old isOld isId

end

end

end Pool
