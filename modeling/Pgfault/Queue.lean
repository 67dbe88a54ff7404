import Mathlib.Data.List.Forall2

namespace Queue

/-!
# Queues that are updated at both ends

A queue is a list with its front first.  One party works on the element at the
front and the other on the element at the back.  The lemmas say what such an
update leaves alone and how the two ends meet in a queue of one element.
-/

variable {α β : Type}

/-- Apply an update to the first element of a queue. -/
def modifyFront (update : α → α) : List α → List α
  | [] => []
  | first :: rest => update first :: rest

/-- Apply an update to the last element of a queue. -/
def modifyBack (update : α → α) : List α → List α
  | [] => []
  | [only] => [update only]
  | first :: second :: rest => first :: modifyBack update (second :: rest)

@[simp] theorem modifyFront_nil
    (update : α → α) :
    modifyFront update [] = [] := rfl

@[simp] theorem modifyFront_cons
    (update : α → α)
    (first : α)
    (rest : List α) :
    modifyFront update (first :: rest) = update first :: rest := rfl

@[simp] theorem modifyBack_nil
    (update : α → α) :
    modifyBack update [] = [] := rfl

/-- The update of the back reaches exactly the last element. -/
@[simp] theorem modifyBack_concat
    (update : α → α)
    (earlier : List α)
    (back : α) :
    modifyBack update (earlier ++ [back]) = earlier ++ [update back] := by
  induction earlier with
  | nil =>
      rfl
  | cons first rest inductionHypothesis =>
      cases rest with
      | nil =>
          rfl
      | cons second later =>
          simpa [modifyBack] using inductionHypothesis

theorem modifyBack_cons
    (update : α → α)
    (first : α)
    {rest : List α}
    (nonempty : rest ≠ []) :
    modifyBack update (first :: rest) = first :: modifyBack update rest := by
  cases rest with
  | nil =>
      exact absurd rfl nonempty
  | cons second later =>
      rfl

@[simp] theorem head?_modifyFront
    (update : α → α)
    (queue : List α) :
    (modifyFront update queue).head? = queue.head?.map update := by
  cases queue <;> rfl

@[simp] theorem tail_modifyFront
    (update : α → α)
    (queue : List α) :
    (modifyFront update queue).tail = queue.tail := by
  cases queue <;> rfl

@[simp] theorem length_modifyFront
    (update : α → α)
    (queue : List α) :
    (modifyFront update queue).length = queue.length := by
  cases queue <;> rfl

/-- Every queue is empty or has a back behind its earlier elements. -/
theorem eq_nil_or_concat
    (queue : List α) :
    queue = [] ∨ ∃ earlier back, queue = earlier ++ [back] := by
  rcases List.eq_nil_or_concat queue with empty | ⟨earlier, back, shape⟩
  · exact Or.inl empty
  · exact Or.inr ⟨earlier, back, by simpa using shape⟩

@[simp] theorem length_modifyBack
    (update : α → α)
    (queue : List α) :
    (modifyBack update queue).length = queue.length := by
  rcases eq_nil_or_concat queue with rfl | ⟨earlier, back, rfl⟩
  · rfl
  · simp

@[simp] theorem getLast?_modifyBack
    (update : α → α)
    (queue : List α) :
    (modifyBack update queue).getLast? = queue.getLast?.map update := by
  rcases eq_nil_or_concat queue with rfl | ⟨earlier, back, rfl⟩
  · rfl
  · simp

/-- An update that keeps a projection keeps the projected queue. -/
theorem map_modifyFront
    {update : α → α}
    {project : α → β}
    (keeps : ∀ item, project (update item) = project item)
    (queue : List α) :
    (modifyFront update queue).map project = queue.map project := by
  cases queue with
  | nil =>
      rfl
  | cons first rest =>
      simp [keeps]

/-- A projection carries an update of the front over. -/
theorem map_modifyFront_of
    {update : α → α}
    {project : α → β}
    {image : β → β}
    (carries : ∀ item, project (update item) = image (project item))
    (queue : List α) :
    (modifyFront update queue).map project =
      modifyFront image (queue.map project) := by
  cases queue with
  | nil =>
      rfl
  | cons first rest =>
      simp [carries]

/-- The same for an update of the back. -/
theorem map_modifyBack_of
    {update : α → α}
    {project : α → β}
    {image : β → β}
    (carries : ∀ item, project (update item) = image (project item))
    (queue : List α) :
    (modifyBack update queue).map project =
      modifyBack image (queue.map project) := by
  rcases eq_nil_or_concat queue with rfl | ⟨earlier, back, rfl⟩
  · rfl
  · simp [carries]

/-- Two pointwise related steps of a queue compose. -/
theorem forall₂_trans
    (relation : α → α → Prop)
    (transitive :
      ∀ first second third,
        relation first second →
        relation second third →
        relation first third)
    {before middle after : List α}
    (first : List.Forall₂ relation before middle)
    (second : List.Forall₂ relation middle after) :
    List.Forall₂ relation before after := by
  induction first generalizing after with
  | nil =>
      exact second
  | cons head tail inductionHypothesis =>
      cases second with
      | cons nextHead nextTail =>
          exact .cons (transitive _ _ _ head nextHead)
            (inductionHypothesis nextTail)

/-- Every element of a related queue comes from one of the queue before. -/
theorem exists_of_forall₂
    {relation : α → β → Prop}
    {before : List α}
    {after : List β}
    (related : List.Forall₂ relation before after)
    {item : β}
    (member : item ∈ after) :
    ∃ source ∈ before, relation source item := by
  induction related with
  | nil =>
      simp at member
  | @cons source target _ _ head _ inductionHypothesis =>
      rcases List.mem_cons.mp member with isHead | inTail
      · subst item
        exact ⟨source, by simp, head⟩
      · obtain ⟨found, foundMember, moves⟩ := inductionHypothesis inTail
        exact ⟨found, by simp [foundMember], moves⟩

/-- The back of a related queue stands against the back. -/
theorem exists_concat_of_forall₂
    {relation : α → β → Prop}
    {before : List α}
    {after : List β}
    {back : β}
    (related : List.Forall₂ relation before (after ++ [back])) :
    ∃ sources source,
      before = sources ++ [source] ∧
        List.Forall₂ relation sources after ∧ relation source back := by
  rcases eq_nil_or_concat before with rfl | ⟨sources, source, rfl⟩
  · have length := related.length_eq
    simp at length
  · have same : sources.length = after.length := by
      have length := related.length_eq
      simpa using length
    have front := List.forall₂_take_append _ after [back] related
    have last := List.forall₂_drop_append _ after [back] related
    rw [← same] at front last
    rw [List.take_left] at front
    rw [List.drop_left] at last
    cases last with
    | cons head _ =>
        exact ⟨sources, source, rfl, front, head⟩

/-- Related queues are related position by position. -/
theorem related_of_forall₂
    {relation : α → β → Prop}
    {before : List α}
    {after : List β}
    (related : List.Forall₂ relation before after)
    {i : Nat}
    {a : α}
    {b : β}
    (source : before[i]? = some a)
    (target : after[i]? = some b) :
    relation a b := by
  induction related generalizing i with
  | nil =>
      simp at source
  | cons head _ inductionHypothesis =>
      cases i with
      | zero =>
          simp only [List.getElem?_cons_zero, Option.some.injEq]
            at source target
          subst source
          subst target
          exact head
      | succ i =>
          exact inductionHypothesis (by simpa using source)
            (by simpa using target)

/-- An update of the back that moves along a reflexive relation. -/
theorem forall₂_modifyBack
    (relation : α → α → Prop)
    (reflexive : ∀ item, relation item item)
    {update : α → α}
    (moves : ∀ item, relation item (update item))
    (queue : List α) :
    List.Forall₂ relation queue (modifyBack update queue) := by
  have same (items : List α) : List.Forall₂ relation items items :=
    List.forall₂_same.mpr fun item _ => reflexive item
  rcases eq_nil_or_concat queue with rfl | ⟨earlier, back, rfl⟩
  · exact .nil
  · rw [modifyBack_concat]
    exact List.rel_append (same earlier) (.cons (moves back) .nil)

/-- An update of the front that moves along a reflexive relation. -/
theorem forall₂_modifyFront
    (relation : α → α → Prop)
    (reflexive : ∀ item, relation item item)
    {update : α → α}
    (moves : ∀ item, relation item (update item))
    (queue : List α) :
    List.Forall₂ relation queue (modifyFront update queue) := by
  cases queue with
  | nil =>
      exact .nil
  | cons first rest =>
      exact .cons (moves first)
        (List.forall₂_same.mpr fun item _ => reflexive item)

end Queue
