import Mathlib.Data.List.Basic

/-!
# What holds of every first part of a list

A program that can stop between any two of its actions has done some first part
of them.  `Always` is a property of every first part, and a `Piece` is a list
with such a property that may bring itself to order again at its end.  Pieces are
put together by `Rules`.
-/

namespace FirstParts

variable {Item : Type}

/-- A property of every first part of a list. -/
def Always (holds : List Item → Prop) (items : List Item) : Prop :=
  ∀ k, holds (items.take k)

variable {holds level : List Item → Prop}

theorem always_nil : Always holds [] ↔ holds [] := by
  simp [Always]

theorem always_cons (item : Item) (rest : List Item) :
    Always holds (item :: rest) ↔
      holds [] ∧ Always (fun items => holds (item :: items)) rest := by
  constructor
  · intro all
    exact ⟨all 0, fun k => all (k + 1)⟩
  · rintro ⟨first, later⟩ k
    cases k with
    | zero =>
        exact first
    | succ k =>
        exact later k

theorem Always.whole {items : List Item} (all : Always holds items) :
    holds items := by
  have whole := all items.length
  rwa [List.take_length] at whole

theorem Always.mono
    {weaker : List Item → Prop}
    (gives : ∀ items, holds items → weaker items)
    {items : List Item}
    (all : Always holds items) :
    Always weaker items :=
  fun k => gives _ (all k)

theorem Always.append
    (compose :
      ∀ items later, level items → holds later → holds (items ++ later))
    {items later : List Item}
    (first : Always holds items)
    (isLevel : level items)
    (second : Always holds later) :
    Always holds (items ++ later) := by
  intro k
  rw [List.take_append]
  rcases Nat.le_total k items.length with inside | beyond
  · rw [Nat.sub_eq_zero_of_le inside, List.take_zero, List.append_nil]
    exact first k
  · rw [List.take_of_length_le beyond]
    exact compose items _ isLevel (second _)

/--
A list with a property of every first part, and with another one as a whole if
something comes behind it.
-/
structure Piece
    (holds level : List Item → Prop)
    (goesOn : Prop)
    (items : List Item) : Prop where
  all : Always holds items
  level : goesOn → level items

/-- How the two properties of pieces go together. -/
structure Rules (holds level : List Item → Prop) : Prop where
  nothing : level []
  within : ∀ items, level items → holds items
  compose : ∀ items later, level items → holds later → holds (items ++ later)
  both : ∀ items later, level items → level later → level (items ++ later)

theorem Piece.of_imp
    {goesOn stronger : Prop}
    {items : List Item}
    (piece : Piece holds level goesOn items)
    (gives : stronger → goesOn) :
    Piece holds level stronger items :=
  ⟨piece.all, fun still => piece.level (gives still)⟩

theorem Rules.empty (rules : Rules holds level) {goesOn : Prop} :
    Piece holds level goesOn [] := by
  refine ⟨?_, fun _ => rules.nothing⟩
  rw [always_nil]
  exact rules.within [] rules.nothing

/-- Every first part of the list is in order. -/
theorem Rules.even
    (rules : Rules holds level)
    {items : List Item}
    (even : Always level items)
    {goesOn : Prop} :
    Piece holds level goesOn items :=
  ⟨even.mono rules.within, fun _ => even.whole⟩

/-- A piece behind one that something comes behind. -/
theorem Rules.join
    (rules : Rules holds level)
    {before goesOn : Prop}
    {items later : List Item}
    (first : Piece holds level before items)
    (passed : before)
    (second : Piece holds level goesOn later) :
    Piece holds level goesOn (items ++ later) :=
  ⟨first.all.append rules.compose (first.level passed) second.all,
    fun still => rules.both _ _ (first.level passed) (second.level still)⟩

/-- Pieces that something always comes behind, one after the other. -/
theorem Rules.map
    (rules : Rules holds level)
    {Source : Type}
    {make : Source → Item}
    (each : ∀ source, Piece holds level True [make source])
    (sources : List Source) :
    Piece holds level True (sources.map make) := by
  induction sources with
  | nil =>
      exact rules.empty
  | cons source rest inductionHypothesis =>
      exact rules.join (each source) trivial inductionHypothesis

end FirstParts
