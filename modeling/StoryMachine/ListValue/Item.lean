import StoryMachine.Text.Blank

/-!
# List items

An item of a list is named by the definition it comes from and its own name, written with
a point between them. The definition may be unknown. Items are ordered by definition,
unknown first, then by name.
-/

open Std

namespace StoryMachine

/-- An item of a list. -/
structure Item where
  origin : Option String
  name : String
  deriving DecidableEq, Repr, Inhabited

namespace Item

instance : Ord Item :=
  ⟨compareLex (compareOn Item.origin) (compareOn Item.name)⟩

instance : TransOrd Item :=
  inferInstanceAs (TransCmp (compareLex (compareOn Item.origin) (compareOn Item.name)))

instance : LawfulEqOrd Item where
  eq_of_compare {a b} h := by
    have h' : (compare a.origin b.origin).then (compare a.name b.name) = .eq := h
    rw [Ordering.then_eq_eq] at h'
    obtain ⟨ho, hn⟩ := h'
    cases a; cases b
    simp only [Item.mk.injEq]
    exact ⟨LawfulEqOrd.eq_of_compare ho, LawfulEqOrd.eq_of_compare hn⟩

/-- Read the full name of an item; without a point the definition is unknown. -/
def parse (s : String) : Item :=
  match Text.cutAt '.' s.toList with
  | some (origin, name) => ⟨some (String.ofList origin), String.ofList name⟩
  | none => ⟨none, s⟩

/-- The full name of an item; an unknown definition is written as a question mark. -/
def fullName (i : Item) : String :=
  i.origin.getD "?" ++ "." ++ i.name

instance : ToString Item := ⟨fullName⟩

end Item

end StoryMachine
