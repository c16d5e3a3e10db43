import StoryMachine.Random

/-!
# Shuffles

A shuffled sequence of `n` elements shows each of them once before it starts over. Which
one comes at a place of a round is found by drawing the elements in front of it again: the
draws depend only on the path of the sequence, on the seed of the story and on the number
of the round.

`drawAt` draws from the list of the elements that are left. `elementAt` follows one place
back through the draws without such a list, and finds the same element
(`drawAt_eq_getElem?`).
-/

namespace StoryMachine.Shuffle

/-- The place among `n` that a drawn word selects; as a number of 32 bits in two's
complement the word is reduced modulo `n`. -/
def selected (word : UInt32) (n : Nat) : Nat :=
  (word.toInt32.toInt % (n : Int)).toNat

/-- The element at place `i` of a round that draws from `left`, with the words from number
`k` on. -/
def drawAt {α : Type} (word : Nat → UInt32) : Nat → List α → Nat → Option α
  | k, left, 0 => left[selected (word k) left.length]?
  | k, left, i + 1 =>
    drawAt word (k + 1) (left.eraseIdx (selected (word k) left.length)) i

/-- The place that the element at place `p` had before the one at place `drawn` was taken
out. -/
def placeBefore (drawn p : Nat) : Nat :=
  if p < drawn then p else p + 1

/-- The element at place `i` of a round of `n` elements: where the last draw finds it, and
then where it was before each of the others. -/
def elementAt (word : Nat → UInt32) (n i : Nat) : Nat :=
  (List.range i).foldr (fun k p => placeBefore (selected (word k) (n - k)) p)
    (selected (word i) (n - i))

theorem selected_lt (word : UInt32) {n : Nat} (h : 0 < n) : selected word n < n := by
  have hn : (n : Int) ≠ 0 := by omega
  have h₀ := Int.emod_nonneg word.toInt32.toInt hn
  have h₁ := Int.emod_lt_of_pos word.toInt32.toInt (show (0 : Int) < n by omega)
  unfold selected
  omega

theorem elementAt_succ (word : Nat → UInt32) (n i : Nat) :
    elementAt word n (i + 1) =
      placeBefore (selected (word 0) n) (elementAt (fun k => word (k + 1)) (n - 1) i) := by
  simp [elementAt, List.range_succ_eq_map, List.foldr_map, Nat.sub_sub, Nat.add_comm]

/-- Drawing from a list finds the element at the place that `elementAt` gives. -/
theorem drawAt_eq_getElem? {α : Type} (word : Nat → UInt32) (i : Nat) :
    ∀ (k : Nat) (left : List α), i < left.length →
      drawAt word k left i = left[elementAt (fun j => word (k + j)) left.length i]? := by
  induction i with
  | zero => intro k left _; simp [drawAt, elementAt]
  | succ i ih =>
    intro k left h
    have hlt := selected_lt (word k) (n := left.length) (by omega)
    have hlen := List.length_eraseIdx_of_lt hlt
    rw [drawAt, ih (k + 1) _ (by omega), List.getElem?_eraseIdx, elementAt_succ, hlen]
    simp only [placeBefore, Nat.add_zero, Nat.add_assoc, Nat.add_comm 1]
    split <;> rfl

/-- The sum of the code points of a path, in 32 bits. -/
def pathHash (path : String) : Int32 :=
  path.toList.foldl (fun h c => h + Int32.ofNat c.toNat) 0

/-- The seed of a round. -/
def roundSeed (path : String) (round storySeed : Int32) : Int32 :=
  pathHash path + round + storySeed

/-- The element of a sequence of `n` elements that comes after `count` others. A count may
have become negative; its remainder then is no place of a round. -/
def index? (path : String) (storySeed count n : Int32) : Option Nat :=
  let place := count % n
  if place < 0 then none
  else
    let seed := Random.seedOf (roundSeed path (count / n) storySeed)
    some (elementAt (Random.draw seed) n.toNatClampNeg place.toNatClampNeg)

end StoryMachine.Shuffle
