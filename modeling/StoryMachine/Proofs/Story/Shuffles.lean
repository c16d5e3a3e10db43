import Mathlib.Data.List.Perm.Basic
import StoryMachine.Proofs.Story.Changes

/-!
# Rounds of a shuffle

A round of a shuffled sequence shows every element once. Each call draws the round again from its
beginning, and stops at the place it asks for, so what has to be shown is that calls for different
places agree on the draws in front of both. Seen from the list of what is left, the first draw takes
out one element, and the calls for the later places are a round of the others, whose places are
those behind the element taken out moved up by one.

This holds whatever words are drawn. The words of a round depend on the path of the sequence, the
seed of the story and the number of the round only, so that it shows the same order of elements
whatever the story does between two calls.

* `Shuffle.perm_elementAt` : the elements of a round, for any words drawn;
* `Shuffle.order`, `Shuffle.index?_eq_order` : the order that a round shows;
* `Flow.pushShuffled_ok` : what the command leaves on the evaluation stack;
* `Flow.shuffles_are_permutations` : a round shows every element once, and no call of one fails.
-/

open scoped List

namespace StoryMachine

namespace Shuffle

variable {path : String} {storySeed round count n : Int32}

/-! ## The elements of a round -/

/-- The places of what is left behind a draw are all but the one drawn. -/
theorem map_placeBefore {drawn n : Nat} (h : drawn < n + 1) :
    (List.range n).map (placeBefore drawn) = (List.range (n + 1)).eraseIdx drawn := by
  refine List.ext_getElem ?_ fun i hi hi' => ?_
  · rw [List.length_map, List.length_eraseIdx_of_lt (by simpa using h)]
    simp
  · simp only [List.getElem_map, List.getElem_range, List.getElem_eraseIdx, placeBefore]
    split
    · rfl
    · rfl

/-- Whatever the words drawn, a round of `n` elements shows each of them once. -/
theorem perm_elementAt (word : Nat → UInt32) (n : Nat) :
    ((List.range n).map (elementAt word n)).Perm (List.range n) := by
  induction n generalizing word with
  | zero => exact .refl _
  | succ n ih =>
    let later := fun k => word (k + 1)
    let drawn := selected (word 0) (n + 1)
    have hdrawn : drawn < (List.range (n + 1)).length := by
      rw [List.length_range]
      exact selected_lt (word 0) (Nat.succ_pos n)
    have hfirst : elementAt word (n + 1) 0 = drawn := rfl
    have hlater : ∀ i, elementAt word (n + 1) (i + 1) = placeBefore drawn (elementAt later n i) :=
      elementAt_succ word (n + 1)
    calc (List.range (n + 1)).map (elementAt word (n + 1))
        = drawn :: ((List.range n).map (elementAt later n)).map (placeBefore drawn) := by
          rw [List.range_succ_eq_map, List.map_cons, hfirst, List.map_map, List.map_map]
          exact congrArg _ (List.map_congr_left fun i _ => hlater i)
      _ ~ drawn :: (List.range n).map (placeBefore drawn) := ((ih later).map _).cons _
      _ = (List.range (n + 1))[drawn] :: (List.range (n + 1)).eraseIdx drawn := by
          rw [map_placeBefore (by simpa using hdrawn), List.getElem_range]
      _ ~ List.range (n + 1) := List.getElem_cons_eraseIdx_perm hdrawn

/-- The order in which a round shows the elements of a sequence. -/
def order (path : String) (storySeed round n : Int32) : List Nat :=
  let word := Random.draw (Random.seedOf (roundSeed path round storySeed))
  (List.range n.toNatClampNeg).map (elementAt word n.toNatClampNeg)

theorem order_perm (path : String) (storySeed round n : Int32) :
    order path storySeed round n ~ List.range n.toNatClampNeg :=
  perm_elementAt _ _

theorem toInt_mod_nonneg (hn : 0 < n) (hcount : 0 ≤ count) :
    0 ≤ (count % n).toInt ∧ (count % n).toInt < n.toInt := by
  have hn' : 0 < n.toInt := Int32.lt_iff_toInt_lt.mp hn
  have hcount' : 0 ≤ count.toInt := Int32.le_iff_toInt_le.mp hcount
  rw [Int32.toInt_mod]
  exact ⟨Int.tmod_nonneg _ hcount', Int.tmod_lt_of_pos _ hn'⟩

/-- The element that comes after `count` others stands in the order of its round. -/
theorem index?_eq_order (hn : 0 < n) (hcount : 0 ≤ count) :
    index? path storySeed count n =
      (order path storySeed (count / n) n)[(count % n).toNatClampNeg]? := by
  obtain ⟨hplace, hlt⟩ := toInt_mod_nonneg hn hcount
  have hneg : ¬count % n < 0 := by
    rw [Int32.lt_iff_toInt_lt, Int32.toInt_zero]
    omega
  have hround : (count % n).toNatClampNeg < n.toNatClampNeg := by
    rw [Int32.toNatClampNeg, Int32.toNatClampNeg]
    omega
  rw [index?, if_neg hneg, order, List.getElem?_map, List.getElem?_range hround]
  rfl

/-- The calls for the places of a round draw from the order of that round. -/
theorem index?_of_round {L k : Nat} (hn : 0 < n) (hk : k < n.toNatClampNeg)
    (hcount : count.toInt = L * n.toInt + k) :
    index? path storySeed count n = (order path storySeed (Int32.ofNat L) n)[k]? := by
  have hn' : 0 < n.toInt := Int32.lt_iff_toInt_lt.mp hn
  have hk' : (k : Int) < n.toInt := by
    rw [Int32.toNatClampNeg] at hk
    omega
  have hle : 0 ≤ count.toInt := by
    rw [hcount]
    exact Int.add_nonneg (Int.mul_nonneg (Int.natCast_nonneg L) (Int.le_of_lt hn'))
      (Int.natCast_nonneg k)
  have hround : count / n = Int32.ofNat L := by
    rw [← Int32.toInt_inj, Int32.toInt_div, Int.tdiv_eq_ediv_of_nonneg hle, hcount,
      Int.add_comm, Int.add_mul_ediv_right _ _ (Int.ne_of_gt hn'),
      Int.ediv_eq_zero_of_lt (by omega) hk', Int.zero_add, Int32.toInt_ofNat']
  have hplace : (count % n).toNatClampNeg = k := by
    rw [Int32.toNatClampNeg, Int32.toInt_mod, Int.tmod_eq_emod_of_nonneg hle, hcount, Int.add_comm,
      Int.add_mul_emod_self_right, Int.emod_eq_of_lt (by omega) hk']
    rfl
  rw [index?_eq_order hn (Int32.le_iff_toInt_le.mpr hle), hround, hplace]

/-- A call behind no others, or behind some, finds an element of the sequence. -/
theorem exists_index? (path : String) (storySeed : Int32) (hn : 0 < n) (hcount : 0 ≤ count) :
    ∃ i < n.toNatClampNeg, index? path storySeed count n = some i := by
  have hperm := order_perm path storySeed (count / n) n
  obtain ⟨hplace, hlt⟩ := toInt_mod_nonneg hn hcount
  have hround : (count % n).toNatClampNeg < (order path storySeed (count / n) n).length := by
    rw [hperm.length_eq, List.length_range, Int32.toNatClampNeg, Int32.toNatClampNeg]
    omega
  rw [index?_eq_order hn hcount, List.getElem?_eq_getElem hround]
  exact ⟨_, List.mem_range.mp (hperm.mem_iff.mp (List.getElem_mem hround)), rfl⟩

end Shuffle

namespace Flow

open Shuffle

variable {s : Story} {c : Cursor} {size count : Int32} {rest : List Token} {i : Nat}

/-- The command takes the number of elements and the count from the evaluation stack, and leaves
the element that comes next. -/
theorem pushShuffled_ok (hcursor : s.state.cursor = some c) (hsize : 0 < size)
    (hoperands : s.state.evaluation = .value (.int size) :: .value (.int count) :: rest)
    (hindex : index? (s.tree.path c.container).render s.state.seed count size = some i) :
    performCommand .shuffleIndex s = .ok () { s with state := { s.state with
      evaluation := .value (.int (Int32.ofNat i)) :: rest } } := by
  let once : Story := { s with state := { s.state with
    evaluation := .value (.int count) :: rest } }
  let twice : Story := { s with state := { s.state with evaluation := rest } }
  have hfirst : pop s = .ok (.value (.int size)) once := pop_run_cons hoperands
  have hsecond : pop once = .ok (.value (.int count)) twice := pop_run_cons rfl
  have hcontainer : currentContainer .shuffleOutside once = .ok c.container once := by
    unfold currentContainer
    rw [bind_ok (state_ok once), show once.state.cursor = some c from hcursor]
    rfl
  show pushShuffled s = _
  unfold pushShuffled
  rw [bind_ok hfirst]
  dsimp only
  rw [if_neg (Int32.not_le.mpr hsize), bind_ok hcontainer, bind_ok hsecond]
  dsimp only
  have hnext : index? (twice.tree.path c.container).render twice.state.seed count size = some i :=
    hindex
  rw [bind_ok (tree_ok twice), bind_ok (state_ok twice), hnext]
  rfl

/-- **A round of a shuffle shows every element once.** Whatever words are drawn, the places of a
round have different elements, and together all there are. For the path of a sequence, the seed of
the story and a number of elements each round has such an order: a call of the command behind as
many others as there are in `L` rounds and `k` calls leaves the `k`-th element of the order of round
`L`, whatever else has become of the story. No call fails that finds a number of elements and a
count that is not negative on the evaluation stack. -/
theorem shuffles_are_permutations (path : String) (storySeed : Int32) {n : Int32} (hn : 0 < n) :
    (∀ word : Nat → UInt32, (List.range n.toNatClampNeg).map (elementAt word n.toNatClampNeg) ~
      List.range n.toNatClampNeg) ∧
    (∀ L : Nat, ∃ order : List Nat, order ~ List.range n.toNatClampNeg ∧
      ∀ (k : Nat) (hk : k < order.length) (count : Int32), count.toInt = L * n.toInt + k →
        ∀ (s : Story) (c : Cursor) (rest : List Token), s.state.cursor = some c →
          (s.tree.path c.container).render = path → s.state.seed = storySeed →
          s.state.evaluation = .value (.int n) :: .value (.int count) :: rest →
          performCommand .shuffleIndex s = .ok () { s with state := { s.state with
            evaluation := .value (.int (Int32.ofNat order[k])) :: rest } }) ∧
    ∀ count : Int32, 0 ≤ count → ∀ (s : Story) (c : Cursor) (rest : List Token),
      s.state.cursor = some c →
      s.state.evaluation = .value (.int n) :: .value (.int count) :: rest →
      ∃ i < n.toNatClampNeg, performCommand .shuffleIndex s = .ok () { s with
        state := { s.state with evaluation := .value (.int (Int32.ofNat i)) :: rest } } := by
  refine ⟨fun word => perm_elementAt word _,
    fun L => ⟨order path storySeed (Int32.ofNat L) n, order_perm _ _ _ _, ?_⟩, ?_⟩
  · intro k hk count hcount s c rest hcursor hpath hseed hoperands
    have hlength : k < n.toNatClampNeg := by
      rwa [(order_perm path storySeed (Int32.ofNat L) n).length_eq, List.length_range] at hk
    refine pushShuffled_ok hcursor hn hoperands ?_
    rw [hpath, hseed, index?_of_round hn hlength hcount, List.getElem?_eq_getElem hk]
  · intro count hcount s c rest hcursor hoperands
    obtain ⟨i, hi, hindex⟩ :=
      exists_index? (s.tree.path c.container).render s.state.seed hn hcount
    exact ⟨i, hi, pushShuffled_ok hcursor hn hoperands hindex⟩

end Flow

/-- A story at a shuffled sequence of three elements, behind `count` others. -/
def tombola (count : Int32) : Story :=
  let s := Story.unstarted ⟨0, 21, .ofBlock (.container none ⟨false, false, false⟩ [] []), .empty⟩ 7
  { s with state := { s.state with evaluation := [.value (.int 3), .value (.int count)] } }

/-- The three calls of the second round leave three different elements. -/
theorem tombola_shows_each_once : (0 : Int32) < 3 ∧ ∃ order : List Nat, order ~ [0, 1, 2] ∧
    ∀ (k : Nat) (hk : k < order.length),
      Flow.performCommand .shuffleIndex (tombola (Int32.ofNat (3 + k))) =
        .ok () { tombola (Int32.ofNat (3 + k)) with
          state := { (tombola (Int32.ofNat (3 + k))).state with
            evaluation := [.value (.int (Int32.ofNat order[k]))] } } := by
  have hn : (0 : Int32) < 3 := by decide
  obtain ⟨-, hrounds, -⟩ := Flow.shuffles_are_permutations "" 7 hn
  obtain ⟨order, hperm, hcalls⟩ := hrounds 1
  refine ⟨hn, order, hperm, fun k hk => ?_⟩
  have hthree : k < 3 := Nat.lt_of_lt_of_eq hk hperm.length_eq
  refine hcalls k hk _ ?_ (tombola _) (.start ContentTree.rootId) [] rfl rfl rfl rfl
  rw [Int32.toInt_ofNat_of_lt (by omega)]
  exact Int.natCast_add 3 k

end StoryMachine
