import Mathlib
import StoryMachine.Proofs.Maps
import StoryMachine.Value.Operator

/-!
# How operators agree

Two operands of any kinds are brought to a pair of one kind, and what the pair is does not depend on
the operator, as long as the operator does nothing special to lists. Nor does it depend on the order
of the operands, but for the order in the pair. So it is enough to compare operators pair by pair:
there *equal* and *not equal* give opposite answers in either order, and so do *has* and *has not*.

*And*, *or* and *not* are told through what is true. Truth values and whole numbers keep their truth
where they are brought to another kind of numbers, because a whole number is zero as a
single-precision number just when it is zero. Next to a list the connectives look at the truth of
their operands anyway.

* `Decimal.singleOfInt_beq_zero` : zero among whole and single-precision numbers;
* `Pair`, `Operator.onPair` : two operands of one kind, and what an operator makes of them;
* `Operator.Joined` : what two operands are brought to in either order, for operands that are no
  lists (`Operator.joined_applyPlain`) and for all (`Operator.joined_apply2`);
* `Operator.Connective` : *and* and *or*, which keep to the truth of their operands;
* `Operator.operators_agree` : the laws of comparison, containment and truth.
-/

namespace StoryMachine

/-! ## Whole numbers as single-precision numbers -/

namespace Decimal

open Float.Model.UnpackedFloat

theorem le_exponentFor (n : Nat) : -24 ≤ binary32.exponentFor n 1 := by
  have hden : Nat.log2 1 = 0 := by decide
  unfold Format.exponentFor
  simp only [hden, binary32]
  split <;> omega

/-- The exponent field of a number that is not zero is none of the least ones, so that its bits are
not those of zero, whatever the significand is rounded to. -/
theorem roundRatio_bounds {n : Nat} (h : 0 < n) :
    0 < binary32.roundRatio n 1 ∧ binary32.roundRatio n 1 ≤ 0x7F800000 := by
  have hq := le_exponentFor n
  have hleast : binary32.least = -149 := rfl
  have hfraction : binary32.fractionBits = 23 := rfl
  have hinfinity : binary32.infinityBits = 0x7F800000 := by decide
  unfold Format.roundRatio
  rw [if_neg (by omega)]
  dsimp only
  rw [hleast, hfraction, hinfinity, Nat.shiftLeft_eq]
  omega

/-- Bits are kept if they are not those of what is no number. -/
theorem toBits_ofBits {bits : UInt32} (h : bits.toNat % 0x80000000 ≤ 0x7F800000) :
    (Float32.ofBits bits).toBits = bits := by
  have hvalid : Float.Model.Format.binary32.Valid bits.toBitVec := by
    refine ⟨fun hexponent hmantissa => absurd (BitVec.eq_of_toNat_eq ?_) hmantissa⟩
    have hfield := congrArg BitVec.toNat hexponent
    rw [unpackExponent_def, BitVec.extractLsb'_toNat] at hfield
    rw [unpackMantissa_def, BitVec.extractLsb'_toNat]
    simp [Nat.shiftRight_eq_div_pow] at hfield ⊢
    omega
  exact UInt32.toBitVec_inj.mp (pack_unpack_of_valid hvalid (by decide))

theorem toBits_nearest32 (negative : Bool) {n : Nat} (h : 0 < n) :
    (nearest32 negative n 1).toBits.toNat % 0x80000000 = binary32.roundRatio n 1 := by
  obtain ⟨-, hle⟩ := roundRatio_bounds h
  have htoNat : (UInt32.ofNat (if negative then binary32.roundRatio n 1 + 0x80000000
      else binary32.roundRatio n 1)).toNat % 0x80000000 = binary32.roundRatio n 1 := by
    rw [UInt32.toNat_ofNat']
    split <;> omega
  rw [nearest32, toBits_ofBits (htoNat.trans_le hle), htoNat]

/-- A whole number is zero as a single-precision number just when it is zero. -/
theorem singleOfInt_beq_zero (n : Int32) : (singleOfInt n == 0) = (n == 0) := by
  by_cases hn : n = 0
  · subst hn
    decide
  have habs : 0 < n.toInt.natAbs := by
    rw [Int.natAbs_pos, ← Int32.toInt_zero]
    exact fun h => hn (Int32.toInt_inj.mp h)
  have hbits := (toBits_nearest32 (n < 0) habs).trans_ne (roundRatio_bounds habs).1.ne'
  rw [beq_false_of_ne hn]
  by_contra hzero
  -- what equals zero is zero of either sign, whose other bits are none
  obtain ⟨-, -, heq | ⟨heq, -⟩ | ⟨heq, -⟩⟩ :=
    Float32.beq_iff_ne_nan_and_eq.mp (Bool.eq_true_of_not_eq_false hzero)
  all_goals
    rw [singleOfInt] at heq
    rw [heq] at hbits
    exact hbits (by decide)

theorem singleOfInt_bne_zero (n : Int32) : (singleOfInt n != 0) = (n != 0) :=
  congrArg Bool.not (singleOfInt_beq_zero n)

end Decimal

/-! ## Lists with the same items -/

namespace ListValue

variable {a b : ListValue}

theorem sameItems_iff : a.sameItems b = true ↔ a.items.keys.Perm b.items.keys := by
  have hsize : ∀ l : ListValue, l.size = l.items.keys.length := fun l => (List.length_map _).symm
  have hsubset : b.items.keys.all a.has = true ↔ b.items.keys ⊆ a.items.keys := by
    rw [List.all_eq_true]
    exact forall₂_congr fun i _ => SortedMap.contains_iff
  rw [sameItems, Bool.and_eq_true, hsubset, beq_iff_eq, hsize, hsize]
  constructor
  · rintro ⟨hlength, hsub⟩
    exact ((List.subperm_of_subset (SortedMap.nodup_keys _) hsub).perm_of_length_le hlength.le).symm
  · exact fun hperm => ⟨hperm.length_eq, hperm.symm.subset⟩

theorem sameItems_comm : a.sameItems b = b.sameItems a := by
  rw [Bool.eq_iff_iff, sameItems_iff, sameItems_iff]
  exact List.perm_comm

end ListValue

/-! ## Operands of one kind -/

/-- Two operands of one kind. -/
inductive Pair where
  | ints (x y : Int32)
  | floats (x y : Float32)
  | texts (x y : String)
  | lists (a b : ListValue)
  | targets (p q : Path)

namespace Pair

/-- The first operand. -/
def fst : Pair → Value
  | ints x _ => .int x
  | floats x _ => .float x
  | texts x _ => .text x
  | lists a _ => .list a
  | targets p _ => .target p

/-- The second operand. -/
def snd : Pair → Value
  | ints _ y => .int y
  | floats _ y => .float y
  | texts _ y => .text y
  | lists _ b => .list b
  | targets _ q => .target q

/-- The operands the other way round. -/
def swap : Pair → Pair
  | ints x y => ints y x
  | floats x y => floats y x
  | texts x y => texts y x
  | lists a b => lists b a
  | targets p q => targets q p

/-- Whether the operands are equal. -/
def same : Pair → Bool
  | ints x y => x == y
  | floats x y => x == y
  | texts x y => x == y
  | lists a b => a.sameItems b
  | targets p q => p == q

theorem same_swap (p : Pair) : p.swap.same = p.same := by
  cases p with
  | ints => exact BEq.comm
  | floats => exact BEq.comm
  | texts => exact BEq.comm
  | lists => exact ListValue.sameItems_comm
  | targets => exact BEq.comm

@[simp] theorem swap_swap (p : Pair) : p.swap.swap = p := by
  cases p <;> rfl

@[simp] theorem swap_fst (p : Pair) : p.swap.fst = p.snd := by
  cases p <;> rfl

@[simp] theorem swap_snd (p : Pair) : p.swap.snd = p.fst := by
  cases p <;> rfl

/-- Two values of one kind are a pair, unless there are no rules for their kind. -/
theorem exists_of_kind {a b : Value} (h : a.kind = b.kind) (hbool : a.kind ≠ .bool)
    (hreference : a.kind ≠ .reference) : ∃ p : Pair, a = p.fst ∧ b = p.snd := by
  cases a with
  | bool => exact absurd rfl hbool
  | reference => exact absurd rfl hreference
  | int x => cases b <;> cases h; exact ⟨.ints _ _, rfl, rfl⟩
  | float x => cases b <;> cases h; exact ⟨.floats _ _, rfl, rfl⟩
  | text x => cases b <;> cases h; exact ⟨.texts _ _, rfl, rfl⟩
  | list l => cases b <;> cases h; exact ⟨.lists _ _, rfl, rfl⟩
  | target p => cases b <;> cases h; exact ⟨.targets _ _, rfl, rfl⟩

end Pair

/-- Two operators answer each other: one of them says yes where the other says no, or both fail. -/
inductive Opposite : Except StoryError Value → Except StoryError Value → Prop
  | answers (b : Bool) : Opposite (.ok (.bool b)) (.ok (.bool !b))
  | failures (e e' : StoryError) : Opposite (.error e) (.error e')

namespace Operator

/-- What an operator makes of operands of one kind. -/
def onPair (o : Operator) : Pair → Except StoryError Value
  | .ints x y => o.onInts x y
  | .floats x y => o.onFloats x y
  | .texts x y => o.onTexts x y
  | .lists a b => o.onLists a b
  | .targets p q => o.onTargets p q

theorem equal_onPair (p : Pair) : equal.onPair p = .ok (.bool p.same) := by
  cases p <;> rfl

theorem notEqual_onPair (p : Pair) : notEqual.onPair p = .ok (.bool !p.same) := by
  cases p <;> rfl

theorem equal_onPair_swap (p : Pair) : equal.onPair p.swap = equal.onPair p := by
  rw [equal_onPair, equal_onPair, p.same_swap]

theorem notEqual_onPair_swap (p : Pair) : notEqual.onPair p.swap = notEqual.onPair p := by
  rw [notEqual_onPair, notEqual_onPair, p.same_swap]

theorem opposite_equal_onPair (p : Pair) : Opposite (equal.onPair p) (notEqual.onPair p) := by
  rw [equal_onPair, notEqual_onPair]
  exact .answers _

theorem opposite_has_onPair (p : Pair) : Opposite (has.onPair p) (hasNot.onPair p) := by
  cases p with
  | texts => exact .answers _
  | lists => exact .answers _
  | ints => exact .failures _ _
  | floats => exact .failures _ _
  | targets => exact .failures _ _

end Operator

/-! ## Bringing operands to one kind -/

theorem Kind.rank_inj {a b : Kind} (h : a.rank = b.rank) : a = b := by
  cases a <;> cases b <;> first | rfl | contradiction

namespace Value

variable {v w a : Value} {k : Kind}

/-- The kind that two operands are brought to. -/
def joint (v w : Value) : Kind :=
  Kind.max (Kind.max .int v.kind) w.kind

theorem joint_comm (v w : Value) : joint v w = joint w v := by
  unfold joint
  cases v.kind <;> cases w.kind <;> rfl

theorem rank_le_joint (v w : Value) :
    v.kind.rank ≤ (joint v w).rank ∧ w.kind.rank ≤ (joint v w).rank ∧ 1 ≤ (joint v w).rank := by
  unfold joint
  cases v.kind <;> cases w.kind <;> decide

theorem joint_cases (v w : Value) :
    joint v w = .int ∨ joint v w = v.kind ∨ joint v w = w.kind := by
  unfold joint
  cases v.kind <;> cases w.kind <;> decide

theorem coerce_self (v : Value) : v.coerce v.kind = .ok v := by
  cases v <;> rfl

theorem exists_list (h : v.kind = .list) : ∃ l, v = .list l := by
  cases v <;> first | contradiction | exact ⟨_, rfl⟩

/-- Up to texts, a value can be brought to every later kind. -/
theorem exists_coerce (h : v.kind.rank ≤ k.rank) (hk : k.rank ≤ 3) :
    ∃ a, v.coerce k = .ok a ∧ a.kind = k := by
  cases v <;> cases k <;>
    first
    | exact absurd h (of_decide_eq_false rfl)
    | exact absurd hk (of_decide_eq_false rfl)
    | exact ⟨_, rfl, rfl⟩

/-- No value can be brought to a later kind than texts. -/
theorem exists_coerce_error (h : v.kind.rank < k.rank) (hk : 3 < k.rank) :
    ∃ e, v.coerce k = .error e := by
  cases v <;> cases k <;>
    first
    | exact absurd h (of_decide_eq_false rfl)
    | exact absurd hk (of_decide_eq_false rfl)
    | exact ⟨_, rfl⟩

/-- A value keeps its truth where it is brought to a later kind, unless it becomes a text. -/
theorem truth_of_coerce (hv : v.coerce k = .ok a) (h : v.kind.rank ≤ k.rank) (ha : a.kind ≠ .text) :
    v.truth = a.truth := by
  by_cases hk : v.kind = k
  · subst hk
    rw [coerce_self] at hv
    cases hv
    rfl
  cases v with
  | bool b =>
    cases k <;> first | contradiction | cases hv
    · cases b <;> rfl
    · exact congrArg Except.ok ((Decimal.singleOfInt_bne_zero _).trans (by cases b <;> rfl)).symm
    · exact absurd rfl ha
  | int n =>
    cases k <;> first | contradiction | cases hv
    · exact congrArg Except.ok (Decimal.singleOfInt_bne_zero n).symm
    · exact absurd rfl ha
  | float x =>
    cases k <;> first | contradiction | cases hv
    exact absurd rfl ha
  | text | list | target | reference =>
    cases k <;> first | exact absurd h (of_decide_eq_false rfl) | contradiction

end Value

namespace Operator

/-- An operator that does nothing special to an operand that is no list, next to one that is. -/
def Uniform (o : Operator) : Prop :=
  o ≠ .add ∧ o ≠ .subtract ∧ o ≠ .and ∧ o ≠ .or

instance : DecidablePred Uniform := fun o =>
  inferInstanceAs (Decidable (o ≠ .add ∧ o ≠ .subtract ∧ o ≠ .and ∧ o ≠ .or))

/-- Two operands in one order and in the other, as the operators see them: as one pair, or each
operator fails alike. -/
inductive Joined (f g : Operator → Except StoryError Value) : Prop
  | pair (p : Pair) (h : ∀ o : Operator, o.Uniform → f o = o.onPair p ∧ g o = o.onPair p.swap)
  | failure (e : Operator → StoryError)
      (h : ∀ o : Operator, o.Uniform → f o = .error (e o) ∧ g o = .error (e o))

variable {defs : ListDefinitions} {v w r a b : Value} {l m : ListValue} {p : Pair} {o o' : Operator}
  {e : StoryError} {f g : Operator → Except StoryError Value}

open Value (joint joint_comm rank_le_joint)

theorem Joined.symm (h : Joined f g) : Joined g f := by
  cases h with
  | pair p h => exact .pair p.swap fun o ho => ⟨(h o ho).2, by rw [Pair.swap_swap, (h o ho).1]⟩
  | failure e h => exact .failure e fun o ho => (h o ho).symm

/-! ### Operands none of which is a list -/

theorem applyPlain_of_coerce (o : Operator) (hv : v.coerce (joint v w) = .ok p.fst)
    (hw : w.coerce (joint v w) = .ok p.snd) (hp : p.fst.kind ≠ .list) :
    o.applyPlain v w = o.onPair p := by
  unfold joint at hv hw
  simp only [applyPlain, hv, hw]
  cases p with
  | lists => exact absurd rfl hp
  | ints => rfl
  | floats => rfl
  | texts => rfl
  | targets => rfl

theorem applyPlain_left_error (o : Operator) (hv : v.coerce (joint v w) = .error e) :
    o.applyPlain v w = .error e := by
  unfold joint at hv
  simp only [applyPlain, hv]
  rfl

theorem applyPlain_right_error (o : Operator) (hv : v.coerce (joint v w) = .ok a)
    (hw : w.coerce (joint v w) = .error e) : o.applyPlain v w = .error e := by
  unfold joint at hv hw
  simp only [applyPlain, hv, hw]
  rfl

theorem exists_of_applyPlain (h : o.applyPlain v w = .ok r) :
    ∃ p : Pair, v.coerce (joint v w) = .ok p.fst ∧ w.coerce (joint v w) = .ok p.snd ∧
      o.onPair p = .ok r := by
  obtain ⟨a, ha, h⟩ := Except.bind_eq_ok.mp h
  obtain ⟨b, hb, h⟩ := Except.bind_eq_ok.mp h
  split at h
  · exact ⟨.ints _ _, ha, hb, h⟩
  · exact ⟨.floats _ _, ha, hb, h⟩
  · exact ⟨.texts _ _, ha, hb, h⟩
  · exact ⟨.targets _ _, ha, hb, h⟩
  · cases h

/-- There are no rules for references. -/
theorem applyPlain_reference (o : Operator) (hv : v.coerce (joint v w) = .ok a)
    (hw : w.coerce (joint v w) = .ok b) (ha : a.kind = .reference) :
    o.applyPlain v w = .error (o.unavailable .reference) := by
  unfold joint at hv hw
  simp only [applyPlain, hv, hw]
  cases a <;> cases ha
  rfl

/-- Operands that can be brought to one kind are a pair of it. -/
theorem joined_of_coerce (hv : v.coerce (joint v w) = .ok a) (ha : a.kind = joint v w)
    (hw : w.coerce (joint v w) = .ok b) (hb : b.kind = joint v w) (hlist : joint v w ≠ .list) :
    Joined (applyPlain · v w) (applyPlain · w v) := by
  have hwv : w.coerce (joint w v) = .ok b := by rwa [joint_comm]
  have hvw : v.coerce (joint w v) = .ok a := by rwa [joint_comm]
  by_cases hreference : joint v w = .reference
  · exact .failure _ fun o _ => ⟨o.applyPlain_reference hv hw (ha.trans hreference),
      o.applyPlain_reference hwv hvw (hb.trans hreference)⟩
  have hbool : a.kind ≠ .bool := by
    have hone := (rank_le_joint v w).2.2
    rw [← ha] at hone
    exact fun h => absurd (h ▸ hone) (by decide)
  obtain ⟨p, rfl, rfl⟩ := Pair.exists_of_kind (ha.trans hb.symm) hbool (ha ▸ hreference)
  rw [← Pair.swap_fst] at hwv
  rw [← Pair.swap_snd] at hvw
  exact .pair p fun o _ => ⟨o.applyPlain_of_coerce hv hw (ha ▸ hlist),
    o.applyPlain_of_coerce hwv hvw (by rw [Pair.swap_fst, hb]; exact hlist)⟩

/-- An operand of the kind asked for stays, and the other one cannot be brought there. -/
theorem joined_of_stuck (hv : v.kind = joint v w) (hw : w.kind ≠ joint v w)
    (hk : 3 < (joint v w).rank) : Joined (applyPlain · v w) (applyPlain · w v) := by
  have hrank : w.kind.rank < (joint v w).rank :=
    (rank_le_joint v w).2.1.lt_of_ne fun h => hw (Kind.rank_inj h)
  have hself : v.coerce (joint v w) = .ok v := hv ▸ v.coerce_self
  obtain ⟨e, he⟩ := Value.exists_coerce_error hrank hk
  refine .failure (fun _ => e) fun o _ => ⟨o.applyPlain_right_error hself he, ?_⟩
  exact o.applyPlain_left_error (by rwa [joint_comm])

theorem joined_applyPlain (hv : v.kind ≠ .list) (hw : w.kind ≠ .list) :
    Joined (applyPlain · v w) (applyPlain · w v) := by
  have hlist : joint v w ≠ .list := by
    obtain h | h | h := Value.joint_cases v w <;> rw [h]
    exacts [by decide, hv, hw]
  obtain ⟨hlev, hlew, -⟩ := rank_le_joint v w
  by_cases hk : (joint v w).rank ≤ 3
  · obtain ⟨a, ha, hak⟩ := Value.exists_coerce hlev hk
    obtain ⟨b, hb, hbk⟩ := Value.exists_coerce hlew hk
    exact joined_of_coerce ha hak hb hbk hlist
  rw [not_le] at hk
  by_cases hjv : v.kind = joint v w
  · by_cases hjw : w.kind = joint v w
    · exact joined_of_coerce (hjv ▸ v.coerce_self) hjv (hjw ▸ w.coerce_self) hjw hlist
    · exact joined_of_stuck hjv hjw hk
  · -- the kind of one of them is asked for, as it is beyond that of whole numbers
    have hjw : w.kind = joint v w := by
      obtain h | h | h := Value.joint_cases v w
      · rw [h] at hk
        exact absurd hk (by decide)
      · exact absurd h.symm hjv
      · exact h.symm
    rw [joint_comm] at hjv hjw hk
    exact (joined_of_stuck hjw hjv hk).symm

/-! ### Operands one of which is a list -/

theorem applyMixed_lists (o : Operator) (defs : ListDefinitions) (l m : ListValue) :
    o.applyMixed defs (.list l) (.list m) = o.onLists l m := by
  cases o <;> rfl

/-- The list beside the other operand is the one that a number refers to. -/
theorem applyMixed_left (ho : o.Uniform) (defs : ListDefinitions) (l : ListValue) (v : Value) :
    o.applyMixed defs (.list l) v = asList defs l v >>= fun m => o.onLists l m := by
  have hconnective : (o == .and || o == .or) = false := by simp [ho.2.2.1, ho.2.2.2]
  cases v <;> simp [applyMixed, ho.1, ho.2.1, hconnective, asList]

theorem applyMixed_right (ho : o.Uniform) (defs : ListDefinitions) (l : ListValue) (v : Value) :
    o.applyMixed defs v (.list l) = asList defs l v >>= fun m => o.onLists m l := by
  have hconnective : (o == .and || o == .or) = false := by simp [ho.2.2.1, ho.2.2.2]
  cases v <;> simp [applyMixed, hconnective, asList]

theorem joined_applyMixed (defs : ListDefinitions) (l : ListValue) (v : Value) :
    Joined (applyMixed · defs (.list l) v) (applyMixed · defs v (.list l)) := by
  cases hm : asList defs l v with
  | ok m =>
    refine .pair (.lists l m) fun o ho => ⟨?_, ?_⟩
    · rw [applyMixed_left ho, hm]
      rfl
    · rw [applyMixed_right ho, hm]
      rfl
  | error e =>
    refine .failure (fun _ => e) fun o ho => ⟨?_, ?_⟩
    · rw [applyMixed_left ho, hm]
      rfl
    · rw [applyMixed_right ho, hm]
      rfl

/-- What two operands are brought to does not depend on their order, nor on the operator. -/
theorem joined_apply2 (defs : ListDefinitions) (v w : Value) :
    Joined (apply2 · defs v w) (apply2 · defs w v) := by
  by_cases hlist : v.kind = .list ∨ w.kind = .list
  · simp only [apply2, if_pos hlist, if_pos hlist.symm]
    obtain hv | hw := hlist
    · obtain ⟨l, rfl⟩ := Value.exists_list hv
      exact joined_applyMixed defs l w
    · obtain ⟨l, rfl⟩ := Value.exists_list hw
      exact (joined_applyMixed defs l v).symm
  · simp only [apply2, if_neg hlist, if_neg fun h => hlist (Or.symm h)]
    rw [not_or] at hlist
    exact joined_applyPlain hlist.1 hlist.2

/-! ## Comparison and containment -/

/-- Operators that answer each other on pairs do so on all operands. -/
theorem Joined.opposite (h : Joined f g) (ho : o.Uniform) (ho' : o'.Uniform)
    (hpair : ∀ p, Opposite (o.onPair p) (o'.onPair p)) : Opposite (f o) (f o') := by
  cases h with
  | pair p h =>
    rw [(h o ho).1, (h o' ho').1]
    exact hpair p
  | failure e h =>
    rw [(h o ho).1, (h o' ho').1]
    exact .failures _ _

/-- An operator that does not look at the order of a pair does not look at that of its operands. -/
theorem Joined.comm (h : Joined f g) (ho : o.Uniform)
    (hpair : ∀ p : Pair, o.onPair p.swap = o.onPair p) : f o = g o := by
  cases h with
  | pair p h => rw [(h o ho).1, (h o ho).2, hpair]
  | failure e h => rw [(h o ho).1, (h o ho).2]

/-! ## Truth -/

/-- The operators that combine truth, with how they do. -/
inductive Connective : Operator → (Bool → Bool → Bool) → Prop
  | and : Connective .and (· && ·)
  | or : Connective .or (· || ·)

namespace Connective

variable {c : Bool → Bool → Bool}

theorem onPair_truth (hc : Connective o c) (h : o.onPair p = .ok r) :
    p.fst.kind ≠ .text ∧ p.snd.kind ≠ .text ∧
      ∃ x y, p.fst.truth = .ok x ∧ p.snd.truth = .ok y ∧ r.truth = .ok (c x y) := by
  cases hc <;> cases p <;> cases h <;> exact ⟨nofun, nofun, _, _, rfl, rfl, rfl⟩

theorem applyPlain_truth (hc : Connective o c) (h : o.applyPlain v w = .ok r) :
    ∃ x y, v.truth = .ok x ∧ w.truth = .ok y ∧ r.truth = .ok (c x y) := by
  obtain ⟨hv, hw, -⟩ := rank_le_joint v w
  obtain ⟨p, hfst, hsnd, h⟩ := exists_of_applyPlain h
  obtain ⟨hfirst, hsecond, htruth⟩ := hc.onPair_truth h
  rwa [Value.truth_of_coerce hfst hv hfirst, Value.truth_of_coerce hsnd hw hsecond]

theorem applyMixed_eq (hc : Connective o c) (hlists : ¬(v.kind = .list ∧ w.kind = .list)) :
    o.applyMixed defs v w =
      v.truth >>= fun x => w.truth >>= fun y => .ok (.bool (c x y)) := by
  have hbeq : (v.kind == .list && w.kind == .list) = false := by simpa using hlists
  cases hc <;> simp [applyMixed, hbeq]

theorem applyMixed_truth (hc : Connective o c) (h : o.applyMixed defs v w = .ok r) :
    ∃ x y, v.truth = .ok x ∧ w.truth = .ok y ∧ r.truth = .ok (c x y) := by
  by_cases hlists : v.kind = .list ∧ w.kind = .list
  · obtain ⟨l, rfl⟩ := Value.exists_list hlists.1
    obtain ⟨m, rfl⟩ := Value.exists_list hlists.2
    rw [applyMixed_lists] at h
    exact (hc.onPair_truth (p := .lists l m) h).2.2
  rw [hc.applyMixed_eq hlists] at h
  obtain ⟨x, hx, h⟩ := Except.bind_eq_ok.mp h
  obtain ⟨y, hy, h⟩ := Except.bind_eq_ok.mp h
  cases h
  exact ⟨x, y, hx, hy, rfl⟩

theorem apply2_truth (hc : Connective o c) (h : o.apply2 defs v w = .ok r) :
    ∃ x y, v.truth = .ok x ∧ w.truth = .ok y ∧ r.truth = .ok (c x y) := by
  rw [apply2] at h
  split at h
  · exact hc.applyMixed_truth h
  · exact hc.applyPlain_truth h

end Connective

/-- The operand is told by its truth, which *not* turns around. -/
theorem not_truth (h : apply1 .not defs v = .ok r) :
    ∃ x, v.truth = .ok x ∧ r.truth = .ok !x := by
  cases v with
  | bool b => cases h; exact ⟨b, rfl, by cases b <;> rfl⟩
  | int n => cases h; exact ⟨_, rfl, congrArg Except.ok (Bool.not_not _).symm⟩
  | float x => cases h; exact ⟨_, rfl, congrArg Except.ok (Bool.not_not _).symm⟩
  | list l => cases h; exact ⟨_, rfl, by cases hl : l.isEmpty <;> rfl⟩
  | text | target | reference => contradiction

theorem apply_two (ho : o.arity = 2) (defs : ListDefinitions) (v w : Value) :
    o.apply defs [v, w] = o.apply2 defs v w :=
  if_neg (not_not.mpr ho)

/-- Whatever the operands are, the operators agree. *Equal* and *not equal* answer each other, and
neither looks at the order of the operands; *has* and *has not* answer each other; and where *and*,
*or* or *not* gives a result, the operands have a truth, and that of the result is what the operator
makes of it. -/
theorem operators_agree (defs : ListDefinitions) (v w : Value) :
    Opposite (equal.apply defs [v, w]) (notEqual.apply defs [v, w]) ∧
    equal.apply defs [v, w] = equal.apply defs [w, v] ∧
    notEqual.apply defs [v, w] = notEqual.apply defs [w, v] ∧
    Opposite (has.apply defs [v, w]) (hasNot.apply defs [v, w]) ∧
    (∀ r, and.apply defs [v, w] = .ok r →
      ∃ x y, v.truth = .ok x ∧ w.truth = .ok y ∧ r.truth = .ok (x && y)) ∧
    (∀ r, or.apply defs [v, w] = .ok r →
      ∃ x y, v.truth = .ok x ∧ w.truth = .ok y ∧ r.truth = .ok (x || y)) ∧
    (∀ r, not.apply defs [v] = .ok r → ∃ x, v.truth = .ok x ∧ r.truth = .ok !x) := by
  have hjoined := joined_apply2 defs v w
  simp only [apply_two (o := .equal) rfl, apply_two (o := .notEqual) rfl, apply_two (o := .has) rfl,
    apply_two (o := .hasNot) rfl, apply_two (o := .and) rfl, apply_two (o := .or) rfl]
  exact ⟨hjoined.opposite (by decide) (by decide) opposite_equal_onPair,
    hjoined.comm (by decide) equal_onPair_swap, hjoined.comm (by decide) notEqual_onPair_swap,
    hjoined.opposite (by decide) (by decide) opposite_has_onPair,
    fun r => Connective.and.apply2_truth, fun r => Connective.or.apply2_truth,
    fun r => not_truth⟩

theorem true_and_zero_agree :
    and.apply .empty [.bool true, .int 0] = .ok (.bool false) ∧
    or.apply .empty [.bool true, .int 0] = .ok (.bool true) ∧
    not.apply .empty [.bool true] = .ok (.bool false) ∧
    Opposite (equal.apply .empty [.bool true, .int 0])
      (notEqual.apply .empty [.bool true, .int 0]) ∧
    (∃ x y, (Value.bool true).truth = .ok x ∧ (Value.int 0).truth = .ok y ∧
      (Value.bool false).truth = .ok (x && y)) ∧
    (∃ x y, (Value.bool true).truth = .ok x ∧ (Value.int 0).truth = .ok y ∧
      (Value.bool true).truth = .ok (x || y)) ∧
    ∃ x, (Value.bool true).truth = .ok x ∧ (Value.bool false).truth = .ok !x := by
  obtain ⟨hequal, -, -, -, hand, hor, hnot⟩ := operators_agree .empty (.bool true) (.int 0)
  exact ⟨rfl, rfl, rfl, hequal, hand _ rfl, hor _ rfl, hnot _ rfl⟩

end Operator

end StoryMachine
