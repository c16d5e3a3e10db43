import StoryMachine.Proofs.Alike.States
import StoryMachine.Proofs.Story.SavedValues

/-!
# Values that a story cannot tell apart

What a list with items remembers of definitions is not saved, so a list comes back as another one
that has the same items and belongs to the same definitions. No operator tells the two apart: from
operands that are the same but for this, it gives results that are the same but for this, or the
same error.

* `ListValue.SameAs.all_eq`, `ListValue.SameAs.union` and their like : operations on lists;
* `Operator.apply_sameAs` : operators;
* `ListValue.essence`, `Value.essence`, `Token.essence` : one form for all that are the same;
* `Value.essence_eq_iff`, `Token.essence_eq_iff` : what has the same form is the same.
-/

open List (Forall₂)

namespace StoryMachine

theorem Agree.of_refl {α : Type} {A : α → α → Prop} (hA : ∀ a, A a a) (x : Except StoryError α) :
    Agree A x x := by
  cases x with
  | ok a => exact .ok (hA a)
  | error e => exact .error e

/-! ## Lists -/

namespace ListValue

variable {a b l k l' k' : ListValue} {ds : ListDefinitions}

theorem SameAs.refl (l : ListValue) : l.SameAs l :=
  ⟨rfl, rfl⟩

/-- What is remembered counts only where there are no items. -/
theorem sameAs_mk {items : SortedMap Item Int32} {names names' : Option (List String)}
    (h : names'.getD [] = names.getD []) : SameAs ⟨items, names⟩ ⟨items, names'⟩ := by
  refine ⟨rfl, ?_⟩
  unfold origins isEmpty
  dsimp only
  split
  · exact h
  · rfl

/-- What looks at nothing but the items is the same. -/
theorem SameAs.congr {α : Type} (h : l.SameAs k) {f : ListValue → α}
    (hf : ∀ items names names', f ⟨items, names⟩ = f ⟨items, names'⟩) : f l = f k := by
  obtain ⟨items, names⟩ := l
  obtain ⟨items', names'⟩ := k
  obtain rfl : items' = items := h.items
  exact hf _ _ _

theorem SameAs.isEmpty_eq (h : l.SameAs k) : l.isEmpty = k.isEmpty :=
  h.congr fun _ _ _ => rfl

theorem SameAs.max?_eq (h : l.SameAs k) : l.max? = k.max? :=
  h.congr fun _ _ _ => rfl

theorem SameAs.maxRank_eq (h : l.SameAs k) : l.maxRank = k.maxRank :=
  h.congr fun _ _ _ => rfl

theorem SameAs.minRank_eq (h : l.SameAs k) : l.minRank = k.minRank :=
  h.congr fun _ _ _ => rfl

theorem SameAs.definitions_eq (h : l.SameAs k) (ds : ListDefinitions) :
    l.definitions ds = k.definitions ds := by
  unfold definitions
  rw [h.origins]

theorem SameAs.all_eq (h : l.SameAs k) (ds : ListDefinitions) : l.all ds = k.all ds := by
  unfold all
  rw [h.definitions_eq]

theorem SameAs.inverse_eq (h : l.SameAs k) (ds : ListDefinitions) :
    l.inverse ds = k.inverse ds := by
  unfold inverse has
  rw [h.all_eq, h.items]

theorem SameAs.shift_eq (h : l.SameAs k) (ds : ListDefinitions) (change : Int32 → Int32) :
    l.shift ds change = k.shift ds change :=
  h.congr (f := fun l => l.shift ds change) fun _ _ _ => rfl

theorem SameAs.union (h : l.SameAs k) (h' : l'.SameAs k') : (l.union l').SameAs (k.union k') := by
  unfold ListValue.union
  rw [h.items, h'.items]
  exact sameAs_mk h.origins

theorem SameAs.without (h : l.SameAs k) (h' : l'.SameAs k') :
    (l.without l').SameAs (k.without k') := by
  unfold ListValue.without has
  rw [h.items, h'.items]
  exact sameAs_mk h.origins

theorem SameAs.between (h : l.SameAs k) (low high : Int32) :
    (l.between low high).SameAs (k.between low high) := by
  unfold ListValue.between
  rw [h.isEmpty_eq, h.items]
  split
  · exact .refl _
  · exact sameAs_mk h.origins

/-- One form for all lists that are the same: the definitions of an empty list are remembered as a
list of names, those of a list with items not at all. -/
def essence (l : ListValue) : ListValue :=
  ⟨l.items, if l.isEmpty then some (l.emptyOrigins.getD []) else none⟩

theorem essence_eq_iff : l.essence = k.essence ↔ l.SameAs k := by
  constructor
  · intro h
    have hitems := congrArg ListValue.items h
    have hnames := congrArg ListValue.emptyOrigins h
    change l.items = k.items at hitems
    refine ⟨hitems.symm, ?_⟩
    unfold essence isEmpty at hnames
    dsimp only at hnames
    unfold origins isEmpty
    rw [hitems] at hnames ⊢
    split at hnames
    · next hempty =>
      rw [if_pos hempty, if_pos hempty]
      exact (Option.some.inj hnames).symm
    · next hsome => rw [if_neg hsome, if_neg hsome]
  · intro h
    have horigins := h.origins
    unfold origins isEmpty at horigins
    unfold essence isEmpty
    rw [h.items] at horigins ⊢
    split at horigins
    · next hempty => rw [if_pos hempty, if_pos hempty, horigins]
    · next hsome => rw [if_neg hsome, if_neg hsome]

end ListValue

/-! ## Values -/

namespace Value

variable {v w v' w' : Value}

theorem SameAs.kind_eq (h : v.SameAs w) : v.kind = w.kind := by
  cases h <;> rfl

theorem SameAs.render_eq (h : v.SameAs w) : v.render = w.render := by
  cases h with
  | refl => rfl
  | list h => exact h.congr (f := ListValue.render) fun _ _ _ => rfl

theorem SameAs.truth_eq (h : v.SameAs w) : v.truth = w.truth := by
  cases h with
  | refl => rfl
  | list h => rw [truth, truth, h.isEmpty_eq]

theorem SameAs.lowerBound_eq (h : v.SameAs w) : v.lowerBound = w.lowerBound := by
  cases h with
  | refl => rfl
  | list h => exact h.minRank_eq

theorem SameAs.upperBound_eq (h : v.SameAs w) : v.upperBound = w.upperBound := by
  cases h with
  | refl => rfl
  | list h => rw [upperBound, upperBound, h.max?_eq]

theorem SameAs.inheritOrigins (hold : v.SameAs w) (hnew : v'.SameAs w') :
    (v.inheritOrigins v').SameAs (w.inheritOrigins w') := by
  cases hold with
  | refl =>
    cases hnew with
    | refl => exact .refl _
    | @list l k h =>
      cases v with
      | list a =>
        unfold Value.inheritOrigins
        dsimp only
        rw [h.isEmpty_eq, h.items]
        split
        · exact .refl _
        · exact .list h
      | _ => exact .list h
  | @list a b hab =>
    cases hnew with
    | refl =>
      cases v' with
      | list l =>
        unfold Value.inheritOrigins
        dsimp only
        split
        · exact .list (ListValue.sameAs_mk hab.origins)
        · exact .refl _
      | _ => exact .refl _
    | @list l k h =>
      unfold Value.inheritOrigins
      dsimp only
      rw [h.isEmpty_eq, h.items]
      split
      · exact .list (ListValue.sameAs_mk hab.origins)
      · exact .list h

theorem agree_coerce (h : v.SameAs w) (goal : Kind) :
    Agree SameAs (v.coerce goal) (w.coerce goal) := by
  cases h with
  | refl => exact .of_refl .refl _
  | @list l k h =>
    have hmax : ((l.max?.map fun e => e.1.fullName).getD "") =
        (k.max?.map fun e => e.1.fullName).getD "" := by rw [h.max?_eq]
    have hrender : l.render = k.render := h.congr fun _ _ _ => rfl
    unfold coerce cast
    cases goal with
    | list => exact .ok (.list h)
    | int =>
      show Agree SameAs (.ok (.int l.maxRank)) (.ok (.int k.maxRank))
      rw [h.maxRank_eq]
      exact .of_refl .refl _
    | float =>
      show Agree SameAs (.ok (.float (Decimal.singleOfInt l.maxRank)))
        (.ok (.float (Decimal.singleOfInt k.maxRank)))
      rw [h.maxRank_eq]
      exact .of_refl .refl _
    | text =>
      show Agree SameAs (.ok (.text (lastItemText l))) (.ok (.text (lastItemText k)))
      unfold lastItemText
      rw [hmax]
      exact .of_refl .refl _
    | _ =>
      show Agree SameAs (.error (.type (.cast l.render _ _))) (.error (.type (.cast k.render _ _)))
      rw [hrender]
      exact .error _

/-- One form for all values that are the same. -/
def essence : Value → Value
  | .list l => .list l.essence
  | v => v

theorem essence_cases (v : Value) :
    (∃ l, v = .list l) ∨ v.essence = v ∧ ∀ l, v ≠ .list l := by
  cases v with
  | list l => exact .inl ⟨l, rfl⟩
  | _ => exact .inr ⟨rfl, nofun⟩

theorem essence_eq_iff : v.essence = w.essence ↔ v.SameAs w := by
  constructor
  · intro h
    rcases v.essence_cases with ⟨l, rfl⟩ | ⟨hv, hvlist⟩
    · rcases w.essence_cases with ⟨k, rfl⟩ | ⟨hw, hwlist⟩
      · exact .list (ListValue.essence_eq_iff.mp (Value.list.inj h))
      · exact absurd (h.trans hw).symm (hwlist _)
    · rcases w.essence_cases with ⟨k, rfl⟩ | ⟨hw, -⟩
      · exact absurd (hv.symm.trans h) (hvlist _)
      · obtain rfl : v = w := hv.symm.trans (h.trans hw)
        exact .refl v
  · intro h
    cases h with
    | refl => rfl
    | list h => exact congrArg list (ListValue.essence_eq_iff.mpr h)

/-- A text is the same as itself alone. -/
theorem SameAs.eq_of_not_list (h : v.SameAs w) (hv : ∀ l, v ≠ .list l) : w = v := by
  cases h with
  | refl => rfl
  | list => exact absurd rfl (hv _)

end Value

/-! ## Operators -/

namespace Operator

variable (o : Operator) {defs : ListDefinitions} {v w v' w' : Value}

theorem agree_onList {l k : ListValue} (h : l.SameAs k) :
    Agree Value.SameAs (o.onList defs l) (o.onList defs k) := by
  unfold onList
  rw [h.isEmpty_eq, h.inverse_eq, h.all_eq, h.maxRank_eq,
    h.congr (f := ListValue.minList) fun _ _ _ => rfl,
    h.congr (f := ListValue.maxList) fun _ _ _ => rfl,
    h.congr (f := ListValue.size) fun _ _ _ => rfl]
  exact .of_refl .refl _

theorem agree_onLists {a b a' b' : ListValue} (ha : a.SameAs a') (hb : b.SameAs b') :
    Agree Value.SameAs (o.onLists a b) (o.onLists a' b') := by
  have hcongr : ∀ {α : Type} {f : ListValue → ListValue → α},
      (∀ i i' n n' m m', f ⟨i, n⟩ ⟨i', n'⟩ = f ⟨i, m⟩ ⟨i', m'⟩) → f a b = f a' b' := by
    intro α f hf
    obtain ⟨i, n⟩ := a
    obtain ⟨j, m⟩ := a'
    obtain ⟨i', n'⟩ := b
    obtain ⟨j', m'⟩ := b'
    obtain rfl : j = i := ha.items
    obtain rfl : j' = i' := hb.items
    exact hf _ _ _ _ _ _
  cases o with
  | add => exact .ok (.list (ha.union hb))
  | subtract => exact .ok (.list (ha.without hb))
  | _ =>
    rw [hcongr (f := fun a b => onLists _ a b) fun _ _ _ _ _ _ => rfl]
    exact .of_refl .refl _

theorem agree_apply1 (h : v.SameAs w) :
    Agree Value.SameAs (o.apply1 defs v) (o.apply1 defs w) := by
  unfold apply1
  rw [h.kind_eq]
  refine (Value.agree_coerce h _).bind fun a b hab => ?_
  cases hab with
  | refl => exact .of_refl .refl _
  | list h => exact o.agree_onList h

theorem agree_asList {a b : ListValue} (hab : a.SameAs b) (h : v.SameAs w) :
    Agree ListValue.SameAs (asList defs a v) (asList defs b w) := by
  cases h with
  | refl =>
    cases v with
    | int n =>
      unfold asList ListValue.definitionOfMax?
      rw [hab.max?_eq]
      exact .of_refl .refl _
    | _ => exact .of_refl .refl _
  | list h => exact .ok h

/-- The list that a number among two operands refers to. -/
def context (v w : Value) : ListValue :=
  match v, w with
  | _, .list l => l
  | .list l, _ => l
  | _, _ => .empty

theorem context_sameAs (h : v.SameAs w) (h' : v'.SameAs w') :
    (context v v').SameAs (context w w') := by
  cases h' with
  | list h' =>
    cases h with
    | refl => cases v <;> exact h'
    | list => exact h'
  | refl =>
    cases h with
    | refl => exact .refl _
    | list h =>
      cases v' with
      | list => exact .refl _
      | _ => exact h

/-- The second operand shifts the ranks of the first one. -/
def Shifts (v w : Value) : Prop :=
  (o = .add ∨ o = .subtract) ∧ v.kind = .list ∧ w.kind = .int

/-- Apply to two operands one of which is a list, by the rules of lists and truth values. -/
def applyRules (defs : ListDefinitions) (v w : Value) : Except StoryError Value :=
  if !(v.kind == .list && w.kind == .list) && (o == .and || o == .or) then do
    let x ← v.truth
    let y ← w.truth
    return .bool (if o == .and then x && y else x || y)
  else do
    let a ← asList defs (context v w) v
    let b ← asList defs (context v w) w
    o.onLists a b

theorem applyMixed_of_not_shifts (h : ¬o.Shifts v w) :
    o.applyMixed defs v w = o.applyRules defs v w := by
  unfold applyMixed
  split
  · exact absurd ⟨.inl rfl, rfl, rfl⟩ h
  · exact absurd ⟨.inr rfl, rfl, rfl⟩ h
  · rfl

theorem agree_applyRules (h : v.SameAs w) (h' : v'.SameAs w') :
    Agree Value.SameAs (o.applyRules defs v v') (o.applyRules defs w w') := by
  have hcontext := context_sameAs h h'
  unfold applyRules
  rw [h.kind_eq, h'.kind_eq, h.truth_eq, h'.truth_eq]
  split
  · exact .of_refl .refl _
  · exact (agree_asList hcontext h).bind fun a b hab =>
      (agree_asList hcontext h').bind fun c d hcd => o.agree_onLists hab hcd

theorem agree_applyMixed (h : v.SameAs w) (h' : v'.SameAs w') :
    Agree Value.SameAs (o.applyMixed defs v v') (o.applyMixed defs w w') := by
  by_cases hshifts : o.Shifts v v'
  · obtain ⟨ho, hlist, hint⟩ := hshifts
    cases v with
    | list l =>
      cases v' with
      | int n =>
        obtain ⟨k, hk, rfl⟩ : ∃ k, l.SameAs k ∧ w = .list k := by
          cases h with
          | refl => exact ⟨l, .refl l, rfl⟩
          | list h => exact ⟨_, h, rfl⟩
        obtain rfl := h'.eq_of_not_list nofun
        have hshift : ∀ change : Int32 → Int32, Agree Value.SameAs
            (.ok (.list (l.shift defs change))) (.ok (.list (k.shift defs change))) := by
          intro change
          rw [hk.shift_eq]
          exact .ok (.refl _)
        rcases ho with rfl | rfl
        · exact hshift _
        · exact hshift _
      | _ => cases hint
    | _ => cases hlist
  · have hshifts' : ¬o.Shifts w w' := by
      unfold Shifts at hshifts ⊢
      rwa [h.kind_eq, h'.kind_eq] at hshifts
    rw [applyMixed_of_not_shifts o hshifts, applyMixed_of_not_shifts o hshifts']
    exact o.agree_applyRules h h'

theorem agree_apply2 (h : v.SameAs w) (h' : v'.SameAs w') :
    Agree Value.SameAs (o.apply2 defs v v') (o.apply2 defs w w') := by
  unfold apply2
  rw [h.kind_eq, h'.kind_eq]
  split
  · exact o.agree_applyMixed h h'
  · next hplain =>
    obtain ⟨hw, hw'⟩ := not_or.mp hplain
    obtain rfl : v = w := by
      cases h with
      | refl => rfl
      | list => exact absurd rfl hw
    obtain rfl : v' = w' := by
      cases h' with
      | refl => rfl
      | list => exact absurd rfl hw'
    exact .of_refl .refl _

/-- From operands that are the same an operator gives results that are the same, or the same
error. -/
theorem agree_apply {vs ws : List Value} (h : Forall₂ Value.SameAs vs ws) :
    Agree Value.SameAs (o.apply defs vs) (o.apply defs ws) := by
  unfold apply
  rw [h.length_eq]
  split
  · exact .error _
  · cases h with
    | nil => exact .error _
    | cons h hrest =>
      cases hrest with
      | nil => exact o.agree_apply1 h
      | cons h' hrest =>
        cases hrest with
        | nil => exact o.agree_apply2 h h'
        | cons => exact .error _

end Operator

/-! ## Tokens -/

namespace Token

/-- The same token, where lists count for their items and definitions. -/
inductive SameAs : Token → Token → Prop
  | refl (t : Token) : SameAs t t
  | list {l k : ListValue} (h : l.SameAs k) : SameAs (.value (.list l)) (.value (.list k))

variable {a b : Token}

theorem SameAs.of_value {v w : Value} (h : v.SameAs w) : SameAs (.value v) (.value w) := by
  cases h with
  | refl => exact .refl _
  | list h => exact .list h

theorem SameAs.render_eq (h : a.SameAs b) : a.render = b.render := by
  cases h with
  | refl => rfl
  | list h => exact (Value.SameAs.list h).render_eq

theorem SameAs.truth_eq (h : a.SameAs b) : a.truth = b.truth := by
  cases h with
  | refl => rfl
  | list h => exact (Value.SameAs.list h).truth_eq

/-- Operands are the same, or none in the same way. -/
theorem agree_operands (o : Operator) {as bs : List Token} (h : Forall₂ SameAs as bs) :
    Agree (Forall₂ Value.SameAs) (operands o as) (operands o bs) := by
  induction h with
  | nil => exact .ok .nil
  | @cons a b as bs hab _ ih =>
    have hcons : ∀ {v w : Value}, v.SameAs w → Agree (Forall₂ Value.SameAs)
        (do return v :: (← operands o as)) (do return w :: (← operands o bs)) := fun h =>
      ih.bind fun _ _ hrest => .ok (.cons h hrest)
    cases hab with
    | list h => exact hcons (.list h)
    | refl =>
      cases a with
      | value v => exact hcons (.refl v)
      | _ => exact .error _

/-- One form for all tokens that are the same. -/
def essence : Token → Token
  | .value v => .value v.essence
  | t => t

theorem essence_cases (a : Token) :
    (∃ v, a = .value v) ∨ a.essence = a ∧ ∀ v, a ≠ .value v := by
  cases a with
  | value v => exact .inl ⟨v, rfl⟩
  | _ => exact .inr ⟨rfl, nofun⟩

theorem essence_eq_iff : a.essence = b.essence ↔ a.SameAs b := by
  constructor
  · intro h
    rcases a.essence_cases with ⟨v, rfl⟩ | ⟨ha, havalue⟩
    · rcases b.essence_cases with ⟨w, rfl⟩ | ⟨hb, hbvalue⟩
      · exact .of_value (Value.essence_eq_iff.mp (Token.value.inj h))
      · exact absurd (h.trans hb).symm (hbvalue _)
    · rcases b.essence_cases with ⟨w, rfl⟩ | ⟨hb, -⟩
      · exact absurd (ha.symm.trans h) (havalue _)
      · obtain rfl : a = b := ha.symm.trans (h.trans hb)
        exact .refl a
  · intro h
    cases h with
    | refl => rfl
    | list h => exact congrArg Token.value (Value.essence_eq_iff.mpr (.list h))

end Token

end StoryMachine
