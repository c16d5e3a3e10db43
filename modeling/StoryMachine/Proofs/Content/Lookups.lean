import StoryMachine.Content.Lookup
import StoryMachine.Proofs.Content.Places

/-!
# Following steps

Steps lead from one node to another if each of them leads to a child or to the parent of the
node it is taken at. A lookup is exact when its steps lead somewhere, and then gives the node
that they lead to. A lookup that is not exact still gives a node: the last container on the way,
behind which a step leads nowhere, or to a leaf that steps are to be taken from.

* `ContentTree.Leads` : steps lead from a node to another;
* `ContentTree.follow_eq_iff` : exact lookups;
* `ContentTree.LastContainer` : the last container that steps lead to on their way;
* `ContentTree.container?_follow` : the container that a lookup gives.
-/

namespace StoryMachine

namespace ContentTree

/-- Steps lead from a node to another one. -/
inductive Leads (t : ContentTree) : NodeId → List Step → NodeId → Prop
  | here (id : NodeId) : Leads t id [] id
  | step {id next last : NodeId} {s : Step} {rest : List Step} (h : t.child? id s = some next)
      (hrest : Leads t next rest last) : Leads t id (s :: rest) last

variable {t : ContentTree} {id next last a b : NodeId} {s : Step} {steps rest front : List Step}

theorem isContainer_of_child? (h : t.child? id s = some next) : t.isContainer id = true := by
  obtain ⟨c, hc, -⟩ := Option.bind_eq_some_iff.mp h
  rw [isContainer, hc]
  rfl

theorem child?_of_leaf (h : t.isContainer id = false) (s : Step) : t.child? id s = none := by
  by_contra hsome
  obtain ⟨next, hnext⟩ := Option.ne_none_iff_exists'.mp hsome
  rw [isContainer_of_child? hnext] at h
  cases h

theorem child?_index {c : Container} (h : t.container? id = some c) (i : Nat) :
    t.child? id (.index i) = c.content[i]? := by
  rw [child?, h]
  rfl

theorem child?_name {c : Container} (h : t.container? id = some c) {n : String} (hn : n ≠ "^") :
    t.child? id (.name n) = c.named.get? n := by
  have hparent : (Step.name n).isParent = false := by simp [Step.isParent, Step.parent, hn]
  rw [child?, h]
  dsimp only [Option.bind_eq_bind, Option.bind_some]
  rw [hparent]
  rfl

namespace Leads

theorem isContainer (h : t.Leads id (s :: rest) last) : t.isContainer id = true := by
  cases h with
  | step h => exact isContainer_of_child? h

theorem append (h : t.Leads id front a) (hrest : t.Leads a rest last) :
    t.Leads id (front ++ rest) last := by
  induction h with
  | here => exact hrest
  | step h _ ih => exact .step h (ih hrest)

theorem concat (h : t.Leads id front a) (hstep : t.child? a s = some last) :
    t.Leads id (front ++ [s]) last :=
  h.append (.step hstep (.here last))

theorem of_append (h : t.Leads id (front ++ rest) last) :
    ∃ a, t.Leads id front a ∧ t.Leads a rest last := by
  induction front generalizing id with
  | nil => exact ⟨id, .here id, h⟩
  | cons s front ih =>
    cases h with
    | step h hrest =>
      obtain ⟨a, hfront, ha⟩ := ih hrest
      exact ⟨a, .step h hfront, ha⟩

theorem of_concat (h : t.Leads id (front ++ [s]) last) :
    ∃ a, t.Leads id front a ∧ t.child? a s = some last := by
  obtain ⟨a, hfront, ha⟩ := h.of_append
  cases ha with
  | step hstep hnil =>
    cases hnil
    exact ⟨a, hfront, hstep⟩

/-- Steps lead to one node only. -/
theorem unique (ha : t.Leads id steps a) (hb : t.Leads id steps b) : a = b := by
  induction ha with
  | here =>
    cases hb
    rfl
  | step h _ ih =>
    cases hb with
    | step h' hrest =>
      rw [h] at h'
      cases h'
      exact ih hrest

end Leads

/-! ## Exact lookups -/

theorem follow_of_leads (h : t.Leads id steps last) :
    t.follow false id steps = ⟨last, false⟩ := by
  induction h with
  | here => rfl
  | @step id next last s rest h hrest ih =>
    rw [follow, h]
    dsimp only
    have hgo : ((false || !rest.isEmpty) && !t.isContainer next) = false := by
      cases hrest with
      | here => rfl
      | step h' _ => simp [isContainer_of_child? h']
    rw [hgo]
    exact ih

theorem leads_of_follow (h : t.follow false id steps = ⟨last, false⟩) : t.Leads id steps last := by
  induction steps generalizing id with
  | nil =>
    cases h
    exact .here _
  | cons s rest ih =>
    rw [follow] at h
    split at h
    · cases h
    · next next hnext =>
      split at h
      · cases h
      · exact .step hnext (ih h)

/-- A lookup is exact just when its steps lead to the node that it gives. -/
theorem follow_eq_iff : t.follow false id steps = ⟨last, false⟩ ↔ t.Leads id steps last :=
  ⟨leads_of_follow, follow_of_leads⟩

/-! ## Lookups that are not exact -/

/-- The last container that steps lead to on their way from a node. -/
def LastContainer (t : ContentTree) (id : NodeId) (steps : List Step) (last : NodeId) : Prop :=
  t.isContainer last = true ∧ ∃ front rest, steps = front ++ rest ∧ t.Leads id front last ∧
    ∀ more behind beyond, more ≠ [] → rest = more ++ behind → t.Leads last more beyond →
      t.isContainer beyond = false

/-- Steps that lead to a container pass no container behind it. -/
theorem LastContainer.eq_of_leads (h : t.LastContainer id steps last) (ha : t.Leads id steps a)
    (hcontainer : t.isContainer a = true) : a = last := by
  obtain ⟨-, front, rest, rfl, hfront, hbehind⟩ := h
  obtain ⟨b, hb, hrest⟩ := ha.of_append
  obtain rfl := hfront.unique hb
  by_cases hnil : rest = []
  · subst hnil
    cases hrest
    rfl
  · rw [hbehind rest [] a hnil (by simp) hrest] at hcontainer
    cases hcontainer

/-- There is one last container only. -/
theorem LastContainer.unique (ha : t.LastContainer id steps a) (hb : t.LastContainer id steps b) :
    a = b := by
  have hbeyond : ∀ {a b : NodeId} {front more rest : List Step}, t.isContainer b = true →
      t.Leads id front a → t.Leads id (front ++ more) b →
      (∀ more' behind beyond, more' ≠ [] → more ++ rest = more' ++ behind →
        t.Leads a more' beyond → t.isContainer beyond = false) → a = b := by
    intro a b front more rest hcontainer hfront hmore hbehind
    obtain ⟨a', hfront', hrest⟩ := hmore.of_append
    obtain rfl := hfront.unique hfront'
    by_cases hnil : more = []
    · subst hnil
      cases hrest
      rfl
    · rw [hbehind more rest b hnil rfl hrest] at hcontainer
      cases hcontainer
  obtain ⟨hacontainer, front, rest, rfl, hfront, hbehind⟩ := ha
  obtain ⟨hbcontainer, front', rest', hsteps, hfront', hbehind'⟩ := hb
  rcases List.append_eq_append_iff.mp hsteps with ⟨more, rfl, rfl⟩ | ⟨more, rfl, rfl⟩
  · exact hbeyond hbcontainer hfront hfront' hbehind
  · exact (hbeyond hacontainer hfront' hfront hbehind').symm

/-- Behind a step to a container the way goes on. -/
theorem LastContainer.step (h : t.child? id s = some next) (hrest : t.LastContainer next rest last) :
    t.LastContainer id (s :: rest) last := by
  obtain ⟨hlast, front, behind, rfl, hfront, hbehind⟩ := hrest
  exact ⟨hlast, s :: front, behind, rfl, .step h hfront, hbehind⟩

/-- The way ends at a container if no container lies behind it. -/
theorem LastContainer.stay (h : t.isContainer id = true)
    (hbeyond : ∀ more behind beyond, steps = s :: more ++ behind → t.Leads id (s :: more) beyond →
      t.isContainer beyond = false) (hs : steps.head? = some s) : t.LastContainer id steps id := by
  refine ⟨h, [], steps, rfl, .here id, fun more behind beyond hmore hsteps hleads => ?_⟩
  obtain ⟨s', more, rfl⟩ := List.exists_cons_of_ne_nil hmore
  rw [hsteps, List.cons_append, List.head?_cons, Option.some_inj] at hs
  subst hs
  exact hbeyond more behind beyond hsteps hleads

/-- The container that a lookup gives is the last one on the way of its steps. It gives none only
where they lead to a leaf. -/
theorem container?_follow (h : t.isContainer id = true) (steps : List Step) :
    (∃ leaf, t.Leads id steps leaf ∧ t.isContainer leaf = false ∧
      (t.follow false id steps).container? t = none) ∨
    ∃ last, t.LastContainer id steps last ∧
      (t.follow false id steps).container? t = some last := by
  induction steps generalizing id with
  | nil =>
    refine .inr ⟨id, ⟨h, [], [], rfl, .here id, ?_⟩, ?_⟩
    · rintro more behind beyond hmore hnil -
      exact absurd (List.append_eq_nil_iff.mp hnil.symm).1 hmore
    · rw [follow, Found.container?, if_pos h]
  | cons s rest ih =>
    have hself : (Found.mk id true).container? t = some id := if_pos h
    cases hstep : t.child? id s with
    | none =>
      refine .inr ⟨id, .stay h (fun more behind beyond _ hleads => ?_) rfl, ?_⟩
      · cases hleads with
        | step hnext => rw [hstep] at hnext; cases hnext
      · rw [follow, hstep, hself]
    | some next =>
      cases hnext : t.isContainer next with
      | true =>
        have hgo : t.follow false id (s :: rest) = t.follow false next rest := by
          rw [follow, hstep]
          simp [hnext]
        rw [hgo]
        rcases ih hnext with ⟨leaf, hleads, hleaf, hnone⟩ | ⟨last, hlast, hsome⟩
        · exact .inl ⟨leaf, .step hstep hleads, hleaf, hnone⟩
        · exact .inr ⟨last, hlast.step hstep, hsome⟩
      | false =>
        cases rest with
        | nil =>
          refine .inl ⟨next, .step hstep (.here next), hnext, ?_⟩
          rw [follow, hstep]
          simp [follow, Found.container?, hnext]
        | cons s' rest =>
          refine .inr ⟨id, .stay h (fun more behind beyond _ hleads => ?_) rfl, ?_⟩
          · cases hleads with
            | step hnext' hmore =>
              rw [hstep] at hnext'
              cases hnext'
              cases hmore with
              | here => exact hnext
              | step hbeyond => rw [child?_of_leaf hnext] at hbeyond; cases hbeyond
          · rw [follow, hstep]
            simp [hnext, Found.container?, h]

end ContentTree

end StoryMachine
