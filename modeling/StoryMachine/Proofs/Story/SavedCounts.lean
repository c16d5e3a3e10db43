import StoryMachine.Proofs.Story.SavedThreads
import StoryMachine.Proofs.Story.VisitCounts

/-!
# Saved counts

The visits counted come back from the text of a state, as far as 32 bits hold them, and the choices
come back with the choice points that they name.

* `get?_of_countsOfJson` : counts that are read;
* `State.visitsUnder_ofText` : the visits under a name;
* `State.sources_ofText` : the choice points of the choices.
-/

namespace StoryMachine

/-- A count is read as it was written, within 32 bits. -/
theorem get?_of_countsOfJson {counts loaded : Table Int} {j : Json} {fields : List (String × Json)}
    (hj : (countsToJson counts).Rereads j) (hfields : j.obj? = some fields)
    (h : countsOfJson fields = .ok loaded) (key : String) :
    loaded.get? key = (counts.get? key).map wrap32 := by
  obtain ⟨fields', rfl, hback⟩ := hj.table
  cases hfields
  obtain ⟨es, hes, hloaded⟩ := Except.bind_eq_ok.mp h
  cases hloaded
  have hread : List.Forall₂ (fun e e' => (e.1, wrap32 e.2) = e') counts.entries es := by
    refine (forall₂_across hback (forall₂_of_mapM hes)).imp ?_
    rintro ⟨name, n⟩ e ⟨⟨name', j⟩, ⟨hname, hn⟩, he⟩
    dsimp only at hname hn
    subst hname
    rcases hn with rfl | ⟨x, rfl⟩
    · unfold Json.int64? at he
      dsimp only at he
      split at he
      · next m hm =>
        split at hm
        · cases hm
          cases he
          rfl
        · cases hm
      · cases he
    · cases he
  have hes : es = counts.entries.map fun e => (e.1, wrap32 e.2) := by
    rw [← List.forall₂_map_left_iff, List.forall₂_eq_eq_eq] at hread
    exact hread.symm
  have hsorted : es.Pairwise KeyLt :=
    hes ▸ Entries.pairwise_map (f := fun _ n => wrap32 n) counts.sorted
  show Entries.get? key (Entries.ofList es) = _
  rw [Entries.ofList_of_pairwise hsorted, hes]
  exact Entries.get?_map (fun _ n => wrap32 n) key counts.entries

namespace State

variable {s u loaded : State} {t₀ t : ContentTree}

/-- The visits counted under a name come back, if 32 bits hold their number. -/
theorem visitsUnder_ofText (hread : u.ofText t (s.toText t₀) = .ok loaded) (key : String) :
    loaded.visitsUnder key = wrap32 (s.visitsUnder key) := by
  obtain ⟨j, hjson, hfields⟩ := exists_of_ofText hread
  obtain ⟨_, _, _, jvisits, _, _, -, -, -, -, -, hvisits, hcounts⟩ := exists_of_ofFields hfields
  obtain ⟨jcounts, hfound, hback⟩ := (Json.rereads_of_read? hjson).field?_some
    (field?_toJson (t := t₀) s).2.2.2
  rw [hfound, Option.bind_some] at hvisits
  rw [visitsUnder, visitsUnder, get?_of_countsOfJson hback hvisits hcounts key]
  cases s.visits.get? key with
  | none => rfl
  | some n => rfl

/-- Every choice names the choice point that it named. -/
theorem sources_ofText (hread : u.ofText t (s.toText t₀) = .ok loaded) :
    loaded.choices.map (fun o => o.source) = s.choices.map fun o => o.source := by
  obtain ⟨j, hjson, hfields⟩ := exists_of_ofText hread
  obtain ⟨_, joffers, offers, _, _, _, -, -, hjoffers, hoffers, hchoices, -⟩ :=
    exists_of_ofFields hfields
  obtain ⟨jfound, hfound, hback⟩ := (Json.rereads_of_read? hjson).field?_some
    (field?_toJson (t := t₀) s).2.1
  obtain ⟨items, hitems, hall⟩ := hback.arr?
  rw [hfound, Option.bind_some, hitems] at hjoffers
  cases hjoffers
  have hacross := forall₂_across (forall₂_across (List.forall₂_map_left_iff.mp hall)
    (forall₂_of_mapM hoffers)) (forall₂_of_giveThreads hchoices)
  rw [← List.forall₂_eq_eq_eq, List.forall₂_map_left_iff, List.forall₂_map_right_iff]
  refine hacross.flip.imp ?_
  rintro o' o ⟨offer, ⟨joffer, hoffer, hofferRead⟩, rfl, -⟩
  exact Offer.source_of_ofJson hoffer hofferRead

end State

end StoryMachine
