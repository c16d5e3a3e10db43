import StoryMachine.Story.Basic

/-!
# Tags of content

The tags at the top of a knot or of the whole story can be read without running it. They
have to be plain text.
-/

namespace StoryMachine.Story

/-- Descend to the first content that is not in a container of its own. `depth` bounds the
number of containers. -/
def firstFlow (t : ContentTree) : Nat → NodeId → NodeId
  | 0, id => id
  | depth + 1, id =>
    match (t.content id).head? with
    | some first => if t.isContainer first then firstFlow t depth first else id
    | none => id

/-- The tags in front of other content. -/
def leadingTags (t : ContentTree) (inTag : Bool) :
    List NodeId → Except StoryError (List String)
  | [] => .ok []
  | id :: rest =>
    match t.leaf? id with
    | some (.command .beginTag) => leadingTags t true rest
    | some (.command .endTag) => leadingTags t false rest
    | some (.value (.text s)) =>
      if inTag then (leadingTags t inTag rest).map (s :: ·) else .ok []
    | leaf =>
      if inTag then .error (.flow .tagContent)
      else match leaf with
        | some (.tag s) => (leadingTags t inTag rest).map (s :: ·)
        | _ => .ok []

/-- The tags at the top of the container at a path. -/
def tagsAt (s : Story) (path : String) : Except StoryError (List String) :=
  let t := s.tree
  match (t.find (Path.parse path)).exactContainer? t with
  | none => .error (.address (.content path))
  | some id => leadingTags t false (t.content (firstFlow t t.size id))

/-- The tags at the top of the story. -/
def globalTags (s : Story) : Except StoryError (List String) :=
  s.tagsAt ""

end StoryMachine.Story
