import StoryMachine.Story.Line

/-!
# Starting stories

A story starts by running its global declarations, which give the global variables their
defaults. Stories over the same content can run side by side.
-/

namespace StoryMachine

/-- The name of the knot with the global declarations. -/
def declarationsName : String := "global decl"

/-- Whether the content has global declarations. -/
def ContentTree.declaresGlobals (t : ContentTree) : Bool :=
  ((t.container? ContentTree.rootId).bind fun c => c.named.get? declarationsName).isSome

namespace Flow

/-- Run the global declarations, and make the values of the global variables their
defaults. -/
def declareGlobals : Flow Unit := do
  if (← tree).declaresGlobals then
    let start := (← state).cursor
    jumpTo (Path.parse declarationsName) false
    continueLine false nodeBudget
    modifyState fun s => s.setCursor start
  modifyState fun s => { s with vars := s.vars.settle }

/-- Warn that the content has another version than the one written here. -/
def checkVersion : Flow Unit := do
  let version := (← get).content.version
  if version ≠ formatVersion then
    warn ("Version of ink used to build story (" ++ Decimal.ofInt version ++
      ") doesn't match current version (" ++ Decimal.ofInt formatVersion ++
      ") of engine. Non-critical, but recommend synchronising.")

/-- Go back to the start, with another random seed. -/
def resetState (seed : Int32) : Flow Unit := do
  whenIdle .resetState
  modifyState fun _ => .start seed
  declareGlobals

end Flow

namespace Story

/-- A new story over content that has been read. -/
def ofContent (content : Content) (seed : Int32) : Except StoryError Story :=
  match (do Flow.declareGlobals; Flow.checkVersion : Flow Unit) (.unstarted content seed) with
  | .ok _ s => .ok s
  | .error e _ => .error e

/-- Read a story from its text. -/
def ofText (key : Nat) (text : String) (seed : Int32) : Except StoryError Story := do
  ofContent (← Content.ofText key text) seed

end Story

end StoryMachine
