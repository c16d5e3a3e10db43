import StoryMachine.Player.Play

/-!
# The console player

The player on the standard streams and the files of the system, with random seeds.
-/

namespace StoryMachine.Player

/-- The cause for which a file of the system cannot be used. -/
def FileFault.ofError : IO.Error → FileFault
  | .noFileOrDirectory .. => .missing
  | .permissionDenied .. => .denied
  | .inappropriateType .. => .notDirectory
  | e => .other (toString e)

/-- Use a file of the system. -/
def tryFile {α : Type} (x : IO α) : IO (Except FileFault α) := do
  try
    return .ok (← x)
  catch e =>
    return .error (.ofError e)

instance : Console IO where
  write s := do
    let out ← IO.getStdout
    out.putStr s
    out.flush
  report s := IO.eprint s
  readLine := do
    let line ← (← IO.getStdin).getLine
    return if line.isEmpty then none else some line
  readFile name := tryFile (IO.FS.readFile name)
  writeFile name content := tryFile (IO.FS.writeFile name content)

end StoryMachine.Player

/-- Play the story that the arguments name. -/
def main (arguments : List String) : IO UInt32 := do
  let storySeed ← IO.rand 0 99
  let low ← IO.rand 0 0xFFFFFFFF
  let high ← IO.rand 0 0xFFFFFFFF
  StoryMachine.Player.run (.ofArguments arguments) (.ofNat storySeed)
    (.ofNat (low + 0x100000000 * high))
