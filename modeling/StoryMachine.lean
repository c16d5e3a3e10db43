import StoryMachine.Main
import StoryMachine.Story.Host
import StoryMachine.Player.Play
import StoryMachine.Proofs.Content.NormalForm
import StoryMachine.Proofs.Story.Evaluation
import StoryMachine.Proofs.Story.OneLine
import StoryMachine.Proofs.Story.UnsafeCalls
import StoryMachine.Proofs.Story.Inside
import StoryMachine.Proofs.Story.Operands
import StoryMachine.Proofs.Story.CallSteps
import StoryMachine.Proofs.Story.CleanCalls
import StoryMachine.Proofs.Story.Ready
import StoryMachine.Proofs.Story.OpenLines
import StoryMachine.Proofs.Story.Failures
import StoryMachine.Proofs.Story.ThreadNumbers
import StoryMachine.Proofs.Story.SavedThreads
import StoryMachine.Proofs.Story.OwnSaves
import StoryMachine.Proofs.Alike.Parts
import StoryMachine.Proofs.Alike.Flows
import StoryMachine.Proofs.Alike.Outputs
import StoryMachine.Proofs.Alike.Calls
import StoryMachine.Proofs.Alike.Suspension
import StoryMachine.Proofs.Alike.Endings
import StoryMachine.Proofs.Alike.Answering
import StoryMachine.Proofs.Alike.Hosts
import StoryMachine.Proofs.Alike.Evaluations
import StoryMachine.Proofs.Alike.Parallel
import StoryMachine.Proofs.Alike.PlainRuns
import StoryMachine.Proofs.Essence.Resumption
import StoryMachine.Proofs.Content.Addresses
import StoryMachine.Proofs.Content.Targets
import StoryMachine.Proofs.Content.Relative
import StoryMachine.Proofs.Content.Descent
import StoryMachine.Proofs.Story.Jumps
import StoryMachine.Proofs.Story.MissingCalls
import StoryMachine.Proofs.Story.Resets
import StoryMachine.Proofs.Story.Arrivals
import StoryMachine.Proofs.Story.Assignments
import StoryMachine.Proofs.Story.Observers
import StoryMachine.Proofs.Story.OnceOnly
import StoryMachine.Proofs.Story.Choosing
import StoryMachine.Proofs.Story.Destinations
import StoryMachine.Proofs.Story.References
import StoryMachine.Proofs.Story.SoundRuns
import StoryMachine.Proofs.Story.SavedVariables
import StoryMachine.Proofs.Story.SavedFrames
import StoryMachine.Proofs.Glue
import StoryMachine.Proofs.Borders
import StoryMachine.Proofs.Edges
import StoryMachine.Proofs.Growth
import StoryMachine.Proofs.Story.Deeds
import StoryMachine.Proofs.Story.Strings
import StoryMachine.Proofs.Story.FunctionText
import StoryMachine.Proofs.Story.Walk
import StoryMachine.Proofs.Story.RunningOut
import StoryMachine.Proofs.Story.ReadCounts
import StoryMachine.Proofs.Story.Warnings
import StoryMachine.Proofs.Story.Grounded
import StoryMachine.Proofs.Story.StraightRuns
import StoryMachine.Proofs.Story.Shuffles
import StoryMachine.Proofs.Value.Coherence
import StoryMachine.Proofs.Value.Division
import StoryMachine.Proofs.ListValue.Ranks
import StoryMachine.Proofs.ListValue.Origins
import StoryMachine.Proofs.ListValue.Names
import StoryMachine.Proofs.ListValue.Order
import StoryMachine.Proofs.Cleaning
import StoryMachine.Proofs.Story.ChoiceOperands
import StoryMachine.Proofs.Story.LookingAhead
import StoryMachine.Proofs.Story.TurnCounts
import StoryMachine.Proofs.Story.Counters
import StoryMachine.Proofs.Story.LeadingTags
import StoryMachine.Proofs.Story.TaggedLines
import StoryMachine.Proofs.Shares
import StoryMachine.Proofs.Story.Displays
