import StoryMachine.Json.Printer
import StoryMachine.Value.Kind

/-!
# What can go wrong

A `StoryError` names its cause, and belongs to one of six kinds:

* *decode* : a story or a saved state is malformed;
* *address* : a path or name leads nowhere in the content;
* *type* : an operation met a value it does not apply to;
* *structural* : the flow was driven into an invalid state;
* *version* : a format version is not supported;
* *bad argument* : the host asked for something that is not possible.

`detail` words the cause, and `message` puts the kind in front of it. An error that a host
gets without having a handler installed sums up several of them (`issues`), under the kind
of the first one.
-/

namespace StoryMachine

/-- The kind of an error. -/
inductive ErrorKind where
  | decode
  | address
  | type
  | structural
  | version
  | badArgument
  deriving DecidableEq, Repr, Inhabited

/-- The name of a kind of error. -/
def ErrorKind.name : ErrorKind → String
  | decode => "Decode"
  | address => "Address"
  | type => "Type"
  | structural => "Structural"
  | version => "Version"
  | badArgument => "BadArgument"

/-- Causes in the text of a story or of a saved state. -/
inductive DecodeFault where
  | notJson
  | versionMissing
  | rootMissing
  | rootNotContainer
  | token (t : Json)
  | unterminated
  | terminator (t : Json)
  | countFlags (t : Json)
  | containerName (t : Json)
  | namedContent (name : String)
  | listDefinitions
  | listDefinition (name : String)
  | listItem (list item : String)
  | count (path : String) (t : Json)
  | frameKind (n : Int)
  | frameKindMissing
  | threadIndex
  | threadWithoutFrames
  | frame
  | cursorIndex
  | emptyThread
  | noThreads
  | thread
  | threadCounter
  | stateNotObject
  | saveVersionMissing
  | stateField (name : String)
  | choiceThread (index : Nat) (choice : String)

/-- Causes in an address. -/
inductive AddressFault where
  | lost (path : String)
  | temporaryContext (name : String)
  | temporaryUnknown (name : String)
  | noApproximation (path : String)
  | content (path : String)
  | variableTarget (name : String)
  | divert (shown : String)
  | list (name : String)
  | readCount (path : String)
  | choiceTarget (path : String)

/-- Causes in the kinds of values. -/
inductive TypeFault where
  | conditionTarget (path : String)
  | conditionVariable (name : String)
  | cast (shown : String) (source goal : Kind)
  | convert (shown : String) (source goal : Kind)
  | coerce (source : Kind) (goal : String)
  | voidOperand
  | operand (operator shown : String)
  | rankWithoutList (rank : Int)
  | rankMissing (rank : Int) (list : String)
  | mixed (kind : Kind)
  | unavailable (operator : String) (kind : Kind)
  | divisionByZero (operator : String)
  | notTarget (var shown : String)
  | emptyTarget (var : String)
  | countTarget (command shown : String) (isNumber : Bool)
  | randomRange (least most : Int)
  | randomMost
  | randomLeast
  | seed
  | listRank
  | listName (shown : String)
  | rangeMost
  | rangeLeast
  | rangeList
  | randomList
  | assigned (shown var : String)
  | externalArguments (function : String)
  | choiceText (shown : String)

/-- How a flow ran out of content. -/
inductive DeadEnd where
  | tunnel
  | function
  | flow
  | other

/-- What a frame waits for, as named in messages. -/
inductive Return where
  | function
  | tunnel
  | hostCall
  | flowEnd

/-- Causes in the flow. -/
inductive FlowFault where
  | operandCount (operator : String)
  | popThread
  | popFrame
  | evaluationEmpty
  | evaluationShort
  | insideExpression
  | outsideExpression
  | nothingToDuplicate
  | stringOutsideExpression
  | shuffleSize
  | shuffleOutside
  | shuffleCount
  | shuffleExhausted
  | visitOutside
  | wrongReturn (found expected : Return)
  | tunnelOverride
  | commandInTag
  | unsafeInString (function : String)
  | choiceRange (index count : Nat)
  | cannotContinue
  | openThread
  | deadEnd (d : DeadEnd)
  | insideFunction (place path trace : String)
  | unfinishedFunction (trace : String)
  | tagContent

/-- Unsupported format versions. -/
inductive VersionFault where
  | storyNewer (found : Int)
  | storyOlder (found : Int)
  | saveOlder (found oldest : Int)

/-- What a host cannot do while a line is being produced. -/
inductive Activity where
  | continueMaximally
  | readText
  | readTags
  | choose
  | choosePath
  | evaluate
  | save
  | load
  | restore
  | resetState
  | resetCallStack
  | bind
  | unbind
  | observe
  | unobserve

/-- Causes in a request of the host. -/
inductive RequestFault where
  | itemUndefined (item : String)
  | itemAmbiguous (item list : String)
  | itemUnknown (item : String)
  | undeclared (var : String)
  | unobservable (var : String)
  | argumentKind (kind : Kind)
  | functionBlank
  | functionMissing (name : String)
  | functionSuspended (name external : String)
  | waiting (external : String)
  | busyWaiting (activity : Activity) (external : String)
  | busyLine (activity : Activity)
  | alreadyBound (name : String)
  | notBound (name : String)
  | nothingPending
  | foreignState

/-- An error with its cause. -/
inductive StoryError where
  | decode (f : DecodeFault)
  | address (f : AddressFault)
  | type (f : TypeFault)
  | flow (f : FlowFault)
  | version (f : VersionFault)
  | request (f : RequestFault)
  /-- Several issues in one, under the kind of the first error. -/
  | issues (kind : ErrorKind) (summary : String)

namespace DecodeFault

/-- The wording of a cause. -/
def detail : DecodeFault → String
  | notJson => "invalid JSON"
  | versionMissing =>
    "ink version number not found. Are you sure it's a valid .ink.json file?"
  | rootMissing => "Root node for ink not found. Are you sure it's a valid .ink.json file?"
  | rootNotContainer => "Root node must be a container"
  | token t => "Failed to convert token to runtime object: " ++ t.render
  | unterminated => "Container without terminating element"
  | terminator t => "Invalid container terminator: " ++ t.render
  | countFlags t => "Invalid count flags: " ++ t.render
  | containerName t => "Invalid container name: " ++ t.render
  | namedContent name => "Named content '" ++ name ++ "' is not a container"
  | listDefinitions => "Invalid list definitions"
  | listDefinition name => "Invalid list definition: " ++ name
  | listItem list item => "Invalid value for list item " ++ list ++ "." ++ item
  | count path t => "Invalid count for " ++ path ++ ": " ++ t.render
  | frameKind n => "Unexpected PushPopType value " ++ Decimal.ofInt n
  | frameKindMissing => "Invalid push/pop type"
  | threadIndex => "Invalid thread index"
  | threadWithoutFrames => "Thread without callstack"
  | frame => "Invalid callstack element"
  | cursorIndex => "Invalid pointer index"
  | emptyThread => "Thread with an empty callstack"
  | noThreads => "Callstack without threads"
  | thread => "Invalid thread"
  | threadCounter => "Invalid thread counter"
  | stateNotObject => "State not in JSON format."
  | saveVersionMissing => "ink save format incorrect, can't load."
  | stateField name => "Invalid or missing '" ++ name ++ "' in saved state"
  | choiceThread index choice =>
    "Missing thread " ++ Decimal.ofNat index ++ " for choice '" ++ choice ++ "'"

end DecodeFault

namespace AddressFault

/-- The wording of a cause. -/
def detail : AddressFault → String
  | lost path =>
    "When loading state, internal story location couldn't be found: '" ++ path ++
      "'. Has the story changed since this save data was created?"
  | temporaryContext name => "Invalid context for temporary variable: " ++ name
  | temporaryUnknown name => "Could not find temporary variable to set: " ++ name
  | noApproximation path =>
    "Failed to find content at path '" ++ path ++
      "', and no approximation of it was possible."
  | content path => "Content at path not found: " ++ path
  | variableTarget name =>
    "Tried to divert using a target from a variable that could not be found (" ++ name ++ ")"
  | divert shown => "Divert resolution failed: " ++ shown
  | list name => "Failed to find LIST called " ++ name
  | readCount path => "Failed to find container for read count: " ++ path
  | choiceTarget path => "Choice target not found: " ++ path

end AddressFault

namespace TypeFault

/-- The wording of a cause. -/
def detail : TypeFault → String
  | conditionTarget path =>
    "Shouldn't use a divert target (to " ++ path ++
      ") as a conditional value. Did you intend a function call 'likeThis()' or a read " ++
      "count check 'likeThis'? (no arrows)"
  | conditionVariable name =>
    "Shouldn't be checking the truthiness of a variable pointer (" ++ name ++ ")"
  | cast shown source goal =>
    "Can't cast " ++ shown ++ " from " ++ source.name ++ " to " ++ goal.name
  | convert shown source goal =>
    "Can't convert '" ++ shown ++ "' from " ++ source.name ++ " to " ++ goal.name
  | coerce source goal => "Failed to cast " ++ source.name ++ " to " ++ goal
  | voidOperand =>
    "Attempting to perform operation on a void value. Did you forget to 'return' a value " ++
      "from a function you called here?"
  | operand operator shown =>
    "Expected a value as parameter of '" ++ operator ++ "' but found " ++ shown
  | rankWithoutList rank =>
    "Could not find List item with the value " ++ Decimal.ofInt rank ++
      " because the list has no origin"
  | rankMissing rank list =>
    "Could not find List item with the value " ++ Decimal.ofInt rank ++ " in " ++ list
  | mixed kind => "Cannot mix Lists and " ++ kind.name ++ " values in this operation"
  | unavailable operator kind =>
    "Cannot perform operation '" ++ operator ++ "' on " ++ kind.name
  | divisionByZero operator => "Division by zero in operation '" ++ operator ++ "'"
  | notTarget var shown =>
    "Tried to divert to a target from a variable, but the variable (" ++ var ++
      ") didn't contain a divert target, it contained '" ++ shown ++ "'."
  | emptyTarget var =>
    "Tried to divert to a target from a variable, but the variable (" ++ var ++
      ") didn't contain a divert target, it was empty/null (the value 0)."
  | countTarget command shown isNumber =>
    command ++ " expected a divert target (knot, stitch, label name), but saw " ++ shown ++
      if isNumber then
        ". Did you accidentally pass a read count ('knot_name') instead of a target " ++
          "('-> knot_name')?"
      else ""
  | randomRange least most =>
    "RANDOM was called with minimum as " ++ Decimal.ofInt least ++ " and maximum as " ++
      Decimal.ofInt most ++ ". The maximum must be larger"
  | randomMost => "Invalid value for maximum parameter of RANDOM(min, max)"
  | randomLeast => "Invalid value for minimum parameter of RANDOM(min, max)"
  | seed => "Invalid value passed to SEED_RANDOM"
  | listRank => "Passed non-integer when creating a list element from a numerical value."
  | listName shown => "Expected a list name when creating a list element, but saw " ++ shown
  | rangeMost => "Expected a value for the maximum of LIST_RANGE"
  | rangeLeast => "Expected a value for the minimum of LIST_RANGE"
  | rangeList => "Expected a list to be passed to LIST_RANGE"
  | randomList => "Expected a list to be passed to LIST_RANDOM"
  | assigned shown var => "Can't assign " ++ shown ++ " to variable " ++ var
  | externalArguments function =>
    "Trying to call EXTERNAL function '" ++ function ++
      "' with arguments which are not values."
  | choiceText shown => "Expected choice text on the evaluation stack, but saw " ++ shown

end TypeFault

/-- The wording of the way a flow ran out of content. -/
def DeadEnd.detail : DeadEnd → String
  | tunnel =>
    "unexpectedly reached end of content. Do you need a '->->' to return from a tunnel?"
  | function => "unexpectedly reached end of content. Do you need a '~ return'?"
  | flow => "ran out of content. Do you need a '-> DONE' or '-> END'?"
  | other => "unexpectedly reached end of content for unknown reason."

/-- The wording of what a frame waits for. -/
def Return.detail : Return → String
  | function => "function return statement (~ return)"
  | tunnel => "tunnel onwards statement (->->)"
  | hostCall => "end of function evaluation"
  | flowEnd => "end of flow (-> END or choice)"

namespace FlowFault

/-- The wording of a cause. -/
def detail : FlowFault → String
  | operandCount operator => "Unexpected number of parameters calling '" ++ operator ++ "'"
  | popThread => "Can't pop thread"
  | popFrame => "Mismatched push/pop in Callstack"
  | evaluationEmpty => "Trying to pop from an empty evaluation stack"
  | evaluationShort => "Trying to pop too many objects from the evaluation stack"
  | insideExpression => "Already in expression evaluation?"
  | outsideExpression => "Not in expression evaluation mode"
  | nothingToDuplicate => "Nothing to duplicate on the evaluation stack"
  | stringOutsideExpression => "Expected to be in an expression when evaluating a string"
  | shuffleSize => "Expected number of elements in sequence for shuffle index"
  | shuffleOutside => "Shuffle index outside of a container"
  | shuffleCount => "Expected sequence count value for shuffle index"
  | shuffleExhausted => "Should never reach here"
  | visitOutside => "Visit index outside of a container"
  | wrongReturn found expected =>
    "Found " ++ found.detail ++ ", when expected " ++ expected.detail
  | tunnelOverride => "Expected void if ->-> doesn't override target"
  | commandInTag => "Unexpected control command in string evaluation output stream"
  | unsafeInString function =>
    "External function " ++ function ++ " could not be called because 1) it wasn't marked " ++
      "as lookahead safe when bind_external_function was called and 2) the story is in the " ++
      "middle of string generation, either because choice text is being generated, or " ++
      "because you have ink like \"hello \x7bfunc()\x7d\". You can work around this by " ++
      "generating the result of your function into a temporary variable before the string " ++
      "or choice gets generated: ~ temp x = " ++ function ++ "()"
  | choiceRange index count =>
    "choice out of range: " ++ Decimal.ofNat index ++ " (there are " ++ Decimal.ofNat count ++
      " choices)"
  | cannotContinue => "Can't continue - should check can_continue before calling Continue"
  | openThread =>
    "Thread available to pop, threads should always be flat by the end of evaluation?"
  | deadEnd d => d.detail
  | insideFunction place path trace =>
    "Story was running a function " ++ place ++ " when you called choose_path_string(" ++ path ++
      ") - this is almost certainly not what you want! Full stack trace: \n" ++ trace
  | unfinishedFunction trace =>
    "Expected external function evaluation to be complete. Stack trace: " ++ trace
  | tagContent =>
    "Tag contained non-text content. Only plain text is allowed when using get_global_tags " ++
      "or tags_for_content_at_path. If you want to evaluate dynamic content, you need to use " ++
      "cont()"

end FlowFault

namespace VersionFault

/-- The version met. -/
def found : VersionFault → Int
  | storyNewer n => n
  | storyOlder n => n
  | saveOlder n _ => n

/-- The wording of a cause. -/
def detail : VersionFault → String
  | storyNewer _ =>
    "Version of ink used to build story was newer than the current version of the engine"
  | storyOlder _ =>
    "Version of ink used to build story is too old to be loaded by this version of the engine"
  | saveOlder found oldest =>
    "Ink save format isn't compatible with the current version (saw '" ++
      Decimal.ofInt found ++ "', but minimum is " ++ Decimal.ofInt oldest ++
      "), so can't load."

end VersionFault

/-- The wording of an activity. -/
def Activity.detail : Activity → String
  | continueMaximally => "continue_maximally"
  | readText => "call currentText since it's a work in progress"
  | readTags => "call currentTags since it's a work in progress"
  | choose => "choose a choice"
  | choosePath => "call choose_path_string right now"
  | evaluate => "evaluate a function"
  | save => "save the state"
  | load => "load a state"
  | restore => "restore a state"
  | resetState => "reset_state"
  | resetCallStack => "reset_callstack"
  | bind => "bind an external function"
  | unbind => "unbind an external a function"
  | observe => "observe a new variable"
  | unobserve => "remove a variable observer"

namespace RequestFault

/-- The wording of a cause. -/
def detail : RequestFault → String
  | itemUndefined item =>
    "Could not add the item " ++ item ++
      " to this list because it doesn't exist in the original list definition."
  | itemAmbiguous item list =>
    "Could not add the item " ++ item ++
      " to this list because it could come from either " ++ list ++ " or another list."
  | itemUnknown item =>
    "Failed to add item '" ++ item ++ "' to list because the item was from a list definition " ++
      "that wasn't previously known to this list."
  | undeclared var =>
    "Cannot assign to a variable (" ++ var ++
      ") that hasn't been declared in the story"
  | unobservable var =>
    "Cannot observe variable '" ++ var ++
      "' because it wasn't declared in the story."
  | argumentKind kind =>
    "ink arguments when calling EvaluateFunction / ChoosePathStringWithParameters must be " ++
      "int, float, string, bool or InkList. Argument was " ++ kind.name
  | functionBlank => "Function is empty or white space."
  | functionMissing name => "Function doesn't exist: '" ++ name ++ "'"
  | functionSuspended name external =>
    "Function '" ++ name ++ "' called the unbound external function '" ++ external ++
      "'. Bind it before evaluating the function."
  | waiting external =>
    "Can't continue: waiting for the result of external function '" ++ external ++
      "'. Call resolve_external_call() first."
  | busyWaiting activity external =>
    "Can't " ++ activity.detail ++
      ". Story is waiting for the result of external function '" ++ external ++
      "'. Call resolve_external_call() first."
  | busyLine activity =>
    "Can't " ++ activity.detail ++
      ". Story is in the middle of a continue_async(). Make more continue_async() calls or " ++
      "a single cont() call beforehand."
  | alreadyBound name => "Function '" ++ name ++ "' has already been bound."
  | notBound name => "Function '" ++ name ++ "' has not been bound."
  | nothingPending => "There is no pending external function call to resolve"
  | foreignState => "The state was taken from a story with different content"

end RequestFault

namespace StoryError

/-- The kind of an error. -/
def kind : StoryError → ErrorKind
  | decode _ => .decode
  | address _ => .address
  | type _ => .type
  | flow _ => .structural
  | version _ => .version
  | request _ => .badArgument
  | issues kind _ => kind

/-- The wording of an error, without its kind. -/
def detail : StoryError → String
  | decode f => f.detail
  | address f => f.detail
  | type f => f.detail
  | flow f => f.detail
  | version f => f.detail
  | request f => f.detail
  | issues _ summary => summary

/-- The words in front of the wording of an error. A version error names the version. -/
def lead (e : StoryError) : String :=
  match e with
  | version f => "Version error: found " ++ Decimal.ofInt f.found ++ ", "
  | e =>
    match e.kind with
    | .decode => "Error parsing JSON: "
    | .address => "Address error: "
    | .type => "Type error: "
    | .structural => "Invalid story state: "
    | .version => "Version error: "
    | .badArgument => "Bad argument: "

/-- The full wording of an error. -/
def message (e : StoryError) : String :=
  e.lead ++ e.detail

end StoryError

/-! ## Computations that fail -/

theorem Except.bind_eq_ok {ε α β : Type} {x : Except ε α} {f : α → Except ε β} {b : β} :
    (x >>= f) = .ok b ↔ ∃ a, x = .ok a ∧ f a = .ok b := by
  cases x with
  | error e => exact ⟨nofun, nofun⟩
  | ok a => exact ⟨fun h => ⟨a, rfl, h⟩, fun ⟨_, h, hf⟩ => by cases h; exact hf⟩

@[simp]
theorem Except.ok_bind {ε α β : Type} (a : α) (f : α → Except ε β) :
    (Except.ok a >>= f) = f a := rfl

@[simp]
theorem Except.map_ok {ε α β : Type} (f : α → β) (a : α) :
    (f <$> Except.ok a : Except ε β) = .ok (f a) := rfl

@[simp]
theorem Except.pure_eq_ok {ε α : Type} (a : α) : (pure a : Except ε α) = .ok a := rfl

theorem Except.mapM_eq_ok_of_mem {ε α β : Type} {f : α → Except ε β} {g : α → β} {l : List α}
    (h : ∀ a ∈ l, f a = .ok (g a)) : l.mapM f = .ok (l.map g) := by
  induction l with
  | nil => rfl
  | cons a rest ih =>
    rw [List.mapM_cons, h a List.mem_cons_self, ih fun b hb => h b (List.mem_cons_of_mem a hb)]
    rfl

theorem Except.mapM_map_eq_ok {ε α β γ : Type} {f : α → β} {g : β → Except ε γ} {k : α → γ}
    {l : List α} (h : ∀ a, g (f a) = .ok (k a)) : (l.map f).mapM g = .ok (l.map k) := by
  rw [List.mapM_map]
  exact mapM_eq_ok_of_mem fun a _ => h a

end StoryMachine
