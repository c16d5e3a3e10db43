import StoryMachine.CallStack.Codec

/-!
# Variables

The global variables of a story live in `Variables`, with the values they had after the
global declarations ran; the temporary ones live in the frames of the call stack. A name
is looked up among the globals first, then among the defaults, then among the list items,
and then in a frame.

A variable may hold a reference to another one. Reading and assigning follow references to
the variable they end at. Each step of such a chain looks at another variable, so the
number of variables bounds its length.
-/

namespace StoryMachine

/-- The global variables.

* `defaults` : their values after the global declarations;
* `changed` : the names assigned since watching started, if `watching`. -/
structure Variables where
  globals : Table Value
  defaults : Table Value
  watching : Bool
  changed : Table Unit
  deriving Inhabited

namespace Variables

/-- No variables. -/
def empty : Variables :=
  ⟨.empty, .empty, false, .empty⟩

/-- Start to note which variables are assigned. -/
def watch (v : Variables) : Variables :=
  { v with watching := true, changed := .empty }

/-- Stop noting which variables are assigned. -/
def unwatch (v : Variables) : Variables :=
  { v with watching := false, changed := .empty }

/-- The variables assigned since watching started, with their values, in name order. -/
def changes (v : Variables) : List (String × Value) :=
  v.changed.keys.filterMap fun name => (v.globals.get? name).map (name, ·)

/-- Make the present values the defaults. -/
def settle (v : Variables) : Variables :=
  { v with defaults := v.globals }

/-- Whether a global variable of this name is known. -/
def declares (v : Variables) (name : String) : Bool :=
  v.globals.contains name || v.defaults.contains name

/-- The value of a global variable, its default if it has none of its own. -/
def get? (v : Variables) (name : String) : Option Value :=
  (v.globals.get? name).or (v.defaults.get? name)

/-- Set a global variable. -/
def put (v : Variables) (name : String) (value : Value) : Variables :=
  let value := match v.globals.get? name with
    | some old => old.inheritOrigins value
    | none => value
  { v with
    globals := v.globals.insert name value
    changed := if v.watching then v.changed.insert name () else v.changed }

/-- Set a global variable for the host; it has to be declared by the story. -/
def set (v : Variables) (name : String) (value : Value) : Except StoryError Variables :=
  if v.defaults.contains name then .ok (v.put name value)
  else .error (.request (.undeclared name))

/-- What a name holds in a scope, without following references. -/
def raw? (v : Variables) (lists : ListDefinitions) (s : CallStack) (name : String)
    (scope : Int) : Option Value :=
  let global :=
    if scope = globalScope ∨ scope = unknownScope then
      (v.get? name).or ((lists.single? name).map .list)
    else none
  global.or (s.temporary? name scope)

/-- A bound on the length of a chain of references: every variable occurs in it at most
once under each of its two scopes, the known and the unknown one. -/
def chainBound (v : Variables) (s : CallStack) : Nat :=
  2 * (v.globals.size + v.defaults.size +
    (s.current.frames.map fun f => f.temporaries.size).foldr (· + ·) 0) + 2

/-- Follow the chain of references from a name and scope to the variable it ends at;
`bound` bounds its length. -/
def follow (v : Variables) (lists : ListDefinitions) (s : CallStack) :
    (bound : Nat) → String → Int → String × Int
  | 0, name, scope => (name, scope)
  | bound + 1, name, scope =>
    match v.raw? lists s name scope with
    | some (.reference name scope) => follow v lists s bound name scope
    | _ => (name, scope)

/-- The name and scope of the variable that a name stands for, behind the references that
lead to it. -/
def target (v : Variables) (lists : ListDefinitions) (s : CallStack) (name : String) :
    String × Int :=
  match v.raw? lists s name unknownScope with
  | some (.reference name scope) => v.follow lists s (v.chainBound s) name scope
  | _ => (name, unknownScope)

/-- The value of a variable, behind the references that lead to it. -/
def read? (v : Variables) (lists : ListDefinitions) (s : CallStack) (name : String) :
    Option Value :=
  let (name, scope) := v.target lists s name
  v.raw? lists s name scope

/-- The reference that a declaration stores for one to a variable: its scope is
determined, and a reference to a reference becomes that one. -/
def resolveReference (v : Variables) (lists : ListDefinitions) (s : CallStack)
    (name : String) (scope : Int) : Value :=
  let scope :=
    if scope = unknownScope then
      if v.declares name then globalScope else (s.depth : Int) - 1
    else scope
  match v.raw? lists s name scope with
  | some (.reference name scope) => .reference name scope
  | _ => .reference name scope

/-- Assign to a global or temporary variable. A declaration makes a variable of the given
extent; any other assignment goes to the variable at the end of the references. -/
def assign (v : Variables) (lists : ListDefinitions) (s : CallStack) (a : Assignment)
    (value : Value) : Except StoryError (Variables × CallStack) :=
  if a.isDeclaration then
    let value := match value with
      | .reference name scope => v.resolveReference lists s name scope
      | value => value
    if a.isGlobal then .ok (v.put a.name value, s)
    else (s.setTemporary a.name value true unknownScope).map (v, ·)
  else
    let (name, scope) := v.target lists s a.name
    let isGlobal :=
      if (name, scope) = (a.name, unknownScope) then v.declares name else scope = globalScope
    if isGlobal then .ok (v.put name value, s)
    else (s.setTemporary name value false scope).map (v, ·)

/-- The variables as JSON: those that differ from their defaults. -/
def toJson (v : Variables) : Json :=
  .obj <| v.globals.entries.filterMap fun e =>
    match v.defaults.get? e.1 with
    | some d => if d == e.2 then none else some (e.1, e.2.toJson)
    | none => some (e.1, e.2.toJson)

/-- Read saved variables: every variable that has a default gets its saved value, or its
default again. -/
def ofJson (v : Variables) (j : Json) : Except StoryError Variables := do
  let globals ← v.defaults.entries.mapM fun e =>
    match j.field? e.1 with
    | some t => do return (e.1, ← Value.ofJson t)
    | none => pure e
  return { v with globals := .ofList globals }

end Variables

end StoryMachine
