import PostLisp.Call.Cache
import PostLisp.Call.Frame
import PostLisp.Fault

/-!
# Sessions

A session is what lasts from one program to the next: the global bindings, the cache of calls, and
the counters. Evaluation works on a session and the frame of the running code. An error keeps the
session as it was when the error arose: definitions made before it, the cache and the counters
stay.
-/

namespace PostLisp

structure Options where
  memoize : Bool
  maxDepth : Nat
  deriving DecidableEq, Repr

/-- Calls are remembered, and list forms nest at most a thousand deep. -/
def Options.standard : Options where
  memoize := true
  maxDepth := 1000

instance : Inhabited Options := ⟨Options.standard⟩

/-- What a session reports of its work while it runs. -/
inductive Event where
  | functionCreated (id arity captured : Nat)
  | globalDefined (name : String) (value : Value)
  | cacheHit (id : Nat)
  | cacheMiss (id : Nat) (cacheable : Bool)

namespace Event

/-- An event as a line: its level, what happened, and its fields in the order of their names. -/
def render : Event → String
  | .functionCreated id arity captured =>
    "DEBUG function created arity=" ++ toString arity ++ " captured=" ++ toString captured ++
      " id=" ++ toString id
  | .globalDefined name value =>
    "DEBUG global definition name=" ++ name ++ " value=" ++ value.render
  | .cacheHit id => "TRACE cache hit id=" ++ toString id
  | .cacheMiss id cacheable =>
    "TRACE cache miss cacheable=" ++ toString cacheable ++ " id=" ++ toString id

end Event

/-- `calls` counts the function bodies that were run, `nextId` is the identity of the next
function, `depth` the number of list forms being evaluated inside one another. The last event
comes first. -/
structure Session where
  options : Options
  globals : Bindings Value
  cache : Cache
  calls : Nat
  nextId : Nat
  depth : Nat
  events : List Event

namespace Session

def new (options : Options) : Session where
  options := options
  globals := .empty
  cache := .empty
  calls := 0
  nextId := 0
  depth := 0
  events := []

instance : Inhabited Session := ⟨new .standard⟩

/-- How many more list forms may be entered. -/
def room (s : Session) : Nat := s.options.maxDepth - s.depth

end Session

structure EvalState where
  session : Session
  frame : Frame

namespace EvalState

def enterForm (s : EvalState) : EvalState :=
  { s with session := { s.session with depth := s.session.depth + 1 } }

def leaveForm (s : EvalState) : EvalState :=
  { s with session := { s.session with depth := s.session.depth - 1 } }

@[simp] theorem leaveForm_enterForm (s : EvalState) : s.enterForm.leaveForm = s := rfl

end EvalState

/-- Evaluation changes the session and the frame, and may fail. -/
abbrev EvalM := EStateM EvalError EvalState

namespace EvalM

/-- The result of a pure operation that is blamed on `span`. -/
def blame {α : Type} (span : Span) : Except Fault α → EvalM α
  | .ok v => pure v
  | .error f => throw ⟨f, span⟩

def modifySession (change : Session → Session) : EvalM Unit :=
  modify fun s => { s with session := change s.session }

def record (e : Event) : EvalM Unit :=
  modifySession fun s => { s with events := e :: s.events }

def lookup (name : String) : EvalM (Option Value) := do
  let s ← get
  pure (s.frame.lookup s.session.globals name)

def define (name : String) (value : Value) : EvalM Unit :=
  modify fun s =>
    let defined := s.frame.define s.session.globals name value
    { s with frame := defined.1, session := { s.session with globals := defined.2 } }

/-- Starts an action from a changed state, and changes the state that it ends in, whether it ends
in a value or in an error. -/
def around {α : Type} (before after : EvalState → EvalState) (act : EvalM α) : EvalM α := fun s =>
  match act (before s) with
  | .ok v t => .ok v (after t)
  | .error e t => .error e (after t)

/-- Evaluates one list form, which counts as one level deeper while it lasts. -/
def nested {α : Type} (act : EvalM α) : EvalM α :=
  around EvalState.enterForm EvalState.leaveForm act

/-- Runs code in a frame of its own; the frame around it is back afterwards. -/
def inFrame {α : Type} (frame : Frame) (act : EvalM α) : EvalM α := fun s =>
  around (fun s => { s with frame }) (fun t => { t with frame := s.frame }) act s

end EvalM

end PostLisp
