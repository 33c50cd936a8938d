import PostLisp.Value

/-!
# Frames

A frame is what one piece of running code sees beside the global bindings: nothing at top level,
and in a call the bindings of the call and those its function captured. Names are looked up from
the inside outwards; a definition goes to the innermost bindings and no further.
-/

namespace PostLisp

inductive Frame where
  | top
  | call (locals captured : Bindings Value)

namespace Frame

instance : Inhabited Frame := ⟨.top⟩

def isTop : Frame → Bool
  | .top => true
  | .call _ _ => false

/-- The first of locals, captured bindings and globals that binds the name gives its value. -/
def lookup (f : Frame) (globals : Bindings Value) (name : String) : Option Value :=
  match f with
  | .top => globals.find? name
  | .call locals captured => locals.find? name <|> captured.find? name <|> globals.find? name

/-- The innermost bindings, which a new function captures. -/
def innermost (f : Frame) (globals : Bindings Value) : Bindings Value :=
  match f with
  | .top => globals
  | .call locals _ => locals

/-- The frame and the globals after a definition. -/
def define (f : Frame) (globals : Bindings Value) (name : String) (value : Value) :
    Frame × Bindings Value :=
  match f with
  | .top => (.top, globals.insert name value)
  | .call locals captured => (.call (locals.insert name value) captured, globals)

theorem lookup_define (f : Frame) (globals : Bindings Value) (name : String) (value : Value) :
    (f.define globals name value).1.lookup (f.define globals name value).2 name = some value := by
  cases f <;> simp [define, lookup, Bindings.find?_insert]

theorem lookup_define_of_ne (f : Frame) (globals : Bindings Value) {name other : String}
    (hOther : name ≠ other) (value : Value) :
    (f.define globals name value).1.lookup (f.define globals name value).2 other =
      f.lookup globals other := by
  cases f <;> simp [define, lookup, Bindings.find?_insert, hOther]

theorem innermost_define (f : Frame) (globals : Bindings Value) (name : String) (value : Value) :
    (f.define globals name value).1.innermost (f.define globals name value).2 =
      (f.innermost globals).insert name value := by
  cases f <;> rfl

end Frame

/-- The frame in which a function runs: its parameters stand for the arguments. -/
def Closure.frame (f : Closure Value) (args : List Value) : Frame :=
  .call (Bindings.empty.insertAll (f.params.zip args)) f.captured

end PostLisp
