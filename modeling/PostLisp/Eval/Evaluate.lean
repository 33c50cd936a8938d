import PostLisp.Eval.Session
import PostLisp.Operation.Arith
import PostLisp.Operation.Sequence

/-!
# Evaluation

An atom is its own value or the value of a symbol. A list is a form: its last item says what
happens with the items before it, its operands. That item is an operator, a special form, the name
of a function, or a form whose value is a function.

Every definition but the last two takes the evaluation of nodes as a parameter. `evaluateWithin`
closes the circle: it recurses on the number of list forms that may still be entered, and no list
form is evaluated without entering one. So evaluation always ends, and a program that nests deeper
fails at the form that would be one too many.
-/

namespace PostLisp.Eval

/-- How a node is evaluated. -/
abbrev Evaluator := Node → EvalM Value

/-- Fails when a special form has another number of operands than it takes. -/
def wrongCount {α : Type} (form : SpecialForm) (expected : Nat) (operands : List Node)
    (span : Span) : EvalM α :=
  throw ⟨.form (.operandCount form expected operands.length), span⟩

section

variable (ev : Evaluator)

/-- The values of operands, from left to right. -/
def operandValues : List Node → EvalM (List Value)
  | [] => pure []
  | n :: ns => do
    let v ← ev n
    let vs ← operandValues ns
    pure (v :: vs)

/-- Evaluates nodes in order; the last value is the result, `last` when there are none. -/
def inOrder (last : Value) : List Node → EvalM Value
  | [] => pure last
  | n :: ns => do
    let v ← ev n
    inOrder v ns

/-- Runs the body of a function and counts the call. -/
def runBody (f : Closure Value) (args : List Value) : EvalM Value := do
  EvalM.modifySession fun s => { s with calls := s.calls + 1 }
  EvalM.inFrame (f.frame args) (inOrder ev .void f.body)

/-- The key under which a call is remembered, when calls are and this one can be. -/
def callKey? (f : Closure Value) (args : List Value) : EvalM (Option CallKey) := do
  let s ← get
  pure (if s.session.options.memoize then CallKey.of? f.id args else none)

/-- The result that is remembered for a key. -/
def remembered? (key : Option CallKey) : EvalM (Option Value) := do
  let s ← get
  pure (key.bind s.session.cache.find?)

/-- Remembers a result, if there is a key for it. -/
def remember (key : Option CallKey) (v : Value) : EvalM Unit :=
  match key with
  | none => pure ()
  | some k => EvalM.modifySession fun s => { s with cache := s.cache.insert k v }

/-- Calls a function. A call that is remembered is not run again; any other is remembered once its
body has ended without an error. -/
def apply (f : Closure Value) (args : List Value) (span : Span) : EvalM Value := do
  if args.length = f.params.length then
    let key ← callKey? f args
    match ← remembered? key with
    | some v =>
      EvalM.record (.cacheHit f.id)
      pure v
    | none =>
      EvalM.record (.cacheMiss f.id key.isSome)
      let v ← runBody ev f args
      remember key v
      pure v
  else throw ⟨.arguments (.arity f.params.length args.length), span⟩

/-- Calls what should be a function; the operands are evaluated only if it is one. -/
def call (callee : Value) (operator : Node) (operands : List Node) (span : Span) : EvalM Value :=
  match callee with
  | .function f => do
    let args ← operandValues ev operands
    apply ev f args span
  | v => throw ⟨.notAFunction v.kind, operator.span⟩

/-- Reports a definition that goes to the global bindings. -/
def announce (name : String) (v : Value) : EvalM Unit := do
  let s ← get
  if s.frame.isTop then EvalM.record (.globalDefined name v) else pure ()

/-- `(name value define)` binds a name in the innermost bindings. -/
def define (operands : List Node) (span : Span) : EvalM Value :=
  match operands with
  | [target, expression] =>
    match target.symbol? with
    | none => throw ⟨.notASymbol target.render, target.span⟩
    | some name => do
      let v ← ev expression
      announce name v
      EvalM.define name v
      pure .void
  | _ => wrongCount .define 2 operands span

/-- The names of parameters. -/
def parameters : List Node → EvalM (List String)
  | [] => pure []
  | n :: ns =>
    match n.symbol? with
    | none => throw ⟨.notASymbol n.render, n.span⟩
    | some name => do
      let names ← parameters ns
      pure (name :: names)

/-- A new function, which captures the innermost bindings as they are now. -/
def makeFunction (params : List String) (body : List Node) : EvalM Value := do
  let s ← get
  let captured := s.frame.innermost s.session.globals
  let f : Closure Value := ⟨s.session.nextId, params, body, captured⟩
  EvalM.modifySession fun s => { s with nextId := s.nextId + 1 }
  EvalM.record (.functionCreated f.id params.length captured.size)
  pure (.function f)

/-- `((parameter ...) body ... lambda)` makes a function. -/
def lambda (operands : List Node) (span : Span) : EvalM Value :=
  match operands with
  | [] => throw ⟨.form .lambdaWithoutParameters, span⟩
  | [_] => throw ⟨.form .lambdaWithoutBody, span⟩
  | params :: body =>
    match params.list? with
    | none => throw ⟨.form (.lambdaParameters params.render), params.span⟩
    | some names => do
      let names ← parameters names
      makeFunction names body

/-- Whether the condition of a clause holds: `else` always does, any other when its value is true.
-/
def holds (condition : Node) : EvalM Bool :=
  if condition.symbol? = some elseSymbol then pure true
  else do
    let v ← ev condition
    pure (v.same (.boolean true))

/-- `((condition value) ... cond)` is the value of the first clause whose condition holds. A
clause is looked at only when its turn comes. -/
def cond (span : Span) : List Node → EvalM Value
  | [] => throw ⟨.noClause, span⟩
  | clause :: clauses =>
    match clause.list? with
    | none => throw ⟨.form (.condClause clause.render), clause.span⟩
    | some [condition, value] => do
      if ← holds ev condition then ev value else cond span clauses
    | some parts => wrongCount .cond 2 parts clause.span

/-- A special form of one operand. -/
def unary (form : SpecialForm) (use : Value → Except Fault Value) (operands : List Node)
    (span : Span) : EvalM Value :=
  match operands with
  | [operand] => do
    let v ← ev operand
    EvalM.blame span (use v)
  | _ => wrongCount form 1 operands span

/-- A special form of two operands. -/
def binary (form : SpecialForm) (use : Value → Value → Value) (operands : List Node)
    (span : Span) : EvalM Value :=
  match operands with
  | [left, right] => do
    let v ← ev left
    let w ← ev right
    pure (use v w)
  | _ => wrongCount form 2 operands span

/-- `(expression quote)` is the expression itself as data. -/
def quote (operands : List Node) (span : Span) : EvalM Value :=
  match operands with
  | [operand] => pure (.ofNode operand)
  | _ => wrongCount .quote 1 operands span

def specialForm (form : SpecialForm) (operands : List Node) (span : Span) : EvalM Value :=
  match form with
  | .define => define ev operands span
  | .lambda => lambda operands span
  | .eq => binary ev .eq (fun v w => .boolean (v.same w)) operands span
  | .atom => unary ev .atom (fun v => .ok (.boolean v.isAtom)) operands span
  | .quote => quote operands span
  | .cons => binary ev .cons Value.cons operands span
  | .car => unary ev .car Value.car operands span
  | .cdr => unary ev .cdr Value.cdr operands span
  | .cond => cond ev span operands

/-- A form whose operator is a symbol. -/
def namedForm (name : String) (operator : Node) (operands : List Node) (span : Span) :
    EvalM Value :=
  match ArithOp.ofSymbol? name, SpecialForm.ofSymbol? name with
  | some op, _ => do
    let args ← operandValues ev operands
    EvalM.blame span (Arith.fold op args)
  | none, some form => specialForm ev form operands span
  | none, none => do
    match ← EvalM.lookup name with
    | some callee => call ev callee operator operands span
    | none => throw ⟨.unknownOperation name, operator.span⟩

/-- A list form. The operator is evaluated before the operands. -/
def form (items : List Node) (span : Span) : EvalM Value :=
  match items.getLast? with
  | none => throw ⟨.emptyForm, span⟩
  | some operator =>
    match operator.symbol? with
    | some name => namedForm ev name operator items.dropLast span
    | none => do
      let callee ← ev operator
      call ev callee operator items.dropLast span

end

def atom (a : Atom) (span : Span) : EvalM Value :=
  match a with
  | .symbol name => do
    match ← EvalM.lookup name with
    | some v => pure v
    | none => throw ⟨.unbound name, span⟩
  | a => pure (.ofAtom a)

/-- Evaluates a node inside which at most `room` list forms may be entered inside one another. -/
def evaluateWithin : (room : Nat) → Evaluator
  | _, .atom a span => atom a span
  | 0, .list _ span => do
    let s ← get
    throw ⟨.tooDeep s.session.options.maxDepth, span⟩
  | room + 1, .list items span => EvalM.nested (form (evaluateWithin room) items span)

/-- Evaluates a node with what room the session has left. -/
def evaluate : Evaluator := fun n s => evaluateWithin s.session.room n s

end PostLisp.Eval
