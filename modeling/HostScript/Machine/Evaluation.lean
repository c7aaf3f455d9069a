import HostScript.Machine.Builtins

/-!
# Evaluation

Running statements, evaluating expressions and calling values. These activities need each other, so each is
written once as a single layer over an `Inner` that stands for all of them, and the layers are then stacked as
high as there is fuel. One unit of fuel is one layer, which is one step into a subterm, a call or a loop; a run
that finishes does not depend on how much was left.
-/

namespace HostScript

/-- What a run does not change: how far out each resolved name is bound, and how deep calls of
script functions may go. -/
structure Context where
  locals : Nat → Option Nat
  maxDepth : Nat

/-- How a statement that did not fail ended. -/
inductive Completion where
  | completed
  /-- A value is on its way to the nearest call. -/
  | returning (v : Value)
deriving DecidableEq

/-- The activities that one layer of evaluation rests on. -/
structure Inner where
  eval : Expr → Run Value
  exec : Stmt → Run Completion
  block : List Stmt → Run Completion
  loop : Expr → Stmt → Run Completion
  call : Value → List Value → Run Value

namespace Evaluation

def literal : Literal → Value
  | .int n => .int n
  | .float x => .float x
  | .string s => .string s
  | .bool b => .bool b
  | .null => .null
  | .undefined => .undefined

/-! ### Names -/

/-- The value of a name: of the scope that resolution found, else of the globals. -/
def lookUp (c : Context) (id : Nat) (x : String) (line : Nat) : Run Value := fun m =>
  let found :=
    match c.locals id with
    | some d => m.store.getAt? m.env d x
    | none => m.store.get? .globals x
  match found with
  | some v => .done (v.detach m.store.cells) m
  | none => .fail (.undefinedName line x) m

/-- The scope that an assignment to a name acts on. -/
def target? (c : Context) (id : Nat) (x : String) (m : Machine) : Option ScopeId :=
  match c.locals id with
  | some d => m.store.ancestor? m.env d
  | none => m.store.holder? .globals x

def assignVariable (c : Context) (id : Nat) (x : String) (v : Value) (line : Nat) : Run Unit := do
  let place ← Run.read (target? c id x)
  Machine.assignIn place x v line

/-- The class that `super` stands for, in the scope `d` steps out. -/
def superclass (d line : Nat) : Run ClassId := do
  let found ← Run.read fun m => m.store.getAt? m.env d Resolution.superName
  let v ← Run.ofOption found (.undefinedName line Resolution.superName)
  Run.ofExcept v.asClass fun e => .type line (.value e)

/-- The instance that `this` stands for, one step within the scope of `super`. -/
def receiver (d line : Nat) : Run InstanceId := do
  let found ← Run.read fun m =>
    match d with
    | 0 => none
    | d + 1 => m.store.getAt? m.env d Resolution.thisName
  let v ← Run.ofOption found (.undefinedName line Resolution.thisName)
  Run.ofExcept v.asInstance fun e => .type line (.value e)

/-- A method of the superclass, bound afresh to `this`. -/
def superMethod (c : Context) (id : Nat) (x : String) (line : Nat) : Run Value := do
  match c.locals id with
  | none => Run.fail (.undefinedName line Resolution.superName)
  | some d =>
    let k ← superclass d line
    let i ← receiver d line
    return .function (← Machine.bindFound k x i line)

/-! ### Expressions -/

/-- Evaluate arguments from the first to the last. -/
@[specialize] def arguments (eval : Expr → Run Value) : List Expr → Run (List Value)
  | [] => return []
  | e :: es => do
    let v ← eval e
    let vs ← arguments eval es
    return v :: vs

/-- The instance that a value is, or a failure. -/
@[inline] def instanceOf (v : Value) (line : Nat) (fault : Kind → TypeFault) : Run InstanceId :=
  match v with
  | .instance_ i => return i
  | v => Run.fail (.type line (fault v.kind))

/-- Whether the left operand decides. -/
@[inline] def decides (op : LogicalOp) (truth : Bool) : Bool :=
  match op with
  | .or => truth
  | .and => !truth

@[inline] def evalWith (c : Context) (r : Inner) (e : Expr) : Run Value :=
  match e with
  | .literal _ l => return literal l
  | .grouping _ inner => r.eval inner
  | .var k x => lookUp c k.id x.name k.span.line
  | .this k => lookUp c k.id Resolution.thisName k.span.line
  | .assign k x value => do
    let v ← r.eval value
    assignVariable c k.id x.name v k.span.line
    return v
  | .binary k left op right => do
    let a ← r.eval left
    let b ← r.eval right
    let result ← Run.read fun m => op.apply m.store.cells a b
    Run.ofExcept result fun f => .type k.span.line (.operand f)
  | .unary k op operand => do
    let a ← r.eval operand
    let result ← Run.read fun m => op.apply m.store.cells a
    Run.ofExcept result fun f => .type k.span.line (.operand f)
  | .logical _ left op right => do
    let a ← r.eval left
    if decides op (← Run.read fun m => a.truthy m.store.cells) then return a else r.eval right
  | .call k callee args => do
    let f ← r.eval callee
    let vs ← arguments r.eval args
    Run.update fun m => { m with line := k.span.line }
    let v ← r.call f vs
    Run.read fun m => v.detach m.store.cells
  | .get k object x => do
    let o ← r.eval object
    let i ← instanceOf o k.span.line .properties
    Machine.getProperty i x.name k.span.line
  | .set k object x value => do
    let o ← r.eval object
    let i ← instanceOf o k.span.line .fields
    let v ← r.eval value
    Machine.setField i x.name v k.span.line
    return v
  | .super k x => superMethod c k.id x.name k.span.line

/-! ### Statements -/

/-- Bind a name in the innermost scope. -/
def declare (x : String) (v : Value) : Run Unit :=
  Run.update fun m => { m with store := m.store.define m.env x v }

/-- The class that a superclass name stands for. -/
@[inline] def parentOf (eval : Expr → Run Value) : Option Superclass → Run (Option ClassId)
  | none => return none
  | some s => do
    match ← eval s.toExpr with
    | .class_ k => return some k
    | v => Run.fail (.type s.mark.span.line (.superclass v.kind))

/-- The scope that the methods of a class are declared in: one that binds `super`, if there is a
superclass. -/
def methodScope : Option ClassId → Run ScopeId
  | none => Run.read (·.env)
  | some k => do
    let env ← Run.read (·.env)
    Machine.openScope ⟨.ofList [(Resolution.superName, .class_ k)], some env⟩

/-- Put a method on the heap and in the table of its class. -/
def addMethod (closure : ScopeId) (table : Bindings CallableId) (d : FunctionDecl) :
    Run (Bindings CallableId) := do
  return table.insert d.name.name (← Machine.newCallable (.script d closure d.isInit))

/-- Put methods on the heap. Of two with one name, the later one is in the table. -/
def newMethods (closure : ScopeId) : List FunctionDecl → Run (Bindings CallableId) :=
  List.foldlM (addMethod closure) .empty

/-- Put a class on the heap, with its methods and their scope. -/
def newScriptClass (x : String) (parent : Option ClassId) (methods : List FunctionDecl) :
    Run ClassId := do
  let closure ← methodScope parent
  let table ← newMethods closure methods
  Machine.newClass ⟨x, parent, table, .script⟩

/-- Declare a class. Its name is bound before the superclass is looked up. -/
@[inline] def declareClass (eval : Expr → Run Value) (x : Ident) (super : Option Superclass)
    (methods : List FunctionDecl) : Run Unit := do
  declare x.name .null
  let parent ← parentOf eval super
  let k ← newScriptClass x.name parent methods
  let place ← Run.read fun m => m.store.holder? m.env x.name
  Machine.assignIn place x.name (.class_ k) x.span.line

/-- Print a line. -/
def printLine (s : String) : Run Unit := fun m =>
  match m.console.print s with
  | .ok console => .done () { m with console := console }
  | .error f => .fail (.io f) m

@[inline] def execWith (r : Inner) (s : Stmt) : Run Completion :=
  match s with
  | .expr e _ => do
    let _ ← r.eval e
    return .completed
  | .print e _ => do
    printLine (← Builtin.text (← r.eval e))
    return .completed
  | .var x init _ => do
    match init with
    | some e => declare x.name (← r.eval e)
    | none => declare x.name .undefined
    return .completed
  | .block body _ => do
    let env ← Run.read (·.env)
    let scope ← Machine.openScope ⟨.empty, some env⟩
    Run.inScope scope (r.block body)
  | .ifElse cond thenBranch elseBranch _ => do
    let v ← r.eval cond
    if ← Run.read fun m => v.truthy m.store.cells then r.exec thenBranch
    else
      match elseBranch with
      | some s => r.exec s
      | none => return .completed
  | .while_ cond body _ => r.loop cond body
  | .function d => do
    let env ← Run.read (·.env)
    let f ← Machine.newCallable (.script d env false)
    declare d.name.name (.function f)
    return .completed
  | .class_ x super methods _ => do
    declareClass r.eval x super methods
    return .completed
  | .return_ value _ =>
    match value with
    | some e => do return .returning (← r.eval e)
    | none => return .returning .null

/-- Run statements in order until one returns. -/
@[inline] def blockWith (r : Inner) : List Stmt → Run Completion
  | [] => return .completed
  | s :: rest => do
    match ← r.exec s with
    | .completed => r.block rest
    | .returning v => return .returning v

/-- One round of a loop, and the rest of it. -/
@[inline] def loopWith (r : Inner) (cond : Expr) (body : Stmt) : Run Completion := do
  let v ← r.eval cond
  if ← Run.read fun m => v.truthy m.store.cells then
    match ← r.exec body with
    | .completed => r.loop cond body
    | .returning v => return .returning v
  else return .completed

/-! ### Calls -/

/-- Refuse a wrong number of arguments. -/
@[inline] def checkArity (expected got : Nat) : Run Unit := fun m =>
  if expected = got then .done () m else .fail (.arity m.line expected got) m

/-- Refuse to go deeper than the limit. -/
@[inline] def checkDepth (c : Context) : Run Unit := fun m =>
  if m.depth < c.maxDepth then .done () m else .fail (.stackOverflow m.line c.maxDepth) m

/-- What a call of a script function gives: what was returned, or `Null`. A method that sets up
an instance gives the instance. -/
def callResult (closure : ScopeId) (isInit : Bool) (ended : Completion) : Run Value := do
  if isInit then
    match ← Run.read fun m => m.store.getAt? closure 0 Resolution.thisName with
    | some this => return this
    | none => Run.failHere .loneInitializer
  else
    match ended with
    | .completed => return .null
    | .returning v => return v

/-- Call a script function in a scope of its own that binds the parameters. -/
@[inline] def callScript (c : Context) (r : Inner) (d : FunctionDecl) (closure : ScopeId)
    (isInit : Bool) (args : List Value) : Run Value := do
  checkDepth c
  let scope ← Machine.openScope ⟨.ofList ((d.params.map (·.name)).zip args), some closure⟩
  let ended ← Run.deeper (Run.inScope scope (r.block d.body))
  callResult closure isInit ended

def callFunction (c : Context) (r : Inner) (f : CallableId) (args : List Value) : Run Value := do
  Run.demand (·.heap.hasCallable f)
  let callable ← Run.read (·.heap.callable f)
  checkArity callable.arity args.length
  match callable with
  | .native _ _ g => g.run r.call args
  | .method g receiver => g.run receiver args
  | .script d closure isInit => callScript c r d closure isInit args

/-- Make an instance of a class that has no `init`. -/
def construct (k : ClassId) (args : List Value) : Run Value := do
  Run.demand (·.heap.hasClass k)
  match ← Run.read (·.heap.nativeConstructor k) with
  | some (_, t) =>
    let o ← t.construct args
    return .instance_ (← Machine.newInstance (.ofHost k o))
  | none => return .instance_ (← Machine.newInstance (.plain k))

/-- Make an instance of a class. If there is an `init`, it is bound to an empty instance and
called. -/
def instantiate (r : Inner) (k : ClassId) (args : List Value) : Run Value := do
  Run.demand (·.heap.hasConstructor k)
  checkArity (← Run.read (·.heap.constructorArity k)) args.length
  match ← Run.read (·.heap.findMethod k initName) with
  | some init =>
    let i ← Machine.newInstance (.plain k)
    let line ← Run.read (·.line)
    let bound ← Machine.bindMethod init i line
    let _ ← r.call (.function bound) args
    return .instance_ i
  | none => construct k args

def callWith (c : Context) (r : Inner) (callee : Value) (args : List Value) : Run Value :=
  match callee with
  | .function f => callFunction c r f args
  | .class_ k => instantiate r k args
  | v => Run.failHere (.callee v.kind)

/-! ### Layers -/

mutual

def eval (c : Context) : Nat → Expr → Machine → Outcome Value
  | 0, _, _ => .outOfFuel
  | n + 1, e, m => evalWith c ⟨eval c n, exec c n, block c n, loop c n, call c n⟩ e m

def exec (c : Context) : Nat → Stmt → Machine → Outcome Completion
  | 0, _, _ => .outOfFuel
  | n + 1, s, m => execWith ⟨eval c n, exec c n, block c n, loop c n, call c n⟩ s m

def block (c : Context) : Nat → List Stmt → Machine → Outcome Completion
  | 0, _, _ => .outOfFuel
  | n + 1, body, m => blockWith ⟨eval c n, exec c n, block c n, loop c n, call c n⟩ body m

def loop (c : Context) : Nat → Expr → Stmt → Machine → Outcome Completion
  | 0, _, _, _ => .outOfFuel
  | n + 1, cond, body, m => loopWith ⟨eval c n, exec c n, block c n, loop c n, call c n⟩ cond body m

def call (c : Context) : Nat → Value → List Value → Machine → Outcome Value
  | 0, _, _, _ => .outOfFuel
  | n + 1, f, args, m => callWith c ⟨eval c n, exec c n, block c n, loop c n, call c n⟩ f args m

end

/-- The activities with a given amount of fuel. -/
def layer (c : Context) (n : Nat) : Inner :=
  ⟨eval c n, exec c n, block c n, loop c n, call c n⟩

/-- Run the statements of a program until one fails. A returned value is dropped. -/
def program (c : Context) (fuel : Nat) : List Stmt → Run Unit
  | [] => return ()
  | s :: rest => do
    let _ ← exec c fuel s
    program c fuel rest

/-- Call a value from the host. -/
def callFromHost (c : Context) (fuel : Nat) (callee : Value) (args : List Value) : Run Value :=
  Builtin.callFromHost (call c fuel) callee args

end Evaluation

end HostScript
