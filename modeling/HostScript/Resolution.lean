import HostScript.Bindings
import HostScript.Syntax
import HostScript.Diagnostic.Fault

/-!
# Resolution

A walk over a program that finds, for every use of a local name, how many scopes out the name is
declared, and that reports uses the language forbids. The top level is no scope: names that no scope
declares are global and get no distance.

`Resolution.ofExpr` reads the scopes in force and leaves them alone; `Resolution.ofStmt` also gives
the scopes in force behind the statement.
-/

namespace HostScript

/-- The names declared in a scope so far. A name is bound to `false` while its initializer is being
resolved. -/
abbrev StaticScope : Type := Bindings Bool

/-- The scopes in force at a place, the innermost first. -/
abbrev StaticScopes : Type := List StaticScope

namespace StaticScopes

/-- Declare a name in the innermost scope. One that is declared there already stays as it is. -/
def declare (ss : StaticScopes) (x : String) : StaticScopes :=
  match ss with
  | [] => []
  | s :: rest => if s.contains x then s :: rest else s.insert x false :: rest

/-- Whether the innermost scope declares a name. -/
def declared (ss : StaticScopes) (x : String) : Bool :=
  match ss with
  | [] => false
  | s :: _ => s.contains x

/-- Mark a name of the innermost scope as defined. -/
def define (ss : StaticScopes) (x : String) : StaticScopes :=
  match ss with
  | [] => []
  | s :: rest => s.insert x true :: rest

/-- Whether the innermost scope declares a name that is not defined yet. -/
def undefined (ss : StaticScopes) (x : String) : Bool :=
  match ss with
  | [] => false
  | s :: _ => s.get? x == some false

/-- How many scopes out a name is declared. -/
def distance? (ss : StaticScopes) (x : String) : Option Nat :=
  ss.findIdx? (·.contains x)

end StaticScopes

/-- Whose body a place is in. -/
inductive FunctionMode where
  | none
  | function
  | initializer
  | method
deriving DecidableEq, Repr

/-- What class a place is in. -/
inductive ClassMode where
  | none
  | class_
  | subclass
deriving DecidableEq, Repr

structure Surroundings where
  function : FunctionMode
  class_ : ClassMode
deriving DecidableEq, Repr

/-- The surroundings of top-level code. -/
def Surroundings.topLevel : Surroundings := ⟨.none, .none⟩

/-- What the walk found: a distance for the number of each node that uses a local name, and faults,
both in the order of the walk. -/
structure Resolution where
  locals : List (Nat × Nat)
  faults : List Fault

namespace Resolution

def empty : Resolution := ⟨[], []⟩

def append (a b : Resolution) : Resolution :=
  ⟨a.locals ++ b.locals, a.faults ++ b.faults⟩

instance : Append Resolution := ⟨append⟩

/-- The fault `c` at a piece of source text. -/
def fault (c : Cause) (span : Span) (lexeme : String) : Resolution :=
  ⟨[], [⟨c, span, .lexeme lexeme⟩]⟩

def faultIf (p : Bool) (c : Cause) (span : Span) (lexeme : String) : Resolution :=
  if p then fault c span lexeme else empty

/-- The use of a name by the node with number `id`. -/
def use (ss : StaticScopes) (id : Nat) (x : String) : Resolution :=
  match ss.distance? x with
  | some d => ⟨[(id, d)], []⟩
  | none => empty

/-- A read of a variable. -/
def read (ss : StaticScopes) (m : Mark) (x : Ident) : Resolution :=
  faultIf (ss.undefined x.name) .selfReferentialInitializer x.span x.name ++ use ss m.id x.name

/-- The fault of a name that is declared twice in a scope. -/
def duplicate (ss : StaticScopes) (x : Ident) : Resolution :=
  faultIf (ss.declared x.name) .duplicateDeclaration x.span x.name

/-- The name of the current instance in a method. -/
def thisName : String := "this"

/-- The name of the superclass in a method of a subclass. -/
def superName : String := "super"

/-- `this` at a place. -/
def this (c : ClassMode) (ss : StaticScopes) (m : Mark) : Resolution :=
  match c with
  | .none => fault .thisOutsideClass m.span thisName
  | _ => use ss m.id thisName

/-- `super` at a place. -/
def super (c : ClassMode) (ss : StaticScopes) (m : Mark) : Resolution :=
  let misuse :=
    match c with
    | .none => fault .superOutsideClass m.span superName
    | .class_ => fault .superWithoutSuperclass m.span superName
    | .subclass => empty
  misuse ++ use ss m.id superName

mutual

def ofExpr (c : ClassMode) (ss : StaticScopes) : Expr → Resolution
  | .literal _ _ => empty
  | .var m x => read ss m x
  | .assign m x v => ofExpr c ss v ++ use ss m.id x.name
  | .binary _ l _ r => ofExpr c ss l ++ ofExpr c ss r
  | .logical _ l _ r => ofExpr c ss l ++ ofExpr c ss r
  | .unary _ _ e => ofExpr c ss e
  | .call _ f as => ofExpr c ss f ++ ofExprs c ss as
  | .get _ o _ => ofExpr c ss o
  | .set _ o _ v => ofExpr c ss v ++ ofExpr c ss o
  | .this m => this c ss m
  | .super m _ => super c ss m
  | .grouping _ e => ofExpr c ss e

def ofExprs (c : ClassMode) (ss : StaticScopes) : List Expr → Resolution
  | [] => empty
  | e :: es => ofExpr c ss e ++ ofExprs c ss es

end

def ofOption (c : ClassMode) (ss : StaticScopes) : Option Expr → Resolution
  | none => empty
  | some e => ofExpr c ss e

/-- A return at a place, apart from its value. -/
def ofReturn (f : FunctionMode) (value : Option Expr) (span : Span) : Resolution :=
  faultIf (f = .none) .returnOutsideFunction span "return" ++
    faultIf (value.isSome && f = .initializer) .returnValueInInitializer span "return"

/-- The parameters of a function, declared in order in the innermost scope. -/
def ofParams (ss : StaticScopes) : List Ident → StaticScopes × Resolution
  | [] => (ss, empty)
  | x :: xs =>
    let r := ofParams ((ss.declare x.name).define x.name) xs
    (r.1, duplicate ss x ++ r.2)

/-- The superclass of the class `x`. -/
def ofSuperclass (ss : StaticScopes) (x : Ident) : Option Superclass → Resolution
  | none => empty
  | some s =>
    faultIf (s.name.name = x.name) .selfInheritance s.name.span s.name.name ++ read ss s.mark s.name

/-- The scopes that the methods of a class are in: one that binds `this`, inside one that binds
`super` where there is a superclass. -/
def methodScopes (ss : StaticScopes) (super : Option Superclass) : StaticScopes :=
  let outer : StaticScopes :=
    match super with
    | none => ss
    | some _ => Bindings.empty.insert superName true :: ss
  Bindings.empty.insert thisName true :: outer

def methodMode (d : FunctionDecl) : FunctionMode :=
  if d.isInit then .initializer else .method

def classMode (super : Option Superclass) : ClassMode :=
  if super.isSome then .subclass else .class_

mutual

/-- A statement, with the scopes in force behind it. -/
def ofStmt (c : Surroundings) (ss : StaticScopes) : Stmt → StaticScopes × Resolution
  | .var x init _ =>
    let inner := ss.declare x.name
    (inner.define x.name, duplicate ss x ++ ofOption c.class_ inner init)
  | .block body _ => (ss, (ofStmts c (Bindings.empty :: ss) body).2)
  | .ifElse cond t none _ =>
    let r := ofStmt c ss t
    (r.1, ofExpr c.class_ ss cond ++ r.2)
  | .ifElse cond t (some e) _ =>
    let r := ofStmt c ss t
    let q := ofStmt c r.1 e
    (q.1, ofExpr c.class_ ss cond ++ r.2 ++ q.2)
  | .while_ cond body _ =>
    let r := ofStmt c ss body
    (r.1, ofExpr c.class_ ss cond ++ r.2)
  | .function d =>
    let inner := (ss.declare d.name.name).define d.name.name
    (inner, duplicate ss d.name ++ ofFunction ⟨.function, c.class_⟩ inner d)
  | .class_ x super ms _ =>
    let inner := (ss.declare x.name).define x.name
    (inner, duplicate ss x ++ ofSuperclass inner x super ++
      ofMethods (classMode super) (methodScopes inner super) ms)
  | .print e _ => (ss, ofExpr c.class_ ss e)
  | .return_ v s => (ss, ofReturn c.function v s ++ ofOption c.class_ ss v)
  | .expr e _ => (ss, ofExpr c.class_ ss e)

def ofStmts (c : Surroundings) (ss : StaticScopes) : List Stmt → StaticScopes × Resolution
  | [] => (ss, empty)
  | s :: rest =>
    let r := ofStmt c ss s
    let q := ofStmts c r.1 rest
    (q.1, r.2 ++ q.2)

/-- A function, whose parameters and body share a scope. -/
def ofFunction (c : Surroundings) (ss : StaticScopes) : FunctionDecl → Resolution
  | ⟨_, params, body, _⟩ =>
    let r := ofParams (Bindings.empty :: ss) params
    r.2 ++ (ofStmts c r.1 body).2

def ofMethods (c : ClassMode) (ss : StaticScopes) : List FunctionDecl → Resolution
  | [] => empty
  | d :: ds => ofFunction ⟨methodMode d, c⟩ ss d ++ ofMethods c ss ds

end

/-- The resolution of a whole program. -/
def ofProgram (p : Program) : Resolution :=
  (ofStmts .topLevel [] p.stmts).2

end Resolution

end HostScript
