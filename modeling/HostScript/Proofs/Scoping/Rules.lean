import HostScript.Proofs.Scoping.Places

/-!
# The rules of scopes

What resolution forbids, said of each place in a program by itself, by what stands there, what encloses it
and what comes before it in its scope. A `Site` is such a place, and `Site.cause?` is the rule that is
broken there, if one is.

Resolution walks over a program with scopes that it opens, fills and leaves, and with the function and the
class that it is in. What it finds are the broken rules at all sites, in the order of the walk, and
nothing else.
-/

namespace HostScript

/-! ### Places and what is around them -/

/-- What a body belongs to: a function that a statement declares, or a method of a class. -/
inductive Routine where
  | function
  | method (superclass : Option Superclass) (name : Ident)

/-- What encloses a place, with what comes before the place in the same scope. -/
inductive Enclosing where
  | block (before : List Stmt)
  | body (routine : Routine) (params : List Ident) (before : List Stmt)

/-- A place at which a rule may be broken. A name is read in the initializer of a variable or elsewhere. -/
inductive Place where
  | declaration (x : Ident)
  | read (x : Ident) (initialized : Option Ident)
  | this (span : Span)
  | super (span : Span)
  | return_ (value : Option Expr) (span : Span)
  | inheritance (x parent : Ident)

/-- A place with all that encloses it, the innermost first. -/
structure Site where
  place : Place
  around : List Enclosing

/-- The names that a statement declares in the scope that it is in, by itself or in its branches. -/
def Stmt.introduces : Stmt → List String
  | .var x _ _ => [x.name]
  | .function d => [d.name.name]
  | .class_ x _ _ _ => [x.name]
  | .ifElse _ t none _ => t.introduces
  | .ifElse _ t (some e) _ => t.introduces ++ e.introduces
  | .while_ _ body _ => body.introduces
  | .block _ _ | .print _ _ | .return_ _ _ | .expr _ _ => []

def Routine.isInit : Routine → Bool
  | function => false
  | method _ x => x.name == initName

/-- The superclass clause of the class that a method is of. -/
def Routine.class? : Routine → Option (Option Superclass)
  | function => none
  | method super _ => some super

namespace Enclosing

/-- The names that are declared before a place in the same scope. -/
def names : Enclosing → List String
  | block before => before.flatMap Stmt.introduces
  | body _ params before => params.map (·.name) ++ before.flatMap Stmt.introduces

def routine? : Enclosing → Option Routine
  | block _ => none
  | body r _ _ => some r

def class? (e : Enclosing) : Option (Option Superclass) :=
  e.routine?.bind Routine.class?

/-- The place behind a statement. -/
def behind (s : Stmt) : Enclosing → Enclosing
  | block before => block (before ++ [s])
  | body r params before => body r params (before ++ [s])

end Enclosing

namespace Site

/-- The names that are declared before a site in the same local scope. The top level is none. -/
def names (s : Site) : List String :=
  match s.around with
  | [] => []
  | e :: _ => e.names

/-- The innermost function or method around a site. -/
def routine? (s : Site) : Option Routine :=
  s.around.findSome? Enclosing.routine?

/-- The superclass clause of the innermost class around a site. -/
def class? (s : Site) : Option (Option Superclass) :=
  s.around.findSome? Enclosing.class?

/-- The rule that is broken at a site. -/
def cause? (s : Site) : Option Cause :=
  match s.place with
  | .declaration x => if x.name ∈ s.names then some .duplicateDeclaration else none
  | .read x (some y) =>
    if x.name = y.name ∧ s.around ≠ [] ∧ y.name ∉ s.names then some .selfReferentialInitializer
    else none
  | .read _ none => none
  | .this _ =>
    match s.class? with
    | none => some .thisOutsideClass
    | some _ => none
  | .super _ =>
    match s.class? with
    | none => some .superOutsideClass
    | some none => some .superWithoutSuperclass
    | some (some _) => none
  | .return_ value _ =>
    match s.routine? with
    | none => some .returnOutsideFunction
    | some r => if value.isSome ∧ r.isInit then some .returnValueInInitializer else none
  | .inheritance x parent => if parent.name = x.name then some .selfInheritance else none

end Site

namespace Place

def span : Place → Span
  | declaration x | read x _ | inheritance _ x => x.span
  | this sp | super sp | return_ _ sp => sp

def lexeme : Place → String
  | declaration x | read x _ | inheritance _ x => x.name
  | this _ => Resolution.thisName
  | super _ => Resolution.superName
  | return_ _ _ => "return"

end Place

/-- The fault at a site. -/
def Site.fault? (s : Site) : Option Fault :=
  s.cause?.map fun c => ⟨c, s.place.span, .lexeme s.place.lexeme⟩

/-! ### All sites of a program -/

mutual

/-- The places in an expression, which may be the initializer of a variable. The value that is given to a
property comes before the object. -/
def Expr.places (initialized : Option Ident) : Expr → List Place
  | .literal _ _ => []
  | .var _ x => [.read x initialized]
  | .this k => [.this k.span]
  | .super k _ => [.super k.span]
  | .assign _ _ e | .unary _ _ e | .get _ e _ | .grouping _ e => e.places initialized
  | .binary _ l _ r | .logical _ l _ r => l.places initialized ++ r.places initialized
  | .set _ o _ v => v.places initialized ++ o.places initialized
  | .call _ f as => f.places initialized ++ Expr.listPlaces initialized as

def Expr.listPlaces (initialized : Option Ident) : List Expr → List Place
  | [] => []
  | e :: es => e.places initialized ++ Expr.listPlaces initialized es

end

def Expr.optionPlaces (initialized : Option Ident) : Option Expr → List Place
  | none => []
  | some e => e.places initialized

/-- The places in the superclass clause of the class `x`. -/
def Superclass.places (x : Ident) : Option Superclass → List Place
  | none => []
  | some p => [.inheritance x p.name, .read p.name none]

/-- The sites of places that have the same around them. -/
def Site.all (around : List Enclosing) (places : List Place) : List Site :=
  places.map fun p => ⟨p, around⟩

/-- The sites of parameters, each behind those before it. -/
def Site.params (r : Routine) (around : List Enclosing) (before : List Ident) :
    List Ident → List Site
  | [] => []
  | x :: xs =>
    ⟨.declaration x, .body r before [] :: around⟩ :: Site.params r around (before ++ [x]) xs

mutual

def Stmt.sites (around : List Enclosing) : Stmt → List Site
  | .var x init _ =>
    ⟨.declaration x, around⟩ :: Site.all around (Expr.optionPlaces (some x) init)
  | .block body _ => Stmt.listSites (.block [] :: around) body
  | .ifElse cond t none _ => Site.all around (cond.places none) ++ t.sites around
  | .ifElse cond t (some e) _ =>
    Site.all around (cond.places none) ++ t.sites around ++
      e.sites (around.modifyHead (·.behind t))
  | .while_ cond body _ => Site.all around (cond.places none) ++ body.sites around
  | .function d => ⟨.declaration d.name, around⟩ :: d.sites .function around
  | .class_ x super ms _ =>
    ⟨.declaration x, around⟩ :: Site.all around (Superclass.places x super) ++
      FunctionDecl.listSites super around ms
  | .print e _ => Site.all around (e.places none)
  | .return_ value sp =>
    ⟨.return_ value sp, around⟩ :: Site.all around (Expr.optionPlaces none value)
  | .expr e _ => Site.all around (e.places none)

/-- The sites of statements, each behind those before it. -/
def Stmt.listSites (around : List Enclosing) : List Stmt → List Site
  | [] => []
  | s :: rest => s.sites around ++ Stmt.listSites (around.modifyHead (·.behind s)) rest

def FunctionDecl.sites (r : Routine) (around : List Enclosing) : FunctionDecl → List Site
  | ⟨_, params, body, _⟩ =>
    Site.params r around [] params ++ Stmt.listSites (.body r params [] :: around) body

/-- The sites in methods of a class. -/
def FunctionDecl.listSites (super : Option Superclass) (around : List Enclosing) :
    List FunctionDecl → List Site
  | [] => []
  | d :: ds => d.sites (.method super d.name) around ++ FunctionDecl.listSites super around ds

end

def Program.sites (p : Program) : List Site :=
  Stmt.listSites [] p.stmts

/-! ### Where the walk is -/

namespace Resolution

variable {c : Surroundings} {ss : StaticScopes} {around : List Enclosing}

/-- The innermost scope has the names that come before a place, all of them defined. -/
def Innermost : StaticScopes → List Enclosing → Prop
  | [], [] => True
  | sc :: _, e :: _ => ∀ x, sc.get? x = if x ∈ e.names then some true else none
  | _, _ => False

/-- The function that the walk is in. -/
def routineMode : Option Routine → FunctionMode
  | none => .none
  | some .function => .function
  | some (.method _ x) => if x.name == initName then .initializer else .method

/-- The class that the walk is in. -/
def clauseMode : Option (Option Superclass) → ClassMode
  | none => .none
  | some super => classMode super

/-- The walk is at a place: its scopes and modes are those of what is around the place. -/
structure Within (c : Surroundings) (ss : StaticScopes) (around : List Enclosing) : Prop where
  function : c.function = routineMode (around.findSome? Enclosing.routine?)
  class_ : c.class_ = clauseMode (around.findSome? Enclosing.class?)
  scope : Innermost ss around

theorem within_topLevel : Within .topLevel [] [] :=
  ⟨rfl, rfl, trivial⟩

/-! What a statement leaves in the innermost scope. -/

theorem ofStmt_cons (c : Surroundings) : ∀ (s : Stmt) (sc : StaticScope) (ss : StaticScopes),
    ∃ sc', (ofStmt c (sc :: ss) s).1 = sc' :: ss ∧
      ∀ y, sc'.get? y = if y ∈ s.introduces then some true else sc.get? y
  | .var x _ _, sc, ss | .class_ x _ _ _, sc, ss => by
    obtain ⟨sc', heq, hget⟩ := StaticScopes.introduce_cons sc ss x.name
    rw [ofStmt, Stmt.introduces]
    exact ⟨sc', heq, by simpa using hget⟩
  | .function d, sc, ss => by
    obtain ⟨sc', heq, hget⟩ := StaticScopes.introduce_cons sc ss d.name.name
    rw [ofStmt, Stmt.introduces]
    exact ⟨sc', heq, by simpa using hget⟩
  | .block _ _, sc, ss | .print _ _, sc, ss | .return_ _ _, sc, ss | .expr _ _, sc, ss => by
    rw [ofStmt, Stmt.introduces]
    exact ⟨sc, rfl, by simp⟩
  | .ifElse _ t none _, sc, ss => by
    rw [ofStmt, Stmt.introduces]
    exact ofStmt_cons c t sc ss
  | .ifElse _ t (some e) _, sc, ss => by
    obtain ⟨sc₁, heq₁, hget₁⟩ := ofStmt_cons c t sc ss
    obtain ⟨sc₂, heq₂, hget₂⟩ := ofStmt_cons c e sc₁ ss
    rw [ofStmt, Stmt.introduces]
    refine ⟨sc₂, ?_, fun y => ?_⟩
    · dsimp only
      rw [heq₁, heq₂]
    · rw [hget₂, hget₁]
      by_cases ht : y ∈ t.introduces <;> simp [ht]
  | .while_ _ body _, sc, ss => by
    rw [ofStmt, Stmt.introduces]
    exact ofStmt_cons c body sc ss

namespace Within

theorem behind (h : Within c ss around) (s : Stmt) :
    Within c (ofStmt c ss s).1 (around.modifyHead (·.behind s)) := by
  obtain ⟨hfunction, hclass, hscope⟩ := h
  cases ss with
  | nil =>
    cases around with
    | nil => rw [ofStmt_nil]; exact ⟨hfunction, hclass, trivial⟩
    | cons e es => exact hscope.elim
  | cons sc ss =>
    cases around with
    | nil => exact hscope.elim
    | cons e es =>
      obtain ⟨sc', heq, hget⟩ := ofStmt_cons c s sc ss
      rw [heq]
      have hnames : (e.behind s).names = e.names ++ s.introduces := by
        cases e <;> simp [Enclosing.behind, Enclosing.names]
      have hroutine : (e.behind s).routine? = e.routine? := by cases e <;> rfl
      have hclass? : (e.behind s).class? = e.class? := by cases e <;> rfl
      refine ⟨?_, ?_, fun y => ?_⟩
      · rw [List.modifyHead_cons, List.findSome?_cons, hroutine, ← List.findSome?_cons]
        exact hfunction
      · rw [List.modifyHead_cons, List.findSome?_cons, hclass?, ← List.findSome?_cons]
        exact hclass
      · rw [hget, hscope, hnames]
        by_cases hy : y ∈ s.introduces <;> simp [hy]

theorem block (h : Within c ss around) : Within c (Bindings.empty :: ss) (.block [] :: around) :=
  ⟨h.function, h.class_, fun _ => rfl⟩

/-- Behind the parameters of a function. -/
theorem body {r : Routine} {c : Surroundings} (ss : StaticScopes) (params : List Ident)
    (hfunction : c.function = routineMode (some r))
    (hclass : c.class_ =
      clauseMode ((Enclosing.body r params [] :: around).findSome? Enclosing.class?)) :
    Within c (ofParams (Bindings.empty :: ss) params).1 (.body r params [] :: around) := by
  obtain ⟨sc, heq, hget⟩ := StaticScopes.ofParams_cons Bindings.empty ss params
  rw [heq]
  refine ⟨hfunction, hclass, fun y => ?_⟩
  rw [hget]
  simp [Enclosing.names]

end Within

/-! ### What is found at a place -/

theorem faults_append (a b : Resolution) : (a ++ b).faults = a.faults ++ b.faults := rfl

theorem faults_faultIf (p : Bool) (c : Cause) (span : Span) (lexeme : String) :
    (faultIf p c span lexeme).faults = if p then [⟨c, span, .lexeme lexeme⟩] else [] := by
  unfold faultIf
  split <;> rfl

theorem faults_use (ss : StaticScopes) (id : Nat) (x : String) : (use ss id x).faults = [] := by
  unfold use
  split <;> rfl

end Resolution

namespace Site

/-- The faults at sites. -/
def faults (sites : List Site) : List Fault :=
  sites.filterMap fault?

theorem faults_append (a b : List Site) : faults (a ++ b) = faults a ++ faults b :=
  List.filterMap_append

theorem faults_cons (s : Site) (rest : List Site) :
    faults (s :: rest) = s.fault?.toList ++ faults rest := by
  unfold faults
  rw [List.filterMap_cons]
  cases s.fault? <;> rfl

theorem all_append (around : List Enclosing) (a b : List Place) :
    all around (a ++ b) = all around a ++ all around b :=
  List.map_append

theorem faults_all_singleton (around : List Enclosing) (p : Place) :
    faults (all around [p]) = (Site.mk p around).fault?.toList := by
  rw [all, List.map_singleton, faults_cons]
  exact List.append_nil _

/-- A rule with one condition. -/
theorem toList_fault?_of_ite {s : Site} {p : Prop} [Decidable p] {c : Cause}
    (h : s.cause? = if p then some c else none) :
    s.fault?.toList = if p then [⟨c, s.place.span, .lexeme s.place.lexeme⟩] else [] := by
  unfold fault?
  rw [h]
  split <;> rfl

end Site

namespace Resolution

variable {c : Surroundings} {ss : StaticScopes} {around : List Enclosing}

namespace Innermost

theorem declared (h : Innermost ss around) (p : Place) (x : String) :
    ss.declared x = decide (x ∈ (Site.mk p around).names) := by
  match ss, around, h with
  | [], [], _ => rfl
  | sc :: _, e :: _, h =>
    unfold StaticScopes.declared Bindings.contains Site.names
    dsimp only
    rw [h x]
    by_cases hx : x ∈ e.names <;> simp [hx]

theorem undefined (h : Innermost ss around) (x : String) : ss.undefined x = false := by
  match ss, around, h with
  | [], [], _ => rfl
  | sc :: _, e :: _, h =>
    unfold StaticScopes.undefined
    dsimp only
    rw [h x]
    by_cases hx : x ∈ e.names <;> simp [hx]

/-- A name that is declared is not defined at first, unless it was declared before. -/
theorem undefined_declare (h : Innermost ss around) (p : Place) (x y : String) :
    (ss.declare y).undefined x =
      decide (x = y ∧ around ≠ [] ∧ y ∉ (Site.mk p around).names) := by
  have hundefined := h.undefined x
  have hdeclared := h.declared p y
  match ss, around, h with
  | [], [], _ => simp [StaticScopes.declare, StaticScopes.undefined]
  | sc :: _, e :: outer, _ =>
    unfold StaticScopes.undefined at hundefined ⊢
    unfold StaticScopes.declared at hdeclared
    dsimp only at hundefined hdeclared
    rw [StaticScopes.declare_cons, hdeclared]
    by_cases hy : y ∈ (Site.mk p (e :: outer)).names
    · simpa [hy] using hundefined
    · by_cases hxy : x = y
      · simp [hxy, hy]
      · simpa [hy, hxy, Bindings.get?_insert] using hundefined

theorem faults_duplicate (h : Innermost ss around) (x : Ident) :
    (duplicate ss x).faults = (Site.mk (.declaration x) around).fault?.toList := by
  rw [duplicate, faults_faultIf, h.declared (.declaration x), Site.toList_fault?_of_ite rfl]
  simp [Place.span, Place.lexeme]

/-- Behind a parameter. -/
theorem param {r : Routine} {before : List Ident}
    (h : Innermost ss (.body r before [] :: around)) (x : Ident) :
    Innermost (ss.introduce x.name) (.body r (before ++ [x]) [] :: around) := by
  match ss, h with
  | sc :: ss, h =>
    obtain ⟨sc', heq, hget⟩ := StaticScopes.introduce_cons sc ss x.name
    rw [heq]
    intro y
    rw [hget, h y]
    by_cases hy : y = x.name <;> simp [hy, Enclosing.names]

end Innermost

theorem Within.faults_ofReturn (h : Within c ss around) (value : Option Expr) (sp : Span) :
    (ofReturn c.function value sp).faults =
      (Site.mk (.return_ value sp) around).fault?.toList := by
  rw [ofReturn, faults_append, faults_faultIf, faults_faultIf, h.function]
  unfold Site.fault? Site.cause? Site.routine?
  dsimp only
  cases around.findSome? Enclosing.routine? with
  | none => cases value <;> rfl
  | some r =>
    cases r with
    | function => cases value <;> rfl
    | method super x =>
      by_cases hx : x.name == initName <;> cases value <;>
        simp [routineMode, Routine.isInit, hx, Place.span, Place.lexeme]

/-- The walk is at an expression, which may be the initializer of a variable: it is in the same class, and
the names that are not defined are those that must not be read. -/
structure Reading (c : ClassMode) (ss : StaticScopes) (initialized : Option Ident)
    (around : List Enclosing) : Prop where
  class_ : c = clauseMode (around.findSome? Enclosing.class?)
  undefined : ∀ x : Ident, (Site.mk (.read x initialized) around).cause? =
    if ss.undefined x.name then some .selfReferentialInitializer else none

theorem Within.reading (h : Within c ss around) : Reading c.class_ ss none around := by
  refine ⟨h.class_, fun x => ?_⟩
  rw [h.scope.undefined x.name]
  rfl

/-- In the initializer of a variable, its name must not be read, unless it was declared before. -/
theorem Within.reading_initializer (h : Within c ss around) (y : Ident) :
    Reading c.class_ (ss.declare y.name) (some y) around := by
  refine ⟨h.class_, fun x => ?_⟩
  rw [h.scope.undefined_declare (.read x (some y)) x.name y.name]
  simp [Site.cause?]

namespace Reading

variable {c : ClassMode} {initialized : Option Ident}

theorem faults_read (h : Reading c ss initialized around) (k : Mark) (x : Ident) :
    (read ss k x).faults = (Site.mk (.read x initialized) around).fault?.toList := by
  rw [read, faults_append, faults_faultIf, faults_use, Site.toList_fault?_of_ite (h.undefined x),
    List.append_nil]
  rfl

theorem faults_this (h : Reading c ss initialized around) (k : Mark) :
    (this c ss k).faults = (Site.mk (.this k.span) around).fault?.toList := by
  rw [h.class_]
  unfold this Site.fault? Site.cause? Site.class?
  dsimp only
  cases around.findSome? Enclosing.class? with
  | none => rfl
  | some super => cases super <;> exact faults_use _ _ _

theorem faults_super (h : Reading c ss initialized around) (k : Mark) :
    (super c ss k).faults = (Site.mk (.super k.span) around).fault?.toList := by
  rw [h.class_]
  unfold super Site.fault? Site.cause? Site.class?
  dsimp only
  rw [faults_append, faults_use, List.append_nil]
  cases around.findSome? Enclosing.class? with
  | none => rfl
  | some super => cases super <;> rfl

end Reading

mutual

theorem Reading.faults_ofExpr {c : ClassMode} {initialized : Option Ident}
    (h : Reading c ss initialized around) : ∀ e : Expr,
      (ofExpr c ss e).faults = Site.faults (Site.all around (e.places initialized))
  | .literal _ _ => rfl
  | .var k x => by rw [ofExpr, Expr.places, h.faults_read, Site.faults_all_singleton]
  | .this k => by rw [ofExpr, Expr.places, h.faults_this, Site.faults_all_singleton]
  | .super k _ => by rw [ofExpr, Expr.places, h.faults_super, Site.faults_all_singleton]
  | .assign _ _ e => by
    rw [ofExpr, Expr.places, faults_append, faults_use, List.append_nil, h.faults_ofExpr e]
  | .unary _ _ e | .get _ e _ | .grouping _ e => by
    rw [ofExpr, Expr.places, h.faults_ofExpr e]
  | .binary _ l _ r | .logical _ l _ r => by
    rw [ofExpr, Expr.places, faults_append, Site.all_append, Site.faults_append,
      h.faults_ofExpr l, h.faults_ofExpr r]
  | .set _ o _ v => by
    rw [ofExpr, Expr.places, faults_append, Site.all_append, Site.faults_append,
      h.faults_ofExpr v, h.faults_ofExpr o]
  | .call _ f as => by
    rw [ofExpr, Expr.places, faults_append, Site.all_append, Site.faults_append,
      h.faults_ofExpr f, h.faults_ofExprs as]

theorem Reading.faults_ofExprs {c : ClassMode} {initialized : Option Ident}
    (h : Reading c ss initialized around) : ∀ es : List Expr,
      (ofExprs c ss es).faults = Site.faults (Site.all around (Expr.listPlaces initialized es))
  | [] => rfl
  | e :: es => by
    rw [ofExprs, Expr.listPlaces, faults_append, Site.all_append, Site.faults_append,
      h.faults_ofExpr e, h.faults_ofExprs es]

end

theorem Reading.faults_ofOption {c : ClassMode} {initialized : Option Ident}
    (h : Reading c ss initialized around) (e : Option Expr) :
    (ofOption c ss e).faults =
      Site.faults (Site.all around (Expr.optionPlaces initialized e)) := by
  cases e with
  | none => rfl
  | some e => exact h.faults_ofExpr e

/-! ### What is found in a program -/

theorem faults_ofSuperclass (hss : ∀ y, ss.undefined y = false) (around : List Enclosing) (x : Ident)
    (super : Option Superclass) :
    (ofSuperclass ss x super).faults =
      Site.faults (Site.all around (Superclass.places x super)) := by
  cases super with
  | none => rfl
  | some p =>
    have hread : (read ss p.mark p.name).faults = [] := by
      rw [read, faults_append, faults_faultIf, faults_use, hss]
      rfl
    have hsite : Site.faults [Site.mk (.read p.name none) around] = [] := rfl
    rw [ofSuperclass, faults_append, faults_faultIf, hread, Superclass.places, Site.all,
      List.map_cons, List.map_singleton, Site.faults_cons, hsite, Site.toList_fault?_of_ite rfl]
    simp [Place.span, Place.lexeme]

theorem faults_ofParams (r : Routine) (around : List Enclosing) :
    ∀ (xs before : List Ident) (ss : StaticScopes), Innermost ss (.body r before [] :: around) →
      (ofParams ss xs).2.faults = Site.faults (Site.params r around before xs)
  | [], _, _, _ => rfl
  | x :: xs, before, ss, h => by
    rw [ofParams, Site.params, Site.faults_cons, ← h.faults_duplicate x]
    exact congrArg _ (faults_ofParams r around xs _ _ (h.param x))

mutual

theorem faults_ofStmt : ∀ (s : Stmt) {c : Surroundings} {ss : StaticScopes}
    {around : List Enclosing}, Within c ss around →
    (ofStmt c ss s).2.faults = Site.faults (s.sites around)
  | .var x init _, c, ss, around, h => by
    rw [ofStmt, Stmt.sites, faults_append, Site.faults_cons, h.scope.faults_duplicate x,
      (h.reading_initializer x).faults_ofOption init]
  | .block body _, c, ss, around, h => by
    rw [ofStmt, Stmt.sites]
    exact faults_ofStmts body h.block
  | .ifElse cond t none _, c, ss, around, h => by
    rw [ofStmt, Stmt.sites, faults_append, Site.faults_append, h.reading.faults_ofExpr cond,
      faults_ofStmt t h]
  | .ifElse cond t (some e) _, c, ss, around, h => by
    rw [ofStmt, Stmt.sites, faults_append, faults_append, Site.faults_append, Site.faults_append,
      h.reading.faults_ofExpr cond, faults_ofStmt t h, faults_ofStmt e (h.behind t)]
  | .while_ cond body _, c, ss, around, h => by
    rw [ofStmt, Stmt.sites, faults_append, Site.faults_append, h.reading.faults_ofExpr cond,
      faults_ofStmt body h]
  | .function d, c, ss, around, h => by
    rw [ofStmt, Stmt.sites, faults_append, Site.faults_cons, h.scope.faults_duplicate d.name]
    exact congrArg _ (faults_ofFunction d rfl fun _ => h.class_)
  | .class_ x super ms sp, c, ss, around, h => by
    -- The name of the class is defined where its superclass is read.
    have hinner := (h.behind (.class_ x super ms sp)).scope
    rw [ofStmt] at hinner ⊢
    rw [Stmt.sites, faults_append, faults_append, Site.faults_append, Site.faults_cons,
      h.scope.faults_duplicate x, faults_ofSuperclass hinner.undefined around,
      faults_ofMethods ms super rfl]
  | .print e _, c, ss, around, h => by
    rw [ofStmt, Stmt.sites]
    exact h.reading.faults_ofExpr e
  | .return_ value sp, c, ss, around, h => by
    rw [ofStmt, Stmt.sites, faults_append, Site.faults_cons, h.faults_ofReturn value sp,
      h.reading.faults_ofOption value]
  | .expr e _, c, ss, around, h => by
    rw [ofStmt, Stmt.sites]
    exact h.reading.faults_ofExpr e

theorem faults_ofStmts : ∀ (body : List Stmt) {c : Surroundings} {ss : StaticScopes}
    {around : List Enclosing}, Within c ss around →
    (ofStmts c ss body).2.faults = Site.faults (Stmt.listSites around body)
  | [], _, _, _, _ => by
    rw [ofStmts, Stmt.listSites]
    rfl
  | s :: rest, c, ss, around, h => by
    rw [ofStmts, Stmt.listSites, faults_append, Site.faults_append, faults_ofStmt s h,
      faults_ofStmts rest (h.behind s)]

theorem faults_ofFunction : ∀ (d : FunctionDecl) {c : Surroundings} {ss : StaticScopes}
    {around : List Enclosing} {r : Routine}, c.function = routineMode (some r) →
    (∀ params, c.class_ =
      clauseMode ((Enclosing.body r params [] :: around).findSome? Enclosing.class?)) →
    (ofFunction c ss d).faults = Site.faults (d.sites r around)
  | ⟨_, params, body, _⟩, c, ss, around, r, hfunction, hclass => by
    rw [ofFunction, FunctionDecl.sites, faults_append, Site.faults_append,
      faults_ofParams r around params [] (Bindings.empty :: ss) fun _ => rfl,
      faults_ofStmts body (Within.body ss params hfunction (hclass params))]

theorem faults_ofMethods : ∀ (ds : List FunctionDecl) (super : Option Superclass) {c : ClassMode}
    {ss : StaticScopes} {around : List Enclosing}, c = classMode super →
    (ofMethods c ss ds).faults = Site.faults (FunctionDecl.listSites super around ds)
  | [], _, _, _, _, _ => by
    rw [ofMethods, FunctionDecl.listSites]
    rfl
  | d :: ds, super, c, ss, around, hc => by
    rw [ofMethods, FunctionDecl.listSites, faults_append, Site.faults_append,
      faults_ofFunction d (r := .method super d.name) rfl fun _ => hc,
      faults_ofMethods ds super hc]

end

theorem faults_ofProgram (p : Program) : (ofProgram p).faults = Site.faults p.sites :=
  faults_ofStmts p.stmts within_topLevel

/-- Resolution reports the broken rules at the sites of a program, each of them once and nothing else, in
the order of the walk. All are counted, and the first ones are stored. -/
theorem reports_broken_rules (p : Program) (src : Source) :
    let found := p.sites.filterMap Site.fault?
    let d := Diagnostics.ofFaults src (ofProgram p).faults
    (ofProgram p).faults = found ∧
      d.totalErrors = p.sites.countP (·.cause?.isSome) ∧
      (∀ cause, (ofProgram p).faults.countP (·.cause = cause) =
        p.sites.countP (·.cause? = some cause)) ∧
      d.errors = (found.take maxErrors).map (·.diagnose src) := by
  intro found d
  have hfaults : (ofProgram p).faults = found := faults_ofProgram p
  refine ⟨hfaults, ?_, fun cause => ?_, ?_⟩
  · have htotal : d.totalErrors = found.length := congrArg List.length hfaults
    rw [htotal, List.length_filterMap_eq_countP]
    exact List.countP_congr fun s _ => by simp [Site.fault?]
  · rw [hfaults, List.countP_filterMap]
    refine List.countP_congr fun s _ => ?_
    unfold Site.fault?
    cases s.cause? <;> simp
  · exact congrArg (fun fs => (fs.take maxErrors).map (·.diagnose src)) hfaults

end Resolution

end HostScript
