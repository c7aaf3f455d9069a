import HostScript.Proofs.Tree
import HostScript.Syntax.Expressions

/-!
# The grammar

What a syntax tree is written as, and which trees the grammar has. `kinds` puts back the keywords, the
punctuation and the operators of each node; only a grouping puts parentheses around an expression.
`Conforms` has a rule for each production. An expression belongs to a level of the grammar, its `rank`,
and the rules say of which levels the operands may be: operators group to the left, so the left operand
may be of the operator's own level and the right one is of a tighter one. `nesting` and `elsesApart` are
about what the tokens of a tree do not show: how deep its parts are, and which `else` is whose.
-/

namespace HostScript

/-! ### Tokens of a tree -/

/-- The token that a literal is written as. -/
def Literal.token : Literal → TokenKind
  | .int n => .int n
  | .float x => .float x
  | .string s => .string s
  | .bool true => .keyword .true
  | .bool false => .keyword .false
  | .null => .keyword .null
  | .undefined => .keyword .undefined

/-- The keyword that an operator is written as. -/
def LogicalOp.keyword : LogicalOp → Keyword
  | .and => .and
  | .or => .or

mutual

def Expr.kinds : Expr → List TokenKind
  | .literal _ v => [v.token]
  | .var _ x => [.name x.name]
  | .this _ => [.keyword .this]
  | .super _ x => [.keyword .super, .symbol .dot, .name x.name]
  | .assign _ x v => [.name x.name, .symbol .eq] ++ v.kinds
  | .unary _ op e => [.symbol op.symbol] ++ e.kinds
  | .get _ o x => o.kinds ++ [.symbol .dot, .name x.name]
  | .grouping _ e => [.symbol .lparen] ++ e.kinds ++ [.symbol .rparen]
  | .binary _ l op r => l.kinds ++ [.symbol op.symbol] ++ r.kinds
  | .logical _ l op r => l.kinds ++ [.keyword op.keyword] ++ r.kinds
  | .set _ o x v => o.kinds ++ [.symbol .dot, .name x.name, .symbol .eq] ++ v.kinds
  | .call _ f as => f.kinds ++ [.symbol .lparen] ++ Expr.listKinds as ++ [.symbol .rparen]

/-- Expressions with commas between them. -/
def Expr.listKinds : List Expr → List TokenKind
  | [] => []
  | [e] => e.kinds
  | e :: es => e.kinds ++ [.symbol .comma] ++ Expr.listKinds es

end

/-- Names with commas between them. -/
def Ident.listKinds : List Ident → List TokenKind
  | [] => []
  | [x] => [.name x.name]
  | x :: xs => [.name x.name, .symbol .comma] ++ Ident.listKinds xs

/-- The part of a class declaration that names the superclass. -/
def Superclass.optionKinds : Option Superclass → List TokenKind
  | none => []
  | some p => [.symbol .less, .name p.name.name]

mutual

def Stmt.kinds : Stmt → List TokenKind
  | .var x none _ => [.keyword .var, .name x.name, .symbol .semicolon]
  | .var x (some e) _ =>
    [.keyword .var, .name x.name, .symbol .eq] ++ e.kinds ++ [.symbol .semicolon]
  | .block body _ => [.symbol .lbrace] ++ Stmt.listKinds body ++ [.symbol .rbrace]
  | .ifElse cond t none _ =>
    [.keyword .if_, .symbol .lparen] ++ cond.kinds ++ [.symbol .rparen] ++ t.kinds
  | .ifElse cond t (some e) _ =>
    [.keyword .if_, .symbol .lparen] ++ cond.kinds ++ [.symbol .rparen] ++ t.kinds ++
      [.keyword .else_] ++ e.kinds
  | .while_ cond body _ =>
    [.keyword .while_, .symbol .lparen] ++ cond.kinds ++ [.symbol .rparen] ++ body.kinds
  | .function d => [.keyword .func] ++ d.kinds
  | .class_ x super ms _ =>
    [.keyword .class_, .name x.name] ++ Superclass.optionKinds super ++ [.symbol .lbrace] ++
      FunctionDecl.listKinds ms ++ [.symbol .rbrace]
  | .print e _ => [.keyword .print] ++ e.kinds ++ [.symbol .semicolon]
  | .return_ none _ => [.keyword .return_, .symbol .semicolon]
  | .return_ (some e) _ => [.keyword .return_] ++ e.kinds ++ [.symbol .semicolon]
  | .expr e _ => e.kinds ++ [.symbol .semicolon]

def Stmt.listKinds : List Stmt → List TokenKind
  | [] => []
  | s :: rest => s.kinds ++ Stmt.listKinds rest

/-- A function from its name on. -/
def FunctionDecl.kinds : FunctionDecl → List TokenKind
  | ⟨x, params, body, _⟩ =>
    [.name x.name, .symbol .lparen] ++ Ident.listKinds params ++
      [.symbol .rparen, .symbol .lbrace] ++ Stmt.listKinds body ++ [.symbol .rbrace]

def FunctionDecl.listKinds : List FunctionDecl → List TokenKind
  | [] => []
  | d :: ds => d.kinds ++ FunctionDecl.listKinds ds

end

/-! ### Levels -/

/-- The levels of infix operators, counted from the loosest. Assignments are on level zero. -/
def Level.rank : Level → Nat
  | .or => 1
  | .and => 2
  | .equality => 3
  | .comparison => 4
  | .term => 5
  | .factor => 6

def unaryRank : Nat := 7

/-- The level of calls and property accesses. -/
def callRank : Nat := 8

/-- The level of what stands on its own. -/
def primaryRank : Nat := 9

def BinOp.level : BinOp → Level
  | .eq | .notEq => .equality
  | .less | .lessEq | .greater | .greaterEq => .comparison
  | .add | .sub | .mod | .bitAnd | .bitOr | .bitXor | .shl | .shr | .concat => .term
  | .mul | .div => .factor

def LogicalOp.level : LogicalOp → Level
  | .or => .or
  | .and => .and

/-- The level of the grammar that an expression belongs to. -/
def Expr.rank : Expr → Nat
  | .assign _ _ _ | .set _ _ _ _ => 0
  | .logical _ _ op _ => op.level.rank
  | .binary _ _ op _ => op.level.rank
  | .unary _ _ _ => unaryRank
  | .call _ _ _ | .get _ _ _ => callRank
  | .literal _ _ | .var _ _ | .this _ | .super _ _ | .grouping _ _ => primaryRank

/-! ### Trees of the grammar -/

/-- The expressions of the grammar. A variable or a property is assigned to. -/
inductive Expr.Conforms : Expr → Prop where
  | literal (k : Mark) (v : Literal) : Conforms (.literal k v)
  | var (k : Mark) (x : Ident) : Conforms (.var k x)
  | this (k : Mark) : Conforms (.this k)
  | super (k : Mark) (x : Ident) : Conforms (.super k x)
  | grouping (k : Mark) {e : Expr} (he : Conforms e) : Conforms (.grouping k e)
  | get (k : Mark) {o : Expr} (x : Ident) (ho : Conforms o) (hrank : callRank ≤ o.rank) :
    Conforms (.get k o x)
  | call (k : Mark) {f : Expr} {as : List Expr} (hf : Conforms f) (hrank : callRank ≤ f.rank)
    (has : ∀ a ∈ as, Conforms a) (hlen : as.length ≤ 255) : Conforms (.call k f as)
  | unary (k : Mark) (op : UnaryOp) {e : Expr} (he : Conforms e) (hrank : unaryRank ≤ e.rank) :
    Conforms (.unary k op e)
  | binary (k : Mark) {l r : Expr} (op : BinOp) (hl : Conforms l) (hr : Conforms r)
    (hlrank : op.level.rank ≤ l.rank) (hrrank : op.level.rank < r.rank) :
    Conforms (.binary k l op r)
  | logical (k : Mark) {l r : Expr} (op : LogicalOp) (hl : Conforms l) (hr : Conforms r)
    (hlrank : op.level.rank ≤ l.rank) (hrrank : op.level.rank < r.rank) :
    Conforms (.logical k l op r)
  | assign (k : Mark) (x : Ident) {v : Expr} (hv : Conforms v) : Conforms (.assign k x v)
  | set (k : Mark) {o v : Expr} (x : Ident) (ho : Conforms o) (hrank : callRank ≤ o.rank)
    (hv : Conforms v) : Conforms (.set k o x v)

mutual

/-- The statements and declarations of the grammar. The branches of a conditional and the body of a
loop are no declarations. -/
inductive Stmt.Conforms : Stmt → Prop where
  | var (x : Ident) {init : Option Expr} (sp : Span) (hinit : ∀ e ∈ init, e.Conforms) :
    Stmt.Conforms (.var x init sp)
  | block {body : List Stmt} (sp : Span) (hbody : ∀ s ∈ body, Stmt.Conforms s) :
    Stmt.Conforms (.block body sp)
  | ifElse {cond : Expr} {t : Stmt} {e : Option Stmt} (sp : Span) (hcond : cond.Conforms)
    (ht : Stmt.Conforms t) (htd : t.declares = none) (he : ∀ s ∈ e, Stmt.Conforms s)
    (hed : ∀ s ∈ e, s.declares = none) : Stmt.Conforms (.ifElse cond t e sp)
  | while_ {cond : Expr} {body : Stmt} (sp : Span) (hcond : cond.Conforms)
    (hbody : Stmt.Conforms body) (hd : body.declares = none) :
    Stmt.Conforms (.while_ cond body sp)
  | function {d : FunctionDecl} (hd : FunctionDecl.Conforms d) : Stmt.Conforms (.function d)
  | class_ (x : Ident) (super : Option Superclass) {ms : List FunctionDecl} (sp : Span)
    (hms : ∀ d ∈ ms, FunctionDecl.Conforms d) : Stmt.Conforms (.class_ x super ms sp)
  | print {e : Expr} (sp : Span) (he : e.Conforms) : Stmt.Conforms (.print e sp)
  | return_ {value : Option Expr} (sp : Span) (hvalue : ∀ e ∈ value, e.Conforms) :
    Stmt.Conforms (.return_ value sp)
  | expr {e : Expr} (sp : Span) (he : e.Conforms) : Stmt.Conforms (.expr e sp)

inductive FunctionDecl.Conforms : FunctionDecl → Prop where
  | mk (x : Ident) {params : List Ident} {body : List Stmt} (sp : Span)
    (hparams : params.length ≤ 255) (hbody : ∀ s ∈ body, Stmt.Conforms s) :
    FunctionDecl.Conforms ⟨x, params, body, sp⟩

end

namespace Program

def kinds (p : Program) : List TokenKind :=
  Stmt.listKinds p.stmts

def Conforms (p : Program) : Prop :=
  ∀ s ∈ p.stmts, s.Conforms

end Program

/-! ### Nesting -/

mutual

/-- How many levels deeper than its own the parts of an expression reach. What stands in parentheses,
each argument and the operand of a unary operator are one level deeper. -/
def Expr.nesting : Expr → Nat
  | .literal _ _ | .var _ _ | .this _ | .super _ _ => 0
  | .assign _ _ e | .get _ e _ => e.nesting
  | .unary _ _ e | .grouping _ e => e.nesting + 1
  | .binary _ l _ r | .logical _ l _ r | .set _ l _ r => max l.nesting r.nesting
  | .call _ f as => max f.nesting (Expr.listNesting as)

def Expr.listNesting : List Expr → Nat
  | [] => 0
  | e :: es => max (e.nesting + 1) (Expr.listNesting es)

end

mutual

/-- How many levels deeper than its own place a statement reaches. A statement that is no declaration is
one level deeper, and so is each expression that stands on its own. -/
def Stmt.nesting : Stmt → Nat
  | .var _ none _ => 0
  | .var _ (some e) _ => e.nesting + 1
  | .function d => d.nesting
  | .class_ _ _ ms _ => FunctionDecl.listNesting ms
  | .print e _ | .expr e _ | .return_ (some e) _ => e.nesting + 1 + 1
  | .return_ none _ => 1
  | .block body _ => Stmt.listNesting body + 1
  | .ifElse cond t none _ => max (cond.nesting + 1) t.nesting + 1
  | .ifElse cond t (some e) _ => max (cond.nesting + 1) (max t.nesting e.nesting) + 1
  | .while_ cond body _ => max (cond.nesting + 1) body.nesting + 1

def Stmt.listNesting : List Stmt → Nat
  | [] => 0
  | t :: ts => max t.nesting (Stmt.listNesting ts)

def FunctionDecl.nesting : FunctionDecl → Nat
  | ⟨_, _, body, _⟩ => Stmt.listNesting body

def FunctionDecl.listNesting : List FunctionDecl → Nat
  | [] => 0
  | d :: ds => max d.nesting (FunctionDecl.listNesting ds)

end

def Program.nesting (p : Program) : Nat :=
  Stmt.listNesting p.stmts

theorem Stmt.nesting_pos {t : Stmt} (h : t.declares = none) : 0 < t.nesting := by
  cases t with
  | var x init sp => cases h
  | function d => cases h
  | class_ x super ms sp => cases h
  | return_ value sp => cases value <;> simp [nesting]
  | ifElse cond t f sp => cases f <;> simp [nesting]
  | block body sp => simp [nesting]
  | while_ cond body sp => simp [nesting]
  | print e sp => simp [nesting]
  | expr e sp => simp [nesting]

/-! ### Branches -/

/-- Whether the statement ends in a conditional without an `else`, which would take one behind it. -/
def Stmt.endsOpen : Stmt → Bool
  | .ifElse _ _ none _ => true
  | .ifElse _ _ (some e) _ => e.endsOpen
  | .while_ _ body _ => body.endsOpen
  | _ => false

mutual

/-- Whether no conditional with an `else` has a first branch that would take it. -/
def Stmt.elsesApart : Stmt → Bool
  | .block body _ => Stmt.listElsesApart body
  | .ifElse _ t none _ => t.elsesApart
  | .ifElse _ t (some e) _ => !t.endsOpen && t.elsesApart && e.elsesApart
  | .while_ _ body _ => body.elsesApart
  | .function d => d.elsesApart
  | .class_ _ _ ms _ => FunctionDecl.listElsesApart ms
  | .var _ _ _ | .print _ _ | .return_ _ _ | .expr _ _ => true

def Stmt.listElsesApart : List Stmt → Bool
  | [] => true
  | t :: ts => t.elsesApart && Stmt.listElsesApart ts

def FunctionDecl.elsesApart : FunctionDecl → Bool
  | ⟨_, _, body, _⟩ => Stmt.listElsesApart body

def FunctionDecl.listElsesApart : List FunctionDecl → Bool
  | [] => true
  | d :: ds => d.elsesApart && FunctionDecl.listElsesApart ds

end

def Program.elsesApart (p : Program) : Bool :=
  Stmt.listElsesApart p.stmts

/-! ### Operators and literals as tokens -/

theorem Literal.token_of_ofToken? {k : TokenKind} {v : Literal} (h : Literal.ofToken? k = some v) :
    v.token = k := by
  cases k with
  | keyword w => cases w <;> cases h <;> rfl
  | int | float | string => cases h; rfl
  | symbol | name => cases h

theorem UnaryOp.symbol_of_ofToken? {k : TokenKind} {op : UnaryOp}
    (h : UnaryOp.ofToken? k = some op) : .symbol op.symbol = k := by
  unfold UnaryOp.ofToken? at h
  split at h <;> cases h <;> rfl

/-- The token of an infix operator. -/
def Operator.token : Operator → TokenKind
  | .binary op => .symbol op.symbol
  | .logical op => .keyword op.keyword

def Operator.level : Operator → Level
  | .binary op => op.level
  | .logical op => op.level

theorem Level.operator?_eq_some {lv : Level} {k : TokenKind} {op : Operator}
    (h : lv.operator? k = some op) : op.token = k ∧ op.level = lv := by
  unfold Level.operator? at h
  split at h <;> cases h <;> exact ⟨rfl, rfl⟩

namespace Operator

variable (op : Operator) (l r : Expr) (k : Mark)

theorem kinds_expr : (op.expr l r k).kinds = l.kinds ++ [op.token] ++ r.kinds := by
  cases op <;> simp [expr, Expr.kinds, token]

theorem rank_expr : (op.expr l r k).rank = op.level.rank := by
  cases op <;> rfl

variable {op l r k}

theorem conforms_expr (hl : l.Conforms) (hr : r.Conforms) (hlrank : op.level.rank ≤ l.rank)
    (hrrank : op.level.rank < r.rank) : (op.expr l r k).Conforms := by
  cases op with
  | binary op => exact .binary k op hl hr hlrank hrrank
  | logical op => exact .logical k op hl hr hlrank hrrank

end Operator

theorem Expr.kinds_length_pos (e : Expr) : 0 < e.kinds.length := by
  cases e <;> simp only [Expr.kinds, List.length_append, List.length_cons, List.length_nil] <;> omega

/-- The operands of a level are one level tighter. -/
theorem Level.rank_of_tighter? {lv : Level} :
    (∀ lv', lv.tighter? = some lv' → lv'.rank = lv.rank + 1) ∧
      (lv.tighter? = none → unaryRank = lv.rank + 1) := by
  cases lv <;> exact ⟨by rintro _ ⟨⟩ <;> rfl, by rintro ⟨⟩ <;> rfl⟩

theorem Level.rank_le_six (lv : Level) : lv.rank ≤ 6 := by
  cases lv <;> decide

end HostScript
