import HostScript.Proofs.Grammar
import HostScript.Syntax.Statements

/-!
# How trees are laid out

A tree is written as pieces that stand side by side: tokens, names, and trees inside it, which are written
as pieces again. `Written P ps ts`: the pieces `ps` are written as the tokens `ts`, and `P` holds of every
expression in them and of the tokens that are its own. A `for` statement is written in its own way, though it
is a tree of other statements.

The tokens of a text stand in reading order. A span covers tokens if it starts where the first of them starts
and ends where the last one ends. A span that is merged from two others covers all from the first to the
last token of theirs.
-/

namespace HostScript

/-! ### Pieces -/

inductive Piece where
  | token (kind : TokenKind)
  | name (x : Ident)
  | expr (e : Expr)
  | stmt (s : Stmt)

namespace Piece

abbrev symbol (y : Symbol) : Piece := .token (.symbol y)

abbrev keyword (k : Keyword) : Piece := .token (.keyword k)

/-- Pieces with commas between them. -/
def separated (ps : List Piece) : List Piece :=
  ps.intersperse (symbol .comma)

end Piece

/-- What an expression is written as. -/
def Expr.pieces : Expr → List Piece
  | .literal _ v => [.token v.token]
  | .var _ x => [.name x]
  | .this _ => [.keyword .this]
  | .super _ x => [.keyword .super, .symbol .dot, .name x]
  | .assign _ x v => [.name x, .symbol .eq, .expr v]
  | .unary _ op e => [.symbol op.symbol, .expr e]
  | .get _ o x => [.expr o, .symbol .dot, .name x]
  | .grouping _ e => [.symbol .lparen, .expr e, .symbol .rparen]
  | .binary _ l op r => [.expr l, .symbol op.symbol, .expr r]
  | .logical _ l op r => [.expr l, .keyword op.keyword, .expr r]
  | .set _ o x v => [.expr o, .symbol .dot, .name x, .symbol .eq, .expr v]
  | .call _ f as => [.expr f, .symbol .lparen] ++ Piece.separated (as.map .expr) ++ [.symbol .rparen]

/-- What a function is written as, from its name on. -/
def FunctionDecl.pieces (d : FunctionDecl) : List Piece :=
  [.name d.name, .symbol .lparen] ++ Piece.separated (d.params.map .name) ++
    [.symbol .rparen, .symbol .lbrace] ++ d.body.map .stmt ++ [.symbol .rbrace]

/-- What a statement is written as, unless it is written as a `for`. -/
def Stmt.pieces : Stmt → List Piece
  | .var x none _ => [.keyword .var, .name x, .symbol .semicolon]
  | .var x (some e) _ => [.keyword .var, .name x, .symbol .eq, .expr e, .symbol .semicolon]
  | .block body _ => [.symbol .lbrace] ++ body.map .stmt ++ [.symbol .rbrace]
  | .ifElse cond t none _ =>
    [.keyword .if_, .symbol .lparen, .expr cond, .symbol .rparen, .stmt t]
  | .ifElse cond t (some f) _ =>
    [.keyword .if_, .symbol .lparen, .expr cond, .symbol .rparen, .stmt t, .keyword .else_, .stmt f]
  | .while_ cond body _ => [.keyword .while_, .symbol .lparen, .expr cond, .symbol .rparen, .stmt body]
  | .function d => .keyword .func :: d.pieces
  | .class_ x none ms _ =>
    [.keyword .class_, .name x, .symbol .lbrace] ++ ms.flatMap FunctionDecl.pieces ++ [.symbol .rbrace]
  | .class_ x (some p) ms _ =>
    [.keyword .class_, .name x, .symbol .less, .expr p.toExpr, .symbol .lbrace] ++
      ms.flatMap FunctionDecl.pieces ++ [.symbol .rbrace]
  | .print e _ => [.keyword .print, .expr e, .symbol .semicolon]
  | .return_ none _ => [.keyword .return_, .symbol .semicolon]
  | .return_ (some e) _ => [.keyword .return_, .expr e, .symbol .semicolon]
  | .expr e _ => [.expr e, .symbol .semicolon]

/-- What a `for` is written as. An initializer is a statement with a semicolon of its own. -/
def Piece.loop (init : Option Stmt) (cond increment : Option Expr) (body : Stmt) : List Piece :=
  [.keyword .for_, .symbol .lparen, init.elim (.symbol .semicolon) .stmt] ++ cond.toList.map .expr ++
    [.symbol .semicolon] ++ increment.toList.map .expr ++ [.symbol .rparen, .stmt body]

/-- The tree of a `for`. The condition that is made up for one without any is `true`. -/
def Stmt.loop (m : Mark) (sp : Span) (init : Option Stmt) (cond increment : Option Expr) (body : Stmt) :
    Stmt :=
  Parser.withInit sp
    (.while_ (cond.getD (.literal m (.bool true))) (Parser.withIncrement sp body increment) sp) init

namespace Stmt

variable (sp : Span) (init : Option Stmt) (cond : Expr) (increment : Option Expr) (body : Stmt)

/-- The nodes of a loop are those of its clauses, the increment behind the body. -/
theorem nodes_withInit :
    (Parser.withInit sp (.while_ cond (Parser.withIncrement sp body increment) sp) init).nodes =
      listNodes init.toList ++ (cond.nodes ++ (body.nodes ++ Expr.optionNodes increment)) := by
  cases init <;> cases increment <;>
    simp [Parser.withInit, Parser.withIncrement, nodes, listNodes, Expr.optionNodes]

theorem names_withInit :
    (Parser.withInit sp (.while_ cond (Parser.withIncrement sp body increment) sp) init).names =
      listNames init.toList ++
        (Expr.targets cond.nodes ++ (body.names ++ Expr.targets (Expr.optionNodes increment))) := by
  cases init <;> cases increment <;>
    simp [Parser.withInit, Parser.withIncrement, names, listNames, Expr.optionNodes, Expr.targets]

end Stmt

inductive Written (P : Expr → List Token → Prop) : List Piece → List Token → Prop where
  | nil : Written P [] []
  | token {t : Token} {k : TokenKind} {ps : List Piece} {ts : List Token} (hk : t.kind = k)
      (h : Written P ps ts) : Written P (.token k :: ps) (t :: ts)
  /-- A name stands where its token stands. -/
  | name {t : Token} {x : Ident} {ps : List Piece} {ts : List Token} (hk : t.kind = .name x.name)
      (hspan : t.span = x.span) (h : Written P ps ts) : Written P (.name x :: ps) (t :: ts)
  | expr {e : Expr} {ps : List Piece} {us ts : List Token} (he : Written P e.pieces us) (hP : P e us)
      (h : Written P ps ts) : Written P (.expr e :: ps) (us ++ ts)
  | stmt {s : Stmt} {ps : List Piece} {us ts : List Token} (hs : Written P s.pieces us)
      (h : Written P ps ts) : Written P (.stmt s :: ps) (us ++ ts)
  | loop {m : Mark} {sp : Span} {init : Option Stmt} {cond increment : Option Expr} {body : Stmt}
      {ps : List Piece} {us ts : List Token} (hl : Written P (Piece.loop init cond increment body) us)
      (h : Written P ps ts) : Written P (.stmt (.loop m sp init cond increment body) :: ps) (us ++ ts)

namespace Written

variable {P Q : Expr → List Token → Prop} {ps qs : List Piece} {ts us : List Token} {e : Expr}

theorem append (h : Written P ps ts) (h' : Written P qs us) : Written P (ps ++ qs) (ts ++ us) := by
  induction h with
  | nil => exact h'
  | token hk _ ih => exact .token hk ih
  | name hk hspan _ ih => exact .name hk hspan ih
  | expr he hP _ _ ih =>
    rw [List.append_assoc]
    exact .expr he hP ih
  | stmt hs _ _ ih =>
    rw [List.append_assoc]
    exact .stmt hs ih
  | loop hl _ _ ih =>
    rw [List.append_assoc]
    exact .loop hl ih

theorem ne_nil (h : Written P ps ts) (hps : ps ≠ []) : ts ≠ [] := by
  induction h with
  | nil => exact absurd rfl hps
  | token | name => exact List.cons_ne_nil _ _
  | @expr e _ _ _ _ _ _ ihe _ =>
    have hpieces : e.pieces ≠ [] := by cases e <;> simp [Expr.pieces]
    exact List.append_ne_nil_of_left_ne_nil (ihe hpieces) _
  | @stmt s _ _ _ _ _ ihs _ =>
    have hpieces : s.pieces ≠ [] := by
      unfold Stmt.pieces
      split <;> simp
    exact List.append_ne_nil_of_left_ne_nil (ihs hpieces) _
  | loop _ _ ihl _ =>
    refine List.append_ne_nil_of_left_ne_nil (ihl ?_) _
    simp [Piece.loop]

theorem expr_iff : Written P [.expr e] ts ↔ Written P e.pieces ts ∧ P e ts := by
  constructor
  · intro h
    cases h with
    | @expr _ _ us _ he hP h =>
      cases h
      rw [List.append_nil]
      exact ⟨he, hP⟩
  · rintro ⟨he, hP⟩
    rw [← List.append_nil ts]
    exact .expr he hP .nil

theorem of_stmt {s : Stmt} (h : Written P s.pieces ts) : Written P [.stmt s] ts := by
  rw [← List.append_nil ts]
  exact .stmt h .nil

theorem of_loop {m : Mark} {sp : Span} {init : Option Stmt} {cond increment : Option Expr} {body : Stmt}
    (h : Written P (Piece.loop init cond increment body) ts) :
    Written P [.stmt (.loop m sp init cond increment body)] ts := by
  rw [← List.append_nil ts]
  exact .loop h .nil

/-- An expression among the pieces has its own tokens side by side. -/
theorem exists_of_expr_mem (h : Written P ps ts) (he : .expr e ∈ ps) :
    ∃ us, us <:+: ts ∧ Written P e.pieces us ∧ P e us := by
  induction h with
  | nil => cases he
  | @token t k ps ts hk h ih =>
    obtain ⟨us, hus, hwritten⟩ := ih (by simpa using he)
    exact ⟨us, hus.trans (List.suffix_cons t ts).isInfix, hwritten⟩
  | @name t x ps ts hk hspan h ih =>
    obtain ⟨us, hus, hwritten⟩ := ih (by simpa using he)
    exact ⟨us, hus.trans (List.suffix_cons t ts).isInfix, hwritten⟩
  | @expr e' ps us ts he' hP h _ ih =>
    rcases List.mem_cons.mp he with heq | he
    · cases heq
      exact ⟨us, (List.prefix_append us ts).isInfix, he', hP⟩
    · obtain ⟨vs, hvs, hwritten⟩ := ih he
      exact ⟨vs, hvs.trans (List.suffix_append us ts).isInfix, hwritten⟩
  | @stmt s ps us ts hs h _ ih =>
    obtain ⟨vs, hvs, hwritten⟩ := ih (by simpa using he)
    exact ⟨vs, hvs.trans (List.suffix_append us ts).isInfix, hwritten⟩
  | @loop m sp init cond increment body ps us ts hl h _ ih =>
    obtain ⟨vs, hvs, hwritten⟩ := ih (by simpa using he)
    exact ⟨vs, hvs.trans (List.suffix_append us ts).isInfix, hwritten⟩

theorem exists_of_name_mem {x : Ident} (h : Written P ps ts) (hx : .name x ∈ ps) :
    ∃ t ∈ ts, t.span = x.span := by
  induction h with
  | nil => cases hx
  | token hk h ih =>
    obtain ⟨t, ht, hspan⟩ := ih (by simpa using hx)
    exact ⟨t, List.mem_cons_of_mem _ ht, hspan⟩
  | name hk hspan h ih =>
    rcases List.mem_cons.mp hx with heq | hx
    · cases heq
      exact ⟨_, List.mem_cons_self, hspan⟩
    · obtain ⟨t, ht, hspan⟩ := ih hx
      exact ⟨t, List.mem_cons_of_mem _ ht, hspan⟩
  | expr he hP h _ ih | stmt hs h _ ih | loop hl h _ ih =>
    obtain ⟨t, ht, hspan⟩ := ih (by simpa using hx)
    exact ⟨t, List.mem_append_right _ ht, hspan⟩

/-- What holds of expressions and their tokens may be replaced from the inside out. -/
theorem imp (h : Written P ps ts)
    (hP : ∀ e us, us <:+: ts → Written Q e.pieces us → P e us → Q e us) : Written Q ps ts := by
  induction h with
  | nil => exact .nil
  | @token t k ps ts hk h ih =>
    exact .token hk (ih fun e us hus => hP e us (hus.trans (List.suffix_cons t ts).isInfix))
  | @name t x ps ts hk hspan h ih =>
    exact .name hk hspan (ih fun e us hus => hP e us (hus.trans (List.suffix_cons t ts).isInfix))
  | @expr e ps us ts he hPe h ihe ih =>
    have hfirst := (List.prefix_append us ts).isInfix
    have hwritten := ihe fun e' vs hvs => hP e' vs (hvs.trans hfirst)
    exact .expr hwritten (hP e us hfirst hwritten hPe)
      (ih fun e' vs hvs => hP e' vs (hvs.trans (List.suffix_append us ts).isInfix))
  | @stmt s ps us ts hs h ihs ih =>
    exact .stmt (ihs fun e vs hvs => hP e vs (hvs.trans (List.prefix_append us ts).isInfix))
      (ih fun e vs hvs => hP e vs (hvs.trans (List.suffix_append us ts).isInfix))
  | @loop m sp init cond increment body ps us ts hl h ihl ih =>
    exact .loop (ihl fun e vs hvs => hP e vs (hvs.trans (List.prefix_append us ts).isInfix))
      (ih fun e vs hvs => hP e vs (hvs.trans (List.suffix_append us ts).isInfix))

end Written

/-! ### Kinds of tokens -/

namespace Piece

/-- What the piece is written as, if it has no `for` in it. -/
def kinds : Piece → List TokenKind
  | .token k => [k]
  | .name x => [.name x.name]
  | .expr e => e.kinds
  | .stmt s => s.kinds

theorem kinds_separated_exprs (es : List Expr) :
    (separated (es.map .expr)).flatMap kinds = Expr.listKinds es := by
  induction es with
  | nil => rfl
  | cons e es ih =>
    cases es with
    | nil => simp [separated, kinds, Expr.listKinds]
    | cons e' es =>
      have hkinds : Expr.listKinds (e :: e' :: es) =
          e.kinds ++ [.symbol .comma] ++ Expr.listKinds (e' :: es) := by
        rw [Expr.listKinds]
        exact List.cons_ne_nil _ _
      rw [hkinds, ← ih]
      simp [separated, kinds]

theorem kinds_separated_names (xs : List Ident) :
    (separated (xs.map .name)).flatMap kinds = Ident.listKinds xs := by
  induction xs with
  | nil => rfl
  | cons x xs ih =>
    cases xs with
    | nil => rfl
    | cons x' xs =>
      have hkinds : Ident.listKinds (x :: x' :: xs) =
          [.name x.name, .symbol .comma] ++ Ident.listKinds (x' :: xs) := by
        rw [Ident.listKinds]
        exact List.cons_ne_nil _ _
      rw [hkinds, ← ih]
      simp [separated, kinds]

theorem kinds_stmts (ts : List Stmt) : (ts.map .stmt).flatMap kinds = Stmt.listKinds ts := by
  induction ts with
  | nil => rfl
  | cons t ts ih => rw [List.map_cons, List.flatMap_cons, ih, Stmt.listKinds, kinds]

end Piece

theorem Expr.kinds_pieces (e : Expr) : e.pieces.flatMap Piece.kinds = e.kinds := by
  cases e <;> simp [pieces, kinds, Piece.kinds, Piece.kinds_separated_exprs]

theorem FunctionDecl.kinds_pieces (d : FunctionDecl) : d.pieces.flatMap Piece.kinds = d.kinds := by
  cases d
  simp [pieces, kinds, Piece.kinds, Piece.kinds_separated_names, Piece.kinds_stmts]

theorem FunctionDecl.kinds_listPieces (ds : List FunctionDecl) :
    (ds.flatMap pieces).flatMap Piece.kinds = listKinds ds := by
  induction ds with
  | nil => rfl
  | cons d ds ih => rw [List.flatMap_cons, List.flatMap_append, ih, d.kinds_pieces, listKinds]

theorem Stmt.kinds_pieces (s : Stmt) : s.pieces.flatMap Piece.kinds = s.kinds := by
  unfold pieces
  split <;> simp [kinds, Piece.kinds, Piece.kinds_stmts, FunctionDecl.kinds_pieces,
    FunctionDecl.kinds_listPieces, Superclass.optionKinds, Superclass.toExpr, Expr.kinds]

namespace Written

variable {P : Expr → List Token → Prop} {ps : List Piece} {ts : List Token}

/-- A `for` has its keyword among its tokens. -/
theorem for_mem {init : Option Stmt} {cond increment : Option Expr} {body : Stmt}
    (h : Written P (Piece.loop init cond increment body) ts) : .keyword .for_ ∈ ts.map (·.kind) := by
  cases h with
  | token hk h => simp [hk]

/-- Tokens without `for` are those that the pieces are written as. -/
theorem kinds (h : Written P ps ts) (hfor : .keyword .for_ ∉ ts.map (·.kind)) :
    ts.map (·.kind) = ps.flatMap Piece.kinds := by
  induction h with
  | nil => rfl
  | token hk h ih | name hk _ h ih =>
    rw [List.map_cons, List.mem_cons, not_or] at hfor
    rw [List.map_cons, List.flatMap_cons, ih hfor.2, hk]
    rfl
  | @expr e _ _ _ he hP h ihe ih =>
    rw [List.map_append, List.mem_append, not_or] at hfor
    rw [List.map_append, List.flatMap_cons, ihe hfor.1, ih hfor.2, e.kinds_pieces]
    rfl
  | @stmt s _ _ _ hs h ihs ih =>
    rw [List.map_append, List.mem_append, not_or] at hfor
    rw [List.map_append, List.flatMap_cons, ihs hfor.1, ih hfor.2, s.kinds_pieces]
    rfl
  | loop hl h ihl ih =>
    rw [List.map_append, List.mem_append, not_or] at hfor
    exact absurd hl.for_mem hfor.1

end Written

/-! ### Nodes and their tokens -/

namespace Piece

theorem mem_separated {ps : List Piece} {p : Piece} (h : p ∈ ps) : p ∈ separated ps := by
  unfold separated
  induction ps with
  | nil => cases h
  | cons q ps ih =>
    cases ps with
    | nil => exact h
    | cons r ps =>
      rw [List.intersperse_cons_cons]
      rcases List.mem_cons.mp h with rfl | h
      · exact List.mem_cons_self
      · exact List.mem_cons_of_mem _ (List.mem_cons_of_mem _ (ih h))

def nodes : Piece → List Expr
  | .token _ | .name _ => []
  | .expr e => e.nodes
  | .stmt s => s.nodes

end Piece

namespace Expr

theorem expr_mem_pieces {e c : Expr} (h : c ∈ e.children) : .expr c ∈ e.pieces := by
  cases e with
  | call k f as =>
    rcases List.mem_cons.mp h with rfl | h
    · simp [pieces]
    · have hmem : Piece.expr c ∈ Piece.separated (as.map .expr) :=
        Piece.mem_separated (List.mem_map_of_mem h)
      simp [pieces, hmem]
  | _ => simp_all [children, pieces]

theorem name_mem_pieces {e : Expr} {x : Ident} (h : x ∈ e.idents) : .name x ∈ e.pieces := by
  cases e <;> simp_all [idents, pieces]

theorem mem_nodes_pieces {n e : Expr} (h : n ∈ e.nodes) : n = e ∨ ∃ p ∈ e.pieces, n ∈ p.nodes := by
  rw [nodes_eq] at h
  rcases List.mem_append.mp h with h | h
  · obtain ⟨c, hc, hn⟩ := mem_listNodes.mp h
    exact .inr ⟨.expr c, expr_mem_pieces hc, hn⟩
  · exact .inl (List.mem_singleton.mp h)

end Expr

theorem FunctionDecl.stmt_mem_pieces {d : FunctionDecl} {t : Stmt} (h : t ∈ d.body) :
    .stmt t ∈ d.pieces := by
  have hmem : Piece.stmt t ∈ d.body.map .stmt := List.mem_map_of_mem h
  simp [pieces, hmem]

namespace Stmt

theorem mem_nodes_pieces {n : Expr} {s : Stmt} (h : n ∈ s.nodes) : ∃ p ∈ s.pieces, n ∈ p.nodes := by
  cases s with
  | var x init sp | return_ init sp =>
    cases init with
    | none => simp [nodes, Expr.optionNodes] at h
    | some e => exact ⟨.expr e, by simp [pieces], by simpa [nodes, Expr.optionNodes, Piece.nodes] using h⟩
  | print e sp | expr e sp => exact ⟨.expr e, by simp [pieces], by simpa [nodes, Piece.nodes] using h⟩
  | block body sp =>
    rw [nodes] at h
    obtain ⟨t, ht, hn⟩ := mem_listNodes.mp h
    exact ⟨.stmt t, by simp [pieces, ht], hn⟩
  | ifElse cond t f sp =>
    cases f with
    | none =>
      rw [nodes] at h
      rcases List.mem_append.mp h with h | h
      · exact ⟨.expr cond, by simp [pieces], h⟩
      · exact ⟨.stmt t, by simp [pieces], h⟩
    | some f =>
      rw [nodes, List.mem_append, List.mem_append] at h
      rcases h with (h | h) | h
      · exact ⟨.expr cond, by simp [pieces], h⟩
      · exact ⟨.stmt t, by simp [pieces], h⟩
      · exact ⟨.stmt f, by simp [pieces], h⟩
  | while_ cond body sp =>
    rw [nodes] at h
    rcases List.mem_append.mp h with h | h
    · exact ⟨.expr cond, by simp [pieces], h⟩
    · exact ⟨.stmt body, by simp [pieces], h⟩
  | function d =>
    rw [nodes, FunctionDecl.nodes_eq] at h
    obtain ⟨t, ht, hn⟩ := mem_listNodes.mp h
    exact ⟨.stmt t, List.mem_cons_of_mem _ (FunctionDecl.stmt_mem_pieces ht), hn⟩
  | class_ x super ms sp =>
    rw [nodes] at h
    rcases List.mem_append.mp h with h | h
    · cases super with
      | none => cases h
      | some p =>
        cases List.mem_singleton.mp h
        exact ⟨.expr p.toExpr, by simp [pieces], Expr.mem_nodes_self _⟩
    · obtain ⟨d, hd, t, ht, hn⟩ := FunctionDecl.mem_listNodes.mp h
      have hmem : Piece.stmt t ∈ ms.flatMap FunctionDecl.pieces :=
        List.mem_flatMap.mpr ⟨d, hd, FunctionDecl.stmt_mem_pieces ht⟩
      refine ⟨.stmt t, ?_, hn⟩
      cases super <;> simp only [pieces, List.mem_append, hmem, true_or, or_true]

/-- A node in the tree of a `for` is written in one of its clauses, or it is the condition that is made up. -/
theorem mem_nodes_loop {n : Expr} {m : Mark} {sp : Span} {init : Option Stmt}
    {cond increment : Option Expr} {body : Stmt} (h : n ∈ (loop m sp init cond increment body).nodes) :
    (∃ p ∈ Piece.loop init cond increment body, n ∈ p.nodes) ∨
      cond = none ∧ n = .literal m (.bool true) := by
  rw [loop, nodes_withInit] at h
  simp only [List.mem_append] at h
  rcases h with h | h | h | h
  · cases init with
    | none => cases h
    | some s =>
      obtain ⟨t, ht, hn⟩ := mem_listNodes.mp h
      cases List.mem_singleton.mp ht
      exact .inl ⟨.stmt s, by simp [Piece.loop], hn⟩
  · cases cond with
    | none => exact .inr ⟨rfl, by simpa [Expr.nodes] using h⟩
    | some e => exact .inl ⟨.expr e, by simp [Piece.loop], h⟩
  · exact .inl ⟨.stmt body, by simp [Piece.loop], h⟩
  · cases increment with
    | none => cases h
    | some e => exact .inl ⟨.expr e, by simp [Piece.loop], h⟩

end Stmt

/-! ### Names and their tokens -/

namespace Piece

/-- The names that stand in the piece, or that it declares or assigns to. -/
def names : Piece → List String
  | .token _ => []
  | .name x => [x.name]
  | .expr e => Expr.targets e.nodes
  | .stmt s => s.names

end Piece

theorem Expr.mem_names_pieces {e : Expr} {x : String} (h : x ∈ targets e.nodes) :
    ∃ p ∈ e.pieces, x ∈ p.names := by
  obtain ⟨n, hn, hx⟩ := List.mem_filterMap.mp h
  rw [nodes_eq] at hn
  rcases List.mem_append.mp hn with hn | hn
  · obtain ⟨c, hc, hn⟩ := mem_listNodes.mp hn
    exact ⟨.expr c, expr_mem_pieces hc, List.mem_filterMap.mpr ⟨n, hn, hx⟩⟩
  · cases List.mem_singleton.mp hn
    cases e with
    | assign k y v =>
      cases hx
      exact ⟨.name y, by simp [pieces], by simp [Piece.names]⟩
    | _ => cases hx

theorem FunctionDecl.mem_names_pieces {d : FunctionDecl} {x : String} (h : x ∈ d.names) :
    ∃ p ∈ d.pieces, x ∈ p.names := by
  obtain ⟨y, params, body, sp⟩ := d
  rw [names] at h
  rcases List.mem_append.mp h with h | h
  · rcases List.mem_cons.mp h with rfl | h
    · exact ⟨.name y, by simp [pieces], by simp [Piece.names]⟩
    · obtain ⟨z, hz, rfl⟩ := List.mem_map.mp h
      have hmem : Piece.name z ∈ Piece.separated (params.map .name) :=
        Piece.mem_separated (List.mem_map_of_mem hz)
      exact ⟨.name z, by simp [pieces, hmem], by simp [Piece.names]⟩
  · obtain ⟨t, ht, hx⟩ := Stmt.mem_listNames.mp h
    exact ⟨.stmt t, stmt_mem_pieces ht, hx⟩

namespace Stmt

theorem mem_names_pieces {s : Stmt} {x : String} (h : x ∈ s.names) : ∃ p ∈ s.pieces, x ∈ p.names := by
  cases s with
  | var y init sp =>
    rw [names] at h
    rcases List.mem_cons.mp h with rfl | h
    · exact ⟨.name y, by cases init <;> simp [pieces], by simp [Piece.names]⟩
    · cases init with
      | none => cases h
      | some e => exact ⟨.expr e, by simp [pieces], h⟩
  | return_ value sp =>
    cases value with
    | none => simp [names, Expr.optionNodes, Expr.targets] at h
    | some e =>
      rw [names] at h
      exact ⟨.expr e, by simp [pieces], h⟩
  | print e sp | expr e sp =>
    rw [names] at h
    exact ⟨.expr e, by simp [pieces], h⟩
  | block body sp =>
    rw [names] at h
    obtain ⟨t, ht, hx⟩ := mem_listNames.mp h
    exact ⟨.stmt t, by simp [pieces, ht], hx⟩
  | ifElse cond t f sp =>
    cases f with
    | none =>
      rw [names] at h
      rcases List.mem_append.mp h with h | h
      · exact ⟨.expr cond, by simp [pieces], h⟩
      · exact ⟨.stmt t, by simp [pieces], h⟩
    | some f =>
      rw [names, List.mem_append, List.mem_append] at h
      rcases h with (h | h) | h
      · exact ⟨.expr cond, by simp [pieces], h⟩
      · exact ⟨.stmt t, by simp [pieces], h⟩
      · exact ⟨.stmt f, by simp [pieces], h⟩
  | while_ cond body sp =>
    rw [names] at h
    rcases List.mem_append.mp h with h | h
    · exact ⟨.expr cond, by simp [pieces], h⟩
    · exact ⟨.stmt body, by simp [pieces], h⟩
  | function d =>
    rw [names] at h
    obtain ⟨p, hp, hx⟩ := FunctionDecl.mem_names_pieces h
    exact ⟨p, List.mem_cons_of_mem _ hp, hx⟩
  | class_ y super ms sp =>
    rw [names] at h
    rcases List.mem_cons.mp h with rfl | h
    · exact ⟨.name y, by cases super <;> simp [pieces], by simp [Piece.names]⟩
    · obtain ⟨d, hd, h⟩ := FunctionDecl.mem_listNames.mp h
      obtain ⟨p, hp, hx⟩ := FunctionDecl.mem_names_pieces h
      have hmem : p ∈ ms.flatMap FunctionDecl.pieces := List.mem_flatMap.mpr ⟨d, hd, hp⟩
      refine ⟨p, ?_, hx⟩
      cases super <;> simp only [pieces, List.mem_append, hmem, true_or, or_true]

/-- The condition that is made up assigns to nothing. -/
theorem mem_names_loop {x : String} {m : Mark} {sp : Span} {init : Option Stmt}
    {cond increment : Option Expr} {body : Stmt} (h : x ∈ (loop m sp init cond increment body).names) :
    ∃ p ∈ Piece.loop init cond increment body, x ∈ p.names := by
  rw [loop, names_withInit] at h
  simp only [List.mem_append] at h
  rcases h with h | h | h | h
  · cases init with
    | none => cases h
    | some s =>
      obtain ⟨t, ht, hx⟩ := mem_listNames.mp h
      cases List.mem_singleton.mp ht
      exact ⟨.stmt s, by simp [Piece.loop], hx⟩
  · cases cond with
    | none => simp [Expr.nodes, Expr.targets, Expr.target?] at h
    | some e => exact ⟨.expr e, by simp [Piece.loop], h⟩
  · exact ⟨.stmt body, by simp [Piece.loop], h⟩
  · cases increment with
    | none => cases h
    | some e => exact ⟨.expr e, by simp [Piece.loop], h⟩

end Stmt

/-- A name that is declared or assigned to is one of the tokens. -/
theorem Written.name_mem {P : Expr → List Token → Prop} {ps : List Piece} {ts : List Token} {p : Piece}
    {x : String} (h : Written P ps ts) (hp : p ∈ ps) (hx : x ∈ p.names) : .name x ∈ ts.map (·.kind) := by
  induction h generalizing p with
  | nil => cases hp
  | token hk h ih =>
    rcases List.mem_cons.mp hp with rfl | hp
    · cases hx
    · exact List.mem_cons_of_mem _ (ih hp hx)
  | name hk hspan h ih =>
    rcases List.mem_cons.mp hp with rfl | hp
    · cases List.mem_singleton.mp hx
      simp [hk]
    · exact List.mem_cons_of_mem _ (ih hp hx)
  | expr he hP h ihe ih =>
    rw [List.map_append, List.mem_append]
    rcases List.mem_cons.mp hp with rfl | hp
    · obtain ⟨q, hq, hx⟩ := Expr.mem_names_pieces hx
      exact .inl (ihe hq hx)
    · exact .inr (ih hp hx)
  | stmt hs h ihs ih =>
    rw [List.map_append, List.mem_append]
    rcases List.mem_cons.mp hp with rfl | hp
    · obtain ⟨q, hq, hx⟩ := Stmt.mem_names_pieces hx
      exact .inl (ihs hq hx)
    · exact .inr (ih hp hx)
  | loop hl h ihl ih =>
    rw [List.map_append, List.mem_append]
    rcases List.mem_cons.mp hp with rfl | hp
    · obtain ⟨q, hq, hx⟩ := Stmt.mem_names_loop hx
      exact .inl (ihl hq hx)
    · exact .inr (ih hp hx)

/-! ### Where nodes stand -/

/-- The piece is one of some pieces, or of those that one of them is written as. -/
inductive Piece.Within (p : Piece) : List Piece → Prop where
  | here {ps : List Piece} (h : p ∈ ps) : p.Within ps
  | expr {e : Expr} {ps : List Piece} (h : p.Within e.pieces) (he : .expr e ∈ ps) : p.Within ps
  | stmt {s : Stmt} {ps : List Piece} (h : p.Within s.pieces) (hs : .stmt s ∈ ps) : p.Within ps
  | loop {m : Mark} {sp : Span} {init : Option Stmt} {cond increment : Option Expr} {body : Stmt}
      {ps : List Piece} (h : p.Within (Piece.loop init cond increment body))
      (hl : .stmt (.loop m sp init cond increment body) ∈ ps) : p.Within ps

theorem Piece.Within.mono {p : Piece} {ps qs : List Piece} (h : p.Within ps) (hsub : ps ⊆ qs) :
    p.Within qs := by
  cases h with
  | here h => exact .here (hsub h)
  | expr h he => exact .expr h (hsub he)
  | stmt h hs => exact .stmt h (hsub hs)
  | loop h hl => exact .loop h (hsub hl)

/-- Among the tokens of the pieces are those of the expression, side by side, or, where it is the condition that
is made up for a `for` within the pieces, those of that `for`. -/
def Expr.Located (P : Expr → List Token → Prop) (ps : List Piece) (ts : List Token) (n : Expr) : Prop :=
  ∃ us, us <:+: ts ∧ (Written P n.pieces us ∧ P n us ∨
    ∃ m sp init increment body, n = .literal m (.bool true) ∧
      Piece.Within (.stmt (.loop m sp init none increment body)) ps ∧
      Written P (Piece.loop init none increment body) us)

section

variable {P : Expr → List Token → Prop} {ps qs : List Piece} {ts us : List Token} {n : Expr}

theorem Expr.Located.mono (h : n.Located P qs us) (hus : us <:+: ts)
    (hps : ∀ p, Piece.Within p qs → p.Within ps) : n.Located P ps ts := by
  obtain ⟨vs, hvs, hwritten | ⟨m, sp, init, increment, body, hn, hwithin, hloop⟩⟩ := h
  · exact ⟨vs, hvs.trans hus, .inl hwritten⟩
  · exact ⟨vs, hvs.trans hus, .inr ⟨m, sp, init, increment, body, hn, hps _ hwithin, hloop⟩⟩

theorem Written.located (h : Written P ps ts) {p : Piece} (hp : p ∈ ps) (hn : n ∈ p.nodes) :
    n.Located P ps ts := by
  have hbehind : ∀ (q : Piece) ps p, Piece.Within p ps → p.Within (q :: ps) :=
    fun q ps p hp => hp.mono (List.subset_cons_self q ps)
  induction h generalizing p with
  | nil => cases hp
  | @token t k ps ts hk h ih =>
    rcases List.mem_cons.mp hp with rfl | hp
    · cases hn
    · exact (ih hp hn).mono (List.suffix_cons t ts).isInfix (hbehind _ ps)
  | @name t x ps ts hk hspan h ih =>
    rcases List.mem_cons.mp hp with rfl | hp
    · cases hn
    · exact (ih hp hn).mono (List.suffix_cons t ts).isInfix (hbehind _ ps)
  | @expr e ps us ts he hP h ihe ih =>
    rcases List.mem_cons.mp hp with rfl | hp
    · rcases Expr.mem_nodes_pieces hn with rfl | ⟨q, hq, hn⟩
      · exact ⟨us, (List.prefix_append us ts).isInfix, .inl ⟨he, hP⟩⟩
      · exact (ihe hq hn).mono (List.prefix_append us ts).isInfix fun _ hp => .expr hp List.mem_cons_self
    · exact (ih hp hn).mono (List.suffix_append us ts).isInfix (hbehind _ ps)
  | @stmt s ps us ts hs h ihs ih =>
    rcases List.mem_cons.mp hp with rfl | hp
    · obtain ⟨q, hq, hn⟩ := Stmt.mem_nodes_pieces hn
      exact (ihs hq hn).mono (List.prefix_append us ts).isInfix fun _ hp => .stmt hp List.mem_cons_self
    · exact (ih hp hn).mono (List.suffix_append us ts).isInfix (hbehind _ ps)
  | @loop m sp init cond increment body ps us ts hl h ihl ih =>
    rcases List.mem_cons.mp hp with rfl | hp
    · have hfirst := (List.prefix_append us ts).isInfix
      rcases Stmt.mem_nodes_loop hn with ⟨q, hq, hn⟩ | ⟨rfl, rfl⟩
      · exact (ihl hq hn).mono hfirst fun _ hp => .loop hp List.mem_cons_self
      · exact ⟨us, hfirst, .inr ⟨m, sp, init, increment, body, rfl, .here List.mem_cons_self, hl⟩⟩
    · exact (ih hp hn).mono (List.suffix_append us ts).isInfix (hbehind _ ps)

end

/-! ### Reading order -/

namespace Span

theorem NotAfter.refl (l c : Nat) : NotAfter l c l c :=
  .inr ⟨rfl, Nat.le_refl c⟩

theorem NotAfter.trans {l₁ c₁ l₂ c₂ l₃ c₃ : Nat} (h : NotAfter l₁ c₁ l₂ c₂)
    (h' : NotAfter l₂ c₂ l₃ c₃) : NotAfter l₁ c₁ l₃ c₃ := by
  unfold NotAfter at h h' ⊢
  omega

/-- The first span starts no later than the second and ends no earlier. -/
structure Includes (a b : Span) : Prop where
  start : NotAfter a.startLine a.startCol b.startLine b.startCol
  stop : NotAfter b.endLine b.endCol a.endLine a.endCol

theorem Includes.refl (a : Span) : a.Includes a :=
  ⟨.refl _ _, .refl _ _⟩

theorem Includes.trans {a b c : Span} (h : a.Includes b) (h' : b.Includes c) : a.Includes c :=
  ⟨h.start.trans h'.start, h'.stop.trans h.stop⟩

/-- The span starts where the first of the tokens starts and ends where the last one ends. -/
def Covers (sp : Span) (ts : List Token) : Prop :=
  ∃ first last, ts.head? = some first ∧ ts.getLast? = some last ∧
    sp = ⟨first.span.startLine, first.span.startCol, last.span.endLine, last.span.endCol⟩

end Span

/-- The first token neither starts nor ends after the second. -/
structure Token.Before (a b : Token) : Prop where
  start : Span.NotAfter a.span.startLine a.span.startCol b.span.startLine b.span.startCol
  stop : Span.NotAfter a.span.endLine a.span.endCol b.span.endLine b.span.endCol

namespace Span

variable {a b : Span} {ts us mid : List Token} {t : Token}

/-- What covers tokens includes the spans of all of them. -/
theorem Covers.includes (h : a.Covers ts) (hts : ts.Pairwise Token.Before) (ht : t ∈ ts) :
    a.Includes t.span := by
  obtain ⟨first, last, hfirst, hlast, rfl⟩ := h
  constructor
  · obtain ⟨rest, rfl⟩ := List.head?_eq_some_iff.mp hfirst
    rcases List.mem_cons.mp ht with rfl | ht
    · exact .refl _ _
    · exact ((List.pairwise_cons.mp hts).1 t ht).start
  · obtain ⟨rest, rfl⟩ := List.getLast?_eq_some_iff.mp hlast
    rcases List.mem_append.mp ht with ht | ht
    · exact ((List.pairwise_append.mp hts).2.2 t ht last (List.mem_singleton_self _)).stop
    · cases List.mem_singleton.mp ht
      exact .refl _ _

theorem Covers.includes_of_infix (h : a.Covers ts) (hts : ts.Pairwise Token.Before) (hb : b.Covers us)
    (hus : us <:+: ts) : a.Includes b := by
  obtain ⟨first, last, hfirst, hlast, rfl⟩ := hb
  have hstart := h.includes hts (hus.subset (List.mem_of_head? hfirst))
  have hstop := h.includes hts (hus.subset (List.mem_of_getLast? hlast))
  exact ⟨hstart.start, hstop.stop⟩

theorem covers_singleton (t : Token) : t.span.Covers [t] :=
  ⟨t, t, rfl, rfl, rfl⟩

/-- A merged span covers all that is between. -/
theorem Covers.merge (ha : a.Covers ts) (hb : b.Covers us)
    (h : (ts ++ (mid ++ us)).Pairwise Token.Before) : (a.merge b).Covers (ts ++ (mid ++ us)) := by
  have hbefore : ∀ t ∈ ts, ∀ u ∈ us, t.Before u :=
    fun t ht u hu => (List.pairwise_append.mp h).2.2 t ht u (List.mem_append_right _ hu)
  obtain ⟨first, last, hfirst, hlast, rfl⟩ := ha
  obtain ⟨first', last', hfirst', hlast', rfl⟩ := hb
  refine ⟨first, last', ?_, ?_, ?_⟩
  · rw [List.head?_append, hfirst]
    rfl
  · rw [List.getLast?_append, List.getLast?_append, hlast']
    rfl
  · have hstart := (hbefore first (List.mem_of_head? hfirst) first' (List.mem_of_head? hfirst')).start
    have hstop := (hbefore last (List.mem_of_getLast? hlast) last' (List.mem_of_getLast? hlast')).stop
    simp only [Span.merge, if_pos hstart, if_pos hstop]

end Span

/-- The span covers the tokens, provided that they are in reading order. -/
def Span.CoversOrdered (sp : Span) (ts : List Token) : Prop :=
  ts.Pairwise Token.Before → sp.Covers ts

/-- The span of an expression is that of its tokens, and all that is in the expression lies inside it. -/
structure Expr.Exact (e : Expr) (ts : List Token) : Prop where
  covers : e.span.Covers ts
  line : ∀ first, ts.head? = some first → e.line = first.span.line
  spans : e.Spans e.span.Includes

/-- Where tokens are in reading order, it is enough that each expression covers its own. -/
theorem Written.exact {ps : List Piece} {ts : List Token} (hts : ts.Pairwise Token.Before)
    (h : Written (fun e => e.span.CoversOrdered) ps ts) :
    Written Expr.Exact ps ts := by
  refine h.imp fun e us hus hwritten hcovers => ?_
  have hordered := hts.sublist hus.sublist
  have he := hcovers hordered
  refine ⟨he, fun first hfirst => ?_, Expr.spans_iff.mpr ⟨fun c hc => ?_, .refl _, fun x hx => ?_⟩⟩
  · obtain ⟨first', last, hfirst', -, hspan⟩ := he
    cases hfirst.symm.trans hfirst'
    unfold Expr.line
    rw [hspan]
    rfl
  · obtain ⟨vs, hvs, -, hexact⟩ := hwritten.exists_of_expr_mem (Expr.expr_mem_pieces hc)
    have hinside := he.includes_of_infix hordered hexact.covers hvs
    intro n hn
    obtain ⟨hspan, hidents⟩ := hexact.spans n hn
    exact ⟨hinside.trans hspan, fun x hx => hinside.trans (hidents x hx)⟩
  · obtain ⟨t, ht, hspan⟩ := hwritten.exists_of_name_mem (Expr.name_mem_pieces hx)
    rw [← hspan]
    exact he.includes hordered ht

end HostScript
