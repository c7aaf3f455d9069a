import HostScript.Proofs.Parsing.Rereading.Statements
import HostScript.Proofs.Parsing.Trees
import HostScript.Proofs.Relabeling

/-!
# How deep statements are nested

`s.Encloses path t`: the statement `t` stands in `s`, and `path` says what it stands in, from the outside
in: statements with others inside them, and bodies of functions and methods. Parsing limits the first
kind, since each statement is one level deeper than the one around it and is made up of three at most. It
does not limit the second: a function is declared at the level of the place where it stands, and so is its
body.
-/

namespace HostScript

/-- What a statement can stand in. -/
inductive Enclosure where
  /-- A block, a conditional or a loop. -/
  | statement
  /-- The body of a function or method. -/
  | function
deriving DecidableEq, Repr

namespace Stmt

/-- The statements directly inside a block, a conditional or a loop. -/
def inner : Stmt → List Stmt
  | .block body _ => body
  | .ifElse _ t f _ => t :: f.toList
  | .while_ _ body _ => [body]
  | _ => []

/-- The functions and methods that a statement declares. -/
def functions : Stmt → List FunctionDecl
  | .function d => [d]
  | .class_ _ _ ms _ => ms
  | _ => []

inductive Encloses : Stmt → List Enclosure → Stmt → Prop where
  | self {s : Stmt} : Encloses s [] s
  | inside {s s' t : Stmt} {path : List Enclosure} (hs : s' ∈ s.inner) (h : Encloses s' path t) :
      Encloses s (.statement :: path) t
  | body {s s' t : Stmt} {path : List Enclosure} {d : FunctionDecl} (hd : d ∈ s.functions)
      (hs : s' ∈ d.body) (h : Encloses s' path t) : Encloses s (.function :: path) t

/-! ### Blocks, conditionals and loops -/

/-- Nothing in the statement stands in more than `k` blocks, conditionals and loops of it. -/
def Shallow (k : Nat) (s : Stmt) : Prop :=
  ∀ path t, s.Encloses path t → path.count .statement ≤ k

namespace Shallow

variable {k l : Nat} {s : Stmt}

theorem mono (h : s.Shallow k) (hle : k ≤ l) : s.Shallow l :=
  fun path t ht => Nat.le_trans (h path t ht) hle

theorem of_inner (hs : s.functions = []) (h : ∀ t ∈ s.inner, t.Shallow k) : s.Shallow (k + 1) := by
  intro path t ht
  cases ht with
  | self => exact Nat.zero_le _
  | @inside _ s' _ path hs' ht =>
    have hle := h s' hs' path t ht
    rw [List.count_cons_self]
    omega
  | body hd => rw [hs] at hd; cases hd

theorem of_functions (hs : s.inner = []) (h : ∀ d ∈ s.functions, ∀ t ∈ d.body, t.Shallow k) :
    s.Shallow k := by
  intro path t ht
  cases ht with
  | self => exact Nat.zero_le _
  | inside hs' => rw [hs] at hs'; cases hs'
  | @body _ s' _ path d hd hs' ht =>
    rw [List.count_cons_of_ne (by decide)]
    exact h d hd s' hs' path t ht

theorem of_isPlain (h : s.isPlain = true) : s.Shallow k := by
  cases s with
  | var | print | return_ | expr => exact of_functions rfl (List.forall_mem_nil _)
  | _ => cases h

/-- A loop is made up of three statements at most. -/
theorem loop {init : Option Stmt} {cond : Expr} {increment : Option Expr} {body : Stmt} {sp : Span}
    (hinit : ∀ s ∈ init, s.isPlain = true) (hbody : body.Shallow k) :
    (Parser.withInit sp (.while_ cond (Parser.withIncrement sp body increment) sp) init).Shallow
      (k + 3) := by
  have hround : (Parser.withIncrement sp body increment).Shallow (k + 1) := by
    cases increment with
    | none => exact hbody.mono (Nat.le_succ k)
    | some e =>
      refine of_inner rfl (List.forall_mem_cons.mpr ⟨hbody, List.forall_mem_singleton.mpr ?_⟩)
      exact of_isPlain rfl
  have hwhile : (Stmt.while_ cond (Parser.withIncrement sp body increment) sp).Shallow (k + 2) :=
    of_inner rfl (List.forall_mem_singleton.mpr hround)
  cases init with
  | none => exact hwhile.mono (Nat.le_succ _)
  | some s =>
    refine of_inner rfl (List.forall_mem_cons.mpr ⟨?_, List.forall_mem_singleton.mpr hwhile⟩)
    exact of_isPlain (hinit s rfl)

end Shallow

end Stmt

/-- The levels that are left at a depth limit what a statement that is begun there has inside it. -/
def Standard.shallow : Standard where
  span _ := True
  stmt d s := s.Shallow (3 * (maxNesting - d))
  merge _ _ := trivial
  plain h := .of_isPlain h.isPlain
  block {d body sp} hd h := by
    have hinner : ∀ t ∈ (Stmt.block body sp).inner, t.Shallow (3 * (maxNesting - (d + 1))) := h
    exact (Stmt.Shallow.of_inner rfl hinner).mono (by omega)
  ifElse {d cond t f sp} hd _ ht hf := by
    have hinner : ∀ s ∈ (Stmt.ifElse cond t f sp).inner, s.Shallow (3 * (maxNesting - (d + 1))) :=
      List.forall_mem_cons.mpr ⟨ht, fun s hs => hf s (Option.mem_toList.mp hs)⟩
    exact (Stmt.Shallow.of_inner rfl hinner).mono (by omega)
  loop hd hinit _ _ hbody := (Stmt.Shallow.loop (fun s hs => (hinit s hs).isPlain) hbody).mono (by omega)
  function _ h := .of_functions rfl (List.forall_mem_singleton.mpr h)
  class_ _ _ _ h := .of_functions rfl h

/-- A path is made up of the two kinds of enclosures. -/
theorem Enclosure.length_eq (path : List Enclosure) :
    path.length = path.count .statement + path.count .function := by
  induction path with
  | nil => rfl
  | cons x path ih =>
    cases x
    · rw [List.length_cons, ih, List.count_cons_self, List.count_cons_of_ne (by decide)]
      omega
    · rw [List.length_cons, ih, List.count_cons_self, List.count_cons_of_ne (by decide)]
      omega

/-- No statement of a program stands in more enclosures than three for each level of nesting that
parsing allows, bodies of functions and methods apart. -/
theorem Parsed.length_le_of_encloses (text : String) (firstId : Nat) (s t : Stmt)
    (path : List Enclosure) (hs : s ∈ (ofText text firstId).program.stmts)
    (h : s.Encloses path t) :
    path.length ≤ 3 * maxNesting + path.count .function := by
  have hshallow : s.Shallow (3 * maxNesting) :=
    meets_ofTokens .shallow firstId (fun _ _ => trivial) trivial trivial s hs
  have hle := hshallow path t h
  rw [Enclosure.length_eq path]
  omega

/-- A loop in a function. -/
def Parsed.loopText : String :=
  "func f(x) \x7b for (var i = 0; i < x; i = i + 1) \x7b print i; \x7d \x7d"

/-- In the body of a function, what is printed stands in the block of the initializer, the loop, the block of
the increment and the block that is repeated. -/
theorem Parsed.length_le_of_encloses_loopText :
    ∃ s ∈ (ofText loopText 0).program.stmts, ∃ t,
      s.Encloses [.function, .statement, .statement, .statement, .statement] t ∧
        5 ≤ 3 * maxNesting + 1 := by
  have hprint : (((((((ofText loopText 0).program.stmts.flatMap Stmt.functions).flatMap (·.body)).flatMap
      Stmt.inner).flatMap Stmt.inner).flatMap Stmt.inner).flatMap Stmt.inner).length ≠ 0 := by
    decide +kernel
  obtain ⟨t, ht⟩ := List.exists_mem_of_length_pos (Nat.pos_of_ne_zero hprint)
  obtain ⟨t₁, ht₁, ht⟩ := List.mem_flatMap.mp ht
  obtain ⟨t₂, ht₂, ht₁⟩ := List.mem_flatMap.mp ht₁
  obtain ⟨t₃, ht₃, ht₂⟩ := List.mem_flatMap.mp ht₂
  obtain ⟨t₄, ht₄, ht₃⟩ := List.mem_flatMap.mp ht₃
  obtain ⟨d, hd, ht₄⟩ := List.mem_flatMap.mp ht₄
  obtain ⟨s, hs, hd⟩ := List.mem_flatMap.mp hd
  have hpath : s.Encloses [.function, .statement, .statement, .statement, .statement] t :=
    .body hd ht₄ (.inside ht₃ (.inside ht₂ (.inside ht₁ (.inside ht .self))))
  exact ⟨s, hs, t, hpath, length_le_of_encloses loopText 0 s t _ hs hpath⟩

/-! ### Bodies of functions -/

namespace Stmt

variable {ρ : Relabeling} {s t : Stmt} {path : List Enclosure}

theorem listRelabel_eq_map (ρ : Relabeling) (ts : List Stmt) :
    listRelabel ρ ts = ts.map (relabel ρ) := by
  induction ts with
  | nil => rfl
  | cons t ts ih => rw [listRelabel, ih, List.map_cons]

theorem inner_relabel (ρ : Relabeling) (s : Stmt) : (s.relabel ρ).inner = s.inner.map (relabel ρ) := by
  cases s with
  | block body sp => simp only [relabel, inner, listRelabel_eq_map]
  | ifElse cond t f sp => cases f <;> simp [relabel, inner]
  | _ => simp [relabel, inner]

theorem functions_relabel (ρ : Relabeling) (s : Stmt) :
    (s.relabel ρ).functions = s.functions.map (FunctionDecl.relabel ρ) := by
  have hlist : ∀ ds : List FunctionDecl,
      FunctionDecl.listRelabel ρ ds = ds.map (FunctionDecl.relabel ρ) := by
    intro ds
    induction ds with
    | nil => rfl
    | cons d ds ih => rw [FunctionDecl.listRelabel, ih, List.map_cons]
  cases s with
  | class_ x super ms sp => simp only [relabel, functions, hlist]
  | ifElse cond t f sp => cases f <;> simp [relabel, functions]
  | _ => simp [relabel, functions]

theorem body_relabel (ρ : Relabeling) (d : FunctionDecl) :
    (d.relabel ρ).body = d.body.map (relabel ρ) := by
  cases d
  rw [FunctionDecl.relabel, listRelabel_eq_map]

theorem Encloses.relabel (h : s.Encloses path t) (ρ : Relabeling) :
    (s.relabel ρ).Encloses path (t.relabel ρ) := by
  induction h with
  | self => exact .self
  | inside hs _ ih =>
    refine .inside ?_ ih
    rw [inner_relabel]
    exact List.mem_map_of_mem hs
  | @body s _ _ _ d hd hs _ ih =>
    have hd' : d.relabel ρ ∈ (s.relabel ρ).functions := by
      rw [functions_relabel]
      exact List.mem_map_of_mem hd
    refine .body hd' ?_ ih
    rw [body_relabel]
    exact List.mem_map_of_mem hs

theorem Encloses.of_relabel (h : (s.relabel ρ).Encloses path t) : ∃ t', s.Encloses path t' := by
  generalize hs' : s.relabel ρ = s' at h
  induction h generalizing s with
  | self => exact ⟨s, .self⟩
  | inside hin _ ih =>
    rw [← hs', inner_relabel] at hin
    obtain ⟨s₁, hs₁, heq⟩ := List.mem_map.mp hin
    obtain ⟨t', ht'⟩ := ih heq
    exact ⟨t', .inside hs₁ ht'⟩
  | body hd hin _ ih =>
    rw [← hs', functions_relabel] at hd
    obtain ⟨d₁, hd₁, rfl⟩ := List.mem_map.mp hd
    rw [body_relabel] at hin
    obtain ⟨s₁, hs₁, heq⟩ := List.mem_map.mp hin
    obtain ⟨t', ht'⟩ := ih heq
    exact ⟨t', .body hd₁ hs₁ ht'⟩

end Stmt

/-- `n + 1` functions, each but the outermost in the body of another. -/
def Stmt.functionsWithin : Nat → Stmt
  | 0 => .function ⟨⟨"f", .point 1 1⟩, [], [], .point 1 1⟩
  | n + 1 => .function ⟨⟨"f", .point 1 1⟩, [], [functionsWithin n], .point 1 1⟩

namespace Stmt

theorem functionsWithin_encloses (n : Nat) :
    (functionsWithin n).Encloses (List.replicate n .function) (functionsWithin 0) := by
  induction n with
  | zero => exact .self
  | succ n ih =>
    rw [List.replicate_succ]
    exact .body List.mem_cons_self List.mem_cons_self ih

theorem functionsWithin_conforms (n : Nat) : (functionsWithin n).Conforms := by
  induction n with
  | zero => exact .function (.mk _ _ (Nat.zero_le _) (List.forall_mem_nil _))
  | succ n ih => exact .function (.mk _ _ (Nat.zero_le _) (List.forall_mem_singleton.mpr ih))

theorem functionsWithin_elsesApart (n : Nat) : (functionsWithin n).elsesApart = true := by
  induction n with
  | zero => rfl
  | succ n ih =>
    simp [functionsWithin, elsesApart, FunctionDecl.elsesApart, listElsesApart, ih]

theorem functionsWithin_nesting (n : Nat) : (functionsWithin n).nesting = 0 := by
  induction n with
  | zero => rfl
  | succ n ih => simp [functionsWithin, nesting, FunctionDecl.nesting, listNesting, ih]

end Stmt

/-! ### Their text -/

namespace Lexer

/-- The kinds of the tokens among lexemes. -/
def kinds (ls : List Placed) : List TokenKind :=
  (ls.filterMap (·.token?)).map (·.kind)

/-- In front of `rest` the text reads as tokens of these kinds. -/
def Spells (cs : List Char) (ks : List TokenKind) (rest : List Char) : Prop :=
  ∀ room p, 0 < room → ∃ q,
    kinds (scan room p (cs ++ rest)).1 = ks ++ kinds (scan room q rest).1 ∧
    (scan room p (cs ++ rest)).1.filterMap (·.fault?) = (scan room q rest).1.filterMap (·.fault?)

namespace Spells

variable {cs cs' rest : List Char} {ks ks' : List TokenKind}

theorem append (h : Spells cs ks (cs' ++ rest)) (h' : Spells cs' ks' rest) :
    Spells (cs ++ cs') (ks ++ ks') rest := by
  intro room p hroom
  obtain ⟨q, hk, hf⟩ := h room p hroom
  obtain ⟨q', hk', hf'⟩ := h' room q hroom
  refine ⟨q', ?_, ?_⟩
  · rw [List.append_assoc, hk, hk', List.append_assoc]
  · rw [List.append_assoc, hf, hf']

/-- One token, with blanks in front of it. -/
theorem token {text after : List Char} {k : TokenKind} {c : Char}
    (hgap : ∀ p, (skipGap false p (cs ++ rest)).2 = c :: after)
    (hnext : next c after = (⟨text, .ok k⟩, rest)) : Spells cs [k] rest := by
  intro room p hroom
  have hscan : ∃ q q', scan room p (cs ++ rest) =
      (⟨q, ⟨text, .ok k⟩⟩ :: (scan room q' rest).1, (scan room q' rest).2) := by
    rw [scan, if_neg (by omega)]
    split
    · rename_i q hskip
      have hnil := hgap p
      rw [hskip] at hnil
      cases hnil
    · rename_i q c' after' hskip
      have hcons := hgap p
      rw [hskip] at hcons
      obtain ⟨rfl, rfl⟩ := List.cons.inj hcons
      simp only [hnext]
      exact ⟨q, _, rfl⟩
  obtain ⟨q, q', hscan⟩ := hscan
  rw [hscan]
  exact ⟨q', rfl, rfl⟩

end Spells

end Lexer

/-- How a function without parameters starts. -/
def functionStart : List Char :=
  ['f', 'u', 'n', 'c'] ++ [' ', 'f'] ++ (['('] ++ [')'] ++ ['\x7b'])

/-- The text of `Stmt.functionsWithin`. -/
def functionText : Nat → List Char
  | 0 => functionStart ++ ['\x7d']
  | n + 1 => functionStart ++ (functionText n ++ ['\x7d'])

namespace Lexer

theorem spells_lbrace (rest : List Char) : Spells ['\x7b'] [.symbol .lbrace] rest := by
  have hnext : next '\x7b' rest = (⟨['\x7b'], .ok (.symbol .lbrace)⟩, rest) := by
    cases rest <;> rfl
  exact .token (fun _ => rfl) hnext

theorem spells_rbrace (rest : List Char) : Spells ['\x7d'] [.symbol .rbrace] rest := by
  have hnext : next '\x7d' rest = (⟨['\x7d'], .ok (.symbol .rbrace)⟩, rest) := by
    cases rest <;> rfl
  exact .token (fun _ => rfl) hnext

theorem spells_functionStart (rest : List Char) :
    Spells functionStart [.keyword .func, .name "f", .symbol .lparen, .symbol .rparen, .symbol .lbrace]
      rest := by
  have hword : ∀ after, Spells (['f', 'u', 'n', 'c'] ++ [' ', 'f']) [.keyword .func, .name "f"]
      ('(' :: after) :=
    fun _ => Spells.append (.token (fun _ => rfl) rfl) (.token (fun _ => rfl) rfl)
  have hparens : ∀ after, Spells (['('] ++ [')']) [.symbol .lparen, .symbol .rparen]
      ('\x7b' :: after) :=
    fun _ => Spells.append (.token (fun _ => rfl) rfl) (.token (fun _ => rfl) rfl)
  exact (hword _).append ((hparens rest).append (spells_lbrace rest))

theorem spells_functionText (n : Nat) (rest : List Char) :
    Spells (functionText n) (Stmt.functionsWithin n).kinds rest := by
  induction n generalizing rest with
  | zero => exact (spells_functionStart _).append (spells_rbrace rest)
  | succ n ih =>
    have hspells := (spells_functionStart _).append ((ih _).append (spells_rbrace rest))
    simpa [functionText, Stmt.functionsWithin, Stmt.kinds, FunctionDecl.kinds, Stmt.listKinds,
      Ident.listKinds] using hspells

end Lexer

/-- The text is lexed without a fault, into the tokens of the functions that it was written from. -/
theorem Lexed.kinds_functionText (n : Nat) :
    (ofText (String.ofList (functionText n))).tokens.map (·.kind) = (Stmt.functionsWithin n).kinds ∧
      (ofText (String.ofList (functionText n))).faults = [] := by
  obtain ⟨q, hkinds, hfaults⟩ := Lexer.spells_functionText n [] maxErrors .start (by decide)
  have hnil : (Lexer.scan maxErrors q []).1 = [] := by
    rw [Lexer.scan]
    rfl
  rw [hnil, List.append_nil] at hkinds hfaults
  simp only [ofText, String.toList_ofList]
  exact ⟨hkinds.trans (List.append_nil _), hfaults⟩

namespace Parsed

/-- The functions are not nested at all as parsing counts it, so they are read back from their tokens. -/
theorem encloses_functionText (n : Nat) :
    (ofText (String.ofList (functionText n)) 0).faults = [] ∧
      ∃ s ∈ (ofText (String.ofList (functionText n)) 0).program.stmts, ∃ t,
        s.Encloses (List.replicate n .function) t := by
  obtain ⟨hkinds, hclean⟩ := Lexed.kinds_functionText n
  let lexed := Lexed.ofText (String.ofList (functionText n))
  have hlist : Stmt.listKinds [Stmt.functionsWithin n] = (Stmt.functionsWithin n).kinds := by
    rw [Stmt.listKinds, Stmt.listKinds, List.append_nil]
  have hbefore : (Cursor.ofTokens lexed.tokens lexed.finish 0).Before 0
      (Stmt.listKinds [Stmt.functionsWithin n]) :=
    ⟨rfl, hlist ▸ hkinds, rfl⟩
  have hfuel : 16 * (Stmt.listKinds [Stmt.functionsWithin n]).length + 19 ≤
      fuelFor lexed.tokens.length := by
    have hlen := hbefore.length
    change lexed.tokens.length = _ at hlen
    unfold fuelFor
    omega
  have hnesting : 0 + Stmt.listNesting [Stmt.functionsWithin n] ≤ maxNesting := by
    simp [Stmt.listNesting, Stmt.functionsWithin_nesting]
  have hitems : ∀ t ∈ [Stmt.functionsWithin n], Parser.RereadsDecl t :=
    Parser.rereadsDecl_of_conforms _ (List.forall_mem_singleton.mpr (Stmt.functionsWithin_conforms n))
      (by simp [Stmt.listElsesApart, Stmt.functionsWithin_elsesApart])
  obtain ⟨ts, s', hrun, hts, hs'⟩ := Parser.gives_topLevel hitems hbefore hnesting hfuel
  have hstmts : (ofText (String.ofList (functionText n)) 0).program.stmts = ts := by
    unfold ofText ofTokens
    dsimp only
    rw [hrun]
    rfl
  constructor
  · unfold ofText ofTokens
    dsimp only
    rw [hrun, hclean]
    exact hs'.clean
  · have hmem : (Stmt.functionsWithin n).relabel .blank ∈ ts.map (Stmt.relabel .blank) := by
      rw [← Stmt.listRelabel_eq_map, hts, Stmt.listRelabel_eq_map]
      exact List.mem_singleton.mpr rfl
    obtain ⟨s, hs, heq⟩ := List.mem_map.mp hmem
    have hencloses := (Stmt.functionsWithin_encloses n).relabel .blank
    rw [← heq] at hencloses
    rw [hstmts]
    exact ⟨s, hs, hencloses.of_relabel⟩

/-- So the limit on nesting does not hold for functions: one stands in the bodies of 257 others. -/
theorem functions_beyond_nesting :
    (ofText (String.ofList (functionText 257)) 0).faults = [] ∧
      ∃ s ∈ (ofText (String.ofList (functionText 257)) 0).program.stmts,
        ∃ path t, s.Encloses path t ∧ 4 * maxNesting < path.length := by
  obtain ⟨hclean, s, hs, t, ht⟩ := encloses_functionText 257
  refine ⟨hclean, s, hs, _, t, ht, ?_⟩
  rw [List.length_replicate]
  decide

end Parsed

end HostScript
