import HostScript.Syntax
import HostScript.Diagnostic.Fault

/-!
# Parsers over a token list

A `Cursor` stands between the tokens already taken and those that are left. A `Parser` moves it
onward and may give up; a parser that gives up has reported a fault. No parser puts a token back or
takes a fault back. The primitives here look at the current token, take it, or require it to be of a
certain kind.
-/

namespace HostScript

structure Cursor where
  /-- The tokens that are left, the current one first. -/
  rest : List Token
  /-- The span of the end of the input, which stands behind the last token. -/
  finish : Span
  /-- The span of the token taken last. -/
  prev : Span
  /-- The number of the next expression node. -/
  nextId : Nat
  /-- How deep the current place is nested. -/
  depth : Nat
  /-- The faults reported so far, the first one first. -/
  faults : List Fault

namespace Cursor

/-- The cursor in front of a token list. -/
def ofTokens (tokens : List Token) (finish : Span) (firstId : Nat) : Cursor :=
  ⟨tokens, finish, .point 1 1, firstId, 0, []⟩

/-- The kind of the current token; nothing at the end. -/
def kind? (s : Cursor) : Option TokenKind :=
  s.rest.head?.map (·.kind)

def atEnd (s : Cursor) : Bool :=
  s.rest.isEmpty

/-- The span of the current token. -/
def here (s : Cursor) : Span :=
  match s.rest with
  | t :: _ => t.span
  | [] => s.finish

/-- What stands at the cursor, for a fault. -/
def near (s : Cursor) : Near :=
  match s.rest with
  | t :: _ => .lexeme t.lexeme
  | [] => .endOfInput

def atSymbol (s : Cursor) (y : Symbol) : Bool :=
  match s.kind? with
  | some (.symbol z) => z == y
  | _ => false

def atKeyword (s : Cursor) (k : Keyword) : Bool :=
  match s.kind? with
  | some (.keyword l) => l == k
  | _ => false

/-- Take the current token. -/
def advance (s : Cursor) : Cursor :=
  match s.rest with
  | t :: ts => { s with rest := ts, prev := t.span }
  | [] => { s with prev := s.finish }

def report (s : Cursor) (f : Fault) : Cursor :=
  { s with faults := s.faults ++ [f] }

/-- Report a fault at the current token. -/
def fault (s : Cursor) (c : Cause) : Cursor :=
  s.report ⟨c, s.here, s.near⟩

/-- Whether so many faults were found that parsing stops. -/
def tooManyFaults (s : Cursor) : Bool :=
  maxErrors ≤ s.faults.length

/-- The tokens from the next place where a statement may start: behind a semicolon, or at a keyword
that opens one. `afterSemicolon` says whether the token before is a semicolon. -/
def resume (afterSemicolon : Bool) (prev : Span) : List Token → List Token × Span
  | [] => ([], prev)
  | t :: ts =>
    if afterSemicolon || t.kind.startsStatement then (t :: ts, prev)
    else resume (t.kind = .symbol .semicolon) t.span ts

/-- Take the current token, and go on to the next place where a statement may start. -/
def synchronize (s : Cursor) : Cursor :=
  match s.rest with
  | t :: ts =>
    let r := resume (t.kind = .symbol .semicolon) t.span ts
    { s with rest := r.1, prev := r.2 }
  | [] => { s with prev := s.finish }

/-- A later cursor: tokens were taken from the front and numbers used up, and faults were added. -/
structure Onward (s s' : Cursor) : Prop where
  rest : s'.rest <:+ s.rest
  finish : s'.finish = s.finish
  nextId : s.nextId ≤ s'.nextId
  depth : s'.depth = s.depth
  faults : s.faults <+: s'.faults

namespace Onward

variable {s s₁ s₂ : Cursor}

theorem refl (s : Cursor) : s.Onward s :=
  ⟨List.suffix_refl _, rfl, Nat.le_refl _, rfl, List.prefix_refl _⟩

theorem trans (h : s.Onward s₁) (h' : s₁.Onward s₂) : s.Onward s₂ :=
  ⟨h'.rest.trans h.rest, h'.finish.trans h.finish, Nat.le_trans h.nextId h'.nextId,
    h'.depth.trans h.depth, h.faults.trans h'.faults⟩

theorem advance (s : Cursor) : s.Onward s.advance := by
  unfold Cursor.advance
  split
  · rename_i t ts h
    exact ⟨h ▸ List.suffix_cons t ts, rfl, Nat.le_refl _, rfl, List.prefix_refl _⟩
  · exact ⟨List.suffix_refl _, rfl, Nat.le_refl _, rfl, List.prefix_refl _⟩

theorem report (s : Cursor) (f : Fault) : s.Onward (s.report f) :=
  ⟨List.suffix_refl _, rfl, Nat.le_refl _, rfl, List.prefix_append _ _⟩

theorem suffix_resume (b : Bool) (prev : Span) (ts : List Token) : (resume b prev ts).1 <:+ ts := by
  induction ts generalizing b prev with
  | nil => exact List.suffix_refl _
  | cons t ts ih =>
    rw [resume]
    split
    · exact List.suffix_refl _
    · exact (ih _ _).trans (List.suffix_cons t ts)

theorem synchronize (s : Cursor) : s.Onward s.synchronize := by
  unfold Cursor.synchronize
  split
  · rename_i t ts h
    exact ⟨h ▸ (suffix_resume _ _ ts).trans (List.suffix_cons t ts), rfl, Nat.le_refl _, rfl,
      List.prefix_refl _⟩
  · exact ⟨List.suffix_refl _, rfl, Nat.le_refl _, rfl, List.prefix_refl _⟩

end Onward

end Cursor

/-- A parser moves the cursor onward and gives a result, or gives up. -/
structure Parser (α : Type) where
  run : Cursor → Option α × Cursor
  onward : ∀ s : Cursor, s.Onward (run s).2

namespace Parser

variable {α β : Type}

@[inline] protected def pure (a : α) : Parser α where
  run s := (some a, s)
  onward := .refl

/-- Run `p`, and go on with `f` unless it gave up. -/
@[inline] protected def bind (p : Parser α) (f : α → Parser β) : Parser β where
  run s :=
    match p.run s with
    | (some a, s) => (f a).run s
    | (none, s) => (none, s)
  onward s := by
    have h := p.onward s
    split
    · rename_i a s₁ hp
      rw [hp] at h
      exact h.trans ((f a).onward s₁)
    · rename_i s₁ hp
      rw [hp] at h
      exact h

instance : Monad Parser where
  pure := Parser.pure
  bind := Parser.bind

/-- A parser that is made only when it is run. -/
@[inline] def delay (p : Unit → Parser α) : Parser α where
  run s := (p ()).run s
  onward s := (p ()).onward s

/-- Give up without a fault. Only a parser whose fuel is used up does so. -/
def giveUp : Parser α where
  run s := (none, s)
  onward := .refl

/-- What the recursive parsers run in: what one does whose fuel is used up, and what is put around each of
the others. -/
structure Setting where
  alarm : {α : Type} → Parser α
  guard : {α : Type} → Parser α → Parser α

/-- Give up where the fuel is used up, and put nothing around the others. -/
def Setting.plain : Setting where
  alarm := giveUp
  guard p := p

/-- Give up with a fault at the current token. -/
def failAt (c : Cause) : Parser α where
  run s := (none, s.fault c)
  onward s := .report s _

/-- Report a fault and go on. -/
def complainOf (f : Fault) : Parser Unit where
  run s := (some (), s.report f)
  onward s := .report s f

/-- A value read off the cursor. -/
@[inline] def look (f : Cursor → α) : Parser α where
  run s := (some (f s), s)
  onward := .refl

/-- Report a fault at the current token and go on. -/
def complain (c : Cause) : Parser Unit := do
  complainOf (← look fun s => ⟨c, s.here, s.near⟩)

/-- Take the current token; gives its span. -/
def take : Parser Span where
  run s := (some s.here, s.advance)
  onward := .advance

/-- Take the current token if it is the symbol `y`. -/
def eat (y : Symbol) : Parser Bool := do
  if ← look (·.atSymbol y) then
    let _ ← take
    pure true
  else pure false

/-- Take the current token if it is the keyword `k`. -/
def eatKeyword (k : Keyword) : Parser Bool := do
  if ← look (·.atKeyword k) then
    let _ ← take
    pure true
  else pure false

/-- Take the symbol `y`, which has to come next. -/
def expect (y : Symbol) (e : Expectation) : Parser Span := do
  if ← look (·.atSymbol y) then take else failAt (.expected e)

/-- Take a name, which has to come next. -/
def expectName (e : Expectation) : Parser Ident := do
  match ← look (·.kind?) with
  | some (.name x) =>
    let span ← take
    pure ⟨x, span⟩
  | _ => failAt (.expected e)

/-- The span from `start` to the token taken last. -/
def spanFrom (start : Span) : Parser Span :=
  look fun s => start.merge s.prev

/-- A new expression node. -/
def node (span : Span) (f : Mark → α) : Parser α where
  run s := (some (f ⟨s.nextId, span⟩), { s with nextId := s.nextId + 1 })
  onward s := { Cursor.Onward.refl s with nextId := Nat.le_succ _ }

/-- Run `p` one level deeper. -/
def deeper (p : Parser α) : Parser α where
  run s :=
    let r := p.run { s with depth := s.depth + 1 }
    (r.1, { r.2 with depth := r.2.depth - 1 })
  onward s :=
    have h := p.onward { s with depth := s.depth + 1 }
    { h with depth := Nat.sub_eq_of_eq_add h.depth }

/-- Run `p` one level deeper, if the limit allows. -/
def nested (p : Parser α) : Parser α := do
  if maxNesting ≤ (← look (·.depth)) then failAt .nestingTooDeep else deeper p

/-- Run `p`, and go on where it gives up. -/
def attempt (p : Parser α) : Parser (Option α) where
  run s := (some (p.run s).1, (p.run s).2)
  onward := p.onward

/-- Run `p`; where it gives up, go on to the next place where a statement may start. -/
def recovering (p : Parser α) : Parser α where
  run s :=
    match p.run s with
    | (some a, s) => (some a, s)
    | (none, s) => (none, s.synchronize)
  onward s := by
    have h := p.onward s
    split
    · rename_i a s₁ hp
      rw [hp] at h
      exact h
    · rename_i s₁ hp
      rw [hp] at h
      exact h.trans (.synchronize s₁)

end Parser

end HostScript
