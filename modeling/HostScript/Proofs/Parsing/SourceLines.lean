import HostScript.Proofs.Parsing.Lines
import HostScript.Proofs.Scoping.Rules
import HostScript.Session

/-!
# The lines that spans refer to

Lines are counted twice. `Source.line?` goes by an index of where the lines start, cuts out the range of a line
and shows it without the carriage returns at its end; scanning goes on to the next line as it passes a line
feed. The two counts are the same, so every span refers to a line that the source can show, and a token stands
in the line that is shown for it, at its column. Trimming does not reach a token, since none ends with a
blank.
-/

namespace HostScript

open Text (bytes lineFeed)

/-! ### Lines of tokens -/

/-- Tokens are cut out of the text. Their spans start behind what comes before them, and they end with no
blank. -/
theorem Lexer.Scanned.exists_cut {room : Nat} {before cs : List Char} {ls : List Placed} {q : Position}
    (h : Scanned room before cs ls q) {t : Token} (ht : t ∈ ls.filterMap (·.token?)) :
    ∃ pre ds d post, before ++ cs = pre ++ (ds ++ [d] ++ post) ∧ t.lexeme.toList = ds ++ [d] ∧
      isGap d = false ∧ t.span.startLine = (Position.start.advance pre).line ∧
      t.span.startCol = (Position.start.advance pre).col := by
  induction h with
  | full => cases ht
  | finished => cases ht
  | @lexeme room before g rest c ls q hgap h ih =>
    rw [List.filterMap_cons] at ht
    have hpieces : before ++ g ++ ((next c rest).1.text ++ (next c rest).2) =
        before ++ (g ++ c :: rest) := by
      rw [next_text_append, List.append_assoc]
    cases hr : (next c rest).1.reading with
    | error cause =>
      simp only [Placed.token?, hr] at ht
      rw [← hpieces, ← List.append_assoc]
      exact ih ht
    | ok k =>
      simp only [Placed.token?, hr] at ht
      rcases List.mem_cons.mp ht with rfl | ht
      · obtain ⟨ds, d, htext, hd⟩ := next_text_last hr
        refine ⟨before ++ g, ds, d, (next c rest).2, ?_, ?_, hd, rfl, rfl⟩
        · rw [← htext, hpieces]
        · rw [String.toList_ofList, htext]
      · rw [← hpieces, ← List.append_assoc]
        exact ih ht

namespace Source

variable {src : Source}

/-- What is shown of a line has in it every piece of the line that does not end with a carriage return, at the
column of the piece. -/
theorem line?_of_cut {pre ds post : List Char} {d : Char} (hcut : src.text.toList = pre ++ (ds ++ [d] ++ post))
    (hd : d ≠ '\r') (hunbroken : '\n' ∉ ds ++ [d]) :
    ∃ l, src.line? (Position.start.advance pre).line = some l ∧
      Text.bytes (ds ++ [d]) <+: l.toUTF8.data.toList.drop ((Position.start.advance pre).col - 1) := by
  obtain ⟨before, mid, rfl, hbegins, hmid⟩ := Position.exists_begins pre
  have htail : '\n' ∉ post.takeWhile (· ≠ '\n') := by
    intro hmem
    simpa using Lexer.of_mem_takeWhile hmem
  have hseg : Text.IsSegment before (mid ++ (ds ++ [d]) ++ post.takeWhile (· ≠ '\n'))
      (post.dropWhile (· ≠ '\n')) := by
    refine ⟨hbegins, ?_, fun c hc => ?_⟩
    · simp only [List.mem_append, not_or] at hunbroken ⊢
      exact ⟨⟨hmid, hunbroken⟩, htail⟩
    · have hhead := List.head?_dropWhile_not (fun c => decide (c ≠ '\n')) post
      rw [hc] at hhead
      simpa using hhead
  have hget := hseg.getElem?_segments
  have htext : before ++ (mid ++ (ds ++ [d]) ++ post.takeWhile (· ≠ '\n') ++
      post.dropWhile (· ≠ '\n')) = src.text.toList := by
    rw [List.append_assoc _ (post.takeWhile _), List.takeWhile_append_dropWhile, hcut]
    simp
  rw [htext] at hget
  obtain ⟨tail, htrim⟩ := Text.dropTrailingReturns_append (mid ++ ds)
    (post.takeWhile (· ≠ '\n')) hd
  rw [Position.advance_unbroken hbegins hmid]
  refine ⟨_, (src.line?_succ _).trans (congrArg (Option.map _) hget), ?_⟩
  rw [Text.bytes_ofList, ← List.append_assoc mid, htrim]
  simp

theorem exists_line?_of_startsIn {sp : Span} (h : sp.StartsIn src.text.toList) :
    ∃ l, src.line? sp.line = some l := by
  refine Option.ne_none_iff_exists'.mp fun hnone => ?_
  obtain ⟨hpos, hle⟩ := h
  rcases line?_eq_none_iff.mp hnone with hzero | hlt
  · omega
  · rw [lineCount_eq_length_segments] at hlt
    omega

/-- A token stands in the line that its span starts in, at its column, if it does not go on to the next. -/
theorem line?_of_token {t : Token} (ht : t ∈ (Lexed.ofText src.text).tokens) :
    ∃ l, src.line? t.span.startLine = some l ∧ ('\n' ∉ t.lexeme.toList →
      t.lexeme.toUTF8.data.toList <+: l.toUTF8.data.toList.drop (t.span.startCol - 1)) := by
  by_cases hbroken : '\n' ∈ t.lexeme.toList
  · obtain ⟨l, hl⟩ := exists_line?_of_startsIn ((Lexed.startsIn src.text).1 t ht)
    exact ⟨l, hl, fun h => absurd hbroken h⟩
  · obtain ⟨pre, ds, d, post, hcut, hlexeme, hd, hline, hcol⟩ := (Lexed.scanned src.text).exists_cut ht
    have hreturn : d ≠ '\r' := by
      rintro rfl
      cases hd
    rw [hlexeme] at hbroken
    obtain ⟨l, hl, hprefix⟩ := line?_of_cut hcut hreturn hbroken
    rw [hline, hcol, ← Text.bytes_toList t.lexeme, hlexeme]
    exact ⟨l, hl, fun _ => hprefix⟩

end Source

/-! ### Lines of faults -/

mutual

theorem Expr.places_span {P : Span → Prop} (x : Option Ident) :
    ∀ e : Expr, e.Spans P → ∀ p ∈ e.places x, P p.span
  | .literal _ _, _ => by
    rw [Expr.places]
    exact List.forall_mem_nil _
  | .var _ y, h => by
    rw [Expr.places, List.forall_mem_singleton]
    exact (Expr.spans_iff.mp h).2.2 y List.mem_cons_self
  | .this _, h | .super _ _, h => by
    rw [Expr.places, List.forall_mem_singleton]
    exact (Expr.spans_iff.mp h).2.1
  | .assign _ _ e, h | .unary _ _ e, h | .get _ e _, h | .grouping _ e, h => by
    obtain ⟨hchildren, -⟩ := Expr.spans_iff.mp h
    rw [Expr.places]
    exact Expr.places_span x e (hchildren e List.mem_cons_self)
  | .binary _ l _ r, h | .logical _ l _ r, h => by
    obtain ⟨hchildren, -⟩ := Expr.spans_iff.mp h
    obtain ⟨hl, hr⟩ := List.forall_mem_cons.mp hchildren
    rw [Expr.places, List.forall_mem_append]
    exact ⟨Expr.places_span x l hl, Expr.places_span x r (hr r List.mem_cons_self)⟩
  | .set _ o _ v, h => by
    obtain ⟨hchildren, -⟩ := Expr.spans_iff.mp h
    obtain ⟨ho, hv⟩ := List.forall_mem_cons.mp hchildren
    rw [Expr.places, List.forall_mem_append]
    exact ⟨Expr.places_span x v (hv v List.mem_cons_self), Expr.places_span x o ho⟩
  | .call _ f as, h => by
    obtain ⟨hchildren, -⟩ := Expr.spans_iff.mp h
    obtain ⟨hf, has⟩ := List.forall_mem_cons.mp hchildren
    rw [Expr.places, List.forall_mem_append]
    exact ⟨Expr.places_span x f hf, Expr.listPlaces_span x as has⟩

theorem Expr.listPlaces_span {P : Span → Prop} (x : Option Ident) :
    ∀ es : List Expr, (∀ e ∈ es, e.Spans P) → ∀ p ∈ Expr.listPlaces x es, P p.span
  | [], _ => by
    rw [Expr.listPlaces]
    exact List.forall_mem_nil _
  | e :: es, h => by
    obtain ⟨he, hes⟩ := List.forall_mem_cons.mp h
    rw [Expr.listPlaces, List.forall_mem_append]
    exact ⟨Expr.places_span x e he, Expr.listPlaces_span x es hes⟩

end

theorem Site.mem_params {r : Routine} {around : List Enclosing} {xs before : List Ident} {t : Site}
    (h : t ∈ Site.params r around before xs) : ∃ x ∈ xs, t.place = .declaration x := by
  induction xs generalizing before with
  | nil => cases h
  | cons x xs ih =>
    rcases List.mem_cons.mp h with rfl | h
    · exact ⟨x, List.mem_cons_self, rfl⟩
    · obtain ⟨y, hy, hplace⟩ := ih h
      exact ⟨y, List.mem_cons_of_mem _ hy, hplace⟩

theorem Stmt.mem_listSites {ts : List Stmt} {around : List Enclosing} {t : Site}
    (h : t ∈ Stmt.listSites around ts) : ∃ s ∈ ts, ∃ around, t ∈ s.sites around := by
  induction ts generalizing around with
  | nil => cases h
  | cons s ts ih =>
    rw [Stmt.listSites] at h
    rcases List.mem_append.mp h with h | h
    · exact ⟨s, List.mem_cons_self, _, h⟩
    · obtain ⟨s', hs', h⟩ := ih h
      exact ⟨s', List.mem_cons_of_mem _ hs', h⟩

/-- The places at which rules may be broken in a statement have spans with a property. -/
def Stmt.PlaceSpans (P : Span → Prop) (s : Stmt) : Prop :=
  ∀ around, ∀ t ∈ s.sites around, P t.place.span

namespace Stmt

variable {P : Span → Prop} {around : List Enclosing}

theorem all_spans {places : List Place} (h : ∀ p ∈ places, P p.span) :
    ∀ t ∈ Site.all around places, P t.place.span :=
  List.forall_mem_map.mpr h

theorem PlaceSpans.of_isPlain {s : Stmt} (h : s.PlainSpans P) : s.PlaceSpans P := by
  intro around
  have hexprs := h.exprs
  cases s with
  | var x init sp =>
    rw [sites, List.forall_mem_cons]
    refine ⟨h.declared x init sp rfl, all_spans ?_⟩
    cases init with
    | none => exact List.forall_mem_nil _
    | some e => exact Expr.places_span (some x) e (hexprs e List.mem_cons_self)
  | print e sp | expr e sp =>
    rw [sites]
    exact all_spans (Expr.places_span none e (hexprs e List.mem_cons_self))
  | return_ value sp =>
    rw [sites, List.forall_mem_cons]
    refine ⟨h.span, all_spans ?_⟩
    cases value with
    | none => exact List.forall_mem_nil _
    | some e => exact Expr.places_span none e (hexprs e List.mem_cons_self)
  | _ => cases h.isPlain

theorem PlaceSpans.list {ts : List Stmt} (h : ∀ t ∈ ts, t.PlaceSpans P) :
    ∀ t ∈ listSites around ts, P t.place.span := by
  intro t ht
  obtain ⟨s, hs, around, ht⟩ := mem_listSites ht
  exact h s hs around t ht

theorem PlaceSpans.block {body : List Stmt} {sp : Span} (h : ∀ t ∈ body, t.PlaceSpans P) :
    (Stmt.block body sp).PlaceSpans P := by
  intro around
  rw [sites]
  exact list h

theorem PlaceSpans.while_ {cond : Expr} {body : Stmt} {sp : Span} (hcond : cond.Spans P)
    (hbody : body.PlaceSpans P) : (Stmt.while_ cond body sp).PlaceSpans P := by
  intro around
  rw [sites, List.forall_mem_append]
  exact ⟨all_spans (Expr.places_span none cond hcond), hbody around⟩

theorem PlaceSpans.loop {init : Option Stmt} {cond : Expr} {increment : Option Expr} {body : Stmt}
    {sp : Span} (hinit : ∀ s ∈ init, s.PlaceSpans P) (hcond : cond.Spans P)
    (hincrement : ∀ e ∈ increment, e.Spans P) (hbody : body.PlaceSpans P) :
    (Parser.withInit sp (.while_ cond (Parser.withIncrement sp body increment) sp) init).PlaceSpans P := by
  have hround : (Parser.withIncrement sp body increment).PlaceSpans P := by
    cases increment with
    | none => exact hbody
    | some e =>
      have hspans := hincrement e rfl
      have hlast : (Stmt.expr e e.span).PlainSpans P :=
        ⟨rfl, (Expr.spans_iff.mp hspans).2.1, nofun, List.forall_mem_singleton.mpr hspans⟩
      exact .block (List.forall_mem_cons.mpr ⟨hbody, List.forall_mem_singleton.mpr (.of_isPlain hlast)⟩)
  have hloop : (Stmt.while_ cond (Parser.withIncrement sp body increment) sp).PlaceSpans P :=
    .while_ hcond hround
  cases init with
  | none => exact hloop
  | some s =>
    exact .block (List.forall_mem_cons.mpr ⟨hinit s rfl, List.forall_mem_singleton.mpr hloop⟩)

end Stmt

theorem FunctionDecl.sites_span {P : Span → Prop} {r : Routine} {around : List Enclosing}
    {d : FunctionDecl} (hd : d.Spans P) (h : ∀ t ∈ d.body, t.PlaceSpans P) :
    ∀ t ∈ d.sites r around, P t.place.span := by
  obtain ⟨x, params, body, sp⟩ := d
  rw [FunctionDecl.sites, List.forall_mem_append]
  refine ⟨fun t ht => ?_, Stmt.PlaceSpans.list h⟩
  obtain ⟨y, hy, hplace⟩ := Site.mem_params ht
  rw [hplace]
  exact hd.params y hy

theorem FunctionDecl.listSites_span {P : Span → Prop} {super : Option Superclass}
    {around : List Enclosing} {ds : List FunctionDecl} (hds : ∀ d ∈ ds, d.Spans P)
    (h : ∀ d ∈ ds, ∀ t ∈ d.body, t.PlaceSpans P) :
    ∀ t ∈ FunctionDecl.listSites super around ds, P t.place.span := by
  induction ds with
  | nil =>
    rw [FunctionDecl.listSites]
    exact List.forall_mem_nil _
  | cons d ds ih =>
    obtain ⟨hd, hrest⟩ := List.forall_mem_cons.mp hds
    obtain ⟨hbody, hbodies⟩ := List.forall_mem_cons.mp h
    rw [FunctionDecl.listSites, List.forall_mem_append]
    exact ⟨FunctionDecl.sites_span hd hbody, ih hrest hbodies⟩

/-- All places at which rules may be broken have spans with a property that merged spans have. -/
def Standard.places (P : Span → Prop) (hmerge : ∀ {a b}, P a → P b → P (a.merge b)) : Standard where
  span := P
  stmt _ s := s.PlaceSpans P
  merge := hmerge
  plain := .of_isPlain
  block _ h := .block h
  ifElse {d cond t f sp} _ hcond ht hf around := by
    have hfirst : ∀ t ∈ Site.all around (cond.places none), P t.place.span :=
      Stmt.all_spans (Expr.places_span none cond hcond)
    cases f with
    | none =>
      rw [Stmt.sites, List.forall_mem_append]
      exact ⟨hfirst, ht around⟩
    | some f =>
      rw [Stmt.sites, List.forall_mem_append, List.forall_mem_append]
      exact ⟨⟨hfirst, ht around⟩, hf f rfl _⟩
  loop _ hinit hcond hincrement hbody := .loop (fun s hs => .of_isPlain (hinit s hs)) hcond hincrement hbody
  function {d decl} hdecl h around := by
    rw [Stmt.sites, List.forall_mem_cons]
    exact ⟨hdecl.name, FunctionDecl.sites_span hdecl h⟩
  class_ {d x super ms sp} hx hsuper hms h around := by
    rw [Stmt.sites, List.cons_append, List.forall_mem_cons, List.forall_mem_append]
    refine ⟨hx, Stmt.all_spans ?_, FunctionDecl.listSites_span hms h⟩
    cases super with
    | none => exact List.forall_mem_nil _
    | some p =>
      have hp := (hsuper p rfl).2
      exact List.forall_mem_cons.mpr ⟨hp, List.forall_mem_singleton.mpr hp⟩

theorem Lexed.faults_startsIn (text : String) :
    ∀ f ∈ (ofText text).faults, f.span.StartsIn text.toList := by
  intro f hf
  obtain ⟨l, hl, hfault⟩ := List.mem_filterMap.mp hf
  unfold Lexer.Placed.fault? at hfault
  split at hfault <;> cases hfault
  exact (scanned text).startsIn.1 l hl

/-- Whatever is found wrong with a text is found in one of its lines: by scanning, by parsing, and by resolving
what was parsed, whether or not something was wrong before. -/
theorem Parsed.faults_startsIn (text : String) (firstId : Nat) :
    (∀ f ∈ (ofText text firstId).faults, f.span.StartsIn text.toList) ∧
      ∀ f ∈ (Resolution.ofProgram (ofText text firstId).program).faults,
        f.span.StartsIn text.toList := by
  let lines := Standard.places (Span.StartsIn text.toList) .merge
  have hstart : (Span.point 1 1).StartsIn text.toList :=
    Position.advance_startsIn [] text.toList rfl
  obtain ⟨htokens, hfinish⟩ := Lexed.startsIn text
  constructor
  · refine List.forall_mem_append.mpr ⟨Lexed.faults_startsIn text, ?_⟩
    exact faults_ofTokens lines firstId htokens hfinish hstart
  · intro f hf
    rw [Resolution.faults_ofProgram] at hf
    obtain ⟨t, ht, hfault⟩ := List.mem_filterMap.mp hf
    obtain ⟨c, -, rfl⟩ := Option.map_eq_some_iff.mp hfault
    exact Stmt.PlaceSpans.list (meets_ofTokens lines firstId htokens hfinish hstart) t ht

namespace Source

variable {src : Source}

theorem sourceLine_diagnose {f : Fault} (h : f.span.StartsIn src.text.toList) :
    src.line? f.span.line = some (f.diagnose src).sourceLine := by
  obtain ⟨l, hl⟩ := exists_line?_of_startsIn h
  have hline : (f.diagnose src).sourceLine = (src.line? f.span.line).getD "" := rfl
  rw [hline, hl]
  rfl

/-- The two counts of lines agree. A source has one line more than its text has line feeds. The lines that it
can show, those with the numbers from 1 up to their count, are the segments of the text without the carriage
returns at their ends; cutting them out of the ranges that the index gives never fails. The spans of all tokens
and of the end of the input start in such lines, and a token without a line feed in it stands in the line, as
shown, at its column. So every diagnostic, whatever part of the front end it comes from, has the line that it
refers to. -/
theorem lines_of_spans (src : Source) (firstId : Nat) :
    let lexed := Lexed.ofText src.text
    let parsed := Parsed.ofText src.text firstId
    src.lineCount = 1 + src.bytes.count lineFeed ∧
      (∀ k, src.line? k = none ↔ k = 0 ∨ src.lineCount < k) ∧
      (∀ k, src.cutLine? k = some (src.line? k)) ∧
      (∀ i, src.line? (i + 1) = (Text.segments src.text.toList)[i]?.map fun seg =>
        .ofList (Text.dropTrailingReturns seg)) ∧
      (∀ k l, src.line? k = some l →
        ∃ first stop, src.lineRange? k = some (first, stop) ∧ src.IsLine k l first stop) ∧
      (∀ t ∈ lexed.tokens, ∃ l, src.line? t.span.startLine = some l ∧ ('\n' ∉ t.lexeme.toList →
        t.lexeme.toUTF8.data.toList <+: l.toUTF8.data.toList.drop (t.span.startCol - 1))) ∧
      (∃ l, src.line? lexed.finish.startLine = some l) ∧
      (∀ f ∈ lexed.faults ++ parsed.faults ++ (Resolution.ofProgram parsed.program).faults,
        src.line? f.span.line = some (f.diagnose src).sourceLine) ∧
      ∀ d ∈ (Compiled.ofSource src firstId).diagnostics.errors,
        src.line? d.span.line = some d.sourceLine := by
  intro lexed parsed
  obtain ⟨hparsed, hresolved⟩ := Parsed.faults_startsIn src.text firstId
  refine ⟨src.lineCount_eq, fun k => line?_eq_none_iff, src.cutLine?_eq, src.line?_succ,
    fun k l h => exists_isLine h, fun t ht => line?_of_token ht,
    exists_line?_of_startsIn (Lexed.startsIn src.text).2, ?_, ?_⟩
  · intro f hf
    refine sourceLine_diagnose ?_
    rcases List.mem_append.mp hf with hf | hf
    · exact (List.mem_append.mp hf).elim (Lexed.faults_startsIn src.text f) (hparsed f)
    · exact hresolved f hf
  · intro d hd
    obtain ⟨f, hf, rfl⟩ := List.mem_map.mp hd
    refine sourceLine_diagnose ?_
    rcases List.mem_append.mp (List.mem_of_mem_take hf) with hf | hf
    · exact hparsed f hf
    · split at hf
      · exact hresolved f hf
      · cases hf

/-- Three lines that end with different numbers of carriage returns; the second one has a fault. -/
def returnsSource : Source := ⟨"returns", "# \u00e9\r\r\n\tprint +;\r\n"⟩

theorem lines_of_spans_returnsSource :
    returnsSource.lineStarts = [0, 7, 18] ∧ returnsSource.cutLine? 1 = some (some "# \u00e9") ∧
      returnsSource.IsLine 1 "# \u00e9" 0 6 ∧ Text.slice? returnsSource.text 0 3 = none ∧
      (∃ d ∈ (Compiled.ofSource returnsSource 0).diagnostics.errors,
        d.span.line = 2 ∧ d.sourceLine = "\tprint +;" ∧
          returnsSource.line? d.span.line = some d.sourceLine) := by
  have hline : returnsSource.line? 1 = some "# \u00e9" := by decide +kernel
  have herrors : (Compiled.ofSource returnsSource 0).diagnostics.errors.map
      (fun d => (d.span.line, d.sourceLine)) = [(2, "\tprint +;")] := by decide +kernel
  have hrange : returnsSource.lineRange? 1 = some (0, 6) := by decide +kernel
  obtain ⟨-, -, hcut, -, hlines, -, -, -, hshown⟩ := lines_of_spans returnsSource 0
  obtain ⟨first, stop, hfound, hisLine⟩ := hlines 1 _ hline
  cases hfound.symm.trans hrange
  refine ⟨by decide +kernel, hline ▸ hcut 1, hisLine, by decide +kernel, ?_⟩
  obtain ⟨d, hd, heq⟩ := List.mem_map.mp (herrors ▸ List.mem_cons_self)
  obtain ⟨hnumber, htext⟩ := Prod.mk.inj heq
  exact ⟨d, hd, hnumber, htext, hshown d hd⟩

end Source

end HostScript
