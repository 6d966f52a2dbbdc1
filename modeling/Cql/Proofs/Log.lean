import Cql.Proofs.Failure

/-!
The log of a lexer. Each operation writes its lines as it goes, a line for a token when the token is
scanned, and in the end the log accounts for every step: the tokens that the counter moves over,
then the error or the character given up that is answered.
-/
namespace Cql

inductive LogLevel where
  | trace | debug
deriving DecidableEq

structure LogLine where
  level : LogLevel
  text : String
deriving DecidableEq

namespace LogLine

def display (x : LogLine) : String :=
  match x.level with
  | .trace => "TRACE " ++ x.text
  | .debug => "DEBUG " ++ x.text

theorem display_trace (text : String) : display ⟨.trace, text⟩ = "TRACE " ++ text := rfl

theorem display_debug (text : String) : display ⟨.debug, text⟩ = "DEBUG " ++ text := rfl

def ofToken (t : Token) : LogLine := ⟨.trace, t.display⟩

def ofError (e : LexicalError) : LogLine := ⟨.debug, "lexical error: " ++ e.message⟩

def ofSkipped (c : Char) (p : Position) : LogLine :=
  ⟨.debug, "skipped " ++ Unicode.quoteChar c ++ " at " ++ p.display⟩

end LogLine

def Event.line : Event → LogLine
  | .scanned t => .ofToken t
  | .failed e => .ofError e
  | .skipped c p => .ofSkipped c p

theorem Event.display_eq (e : Event) : e.display = e.line.display := by
  cases e with
  | scanned t => exact (LogLine.display_trace t.display).symm
  | failed e =>
    have h : "DEBUG lexical error: " = "DEBUG " ++ "lexical error: " := rfl
    change "DEBUG lexical error: " ++ e.message = _
    rw [h, String.append_assoc]
    exact (LogLine.display_debug _).symm
  | skipped c p =>
    have h : "DEBUG skipped " = "DEBUG " ++ "skipped " := rfl
    change "DEBUG skipped " ++ Unicode.quoteChar c ++ " at " ++ p.display = _
    rw [h]
    simp only [line, LogLine.ofSkipped, LogLine.display_debug, String.append_assoc]

def logged (c : Config) (events : List Event) : List LogLine :=
  (events.filter (Event.isLogged c)).map Event.line

@[simp] theorem logged_nil (c : Config) : logged c [] = [] := rfl

@[simp] theorem logged_cons_scanned (c : Config) (t : Token) (es : List Event) :
    logged c (.scanned t :: es) =
      (if c.traceTokens then [.ofToken t] else []) ++ logged c es := by
  cases h : c.traceTokens <;> simp [logged, Event.isLogged, Event.line, h]

@[simp] theorem logged_cons_failed (c : Config) (e : LexicalError) (es : List Event) :
    logged c (.failed e :: es) = .ofError e :: logged c es := rfl

@[simp] theorem logged_cons_skipped (c : Config) (d : Char) (p : Position) (es : List Event) :
    logged c (.skipped d p :: es) = .ofSkipped d p :: logged c es := rfl

@[simp] theorem logged_append (c : Config) (es es' : List Event) :
    logged c (es ++ es') = logged c es ++ logged c es' := by
  simp only [logged, List.filter_append, List.map_append]

namespace Lexer

/-- The lines that a scan writes: nothing at the end of the text, an error always, a token if tokens
are traced. -/
def nextLines (l : Lexer) : List LogLine :=
  if l.atEnd then []
  else match l.next.result with
    | .error e => [.ofError e]
    | .ok t => if l.config.traceTokens then [.ofToken t] else []

/-- Looking ahead is a scan by a copy that traces nothing. -/
def peekLines (l : Lexer) : List LogLine := l.untraced.nextLines

def pullLines (l : Lexer) : List LogLine := if l.finished then [] else l.nextLines

def skipLines (l : Lexer) : List LogLine :=
  match l.skip with
  | ⟨none, _, _⟩ => []
  | ⟨some c, l', _⟩ => [.ofSkipped c l'.position]

def significantLines (l : Lexer) : List LogLine :=
  match _ : l.next with
  | ⟨.error _, _, _⟩ => l.nextLines
  | ⟨.ok t, l', _⟩ => if _ : t.isHidden then l.nextLines ++ significantLines l' else l.nextLines
termination_by l.rest.length
decreasing_by exact length_rest_next ‹_› (not_eof_of_hidden ‹_› ‹_›)

def collectLines (l : Lexer) : List LogLine :=
  match _ : l.next with
  | ⟨.error _, _, _⟩ => l.nextLines
  | ⟨.ok t, l', _⟩ => if _ : t.isEof then l.nextLines else l.nextLines ++ collectLines l'
termination_by l.rest.length
decreasing_by exact length_rest_next ‹_› (eq_false_of_ne_true ‹_›)

section Lines
variable {l l' : Lexer} {x : Lexeme} {fault : Fault} {es : List Event}

@[simp] theorem nextLines_of_error (hf : scan l.rest = .error fault) :
    l.nextLines = [.ofError ⟨fault, l.position⟩] := by
  have hr := rest_ne_nil_of_error hf
  simp [nextLines, atEnd, hr, hf]

@[simp] theorem nextLines_of_nil (hr : l.rest = []) : l.nextLines = [] := by
  simp [nextLines, atEnd, hr]

@[simp] theorem nextLines_of_ok (hr : l.rest ≠ []) (hx : scan l.rest = .ok x) :
    l.nextLines = if l.config.traceTokens then [.ofToken (l.token x)] else [] := by
  simp [nextLines, atEnd, hr, hx]

@[simp] theorem significantLines_of_error (hf : scan l.rest = .error fault) :
    l.significantLines = l.nextLines := by
  rw [significantLines]
  split
  · rfl
  · rename_i hn
    rw [next_of_error hf] at hn
    cases hn

@[simp] theorem significantLines_of_nil (hr : l.rest = []) : l.significantLines = l.nextLines := by
  rw [significantLines]
  split
  · rfl
  · rename_i hn
    rw [next_of_nil hr] at hn
    cases hn
    rfl

@[simp] theorem significantLines_of_ok (hr : l.rest ≠ []) (hx : scan l.rest = .ok x) :
    l.significantLines =
      if (l.token x).isHidden then l.nextLines ++ (l.pass x).significantLines
      else l.nextLines := by
  rw [significantLines]
  split <;> rename_i hn <;> rw [next_of_ok hr hx] at hn <;> cases hn
  rfl

@[simp] theorem collectLines_of_error (hf : scan l.rest = .error fault) :
    l.collectLines = l.nextLines := by
  rw [collectLines]
  split
  · rfl
  · rename_i hn
    rw [next_of_error hf] at hn
    cases hn

@[simp] theorem collectLines_of_nil (hr : l.rest = []) : l.collectLines = l.nextLines := by
  rw [collectLines]
  split
  · rfl
  · rename_i hn
    rw [next_of_nil hr] at hn
    cases hn
    exact dif_pos (endToken_isEof l)

@[simp] theorem collectLines_of_ok (hr : l.rest ≠ []) (hx : scan l.rest = .ok x) :
    l.collectLines = l.nextLines ++ (l.pass x).collectLines := by
  rw [collectLines]
  split <;> rename_i hn <;> rw [next_of_ok hr hx] at hn <;> cases hn
  simp [isEof_token hr hx]

theorem logged_next (l : Lexer) : logged l.config l.next.events = l.nextLines := by
  obtain ⟨f, hf, -⟩ | ⟨hr, -⟩ | ⟨x, hr, hx, -, -⟩ := next_cases l
  · simp [hf]
  · simp [hr]
  · simp [hr, hx]

theorem logged_peek (l : Lexer) : logged l.config l.peek.events = l.peekLines := by
  have hc : l.untraced.config.traceTokens = false := rfl
  have hp : l.untraced.position = l.position := rfl
  obtain ⟨f, hf, -⟩ | ⟨hr, -⟩ | ⟨x, hr, hx, -, -⟩ := next_cases l
  · simp [peek_eq, peekLines, hf, hp, List.filter_cons, Event.isFailure]
  · simp [peek_eq, peekLines, hr]
  · simp [peek_eq, peekLines, hr, hx, hc, Event.isFailure]

theorem logged_pull (l : Lexer) : logged l.config l.pull.events = l.pullLines := by
  obtain ⟨hd, -⟩ | ⟨hd, f, hf, -⟩ | ⟨hd, hr, -⟩ | ⟨hd, x, hr, hx, -, -⟩ := pull_cases l
  · simp [pullLines, hd]
  · simp [pullLines, hd, hf]
  · simp [pullLines, hd, hr]
  · simp [pullLines, hd, hr, hx]

theorem logged_skip (l : Lexer) : logged l.config l.skip.events = l.skipLines := by
  cases hr : l.rest <;> simp [skipLines, skip, hr]

theorem logged_nextSignificant (l : Lexer) :
    logged l.config l.nextSignificant.events = l.significantLines := by
  induction l using scan_induction with
  | fail l fault hf _ => simp [hf]
  | stop l hr => simp [hr]
  | pass l x hr hx ih =>
    have hc : (l.pass x).config = l.config := rfl
    rw [hc] at ih
    cases hh : (l.token x).isHidden <;> simp [hr, hx, hh, ih]

theorem logged_collect (hidden : Bool) (l : Lexer) :
    logged l.config (l.collect hidden).events = l.collectLines := by
  induction l using scan_induction with
  | fail l fault hf _ => simp [hf]
  | stop l hr => simp [hr]
  | pass l x hr hx ih =>
    have hc : (l.pass x).config = l.config := rfl
    rw [hc] at ih
    simp [hr, hx, ih]

end Lines

theorem Move.config_eq {l l' : Lexer} {es : List Event} (h : Move l es l') :
    l'.config = l.config := by
  cases h <;> rfl

theorem Path.config_eq {l l' : Lexer} {es : List Event} (h : Path l es l') :
    l'.config = l.config :=
  h.invariant (P := (·.config = l.config)) (fun hl hm => hm.config_eq.trans hl) rfl

end Lexer

namespace Session
open Lexer
variable {s : Session} {op : Operation}

/-- The lines that an operation writes. -/
def lines (s : Session) : Operation → List LogLine
  | .next => s.lexer.nextLines
  | .nextSignificant => s.lexer.significantLines
  | .peek => s.lexer.peekLines
  | .pull => s.lexer.pullLines
  | .skip => s.lexer.skipLines
  | .tokenize | .tokenizeAll => s.lexer.collectLines
  | .position | .offset | .atEnd | .config | .save | .restore => []

theorem config_perform (h : op ≠ .restore) :
    (s.perform op).session.lexer.config = s.lexer.config :=
  (s.perform_path h).config_eq

@[simp] theorem events_restore (s : Session) : (s.perform .restore).events = [] := by
  cases hs : s.saved <;> simp [perform, hs]

theorem logged_perform (s : Session) (op : Operation) :
    logged s.lexer.config (s.perform op).events = s.lines op := by
  cases op with
  | next => exact s.lexer.logged_next
  | nextSignificant => exact s.lexer.logged_nextSignificant
  | peek => exact s.lexer.logged_peek
  | pull => exact s.lexer.logged_pull
  | skip => exact s.lexer.logged_skip
  | tokenize | tokenizeAll => exact s.lexer.logged_collect _
  | position | offset | atEnd | config | save => rfl
  | restore => simp [lines]

/-- What is written as things happen is what is logged of them afterwards. -/
theorem log_perform (s : Session) (op : Operation) :
    (s.perform op).log.map Event.line = s.lines op := by
  rw [← logged_perform, Report.log]
  by_cases hop : op = .restore
  · simp [hop]
  · rw [config_perform hop, logged]

/-- All that a sequence of operations comes to, one after another. -/
def along {β : Type} (f : Session → Operation → List β) (s : Session) : List Operation → List β
  | [] => []
  | op :: ops => f s op ++ along f (s.perform op).session ops

/-- The tokens that an operation moves the counter over, had one by one from where it begins. -/
def counted (s : Session) (op : Operation) : List Token :=
  let n := (s.perform op).session.lexer.index - s.lexer.index
  (s.answers (List.replicate n .next)).flatMap Answer.tokenList

end Session

/-- What happens with an answer that is no token. -/
def Answer.events (p : Position) : Answer → List Event
  | .error e => [.failed e]
  | .character c => [.skipped c p]
  | _ => []

def Answer.lines (p : Position) (a : Answer) : List LogLine := (a.events p).map Event.line

@[simp] theorem logged_events (c : Config) (p : Position) (a : Answer) :
    logged c (a.events p) = a.lines p := by
  cases a <;> rfl

@[simp] theorem logged_scanned (c : Config) (ts : List Token) :
    logged c (ts.map .scanned) = if c.traceTokens then ts.map .ofToken else [] := by
  cases h : c.traceTokens with
  | true =>
    have hall : (ts.map Event.scanned).filter (Event.isLogged c) = ts.map .scanned :=
      List.filter_eq_self.2 (by simp [Event.isLogged, h])
    rw [logged, hall, List.map_map]
    rfl
  | false =>
    have hnone : (ts.map Event.scanned).filter (Event.isLogged c) = [] :=
      List.filter_eq_nil_iff.2 (by simp [Event.isLogged, h])
    rw [logged, hnone]
    rfl

@[simp] theorem taken_events (p : Position) (a : Answer) : taken (a.events p) = [] := by
  cases a <;> rfl

@[simp] theorem taken_map_scanned (ts : List Token) : taken (ts.map .scanned) = ts := by
  induction ts with
  | nil => rfl
  | cons t ts ih => simp [ih]

namespace Lexer
variable {l : Lexer} {x : Lexeme} {es : List Event} {p : Position} {a : Answer}

/-- What happens from a lexer on: it passes tokens, and then there is what goes with an answer. -/
def Emits (l : Lexer) (es : List Event) (p : Position) (a : Answer) : Prop :=
  ∃ ts m, Passes l ts m ∧ es = ts.map .scanned ++ a.events p

theorem Emits.here (he : es = a.events p) : l.Emits es p a := ⟨[], l, .refl l, he⟩

theorem Emits.pass (hr : l.rest ≠ []) (hx : scan l.rest = .ok x) (h : (l.pass x).Emits es p a) :
    l.Emits (.scanned (l.token x) :: es) p a := by
  obtain ⟨ts, m, hp, he⟩ := h
  exact ⟨l.token x :: ts, m, .cons hr hx hp, congrArg (List.cons _) he⟩

theorem Emits.passes (h : l.Emits es p a) : ∃ m, Passes l (taken es) m := by
  obtain ⟨ts, m, hp, rfl⟩ := h
  exact ⟨m, by simpa using hp⟩

theorem Emits.logged (h : l.Emits es p a) (c : Config) : logged c es =
    (if c.traceTokens then (taken es).map .ofToken else []) ++ a.lines p := by
  obtain ⟨ts, m, -, rfl⟩ := h
  simp

theorem next_emits (l : Lexer) (p : Position) :
    l.Emits l.next.events p (.ofToken l.next.result) := by
  obtain ⟨f, hf, hn⟩ | ⟨hr, hn⟩ | ⟨x, hr, hx, -, hn⟩ := next_cases l <;> rw [hn]
  · exact .here rfl
  · exact .here rfl
  · exact .pass hr hx (.here rfl)

theorem peek_emits (l : Lexer) (p : Position) :
    l.Emits l.peek.events p (.ofToken l.peek.result) := by
  obtain ⟨f, hf, hn⟩ | ⟨hr, hn⟩ | ⟨x, hr, hx, -, hn⟩ := next_cases l <;> rw [peek_eq, hn] <;>
    exact .here rfl

theorem pull_emits (l : Lexer) (p : Position) :
    l.Emits l.pull.events p ((l.pull.result.map Answer.ofToken).getD .nothing) := by
  obtain ⟨hd, hp⟩ | ⟨hd, f, hf, hp⟩ | ⟨hd, hr, hp⟩ | ⟨hd, x, hr, hx, -, hp⟩ := pull_cases l <;>
    rw [hp]
  · exact .here rfl
  · exact .here rfl
  · exact .here rfl
  · exact .pass hr hx (.here rfl)

theorem skip_emits (l : Lexer) : l.Emits l.skip.events l.skip.lexer.position
    ((l.skip.result.map Answer.character).getD .nothing) := by
  cases hr : l.rest with
  | nil =>
    simp only [skip, hr]
    exact .here rfl
  | cons c cs =>
    simp only [skip, hr]
    exact .here rfl

theorem nextSignificant_emits (l : Lexer) (p : Position) :
    l.Emits l.nextSignificant.events p (.ofToken l.nextSignificant.result) := by
  induction l using scan_induction with
  | fail l fault hf _ =>
    rw [nextSignificant_of_error hf]
    exact .here rfl
  | stop l hr =>
    rw [nextSignificant_of_nil hr]
    exact .here rfl
  | pass l x hr hx ih =>
    rw [nextSignificant_of_ok hr hx]
    split
    · exact .pass hr hx ih
    · exact .pass hr hx (.here rfl)

theorem collect_emits (hidden : Bool) (l : Lexer) (p : Position) :
    l.Emits (l.collect hidden).events p (.ofTokens (l.collect hidden).result) := by
  induction l using scan_induction with
  | fail l fault hf _ =>
    rw [collect_of_error hidden hf]
    exact .here rfl
  | stop l hr =>
    rw [collect_of_nil hidden hr]
    exact .here rfl
  | pass l x hr hx ih =>
    rw [collect_of_ok hidden hr hx]
    apply Emits.pass hr hx
    -- a token more in a list leaves an error as it is
    cases he : ((l.pass x).collect hidden).result <;> rw [he] at ih <;> exact ih

end Lexer

namespace Session
open Lexer
variable {s : Session} {op : Operation}

theorem perform_emits (s : Session) (hop : op ≠ .restore) : s.lexer.Emits (s.perform op).events
    (s.perform op).session.lexer.position (s.perform op).answer := by
  cases op with
  | next => exact s.lexer.next_emits _
  | nextSignificant => exact s.lexer.nextSignificant_emits _
  | peek => exact s.lexer.peek_emits _
  | pull => exact s.lexer.pull_emits _
  | skip => exact s.lexer.skip_emits
  | tokenize | tokenizeAll => exact s.lexer.collect_emits _ _
  | position | offset | atEnd | config | save => exact .here rfl
  | restore => exact absurd rfl hop

theorem counted_eq (s : Session) (hop : op ≠ .restore) :
    s.counted op = taken (s.perform op).events := by
  obtain ⟨m, hp⟩ := (s.perform_emits hop).passes
  have hn : (s.perform op).session.lexer.index - s.lexer.index =
      (taken (s.perform op).events).length := by
    rw [(s.perform_path hop).indices.2, Nat.add_sub_cancel_left]
  rw [counted, hn, (after_next s.saved hp).1, List.flatMap_map]
  exact List.flatMap_singleton' _

theorem lines_perform (s : Session) (hop : op ≠ .restore) :
    s.lines op = (if s.lexer.config.traceTokens then (s.counted op).map .ofToken else []) ++
      (s.perform op).answer.lines (s.perform op).session.lexer.position := by
  rw [← logged_perform, counted_eq s hop]
  exact (s.perform_emits hop).logged s.lexer.config

theorem along_counted {ops : List Operation} (s : Session) (h : .restore ∉ ops) :
    s.along counted ops = taken ((s.run ops).flatMap Report.events) := by
  induction ops generalizing s with
  | nil => rfl
  | cons op ops ih =>
    obtain ⟨hop, hops⟩ := List.ne_and_not_mem_of_not_mem_cons h
    simp [along, run, counted_eq s (Ne.symm hop), ih _ hops]

theorem filter_trace_lines (p : Position) (a : Answer) :
    (a.lines p).filter (·.level = .trace) = [] := by
  cases a <;> rfl

theorem filter_trace_ofToken (ts : List Token) :
    (ts.map LogLine.ofToken).filter (·.level = .trace) = ts.map .ofToken :=
  List.filter_eq_self.2 (by simp [LogLine.ofToken])

theorem after_config {l : Lexer} (ops : List Operation) :
    ((ofLexer l).after ops).lexer.config = l.config :=
  after_forall (P := (·.config = l.config)) (List.forall_mem_singleton.2 rfl)
    fun _ _ _ hop _ hc => (config_perform hop).trans hc

theorem along_lines {ops : List Operation} (s : Session) (h : .restore ∉ ops)
    (ht : s.lexer.config.traceTokens = true) :
    (s.along lines ops).filter (·.level = .trace) = (s.along counted ops).map .ofToken := by
  induction ops generalizing s with
  | nil => rfl
  | cons op ops ih =>
    obtain ⟨hop, hops⟩ := List.ne_and_not_mem_of_not_mem_cons h
    have hc := config_perform (s := s) (Ne.symm hop)
    rw [along, along, List.filter_append, List.map_append, ih _ hops (hc ▸ ht),
      lines_perform s (Ne.symm hop), if_pos ht, List.filter_append, filter_trace_ofToken,
      filter_trace_lines, List.append_nil]

theorem taken_peek (l : Lexer) : taken l.peek.events = [] := by
  obtain ⟨f, -, hn⟩ | ⟨-, hn⟩ | ⟨x, -, -, -, hn⟩ := next_cases l <;> rw [peek_eq, hn] <;> rfl

theorem lines_of_pull_nothing (h : (s.perform .pull).answer = .nothing) : s.lines .pull = [] := by
  change (s.lexer.pull.result.map Answer.ofToken).getD .nothing = .nothing at h
  rw [← logged_perform]
  change logged _ s.lexer.pull.events = []
  obtain ⟨-, hp⟩ | ⟨-, f, -, hp⟩ | ⟨-, -, hp⟩ | ⟨-, x, -, -, -, hp⟩ := pull_cases s.lexer
  all_goals rw [hp] at h ⊢
  · rfl
  · cases h
  · rfl
  · cases h

theorem lines_of_skip_nothing (h : (s.perform .skip).answer = .nothing) : s.lines .skip = [] := by
  change (s.lexer.skip.result.map Answer.character).getD .nothing = .nothing at h
  change s.lexer.skipLines = []
  cases hr : s.lexer.rest with
  | nil => simp only [skipLines, skip, hr]
  | cons c cs =>
    simp only [skip, hr] at h
    cases h

/-- The log accounts for every step. What an operation writes, line by line as it goes on, is what
is logged of it: a line for each token that the counter moves over, if tokens are traced, and then
the line of the error or of the character given up that is answered. A whole session that traces
tokens has a line for each token taken, numbered from zero. -/
theorem log_accounts {text : List Char} {l : Lexer} (hl : Begins text l) (ops : List Operation) :
    let s := (ofLexer l).after ops
    (∀ op, (s.perform op).log.map Event.display = (s.lines op).map LogLine.display) ∧
    (∀ op, op ≠ .restore →
      let r := s.perform op
      s.lines op = (if l.config.traceTokens then (s.counted op).map .ofToken else []) ++
          r.answer.lines r.session.lexer.position ∧
        (s.counted op).map Token.index =
          List.range' s.lexer.index (r.session.lexer.index - s.lexer.index) ∧
        ∀ t ∈ s.counted op, t.isEof = false) ∧
    s.counted .peek = [] ∧ s.lines .restore = [] ∧
    (∀ op ∈ [Operation.pull, .skip], (s.perform op).answer = .nothing → s.lines op = []) ∧
    (.restore ∉ ops → l.config.traceTokens = true →
      let ts := (ofLexer l).along counted ops
      ((ofLexer l).along lines ops).filter (·.level = .trace) = ts.map .ofToken ∧
        ts.map Token.index = List.range s.lexer.index) := by
  intro s
  have hconfig : s.lexer.config = l.config := after_config ops
  refine ⟨fun op => ?_, fun op hop => ⟨?_, ?_, ?_⟩, ?_, rfl, fun op hop hn => ?_, fun h ht => ?_⟩
  · rw [← log_perform, List.map_map]
    exact List.map_congr_left fun e _ => e.display_eq
  · rw [← hconfig]
    exact lines_perform s hop
  · obtain ⟨hi, hn⟩ := (s.perform_path hop).indices
    rw [counted_eq s hop, hi, hn, Nat.add_sub_cancel_left]
  · obtain ⟨m, hp⟩ := (s.perform_emits hop).passes
    rw [counted_eq s hop]
    exact hp.not_eof
  · rw [counted_eq s (by decide)]
    exact taken_peek s.lexer
  · simp only [List.mem_cons, List.not_mem_nil, or_false] at hop
    obtain rfl | rfl := hop
    · exact lines_of_pull_nothing hn
    · exact lines_of_skip_nothing hn
  · obtain ⟨hi, hn⟩ := (run_path (ofLexer l) h).indices
    have hindex : (ofLexer l).lexer.index = 0 := hl.index_eq
    rw [hindex, Nat.zero_add] at hn
    refine ⟨along_lines (ofLexer l) h ht, ?_⟩
    rw [along_counted (ofLexer l) h, hi, hindex, ← hn, List.range_eq_range']

/-- A string that is never closed loses two tokens, and then one character of it is given up. -/
theorem log_accounts_behind_lost_tokens :
    let text := ['a', ' ', '\'', '\n']
    let l : Lexer := .ofText { traceTokens := true } text
    let ops : List Operation := [.tokenize, .peek, .skip, .pull, .pull]
    let s := ofLexer l
    let e : LexicalError := ⟨.unterminated .string, ⟨1, 3, 2⟩⟩
    Begins text l ∧ .restore ∉ ops ∧ l.config.traceTokens = true ∧
      (s.along lines ops).map LogLine.display =
        ["TRACE OBJECT_NAME('a') at 1:1", "TRACE SPACE(' ') at 1:2",
          "DEBUG lexical error: Unterminated string literal starting at 1:3",
          "DEBUG lexical error: Unterminated string literal starting at 1:3",
          "DEBUG skipped '\\'' at 1:4", "TRACE SPACE('\\n') at 1:4"] ∧
      (s.perform .tokenize).answer = .error e ∧
      s.lines .tokenize = (s.counted .tokenize).map .ofToken ++ [.ofError e] ∧
      (s.along lines ops).filter (·.level = .trace) = (s.along counted ops).map .ofToken ∧
      (s.along counted ops).map Token.index = [0, 1, 2] := by
  intro text l ops s e
  have hl : Begins text l := .ofText _
  have h : .restore ∉ ops := by decide
  have hwritten : (s.along lines ops).map LogLine.display =
      ["TRACE OBJECT_NAME('a') at 1:1", "TRACE SPACE(' ') at 1:2",
        "DEBUG lexical error: Unterminated string literal starting at 1:3",
        "DEBUG lexical error: Unterminated string literal starting at 1:3",
        "DEBUG skipped '\\'' at 1:4", "TRACE SPACE('\\n') at 1:4"] := by
    decide +kernel
  have he : (s.perform .tokenize).answer = .error e := by decide +kernel
  have hindex : (s.after ops).lexer.index = 3 := by decide +kernel
  obtain ⟨-, hstep, -⟩ := log_accounts hl []
  have htokenize := (hstep .tokenize (by decide)).1
  obtain ⟨-, -, -, -, -, hsession⟩ := log_accounts hl ops
  obtain ⟨hlines, hcounted⟩ := hsession h rfl
  rw [hindex] at hcounted
  refine ⟨hl, h, rfl, hwritten, he, htokenize.trans ?_, hlines, hcounted⟩
  have hlast : (s.perform .tokenize).answer.lines (s.perform .tokenize).session.lexer.position =
      [.ofError e] := by
    rw [he]
    rfl
  exact congrArg (_ ++ ·) hlast

end Session
end Cql
