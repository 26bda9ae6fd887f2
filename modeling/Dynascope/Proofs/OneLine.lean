import Dynascope.Proofs.EarliestErrors
import Dynascope.Proofs.KnownNames
import Dynascope.Proofs.LongestMatch
import Dynascope.Proofs.MinifiedRuns
import Dynascope.Shell

/-! # One line in, at most one line out

The text of every response is on one line. All names that get into a session come from tokens, so
they are on one line, and a run learns no others (`Program.run_knows`); an error at run time puts
nothing else into its message that could break it. The report of a text that is no program quotes
characters in an escaped form, and its second line is put behind the first. The text of an error of
the output itself is a parameter: `Session.Served.replies_oneLine`.
-/

set_option autoImplicit false

namespace Dynascope

open Lexer

/-! ## Texts on one line -/

namespace Text

/-- A character does not occur in a text. -/
def Lacks (c : Char) (s : String) : Prop :=
  c ∉ s.toList

/-- A text has no line feed and no carriage return. -/
def OneLine (s : String) : Prop :=
  Lacks '\n' s ∧ Lacks '\r' s

instance (c : Char) (s : String) : Decidable (Lacks c s) :=
  inferInstanceAs (Decidable (c ∉ s.toList))

instance (s : String) : Decidable (OneLine s) :=
  inferInstanceAs (Decidable (Lacks '\n' s ∧ Lacks '\r' s))

variable {a b : String}

@[simp] theorem lacks_append {c : Char} : Lacks c (a ++ b) ↔ Lacks c a ∧ Lacks c b := by
  simp [Lacks, not_or]

@[simp] theorem oneLine_append : OneLine (a ++ b) ↔ OneLine a ∧ OneLine b := by
  simp only [OneLine, lacks_append]
  exact and_and_and_comm

theorem OneLine.of_forall {p : Char → Bool} {s : String} (h : ∀ c ∈ s.toList, p c = true)
    (hn : p '\n' = false) (hr : p '\r' = false) : OneLine s :=
  ⟨fun hm => Bool.false_ne_true (hn.symm.trans (h _ hm)),
    fun hm => Bool.false_ne_true (hr.symm.trans (h _ hm))⟩

theorem OneLine.joinWith {separator : String} (hs : OneLine separator) {texts : List String}
    (h : ∀ t ∈ texts, OneLine t) : OneLine (joinWith separator texts) := by
  induction texts with
  | nil => exact ⟨List.not_mem_nil, List.not_mem_nil⟩
  | cons first rest ih =>
    obtain ⟨hf, hr⟩ := List.forall_mem_cons.1 h
    cases rest with
    | nil => exact hf
    | cons second rest => exact oneLine_append.2 ⟨oneLine_append.2 ⟨hf, hs⟩, ih hr⟩

/-! ### Numbers -/

theorem oneLine_digits {digits : List Char} (h : ∀ c ∈ digits, isDigit c = true) :
    OneLine (String.ofList digits) :=
  .of_forall (by rwa [String.toList_ofList]) rfl rfl

theorem oneLine_natToString (n : Nat) : OneLine (toString n) := by
  have e : toString n = String.ofList (Nat.toDigits 10 n) := Nat.toString_eq_ofList_toDigits
  rw [e]
  exact oneLine_digits fun _ => Spelling.isDigit_toDigits

theorem oneLine_intToString (n : Int64) : OneLine (toString n) := by
  show OneLine (Int.repr n.toInt)
  cases n.toInt with
  | ofNat k => exact oneLine_natToString k
  | negSucc k =>
    show OneLine ("-" ++ toString (k + 1))
    exact oneLine_append.2 ⟨by decide, oneLine_natToString (k + 1)⟩

/-! ### Quoted characters -/

/-- The digits of hexadecimal numbers. -/
def isHexDigit (c : Char) : Bool :=
  isDigit c || ('a' ≤ c && c ≤ 'f')

theorem isHexDigit_of_mem_toDigits {n : Nat} {c : Char} (h : c ∈ Nat.toDigits 16 n) :
    isHexDigit c = true := by
  have hdigit : ∀ k < 16, isHexDigit (Nat.digitChar k) = true := by decide
  induction n using Nat.strongRecOn with
  | _ n ih =>
    rcases Nat.lt_or_ge n 16 with hlt | hge
    · rw [Nat.toDigits_of_lt_base hlt, List.mem_singleton] at h
      exact h ▸ hdigit n hlt
    · rw [Nat.toDigits_of_base_le (by decide) hge, List.mem_append, List.mem_singleton] at h
      rcases h with h | rfl
      · exact ih (n / 16) (Nat.div_lt_self (by omega) (by decide)) h
      · exact hdigit _ (Nat.mod_lt n (by decide))

/-- The written form of a character is on one line. -/
theorem quoteChar_oneLine (c : Char) : '\n' ∉ quoteChar c ∧ '\r' ∉ quoteChar c := by
  have hhex (d : Char) (hd : isHexDigit d = false) : d ∉ hexDigits c.toNat := fun hm => by
    rw [isHexDigit_of_mem_toDigits hm] at hd
    cases hd
  have hn := hhex '\n' rfl
  have hr := hhex '\r' rfl
  unfold quoteChar
  split_ifs with _ _ _ _ hcr hlf
  any_goals decide
  · simp [hn, hr]
  · exact ⟨fun hm => hlf (List.mem_singleton.1 hm).symm,
      fun hm => hcr (List.mem_singleton.1 hm).symm⟩

theorem oneLine_quote (s : String) : OneLine (quote s) := by
  have h (d : Char) (hd : ∀ c, d ∉ quoteChar c) (hq : d ≠ '"') : Lacks d (quote s) := by
    simp [Lacks, quote, hd, hq]
  exact ⟨h '\n' (fun c => (quoteChar_oneLine c).1) (by decide),
    h '\r' (fun c => (quoteChar_oneLine c).2) (by decide)⟩

end Text

open Text

/-! ## Names and tokens -/

theorem IsName.oneLine {name : String} (h : IsName name) : OneLine name := by
  obtain ⟨⟨c, cs, e, hc, hcs⟩, -⟩ := h
  refine .of_forall (p := isNameChar) ?_ rfl rfl
  rw [e]
  exact List.forall_mem_cons.2 ⟨Spelling.isNameChar_of_isNameStart hc, List.all_eq_true.1 hcs⟩

theorem Token.oneLine_text {t : Token} (h : t.Lexical) : OneLine t.text := by
  cases t with
  | int n => exact oneLine_intToString n
  | ident name => exact h.oneLine
  | _ => decide

theorem Token.oneLine_kindName (t : Token) : OneLine t.kindName := by
  cases t with
  | int => exact (by decide : OneLine "int")
  | ident => exact (by decide : OneLine "ident")
  | _ => decide

theorem Span.oneLine_text (span : Span) : OneLine span.text := by
  simp only [text, oneLine_append, oneLine_natToString, and_true, true_and]
  decide

/-! ## Reports of texts that are no programs -/

/-- What the lexer and the parser put into an error: digits, and a token that can be read. -/
inductive CompileError.Legible : CompileError → Prop
  | unexpectedCharacter (char : Char) (span : Span) : Legible (.unexpectedCharacter char span)
  | literalOutOfRange {digits : List Char} (span : Span) :
      (∀ c ∈ digits, isDigit c = true) →
      Legible (.literalOutOfRange (String.ofList digits) span)
  | unexpectedToken {lexeme : Lexeme} (expected : List Token) : lexeme.token.Lexical →
      Legible (.unexpectedToken lexeme expected)
  | unexpectedEnd (position : Nat) (expected : List Token) :
      Legible (.unexpectedEnd position expected)

theorem legible_of_tokenize {source : String} {e : CompileError}
    (h : tokenize source = .error e) : e.Legible := by
  obtain ⟨before, bad, after, fault, ls, -, -, hs, rfl⟩ := scan_eq_error_iff.1 h
  cases hs with
  | character => exact .unexpectedCharacter _ _
  | literal hd => exact .literalOutOfRange _ hd

theorem legible_of_parse {ls : List Lexeme} (hl : ∀ l ∈ ls, l.token.Lexical) {e : CompileError}
    (h : parse ls = .error e) : e.Legible := by
  unfold parse at h
  split at h
  · rename_i e' hr
    cases h
    obtain ⟨xs, l, ys, s, rfl, -, -, rfl⟩ := Parser.run_eq_error hr
    exact .unexpectedToken _ (hl l (by simp))
  · split at h
    · cases h
    · cases h
      exact .unexpectedEnd _ _

theorem legible_of_parseSource {source : String} {e : CompileError}
    (h : parseSource source = .error e) : e.Legible := by
  unfold parseSource at h
  cases ht : tokenize source with
  | error e' =>
    rw [ht] at h
    cases h
    exact legible_of_tokenize ht
  | ok ls =>
    rw [ht] at h
    exact legible_of_parse (Spelling.lexical_of_tokenize ht) h

theorem CompileError.lacks_alternatives {names : List String}
    (h : ∀ x ∈ names, Lacks '\r' x) : Lacks '\r' (alternatives names) := by
  induction names with
  | nil => decide
  | cons first rest ih =>
    obtain ⟨hf, hr⟩ := List.forall_mem_cons.1 h
    have hrest := ih hr
    match rest with
    | [] => simp [alternatives, hf]; decide
    | [last] => simp [alternatives, hf, hr last]; decide
    | second :: third :: rest => simp [alternatives, hf, hrest]; decide

theorem CompileError.lacks_expectation (expected : List Token) :
    Lacks '\r' (expectation expected) := by
  unfold expectation
  split
  · decide
  · refine lacks_append.2 ⟨by decide, lacks_alternatives fun x hx => ?_⟩
    obtain ⟨t, -, rfl⟩ := List.mem_map.1 hx
    exact t.oneLine_kindName.2

theorem CompileError.Legible.lacks_text {e : CompileError} (h : e.Legible) : Lacks '\r' e.text := by
  have hspan := e.span.oneLine_text.2
  have hstage : Lacks '\r' e.stage.title := by cases e.stage <;> decide
  have hmessage : Lacks '\r' e.message := by
    cases h with
    | unexpectedCharacter char span =>
      exact lacks_append.2 ⟨by decide +kernel, (oneLine_quote _).2⟩
    | literalOutOfRange span hd => exact lacks_append.2 ⟨by decide +kernel, (oneLine_digits hd).2⟩
    | @unexpectedToken lexeme expected hl =>
      show Lacks '\r' ("Unrecognized token \x60" ++ lexeme.token.text ++ "\x60 found at "
        ++ toString lexeme.span.start ++ ":" ++ toString lexeme.span.stop ++ expectation expected)
      simp only [lacks_append, (Token.oneLine_text hl).2, (oneLine_natToString _).2,
        lacks_expectation, and_true]
      decide +kernel
    | unexpectedEnd position expected =>
      show Lacks '\r' ("Unrecognized EOF found at " ++ toString position ++ expectation expected)
      simp only [lacks_append, (oneLine_natToString _).2, lacks_expectation, and_true]
      decide +kernel
  simp only [text, lacks_append, hspan, hstage, hmessage, and_true, true_and]
  decide

/-- The report of a text that is no program is put on one line. -/
theorem CompileError.Legible.oneLine {e : CompileError} (h : e.Legible) : OneLine e.line := by
  -- only line feeds are replaced: a carriage return would stay
  have hr : '\r' ∉ e.text.toList := h.lacks_text
  constructor
  · simp only [Lacks, line, String.toList_map, List.mem_map, not_exists, not_and]
    intro c hc
    split <;> simp_all
  · simp only [Lacks, line, String.toList_map, List.mem_map, not_exists, not_and]
    intro c hc
    split
    · decide
    · rintro rfl
      exact hr hc

/-! ## Values and errors at run time -/

theorem Value.oneLine_text {v : Value} (h : v.Admitted (Closure.Knows OneLine)) :
    OneLine v.text := by
  cases v with
  | int n => exact oneLine_intToString n
  | closure c =>
    have hparams : OneLine (joinWith ", " c.params) := .joinWith (by decide) h.1
    simp only [text]
    split
    · decide
    · simp only [oneLine_append, hparams, and_true]
      decide
  | builtin b => cases b <;> decide
  | none => decide

/-- The report of an error, if the error of an output that takes no more has a given text. -/
def RuntimeError.textWith (sink : String) : RuntimeError → String
  | .sinkFull => "Runtime error: IO error: " ++ sink
  | e => e.text

theorem RuntimeError.oneLine_textWith {sink : String} (hs : OneLine sink) {e : RuntimeError}
    (h : ∀ x ∈ e.name?, OneLine x) : OneLine (e.textWith sink) := by
  have hkind (k : ValueKind) : OneLine k.name := by cases k <;> decide
  have hdemand (d : Demand) : OneLine d.name := by cases d <;> decide
  have hfault (f : ArithFault) : OneLine f.message := by
    cases f with
    | divisionByZero => decide +kernel
    | overflow op left right =>
      have hop : OneLine op.symbol := by cases op <;> decide
      show OneLine ("integer overflow: " ++ toString left ++ " " ++ op.symbol ++ " "
        ++ toString right)
      simp only [oneLine_append, oneLine_intToString, hop, and_true]
      decide +kernel
  have hmessage : e ≠ .sinkFull → OneLine e.message := fun hne => by
    cases e with
    | undefinedVariable name => exact oneLine_append.2 ⟨by decide +kernel, h name rfl⟩
    | arityMismatch name expected got =>
      show OneLine ("function " ++ name ++ " expects " ++ toString expected ++ " argument(s), got "
        ++ toString got)
      simp only [oneLine_append, oneLine_natToString, h name rfl, and_true]
      decide +kernel
    | fault why => exact hfault why
    | emptyRange first limit =>
      show OneLine ("for loop over empty range(" ++ toString first ++ ", " ++ toString limit ++ ")")
      simp only [oneLine_append, oneLine_intToString, and_true]
      decide +kernel
    | loopNeverExecuted => exact (by decide +kernel : OneLine "while loop body never executed")
    | notCallable name found =>
      show OneLine (name ++ " is not a function (found " ++ found.name ++ ")")
      simp only [oneLine_append, h name rfl, hkind, and_true, true_and]
      decide +kernel
    | typeMismatch demand found =>
      show OneLine ("type error: expected " ++ demand.name ++ ", got " ++ found.name)
      simp only [oneLine_append, hdemand, hkind, and_true]
      decide +kernel
    | callDepthExceeded limit =>
      exact oneLine_append.2 ⟨by decide +kernel, oneLine_natToString limit⟩
    | sinkFull => exact absurd rfl hne
  have htext (m : String) (hm : OneLine m) : OneLine ("Runtime error: " ++ m) :=
    oneLine_append.2 ⟨by decide +kernel, hm⟩
  cases e with
  | sinkFull => exact oneLine_append.2 ⟨by decide +kernel, hs⟩
  | _ => exact htext _ (hmessage RuntimeError.noConfusion)

/-! ## Responses -/

/-- Answers a line of source as `respond` does, if the error of an output that takes no more has a
given text. -/
def Session.respondWith (sink : String) (fuel : Nat) (line : String) (s : Session) :
    Response × Session :=
  if (Text.trim line).isEmpty then (.silent, s)
  else match s.evaluate fuel line with
    | (.value v, s) => (if v.isNone then .silent else .value v.text, s)
    | (.failure (.compile e), s) => (.error e.line, s)
    | (.failure (.runtime e), s) => (.error (e.textWith sink), s)
    | (.outOfFuel, s) => (.unfinished, s)

theorem RuntimeError.textWith_sink (e : RuntimeError) : e.textWith "sink full" = e.text := by
  cases e <;> rfl

theorem Session.respondWith_sink : respondWith "sink full" = respond := by
  funext fuel line s
  unfold respondWith respond
  split
  · rfl
  · rcases s.evaluate fuel line with ⟨_ | (e | e) | _, t⟩
    · rfl
    · rfl
    · simp only [RuntimeError.textWith_sink]
      rfl
    · rfl

/-- The text of a response, if it has one. -/
def Response.text? : Response → Option String
  | .value text | .error text => some text
  | .silent | .unfinished => none

/-- A response whose text, if it has one, is on one line. -/
def Response.OneLine (r : Response) : Prop :=
  ∀ text ∈ r.text?, Text.OneLine text

/-- What a session can become that has just begun, to which nothing but source texts is given. -/
inductive Session.Served : Session → Prop
  | start (maxCallDepth room : Option Nat) : Served (.start maxCallDepth room)
  | respond {s : Session} (fuel : Nat) (line : String) : Served s → Served (s.respond fuel line).2
  | evaluate {s : Session} (fuel : Nat) (source : String) :
      Served s → Served (s.evaluate fuel source).2
  | reset {s : Session} : Served s → Served s.reset
  | setMaxCallDepth {s : Session} (limit : Nat) : Served s → Served (s.setMaxCallDepth limit)
  | delivered {s : Session} : Served s → Served s.delivered

/-- How an input ends whose report is on one line. -/
inductive Outcome.Reportable : Outcome EvalError Value → Prop
  | value {v : Value} : v.Admitted (Closure.Knows OneLine) → Reportable (.value v)
  | compile {e : CompileError} : e.Legible → Reportable (.failure (.compile e))
  | runtime {e : RuntimeError} : (∀ x ∈ e.name?, OneLine x) → Reportable (.failure (.runtime e))
  | outOfFuel : Reportable .outOfFuel

namespace Session

variable {s : Session}

/-- An input keeps the names on one line that a session knows, and brings in no others. -/
theorem Knows.evaluate (h : s.Knows OneLine) (fuel : Nat) (source : String) :
    (s.evaluate fuel source).2.Knows OneLine ∧ (s.evaluate fuel source).1.Reportable := by
  unfold Session.evaluate
  cases hp : parseSource source with
  | error e => exact ⟨h, .compile (legible_of_parseSource hp)⟩
  | ok p =>
    have hnames : ∀ t ∈ p.statements, t.Knows OneLine := fun t ht x hx =>
      ((writable_of_parseSource hp t ht).1 x hx).oneLine
    have hbuiltins : ∀ b : Builtin, OneLine b.name := by
      intro b
      cases b <;> decide
    have hr := p.run_knows hbuiltins hnames (s := s.note (.started p.statements.length)) h fuel
    rcases hrun : p.run fuel (s.note (.started p.statements.length)) with ⟨o, t⟩
    rw [hrun] at hr
    simp only [hrun]
    obtain ⟨ht, ho⟩ := hr
    cases ho with
    | value hv => exact ⟨ht, .value hv⟩
    | failure he => exact ⟨ht, .runtime he⟩
    | outOfFuel => exact ⟨ht, .outOfFuel⟩

theorem respond_session (fuel : Nat) (line : String) (s : Session) :
    (s.respond fuel line).2 = if (trim line).isEmpty then s else (s.evaluate fuel line).2 := by
  unfold respond
  split
  · rfl
  · rcases s.evaluate fuel line with ⟨_ | _ | _, t⟩ <;> rfl

theorem respondWith_session (sink : String) (fuel : Nat) (line : String) (s : Session) :
    (s.respondWith sink fuel line).2 = (s.respond fuel line).2 := by
  rw [respond_session]
  unfold respondWith
  split
  · rfl
  · rcases s.evaluate fuel line with ⟨_ | (_ | _) | _, t⟩ <;> rfl

/-- The names in the closures of a session that is given source texts are on one line. -/
theorem Served.knows (h : s.Served) : s.Knows OneLine := by
  have hstart : ∀ v ∈ initialScope.values, v.Admitted (Closure.Knows OneLine) := by
    intro v hv
    simp only [initialScope, Scope.values, Scope.frames] at hv
    fin_cases hv <;> trivial
  induction h with
  | start => exact hstart
  | @respond s fuel line _ ih =>
    rw [respond_session]
    split
    · exact ih
    · exact (ih.evaluate fuel line).1
  | evaluate fuel source _ ih => exact (ih.evaluate fuel source).1
  | reset => exact hstart
  | setMaxCallDepth _ _ ih => exact ih
  | delivered _ ih => exact ih

end Session

/-- **One line in, at most one line out.** A response to any line, in any session that has been
given source texts before, has no line feed and no carriage return in its text, if the text of an
error of the output has none. Only the text of that error depends on the output. -/
theorem Session.Served.replies_oneLine {s : Session} (hs : s.Served) {sink : String}
    (h : Text.OneLine sink) (fuel : Nat) (line : String) :
    (s.respondWith sink fuel line).1.OneLine ∧
      (s.respondWith sink fuel line).2 = (s.respond fuel line).2 ∧
      Session.respondWith "sink full" = Session.respond := by
  refine ⟨fun text ht => ?_, respondWith_session sink fuel line s, respondWith_sink⟩
  obtain ⟨-, ho⟩ := hs.knows.evaluate fuel line
  unfold respondWith at ht
  split at ht
  · cases ht
  · rcases he : s.evaluate fuel line with ⟨o, t⟩
    rw [he] at ho ht
    cases ho with
    | @value v hv =>
      simp only at ht
      split at ht
      · cases ht
      · cases ht
        exact Value.oneLine_text hv
    | compile hl =>
      cases ht
      exact hl.oneLine
    | runtime hn =>
      cases ht
      exact RuntimeError.oneLine_textWith h hn
    | outOfFuel => cases ht

/-- A closure that was read from two lines, and an output that takes nothing. -/
theorem Session.Served.replies_oneLine_closure :
    (((Session.start none (some 0)).respond 9 "f = lambda a,\r\nb: print(a)").2.respondWith
      "disk full" 9 "f(f, 1)").1.OneLine :=
  (replies_oneLine (.respond 9 _ (.start none (some 0))) (by decide +kernel) 9 "f(f, 1)").1

end Dynascope
