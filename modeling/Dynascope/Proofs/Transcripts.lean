import Dynascope.Proofs.KnownNames
import Dynascope.Shell

/-! # Transcripts of the shell

A `Transcript` is what the shell answers to some lines, one reply to a line up to the one that ends
it, with the session that is left; the shell writes these replies (`Shell.feedAll_eq_transcript`).
It goes through the lines from left to right (`Shell.transcript_append`), and between two lines
nothing is left to deliver, so a line that leaves the session alone can be left out. After a reset
the session is that of a new shell, as no line changes the limits. Together:
`Shell.transcripts_forget`.
-/

set_option autoImplicit false

namespace Dynascope

/-! ## Transcripts -/

/-- What a shell did: a reply to every line that it took, the session that is left, and whether it
goes on. -/
structure Transcript where
  replies : List Reply
  session : Session
  goesOn : Bool

namespace Transcript

/-- A transcript, and what the shell does from then on if it goes on. -/
def andThen (t : Transcript) (next : Session → Transcript) : Transcript :=
  if t.goesOn then
    { next t.session with replies := t.replies ++ (next t.session).replies }
  else t

/-- A transcript without one of its replies. -/
def eraseReply (t : Transcript) (i : Nat) : Transcript :=
  { t with replies := t.replies.eraseIdx i }

/-- A transcript without some replies at its beginning. -/
def dropReplies (t : Transcript) (n : Nat) : Transcript :=
  { t with replies := t.replies.drop n }

end Transcript

namespace Shell

variable {fuel : Nat} {v : Verbosity} {line : String} {s : Session}

/-- The transcript of a shell that takes lines in order, up to the first that ends it. -/
def transcript (fuel : Nat) (v : Verbosity) (s : Session) : List String → Transcript
  | [] => ⟨[], s, true⟩
  | line :: rest =>
    match feed fuel v line s with
    | (reply, s, true) =>
      { transcript fuel v s rest with replies := reply :: (transcript fuel v s rest).replies }
    | (reply, s, false) => ⟨[reply], s, false⟩

/-- The shell writes the replies of its transcript, one after the other. -/
theorem feedAll_eq_transcript (fuel : Nat) (v : Verbosity) (s : Session) (lines : List String) :
    feedAll fuel v s lines = (transcript fuel v s lines).replies.foldr Reply.append {} := by
  induction lines generalizing s with
  | nil => rfl
  | cons line rest ih =>
    rw [feedAll, transcript]
    rcases feed fuel v line s with ⟨reply, t, _ | _⟩
    · simp [Reply.append]
    · simp [ih]

theorem transcript_append (xs ys : List String) :
    transcript fuel v s (xs ++ ys) =
      (transcript fuel v s xs).andThen fun t => transcript fuel v t ys := by
  induction xs generalizing s with
  | nil => rfl
  | cons line rest ih =>
    rw [List.cons_append, transcript, transcript]
    rcases feed fuel v line s with ⟨reply, t, _ | _⟩
    · rfl
    · simp only [ih, Transcript.andThen]
      split <;> rfl

/-- A property of sessions that every line keeps holds of the session that is left. -/
theorem transcript_keeps {P : Session → Prop}
    (h : ∀ line s, P s → P (feed fuel v line s).2.1) (lines : List String) (hs : P s) :
    P (transcript fuel v s lines).session := by
  induction lines generalizing s with
  | nil => exact hs
  | cons line rest ih =>
    have ht := h line s hs
    rw [transcript]
    rcases hf : feed fuel v line s with ⟨reply, t, _ | _⟩ <;> rw [hf] at ht
    · exact ht
    · exact ih ht

theorem length_replies_le (fuel : Nat) (v : Verbosity) (s : Session) (lines : List String) :
    (transcript fuel v s lines).replies.length ≤ lines.length := by
  induction lines generalizing s with
  | nil => exact Nat.le_refl 0
  | cons line rest ih =>
    rw [transcript]
    rcases feed fuel v line s with ⟨reply, t, _ | _⟩
    · simp
    · exact Nat.succ_le_succ (ih t)

theorem length_replies {lines : List String} (h : (transcript fuel v s lines).goesOn = true) :
    (transcript fuel v s lines).replies.length = lines.length := by
  induction lines generalizing s with
  | nil => rfl
  | cons line rest ih =>
    rw [transcript] at h ⊢
    rcases hf : feed fuel v line s with ⟨reply, t, _ | _⟩ <;> rw [hf] at h
    · cases h
    · exact congrArg Nat.succ (ih h)

/-! ## Lines -/

/-- A line asks for a command. -/
def Asks (line : String) (command : Command) : Prop :=
  Command.ofLine? (Text.trim line) = some command

/-- Lines that do nothing to a session: blank ones, those that ask for a command that only shows
something or for one that does not exist, and those that are not the source of a program. -/
inductive Passive (line : String) : Prop
  | blank : Text.trim line = "" → Passive line
  | help : Asks line .help → Passive line
  | stack : Asks line .stack → Passive line
  | unknown (name : String) : Asks line (.unknown name) → Passive line
  | refused (e : CompileError) : Command.ofLine? (Text.trim line) = none →
      parseSource (Text.trim line) = .error e → Passive line

theorem not_isEmpty_of_asks {command : Command} (h : Asks line command) :
    (Text.trim line).isEmpty = false := by
  rw [Bool.eq_false_iff]
  intro he
  rw [Asks, String.isEmpty_iff.1 he] at h
  cases h

theorem feed_of_asks (fuel : Nat) (v : Verbosity) {command : Command} (h : Asks line command)
    (s : Session) :
    ∃ reply, feed fuel v line s =
      (reply, (command.obey s).2.1.delivered, (command.obey s).2.2) := by
  have hc : Command.ofLine? (Text.trim line) = some command := h
  simp only [feed, not_isEmpty_of_asks h, hc, Bool.false_eq_true, ↓reduceIte]
  exact ⟨_, rfl⟩

theorem feed_of_source (fuel : Nat) (v : Verbosity) (hn : (Text.trim line).isEmpty = false)
    (h : Command.ofLine? (Text.trim line) = none) (s : Session) :
    ∃ reply, feed fuel v line s =
      (reply, (s.respond fuel (Text.trim line)).2.delivered, true) := by
  simp only [feed, hn, h, Bool.false_eq_true, ↓reduceIte]
  exact ⟨_, rfl⟩

theorem feed_of_isEmpty (h : (Text.trim line).isEmpty = true) (s : Session) :
    feed fuel v line s = ({}, s, true) := by
  simp only [feed, h, ↓reduceIte]

/-- A line ends the shell if it asks for that, and only then. -/
theorem feed_goesOn (fuel : Nat) (v : Verbosity) (h : ¬ Asks line .quit) (s : Session) :
    (feed fuel v line s).2.2 = true := by
  cases hn : (Text.trim line).isEmpty with
  | true => rw [feed_of_isEmpty hn]
  | false =>
    cases hc : Command.ofLine? (Text.trim line) with
    | none =>
      obtain ⟨reply, hf⟩ := feed_of_source fuel v hn hc s
      rw [hf]
    | some command =>
      obtain ⟨reply, hf⟩ := feed_of_asks fuel v hc s
      rw [hf]
      cases command with
      | quit => exact absurd hc h
      | _ => rfl

theorem transcript_goesOn (fuel : Nat) (v : Verbosity) (s : Session) {lines : List String}
    (h : ∀ line ∈ lines, ¬ Asks line .quit) :
    (transcript fuel v s lines).goesOn = true := by
  induction lines generalizing s with
  | nil => rfl
  | cons line rest ih =>
    obtain ⟨hline, hrest⟩ := List.forall_mem_cons.1 h
    have hg := feed_goesOn fuel v hline s
    rw [transcript]
    rcases hf : feed fuel v line s with ⟨reply, t, _ | _⟩ <;> rw [hf] at hg
    · cases hg
    · exact ih t hrest

theorem delivered_eq (hs : s.log = []) : s.delivered = s := by
  rw [Session.delivered, ← hs]

/-- Where nothing is left to deliver, a passive line leaves the session alone. -/
theorem feed_passive (fuel : Nat) (v : Verbosity) (h : Passive line) (hs : s.log = []) :
    ∃ reply, feed fuel v line s = (reply, s, true) := by
  have hasks {command : Command} (hc : Asks line command) (ho : (command.obey s).2 = (s, true)) :
      ∃ reply, feed fuel v line s = (reply, s, true) := by
    obtain ⟨reply, hf⟩ := feed_of_asks fuel v hc s
    rw [ho, delivered_eq hs] at hf
    exact ⟨reply, hf⟩
  cases h with
  | blank h => exact ⟨{}, feed_of_isEmpty (by rw [h]; rfl) s⟩
  | help h => exact hasks h rfl
  | stack h => exact hasks h rfl
  | unknown name h => exact hasks h rfl
  | refused e hc he =>
    cases hn : (Text.trim line).isEmpty with
    | true => exact ⟨{}, feed_of_isEmpty hn s⟩
    | false =>
      obtain ⟨reply, hf⟩ := feed_of_source fuel v hn hc s
      have hr : (s.respond fuel (Text.trim line)).2 = s := by
        unfold Session.respond Session.evaluate
        rw [he]
        split <;> rfl
      rw [hr, delivered_eq hs] at hf
      exact ⟨reply, hf⟩

/-! ## Between two lines -/

/-- A session of a shell between two lines: nothing is left to deliver, and the limits are those it
was started with. -/
structure Ready (maxCallDepth : Nat) (s : Session) : Prop where
  maxCallDepth : s.maxCallDepth = some maxCallDepth
  room : s.room = none
  log : s.log = []

theorem ready_start (v : Verbosity) (maxCallDepth : Nat) :
    Ready maxCallDepth (start v maxCallDepth).2 :=
  ⟨rfl, rfl, rfl⟩

theorem respond_limits (fuel : Nat) (line : String) (s : Session) :
    LimitsKept s (s.respond fuel line).2 := by
  unfold Session.respond Session.evaluate
  split
  · exact ⟨rfl, id⟩
  · cases parseSource line with
    | error e => exact ⟨rfl, id⟩
    | ok p =>
      have h := p.run_limits fuel (s.note (.started p.statements.length))
      rcases hr : p.run fuel (s.note (.started p.statements.length)) with ⟨_ | _ | _, t⟩ <;>
        · rw [hr] at h
          simp only [hr]
          exact ⟨h.maxCallDepth, h.room⟩

theorem Ready.feed {maxCallDepth : Nat} (h : Ready maxCallDepth s) (line : String) :
    Ready maxCallDepth (feed fuel v line s).2.1 := by
  have hkept {t : Session} (ht : LimitsKept s t) : Ready maxCallDepth t.delivered :=
    ⟨ht.maxCallDepth.trans h.maxCallDepth, ht.room h.room, rfl⟩
  cases hn : (Text.trim line).isEmpty with
  | true => rwa [feed_of_isEmpty hn]
  | false =>
    cases hc : Command.ofLine? (Text.trim line) with
    | none =>
      obtain ⟨reply, hf⟩ := feed_of_source fuel v hn hc s
      rw [hf]
      exact hkept (respond_limits fuel _ s)
    | some command =>
      obtain ⟨reply, hf⟩ := feed_of_asks fuel v hc s
      rw [hf]
      cases command <;> exact hkept ⟨rfl, id⟩

/-- A reset leaves nothing of a session but its limits. -/
theorem Ready.reset {maxCallDepth : Nat} (h : Ready maxCallDepth s) (v : Verbosity) :
    s.reset.delivered = (start v maxCallDepth).2 := by
  obtain ⟨scope, calls, limit, room, next, log⟩ := s
  cases h.maxCallDepth
  cases h.room
  rfl

/-! ## What transcripts forget -/

variable {maxCallDepth : Nat}

/-- A passive line can be left out, wherever it stands. -/
theorem transcript_passive (h : Passive line) (hs : Ready maxCallDepth s)
    (before after : List String) :
    transcript fuel v s (before ++ after) =
      (transcript fuel v s (before ++ line :: after)).eraseReply before.length := by
  rw [transcript_append, transcript_append, Transcript.andThen, Transcript.andThen]
  cases hg : (transcript fuel v s before).goesOn with
  | false =>
    -- the shell ended before the line, so there is no reply to take away
    have hl := length_replies_le fuel v s before
    simp [Transcript.eraseReply, List.eraseIdx_of_length_le hl]
  | true =>
    have ht : Ready maxCallDepth (transcript fuel v s before).session :=
      transcript_keeps (fun line _ ht => ht.feed line) before hs
    obtain ⟨reply, hf⟩ := feed_passive fuel v h ht.log
    have hl := length_replies hg
    simp [transcript, hf, Transcript.eraseReply, ← hl, List.eraseIdx_append_of_length_le]

/-- After a reset, the shell goes on as a new one. -/
theorem transcript_reset (h : Asks line .reset) (hs : Ready maxCallDepth s) {before : List String}
    (hb : ∀ line ∈ before, ¬ Asks line .quit) (after : List String) :
    (transcript fuel v s (before ++ line :: after)).dropReplies (before.length + 1) =
      transcript fuel v (start v maxCallDepth).2 after := by
  have hg := transcript_goesOn fuel v s hb
  have ht : Ready maxCallDepth (transcript fuel v s before).session :=
    transcript_keeps (fun line _ ht => ht.feed line) before hs
  obtain ⟨reply, hf⟩ := feed_of_asks fuel v h (transcript fuel v s before).session
  have hr : feed fuel v line (transcript fuel v s before).session =
      (reply, (start v maxCallDepth).2, true) := by
    rw [hf, ← ht.reset v]
    rfl
  have hl := length_replies hg
  rw [transcript_append, Transcript.andThen, if_pos hg]
  simp [transcript, hr, Transcript.dropReplies, ← hl, List.drop_append,
    List.drop_eq_nil_of_le (Nat.le_succ _)]

/-- A line that ends the shell is the last one that it takes. -/
theorem transcript_quit (h : Asks line .quit) (before after : List String) :
    transcript fuel v s (before ++ line :: after) = transcript fuel v s (before ++ [line]) := by
  have hline (t : Session) : transcript fuel v t (line :: after) = transcript fuel v t [line] := by
    obtain ⟨reply, hf⟩ := feed_of_asks fuel v h t
    rw [transcript, transcript, hf]
    rfl
  rw [transcript_append, transcript_append]
  exact congrArg _ (funext hline)

/-- **Transcripts forget what they should.** Let a new shell take lines, at any verbosity and with
any limit on calls. A line that is blank, that asks for help, for the scope stack or for a command
that does not exist, or that is not the source of a program, can be left out: the replies to all
other lines and the session that is left stay the same. After a line that asks for a reset, whatever
the lines before it did, the shell replies as a new one does to the lines after it alone, and leaves
the session that that one leaves. A line that ends the shell is the last one that it takes. -/
theorem transcripts_forget (fuel : Nat) (v : Verbosity) (maxCallDepth : Nat)
    (before after : List String) (line : String) :
    (Passive line →
      transcript fuel v (start v maxCallDepth).2 (before ++ after) =
        (transcript fuel v (start v maxCallDepth).2 (before ++ line :: after)).eraseReply
          before.length) ∧
    (Asks line .reset → (∀ line ∈ before, ¬ Asks line .quit) →
      (transcript fuel v (start v maxCallDepth).2 (before ++ line :: after)).dropReplies
          (before.length + 1) =
        transcript fuel v (start v maxCallDepth).2 after) ∧
    (Asks line .quit →
      transcript fuel v (start v maxCallDepth).2 (before ++ line :: after) =
        transcript fuel v (start v maxCallDepth).2 (before ++ [line])) := by
  have hs := ready_start v maxCallDepth
  exact ⟨fun h => transcript_passive h hs before after,
    fun h hb => transcript_reset h hs hb after, fun h => transcript_quit h before after⟩

/-- After a line that gives a built-in another meaning and one that fails in a call: a line that is
not the source of a program, a reset, and a line that ends the shell. -/
theorem transcripts_forget_reset :
    let s := (start .quiet 10000).2
    let before := ["print = lambda x: 1 / 0", "print(1)"]
    transcript 20 .quiet s (before ++ ["print(2)"]) =
        (transcript 20 .quiet s (before ++ ["1 +", "print(2)"])).eraseReply 2 ∧
      (transcript 20 .quiet s (before ++ [":reset"])).session.scope = initialScope ∧
      transcript 20 .quiet s (before ++ [":q", "print(3)"]) =
        transcript 20 .quiet s (before ++ [":q"]) := by
  intro s before
  have hq : Command.ofLine? (Text.trim "print = lambda x: 1 / 0") = none ∧
      Command.ofLine? (Text.trim "print(1)") = none := ⟨by cbv, by cbv⟩
  have hb : ∀ line ∈ before, ¬ Asks line .quit := by
    simp [before, Asks, hq]
  have hparse : (parseSource (Text.trim "1 +")).isOk = false := by decide +kernel
  obtain ⟨e, he⟩ : ∃ e, parseSource (Text.trim "1 +") = .error e := by
    cases h : parseSource (Text.trim "1 +") with
    | error e => exact ⟨e, rfl⟩
    | ok p =>
      rw [h] at hparse
      cases hparse
  have hrefused : Passive "1 +" := .refused e (by cbv) he
  have hreset : Asks ":reset" .reset := by cbv
  have hquit : Asks ":q" .quit := by cbv
  have h (after : List String) (line : String) :=
    transcripts_forget 20 .quiet 10000 before after line
  refine ⟨(h ["print(2)"] "1 +").1 hrefused, ?_, (h ["print(3)"] ":q").2.2 hquit⟩
  exact congrArg (·.session.scope) ((h [] ":reset").2.1 hreset hb)

end Shell

end Dynascope
