import Dynascope.Proofs.Spans

/-! # Sources one after the other

A line feed ends whatever a source ends in, a comment or a token, and leaves its tokens as they are
(`Segmented.append_lineFeed`). After a `;` any statements can follow any others
(`Derives.append_semi`). So two sources with a line feed and a `;` between them are one source,
with the statements of the first and then those of the second: `parseSource_joined`.
-/

set_option autoImplicit false

namespace Dynascope

open Dynascope.Grammar Dynascope.Lexer Dynascope.Parser

/-- Two sources in one, with a line feed and a `;` between. -/
def joinSources (a b : String) : String :=
  a ++ "\n;" ++ b

/-- The statements of one program and then those of another. -/
instance : Append Program :=
  ⟨fun p q => ⟨p.statements ++ q.statements⟩⟩

/-! ## Tokens -/

theorem takeWhile_append_of_stop {α : Type} {p : α → Bool} {x : α} (hx : p x = false)
    (xs ys : List α) : (xs ++ x :: ys).takeWhile p = xs.takeWhile p := by
  induction xs with
  | nil => simp [hx]
  | cons y xs ih => simp [List.takeWhile_cons, ih]

namespace Lexer

/-- No token reaches over the end of a line. -/
theorem readToken_lineFeed (c : Char) (cs rest : List Char) :
    readToken c (cs ++ '\n' :: rest) = readToken c cs := by
  have hd : (cs ++ '\n' :: rest).takeWhile Text.isDigit = cs.takeWhile Text.isDigit :=
    takeWhile_append_of_stop (by decide) cs rest
  have hn : (cs ++ '\n' :: rest).takeWhile isNameChar = cs.takeWhile isNameChar :=
    takeWhile_append_of_stop (by decide) cs rest
  have hm : (cs ++ '\n' :: rest).head?.bind (doubleMark? c) = cs.head?.bind (doubleMark? c) := by
    cases cs with
    | nil => simp [doubleMark?]
    | cons d cs => rfl
  unfold readToken
  rw [hd, hn, hm]

theorem Spells.append_lineFeed {t : Token} {word cs : List Char} (h : Spells t word cs)
    (rest : List Char) : Spells t word (cs ++ '\n' :: rest) := by
  obtain ⟨c, tail, rfl, hg, hc, hr⟩ := h
  refine ⟨c, tail, rfl, hg, hc, ?_⟩
  rw [← List.append_assoc, readToken_lineFeed, hr]

theorem spells_semi (rest : List Char) : Spells .semi [';'] rest := by
  refine ⟨';', [], rfl, by decide, by decide, ?_⟩
  have hm : rest.head?.bind (doubleMark? ';') = none := by
    cases rest <;> simp [doubleMark?]
  rw [List.nil_append, readToken_eq_ok_iff]
  exact .inr (.inr ⟨by decide, by decide, .inr ⟨rfl, hm, rfl⟩⟩)

namespace Segmented

variable {position : Nat} {cs rest : List Char} {ls ms : List Lexeme}

/-- A text can stand further on, with its tokens moved along. -/
theorem move (h : Segmented position cs ls) (n : Nat) :
    Segmented (position + n) cs (ls.map (Lexeme.move (· + n))) := by
  induction h with
  | done => exact .done
  | blank hg _ ih =>
    rw [Nat.add_right_comm] at ih
    exact .blank hg ih
  | comment hn hc _ ih =>
    rw [Nat.add_right_comm] at ih
    exact .comment hn hc ih
  | token hw _ ih =>
    rw [Nat.add_right_comm] at ih
    rw [List.map_cons, Lexeme.move, Span.move, Nat.add_right_comm]
    exact .token hw ih

/-- What starts with a line feed can follow any text. -/
theorem append_lineFeed (h : Segmented position cs ls)
    (hr : Segmented (position + byteLength cs) ('\n' :: rest) ms) :
    Segmented position (cs ++ '\n' :: rest) (ls ++ ms) := by
  induction h with
  | done => exact hr
  | blank hg _ ih =>
    rw [Spelling.byteLength_cons, ← Nat.add_assoc] at hr
    exact .blank hg (ih hr)
  | @comment position note cs ls hn hc _ ih =>
    rw [← List.cons_append, Spelling.byteLength_append, ← Nat.add_assoc] at hr
    have hc : ∀ c ∈ (cs ++ '\n' :: rest).head?, c = '\n' := by
      cases cs with
      | nil => simp
      | cons c cs => exact hc
    rw [List.cons_append, List.append_assoc]
    exact .comment hn hc (ih hr)
  | token hw _ ih =>
    rw [Spelling.byteLength_append, ← Nat.add_assoc] at hr
    rw [List.append_assoc]
    exact .token (hw.append_lineFeed rest) (ih hr)

/-- The tokens of a text, a `;` on the next line, and the tokens of a text after it. -/
theorem append_semi (h : Segmented 0 cs ls) (hr : Segmented 0 rest ms) :
    Segmented 0 (cs ++ '\n' :: ';' :: rest)
      (ls ++ ⟨.semi, ⟨byteLength cs + 1, byteLength cs + 2⟩⟩ ::
        ms.map (Lexeme.move (· + (byteLength cs + 2)))) := by
  have hr := hr.move (byteLength cs + 2)
  rw [Nat.zero_add] at hr
  have hs : Segmented (byteLength cs + 1) ([';'] ++ rest) _ := .token (spells_semi rest) hr
  refine h.append_lineFeed (.blank rfl ?_)
  rw [Nat.zero_add]
  exact hs

end Segmented

end Lexer

/-- The tokens of two sources in one are those of the first, a `;` and those of the second. -/
theorem tokenize_joined {a b : String} {ls ms : List Lexeme} (ha : tokenize a = .ok ls)
    (hb : tokenize b = .ok ms) :
    tokenize (joinSources a b) =
      .ok (ls ++ ⟨.semi, ⟨a.utf8ByteSize + 1, a.utf8ByteSize + 2⟩⟩ ::
        ms.map (Lexeme.move (· + (a.utf8ByteSize + 2)))) := by
  have hsize : a.utf8ByteSize = byteLength a.toList := by
    rw [byteLength_eq_utf8Len, ← String.utf8ByteSize_ofList, String.ofList_toList]
  have hlist : (joinSources a b).toList = a.toList ++ '\n' :: ';' :: b.toList := by
    simp [joinSources]
  have h := (scan_eq_ok_iff.1 ha).append_semi (scan_eq_ok_iff.1 hb)
  rw [tokenize, hlist, hsize]
  exact h.scan_eq

/-! ## Statements -/

/-- Statements in front of a phrase that consists of statements. -/
def FollowsOn (xs : List Lexeme) (ts : List Term) : (c : Category) → List Lexeme → c.Value → Prop
  | .opened, ys, us => Derives .opened (xs ++ ys) (ts ++ us)
  | .closed, ys, us => Derives .closed (xs ++ ys) (ts ++ us)
  | _, _, _ => True

namespace Grammar.Derives

variable {xs ys : List Lexeme} {ts us : List Term}

/-- A derivation of statements goes on from where another one can go on. -/
theorem followsOn (hx : Derives .opened xs ts) {c : Category} {v : c.Value}
    (h : Derives c ys v) : FollowsOn xs ts c ys v := by
  induction h with
  | start => simpa [FollowsOn] using hx
  | openedSemi _ hm ih =>
    simp only [FollowsOn, ← List.append_assoc] at ih ⊢
    exact .openedSemi ih hm
  | closedSemi _ hm ih =>
    simp only [FollowsOn, ← List.append_assoc] at ih ⊢
    exact .closedSemi ih hm
  | openedBlock _ hb ih =>
    simp only [FollowsOn, ← List.append_assoc] at ih ⊢
    exact .openedBlock ih hb
  | closed _ ht ih =>
    simp only [FollowsOn, ← List.append_assoc] at ih ⊢
    exact .closed ih ht
  | _ => trivial

theorem append_opened (hx : Derives .opened xs ts) (hy : Derives .seq ys us) :
    Derives .seq (xs ++ ys) (ts ++ us) := by
  cases hy with
  | seqOpened h => exact .seqOpened (hx.followsOn h)
  | seqClosed h => exact .seqClosed (hx.followsOn h)

/-- After a `;` statements can follow any others. -/
theorem append_semi (hx : Derives .seq xs ts) {m : Lexeme} (hm : m.token = .semi)
    (hy : Derives .seq ys us) : Derives .seq (xs ++ m :: ys) (ts ++ us) := by
  have hx : Derives .opened (xs ++ [m]) ts := by
    cases hx with
    | seqOpened h => exact .openedSemi h hm
    | seqClosed h => exact .closedSemi h hm
  simpa using hx.append_opened hy

end Grammar.Derives

theorem parseSource_eq_ok_iff {source : String} {p : Program} :
    parseSource source = .ok p ↔
      ∃ ls, tokenize source = .ok ls ∧ Derives .seq ls p.statements := by
  unfold parseSource
  constructor
  · intro h
    cases hs : tokenize source with
    | error e => simp [hs] at h
    | ok ls =>
      rw [hs] at h
      cases derives_of_parse h with
      | program hd => exact ⟨ls, rfl, hd⟩
  · rintro ⟨ls, hs, hd⟩
    rw [hs]
    exact parse_eq_ok_of_derives (.program hd)

/-- Two programs in one source are one program, with the statements of both in order. -/
theorem parseSource_joined {a b : String} {p q : Program} (ha : parseSource a = .ok p)
    (hb : parseSource b = .ok q) :
    parseSource (joinSources a b) =
      .ok (p ++ ⟨q.statements.map (Term.move (· + (a.utf8ByteSize + 2)))⟩) := by
  obtain ⟨ls, hls, hp⟩ := parseSource_eq_ok_iff.1 ha
  obtain ⟨ms, hms, hq⟩ := parseSource_eq_ok_iff.1 hb
  exact parseSource_eq_ok_iff.2
    ⟨_, tokenize_joined hls hms, hp.append_semi rfl (hq.move (· + (a.utf8ByteSize + 2)))⟩

end Dynascope
