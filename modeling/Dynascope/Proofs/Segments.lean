import Dynascope.Proofs.Spelling

/-! # Sources cut into tokens

`Segmented p cs ls`: the characters `cs`, of which the first stands at byte `p`, are the tokens
`ls` with blanks and comments between them, each token as long as it can be. That is what the
lexer finds (`scan_eq_ok_iff`). The relation can be cut at tokens: what starts where a token
starts is segmented (`Segmented.suffix`), and so is what ends where a token ends
(`Segmented.initial`), as a token that was read before more characters is read before fewer of
them as well (`Spells.shrink`).
-/

set_option autoImplicit false

namespace Dynascope

open Lexer Spelling

/-- A span with its two ends moved. -/
def Span.move (f : Nat → Nat) (span : Span) : Span :=
  ⟨f span.start, f span.stop⟩

/-- A token moved to another place. -/
def Lexeme.move (f : Nat → Nat) (l : Lexeme) : Lexeme :=
  ⟨l.token, l.span.move f⟩

namespace Lexer

/-! ## One token -/

/-- The characters `word` are one token where `rest` follows them. -/
def Spells (t : Token) (word rest : List Char) : Prop :=
  ∃ c cs, word = c :: cs ∧ isGap c = false ∧ c ≠ '#' ∧ readToken c (cs ++ rest) = .ok (t, cs.length)

/-- What a token can be, with the number of characters after its first. -/
theorem readToken_eq_ok_iff {c : Char} {rest : List Char} {t : Token} {n : Nat} :
    readToken c rest = .ok (t, n) ↔
      (Text.isDigit c = true ∧ n = (rest.takeWhile Text.isDigit).length ∧
        literal? (c :: rest.takeWhile Text.isDigit) = some t) ∨
      (Text.isDigit c = false ∧ isNameStart c = true ∧
        n = (rest.takeWhile isNameChar).length ∧
        t = wordToken (String.ofList (c :: rest.takeWhile isNameChar))) ∨
      (Text.isDigit c = false ∧ isNameStart c = false ∧
        (n = 1 ∧ rest.head?.bind (doubleMark? c) = some t ∨
          n = 0 ∧ rest.head?.bind (doubleMark? c) = none ∧ singleMark? c = some t)) := by
  unfold readToken
  cases Text.isDigit c with
  | true =>
    simp only [if_true]
    cases literal? (c :: rest.takeWhile Text.isDigit) with
    | none => simp
    | some u => simp [and_comm, eq_comm (a := n)]
  | false =>
    cases isNameStart c with
    | true => simp [and_comm, eq_comm (a := n), eq_comm (a := t)]
    | false =>
      simp only [Bool.false_eq_true, if_false]
      cases rest.head?.bind (doubleMark? c) with
      | some u => simp [and_comm, eq_comm (a := n)]
      | none =>
        simp only
        cases singleMark? c with
        | none => simp
        | some u => simp [and_comm, eq_comm (a := n)]

theorem readToken_length {c : Char} {rest : List Char} {t : Token} {n : Nat}
    (h : readToken c rest = .ok (t, n)) : n ≤ rest.length := by
  rcases readToken_eq_ok_iff.1 h with ⟨-, rfl, -⟩ | ⟨-, -, rfl, -⟩ | ⟨-, -, ⟨rfl, hm⟩ | ⟨rfl, -⟩⟩
  · exact (List.takeWhile_prefix _).length_le
  · exact (List.takeWhile_prefix _).length_le
  · cases rest with
    | nil => cases hm
    | cons d rest => exact Nat.succ_le_succ (Nat.zero_le _)
  · exact Nat.zero_le _

theorem spells_of_readToken {c : Char} {rest : List Char} {t : Token} {n : Nat}
    (hg : isGap c = false) (hc : c ≠ '#') (h : readToken c rest = .ok (t, n)) :
    Spells t (c :: rest.take n) (rest.drop n) := by
  have hl : (rest.take n).length = n := by simp [readToken_length h]
  exact ⟨c, rest.take n, rfl, hg, hc, by rw [List.take_append_drop, hl, h]⟩

/-- A run that ends where more characters follow ends there before fewer of them as well. -/
theorem takeWhile_shrink {p : Char → Bool} {cs xs ys : List Char}
    (h : ((cs ++ (xs ++ ys)).takeWhile p).length = cs.length) :
    (cs ++ xs).takeWhile p = (cs ++ (xs ++ ys)).takeWhile p := by
  induction cs with
  | nil =>
    have h : (xs ++ ys).takeWhile p = [] := List.eq_nil_of_length_eq_zero h
    rw [List.nil_append, List.nil_append, h]
    cases xs with
    | nil => rfl
    | cons x xs =>
      cases hx : p x with
      | false => simp [hx]
      | true => simp [hx] at h
  | cons c cs ih =>
    cases hc : p c with
    | false => simp [hc] at h
    | true =>
      simp only [List.cons_append, List.takeWhile_cons, hc, if_true, List.length_cons,
        Nat.add_right_cancel_iff] at h ⊢
      rw [ih h]

/-- A token that was read before more characters is read before fewer of them as well. -/
theorem readToken_shrink {c : Char} {cs xs ys : List Char} {t : Token}
    (h : readToken c (cs ++ (xs ++ ys)) = .ok (t, cs.length)) :
    readToken c (cs ++ xs) = .ok (t, cs.length) := by
  rw [readToken_eq_ok_iff] at h ⊢
  rcases h with ⟨hd, hl, ht⟩ | ⟨hd, hn, hl, ht⟩ | ⟨hd, hn, ⟨hl, hm⟩ | ⟨hl, hm, ht⟩⟩
  · rw [takeWhile_shrink hl.symm]
    exact .inl ⟨hd, hl, ht⟩
  · rw [takeWhile_shrink hl.symm]
    exact .inr (.inl ⟨hd, hn, hl, ht⟩)
  · obtain ⟨d, rfl⟩ := List.length_eq_one_iff.1 hl
    exact .inr (.inr ⟨hd, hn, .inl ⟨hl, hm⟩⟩)
  · cases List.eq_nil_of_length_eq_zero hl
    refine .inr (.inr ⟨hd, hn, .inr ⟨hl, ?_, ht⟩⟩)
    cases xs with
    | nil => rfl
    | cons x xs => exact hm

theorem Spells.shrink {t : Token} {word xs ys : List Char} (h : Spells t word (xs ++ ys)) :
    Spells t word xs := by
  obtain ⟨c, cs, rfl, hg, hc, hr⟩ := h
  exact ⟨c, cs, rfl, hg, hc, readToken_shrink hr⟩

theorem Spells.ne_nil {t : Token} {word rest : List Char} (h : Spells t word rest) :
    word ≠ [] := by
  obtain ⟨c, cs, rfl, -⟩ := h
  exact List.cons_ne_nil c cs

theorem byteLength_pos {cs : List Char} (h : cs ≠ []) : 0 < byteLength cs := by
  obtain ⟨c, cs, rfl⟩ := List.exists_cons_of_ne_nil h
  have hc := c.utf8Size_pos
  rw [byteLength_cons]
  omega

/-! ## Whole texts -/

/-- The characters, of which the first stands at a position, are these tokens with blanks and
comments between them. -/
inductive Segmented : Nat → List Char → List Lexeme → Prop
  | done {position : Nat} : Segmented position [] []
  | blank {position : Nat} {c : Char} {cs : List Char} {ls : List Lexeme} :
      isGap c = true → Segmented (position + c.utf8Size) cs ls → Segmented position (c :: cs) ls
  | comment {position : Nat} {note cs : List Char} {ls : List Lexeme} :
      '\n' ∉ note → (∀ c ∈ cs.head?, c = '\n') →
      Segmented (position + byteLength ('#' :: note)) cs ls →
      Segmented position ('#' :: (note ++ cs)) ls
  | token {position : Nat} {t : Token} {word cs : List Char} {ls : List Lexeme} :
      Spells t word cs → Segmented (position + byteLength word) cs ls →
      Segmented position (word ++ cs) (⟨t, ⟨position, position + byteLength word⟩⟩ :: ls)

/-- A comment up to where a line feed or nothing follows. -/
theorem scan_note {note cs : List Char} (hn : '\n' ∉ note) (hc : ∀ c ∈ cs.head?, c = '\n')
    (position : Nat) :
    scan position ('#' :: (note ++ cs)) = scan (position + byteLength ('#' :: note)) cs := by
  have hne : note.all (· ≠ '\n') = true := by
    rw [List.all_eq_true]
    exact fun c hm => by simpa using fun e : c = '\n' => hn (e ▸ hm)
  have hstop : ∀ c ∈ cs.head?, decide (c ≠ '\n') = false := fun c hm => by simp [hc c hm]
  have ht : (note ++ cs).takeWhile (· ≠ '\n') = note := takeWhile_append_stop hne hstop
  have hd : (note ++ cs).dropWhile (· ≠ '\n') = cs := by
    have h := List.takeWhile_append_dropWhile (p := (· ≠ '\n')) (l := note ++ cs)
    rw [ht] at h
    exact List.append_cancel_left h
  rw [scan, if_neg (by decide), if_pos rfl, ht, hd]

/-- The rest of a line, up to a line feed or the end. -/
theorem note_of_takeWhile (rest : List Char) : '\n' ∉ rest.takeWhile (· ≠ '\n') ∧
    ∀ c ∈ (rest.dropWhile (· ≠ '\n')).head?, c = '\n' := by
  constructor
  · intro hm
    simpa using List.all_eq_true.1 List.all_takeWhile _ hm
  · intro c hc
    have h := List.head?_dropWhile_not (· ≠ '\n') rest
    rw [Option.mem_def.1 hc] at h
    simpa using h

theorem segmented_of_scan {position : Nat} {cs : List Char} {ls : List Lexeme}
    (h : scan position cs = .ok ls) : Segmented position cs ls := by
  fun_induction scan position cs generalizing ls with
  | case1 =>
    cases h
    exact .done
  | case2 position c rest hg ih => exact .blank hg (ih h)
  | case3 position rest hg ih =>
    obtain ⟨hn, hd⟩ := note_of_takeWhile rest
    have h := Segmented.comment hn hd (ih h)
    rwa [List.takeWhile_append_dropWhile] at h
  | case4 => cases h
  | case5 => cases h
  | case6 position c rest hg hc t n hr stop ls' hs =>
    rename_i ih
    cases h
    have h := Segmented.token (spells_of_readToken (by simpa using hg) hc hr) (ih hs)
    rwa [List.cons_append, List.take_append_drop] at h

namespace Segmented

variable {position : Nat} {cs : List Char} {ls xs ys : List Lexeme} {l : Lexeme}

theorem scan_eq (h : Segmented position cs ls) : scan position cs = .ok ls := by
  induction h with
  | done => rw [scan]
  | blank hg _ ih => rw [scan_blank hg, ih]
  | comment hn hc _ ih => rw [scan_note hn hc, ih]
  | token hw _ ih =>
    obtain ⟨c, cs, rfl, hg, hc, hr⟩ := hw
    rw [List.cons_append, scan, if_neg (by simp [hg]), if_neg hc, hr]
    simp only [List.take_left', List.drop_left', ih]

/-- A text can stand anywhere else, with its tokens moved along. -/
theorem exists_move {n : Nat} (h : Segmented (position + n) cs ls) :
    ∃ ms, Segmented position cs ms ∧ ms.map (·.move (· + n)) = ls := by
  generalize hq : position + n = q at h
  induction h generalizing position with
  | done => exact ⟨[], .done, rfl⟩
  | @blank q c cs ls hg _ ih =>
    have hq : position + c.utf8Size + n = q + c.utf8Size := by omega
    obtain ⟨ms, hm, e⟩ := ih hq
    exact ⟨ms, .blank hg hm, e⟩
  | @comment q note cs ls hn hc _ ih =>
    have hq : position + byteLength ('#' :: note) + n = q + byteLength ('#' :: note) := by omega
    obtain ⟨ms, hm, e⟩ := ih hq
    exact ⟨ms, .comment hn hc hm, e⟩
  | @token q t word cs ls hw _ ih =>
    have hw' : position + byteLength word + n = q + byteLength word := by omega
    obtain ⟨ms, hm, e⟩ := ih hw'
    refine ⟨_, .token hw hm, ?_⟩
    rw [List.map_cons, e, ← hq]
    simp [Lexeme.move, Span.move, Nat.add_right_comm]

/-- From the start of a token on. -/
theorem suffix (h : Segmented position cs (xs ++ l :: ys)) :
    ∃ before text, cs = before ++ text ∧ l.span.start = position + byteLength before ∧
      Segmented l.span.start text (l :: ys) := by
  generalize hl : xs ++ l :: ys = ls at h
  induction h generalizing xs with
  | done => simp at hl
  | @blank position c cs ls hg _ ih =>
    obtain ⟨before, text, rfl, hp, hs⟩ := ih hl
    exact ⟨c :: before, text, rfl, by rw [hp, byteLength_cons]; omega, hs⟩
  | @comment position note cs ls hn hc _ ih =>
    obtain ⟨before, text, rfl, hp, hs⟩ := ih hl
    refine ⟨'#' :: (note ++ before), text, by simp, ?_, hs⟩
    rw [hp, byteLength_cons, byteLength_cons, byteLength_append]
    omega
  | @token position t word cs ls hw htail ih =>
    cases xs with
    | nil =>
      cases hl
      exact ⟨[], word ++ cs, rfl, rfl, .token hw htail⟩
    | cons x xs =>
      rw [List.cons_append, List.cons.injEq] at hl
      obtain ⟨rfl, hl⟩ := hl
      obtain ⟨before, text, rfl, hp, hs⟩ := ih hl
      exact ⟨word ++ before, text, by simp, by rw [hp, byteLength_append]; omega, hs⟩

/-- Up to the end of a token. -/
theorem initial (h : Segmented position cs (xs ++ l :: ys)) :
    ∃ text after, cs = text ++ after ∧ l.span.stop = position + byteLength text ∧
      Segmented position text (xs ++ [l]) := by
  generalize hl : xs ++ l :: ys = ls at h
  induction h generalizing xs with
  | done => simp at hl
  | @blank position c cs ls hg _ ih =>
    obtain ⟨text, after, rfl, hp, hs⟩ := ih hl
    exact ⟨c :: text, after, rfl, by rw [hp, byteLength_cons]; omega, .blank hg hs⟩
  | @comment position note cs ls hn hc _ ih =>
    obtain ⟨text, after, rfl, hp, hs⟩ := ih hl
    have hc : ∀ c ∈ text.head?, c = '\n' := fun c hm => hc c (by
      rw [List.head?_append, Option.mem_def.1 hm]
      rfl)
    refine ⟨'#' :: (note ++ text), after, by simp, ?_, .comment hn hc hs⟩
    rw [hp, byteLength_cons, byteLength_cons, byteLength_append]
    omega
  | @token position t word cs ls hw htail ih =>
    cases xs with
    | nil =>
      cases hl
      have hs : Segmented position (word ++ []) [⟨t, ⟨position, position + byteLength word⟩⟩] :=
        .token (Spells.shrink hw) .done
      exact ⟨word, cs, rfl, rfl, by simpa using hs⟩
    | cons x xs =>
      rw [List.cons_append, List.cons.injEq] at hl
      obtain ⟨rfl, hl⟩ := hl
      obtain ⟨text, after, rfl, hp, hs⟩ := ih hl
      exact ⟨word ++ text, after, by simp, by rw [hp, byteLength_append]; omega,
        .token hw.shrink hs⟩

/-- The tokens stand in the text one after the other. -/
theorem bounds (h : Segmented position cs ls) :
    (∀ l ∈ ls, position ≤ l.span.start ∧ l.span.start < l.span.stop ∧
      l.span.stop ≤ position + byteLength cs) ∧
    ls.Pairwise fun a b => a.span.stop ≤ b.span.start := by
  induction h with
  | done => simp
  | @blank position c cs ls _ _ ih =>
    refine ⟨fun l hl => ?_, ih.2⟩
    have := ih.1 l hl
    rw [byteLength_cons]
    omega
  | @comment position note cs ls _ _ _ ih =>
    refine ⟨fun l hl => ?_, ih.2⟩
    have := ih.1 l hl
    rw [byteLength_cons] at this ⊢
    rw [byteLength_append]
    omega
  | @token position t word cs ls hw _ ih =>
    have hpos := byteLength_pos hw.ne_nil
    refine ⟨fun l hl => ?_, List.pairwise_cons.2 ⟨fun l hl => (ih.1 l hl).1, ih.2⟩⟩
    rw [byteLength_append]
    rcases List.mem_cons.1 hl with rfl | hl
    · exact ⟨Nat.le_refl _, by simpa using hpos, by simp⟩
    · have := ih.1 l hl
      omega

end Segmented

theorem scan_eq_ok_iff {position : Nat} {cs : List Char} {ls : List Lexeme} :
    scan position cs = .ok ls ↔ Segmented position cs ls :=
  ⟨segmented_of_scan, Segmented.scan_eq⟩

end Lexer

end Dynascope
