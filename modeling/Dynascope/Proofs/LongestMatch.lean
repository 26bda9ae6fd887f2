import Dynascope.Proofs.Spans

/-! # The longest match

The rules for tokens, apart from how the lexer finds them: `Matched` says which texts are a run of
digits, a word or a mark, and `Token.SpelledBy` which token such a text is. A token of a source is
the `Longest` match where it starts (`spells_iff`), and the lexer is `Stuck` where nothing matches
or the longest match is a run of digits without a value. `Cut` puts tokens and the text between
them together. A source is cut into tokens in one way, or up to one place where the lexer is
stuck: `tokenize_exact`.
-/

set_option autoImplicit false

namespace Dynascope

open Lexer Spelling

/-! ## The rules -/

/-- The tokens with one spelling: keywords and marks. -/
def Token.isFixed : Token → Bool
  | .int _ | .ident _ => false
  | _ => true

/-- A text is read as a token: a run of digits as its value, a word as a name unless it is a
keyword. -/
inductive Token.SpelledBy : Token → List Char → Prop
  | int {word : List Char} {n : Int64} : word ≠ [] → (∀ c ∈ word, Text.isDigit c = true) →
      n.toInt = Text.digitsValue word → SpelledBy (.int n) word
  | ident {name : String} : IsName name → SpelledBy (.ident name) name.toList
  | fixed {t : Token} : t.isFixed = true → SpelledBy t t.text.toList

namespace Lexer

/-- The texts that the rules for tokens match: runs of digits, words, and marks. -/
inductive Matched : List Char → Prop
  | digits {word : List Char} : word ≠ [] → (∀ c ∈ word, Text.isDigit c = true) → Matched word
  | word {c : Char} {cs : List Char} : isNameStart c = true → (∀ d ∈ cs, isNameChar d = true) →
      Matched (c :: cs)
  | mark {t : Token} : t.isWord = false → Matched t.text.toList

/-- Where `rest` follows the text, no longer text from the same start is matched. -/
structure Longest (word rest : List Char) : Prop where
  matched : Matched word
  longest : ∀ u, u <+: word ++ rest → Matched u → u.length ≤ word.length

/-- No token begins where `bad` begins and `rest` follows it: no rule matches there, or the longest
match is a run of digits with a value that is too large. -/
inductive Stuck : List Char → List Char → Fault → Prop
  | character {c : Char} {rest : List Char} : isGap c = false → c ≠ '#' →
      (∀ u, u <+: c :: rest → ¬ Matched u) → Stuck [c] rest (.character c)
  | literal {digits rest : List Char} : (∀ c ∈ digits, Text.isDigit c = true) →
      Longest digits rest → 9223372036854775807 < Text.digitsValue digits →
      Stuck digits rest (.literal digits)

/-- Blanks and comments, where `rest` follows them. A comment reaches up to the next line feed or to
the end of the source. -/
inductive Skipped : List Char → List Char → Prop
  | nil {rest : List Char} : Skipped [] rest
  | blank {c : Char} {gap rest : List Char} : isGap c = true → Skipped gap rest →
      Skipped (c :: gap) rest
  | comment {note gap rest : List Char} : '\n' ∉ note → (∀ c ∈ (gap ++ rest).head?, c = '\n') →
      Skipped gap rest → Skipped ('#' :: (note ++ gap)) rest

/-- The characters, of which the first stands at a position and after which `after` follows, are
these tokens, each the longest match where it starts, with skipped text before, between and after
them. -/
inductive Cut : Nat → List Char → List Char → List Lexeme → Prop
  | done {position : Nat} {gap after : List Char} : Skipped gap after → Cut position gap after []
  | token {position start stop : Nat} {gap word cs after : List Char} {t : Token}
      {ls : List Lexeme} :
      Skipped gap (word ++ (cs ++ after)) → start = position + byteLength gap →
      Longest word (cs ++ after) → t.SpelledBy word → stop = start + byteLength word →
      Cut stop cs after ls → Cut position (gap ++ (word ++ cs)) after (⟨t, ⟨start, stop⟩⟩ :: ls)

/-! ## Matches by their first character -/

theorem singleMark?_eq_some_iff {c : Char} {t : Token} :
    singleMark? c = some t ↔ t.isWord = false ∧ t.text.toList = [c] := by
  constructor
  · intro h
    unfold singleMark? at h
    split at h <;> cases h <;> exact ⟨rfl, rfl⟩
  · rintro ⟨hw, h⟩
    cases t <;> simp [Token.isWord, Token.text] at hw h <;> subst h <;> rfl

theorem doubleMark?_eq_some_iff {c d : Char} {t : Token} :
    doubleMark? c d = some t ↔ t.isWord = false ∧ t.text.toList = [c, d] := by
  constructor
  · intro h
    unfold doubleMark? at h
    split at h <;> cases h <;> exact ⟨rfl, rfl⟩
  · rintro ⟨hw, h⟩
    cases t <;> simp [Token.isWord, Token.text] at hw h
    all_goals
      obtain ⟨rfl, rfl⟩ := h
      rfl

/-- A mark has one or two characters, none of which is a digit or starts a name. -/
theorem mark_cases {t : Token} (h : t.isWord = false) :
    ∃ c cs, t.text.toList = c :: cs ∧ Text.isDigit c = false ∧ isNameStart c = false ∧
      (cs = [] ∨ ∃ d, cs = [d]) := by
  cases t <;> cases h <;> exact ⟨_, _, rfl, rfl, rfl, by simp⟩

theorem Matched.ne_nil {u : List Char} (h : Matched u) : u ≠ [] := by
  cases h with
  | digits hne => exact hne
  | word => exact List.cons_ne_nil _ _
  | mark hw =>
    obtain ⟨c, cs, e, -⟩ := mark_cases hw
    exact e ▸ List.cons_ne_nil c cs

section

variable {c : Char} {cs : List Char} (h : Matched (c :: cs))
include h

theorem Matched.digits_of_isDigit (hc : Text.isDigit c = true) :
    ∀ d ∈ cs, Text.isDigit d = true := by
  generalize e : c :: cs = u at h
  cases h with
  | digits _ hd => exact fun d hm => hd d (e ▸ .tail _ hm)
  | word hn =>
    cases e
    rw [isDigit_of_isNameStart hn] at hc
    cases hc
  | mark hw =>
    obtain ⟨c', cs', e', hd, -⟩ := mark_cases hw
    rw [e'] at e
    cases e
    rw [hd] at hc
    cases hc

theorem Matched.word_of_isNameStart (hc : isNameStart c = true) :
    ∀ d ∈ cs, isNameChar d = true := by
  generalize e : c :: cs = u at h
  cases h with
  | digits _ hd =>
    have hc' := hd c (e ▸ .head _)
    rw [isDigit_of_isNameStart hc] at hc'
    cases hc'
  | word _ hcs =>
    cases e
    exact hcs
  | mark hw =>
    obtain ⟨c', cs', e', -, hn, -⟩ := mark_cases hw
    rw [e'] at e
    cases e
    rw [hn] at hc
    cases hc

theorem Matched.mark_of_not_word (hd : Text.isDigit c = false) (hn : isNameStart c = false) :
    ∃ t, singleMark? c = some t ∧ cs = [] ∨ ∃ d, doubleMark? c d = some t ∧ cs = [d] := by
  generalize e : c :: cs = u at h
  cases h with
  | digits _ hds =>
    have hc := hds c (e ▸ .head _)
    rw [hd] at hc
    cases hc
  | word hc =>
    cases e
    rw [hn] at hc
    cases hc
  | @mark t hw =>
    obtain ⟨c', cs', e', -, -, rfl | ⟨d, rfl⟩⟩ := mark_cases hw
    · rw [e'] at e
      cases e
      exact ⟨t, .inl ⟨singleMark?_eq_some_iff.2 ⟨hw, e'⟩, rfl⟩⟩
    · rw [e'] at e
      cases e
      exact ⟨t, .inr ⟨d, doubleMark?_eq_some_iff.2 ⟨hw, e'⟩, rfl⟩⟩

/-- Blanks and comments match no rule. -/
theorem Matched.not_gap : isGap c = false ∧ c ≠ '#' := by
  generalize e : c :: cs = u at h
  cases h with
  | digits _ hds => exact not_gap_of_isNameChar (isNameChar_of_isDigit (hds c (e ▸ .head _)))
  | word hc =>
    cases e
    exact not_gap_of_isNameChar (isNameChar_of_isNameStart hc)
  | @mark t hw =>
    cases t <;> cases hw <;> cases e <;> exact ⟨rfl, by decide⟩

end

/-! ## The longest match by its first character -/

section

variable {p : Char → Bool} {c : Char} {cs rest : List Char}

/-- A run that goes on as far as it can is the longest match, if all matches are runs. -/
theorem longest_of_takeWhile (hm : Matched (c :: cs))
    (hp : ∀ us, Matched (c :: us) → ∀ d ∈ us, p d = true) (ht : (cs ++ rest).takeWhile p = cs) :
    Longest (c :: cs) rest := by
  refine ⟨hm, fun u hu hmu => ?_⟩
  obtain ⟨a, us, rfl⟩ := List.exists_cons_of_ne_nil hmu.ne_nil
  obtain ⟨rfl, hus⟩ := List.cons_prefix_cons.1 hu
  obtain ⟨ys, e⟩ := hus
  have e : us ++ ys = cs ++ rest := e
  have hrun : cs = us ++ ys.takeWhile p := by
    rw [← ht, ← e, List.takeWhile_append_of_pos (hp us hmu)]
  rw [hrun]
  simp

/-- The longest match goes on as far as it can, if all runs are matches. -/
theorem Longest.takeWhile_eq (h : Longest (c :: cs) rest) (hcs : ∀ d ∈ cs, p d = true)
    (hm : ∀ us, (∀ d ∈ us, p d = true) → Matched (c :: us)) : (cs ++ rest).takeWhile p = cs := by
  have hrun : ∀ d ∈ rest.takeWhile p, p d = true := List.all_eq_true.1 List.all_takeWhile
  have hle := h.longest (c :: (cs ++ rest.takeWhile p))
    (by simpa using List.takeWhile_prefix p) (hm _ fun d hd => (List.mem_append.1 hd).elim
      (hcs d) (hrun d))
  have hnil : rest.takeWhile p = [] := by
    apply List.eq_nil_of_length_eq_zero
    simp only [List.length_cons, List.length_append] at hle
    omega
  rw [List.takeWhile_append_of_pos hcs, hnil, List.append_nil]

theorem matched_digits (hc : Text.isDigit c = true) (us : List Char)
    (hus : ∀ d ∈ us, Text.isDigit d = true) : Matched (c :: us) :=
  .digits (List.cons_ne_nil _ _) (List.forall_mem_cons.2 ⟨hc, hus⟩)

end

/-! ## One token -/

theorem literal?_eq_some_iff {c : Char} {cs : List Char} (hc : Text.isDigit c = true)
    (hcs : ∀ d ∈ cs, Text.isDigit d = true) {t : Token} :
    literal? (c :: cs) = some t ↔
      ∃ n : Int64, n.toInt = Text.digitsValue (c :: cs) ∧ t = .int n := by
  have hall : (c :: cs).all Text.isDigit = true := by
    rw [List.all_eq_true]
    exact List.forall_mem_cons.2 ⟨hc, hcs⟩
  rw [literal?, readInt64_digits hall, Option.map_eq_some_iff]
  constructor
  · rintro ⟨n, hn, rfl⟩
    exact ⟨n, word?_eq_some hn, rfl⟩
  · rintro ⟨n, hn, rfl⟩
    exact ⟨n, by rw [Int.ofNat_eq_natCast, ← hn, word?_toInt], rfl⟩

theorem literal?_eq_none_iff {c : Char} {cs : List Char} (hc : Text.isDigit c = true)
    (hcs : ∀ d ∈ cs, Text.isDigit d = true) :
    literal? (c :: cs) = none ↔ 9223372036854775807 < Text.digitsValue (c :: cs) := by
  have hall : (c :: cs).all Text.isDigit = true := by
    rw [List.all_eq_true]
    exact List.forall_mem_cons.2 ⟨hc, hcs⟩
  rw [literal?, readInt64_digits hall, Option.map_eq_none_iff, Text.word?, Int.ofNat_eq_natCast]
  split
  · simp only [reduceCtorEq, false_iff]
    omega
  · simp only [true_iff]
    omega

theorem keyword?_eq_some_iff {w : String} {t : Token} :
    Token.keyword? w = some t ↔ t.isFixed = true ∧ t.isWord = true ∧ t.text = w := by
  constructor
  · intro h
    unfold Token.keyword? at h
    split at h <;> cases h <;> exact ⟨rfl, rfl, rfl⟩
  · rintro ⟨hf, hw, rfl⟩
    cases t <;> cases hf <;> cases hw <;> rfl

/-- A word is read as one token, a keyword or a name. -/
theorem spelledBy_wordToken {c : Char} {cs : List Char} (hc : isNameStart c = true)
    (hcs : ∀ d ∈ cs, isNameChar d = true) :
    (wordToken (String.ofList (c :: cs))).SpelledBy (c :: cs) := by
  unfold wordToken
  cases hk : Token.keyword? (String.ofList (c :: cs)) with
  | some t =>
    obtain ⟨hf, -, e⟩ := keyword?_eq_some_iff.1 hk
    have h := Token.SpelledBy.fixed hf
    rwa [e, String.toList_ofList] at h
  | none =>
    have hname : IsName (String.ofList (c :: cs)) :=
      ⟨⟨c, cs, String.toList_ofList, hc, List.all_eq_true.2 hcs⟩, hk⟩
    have h := Token.SpelledBy.ident hname
    rwa [String.toList_ofList] at h

theorem fixed_of_mark {t : Token} (h : t.isWord = false) : t.isFixed = true := by
  cases t <;> first | rfl | cases h

/-- The letters of a keyword. -/
theorem keyword_cases {t : Token} (hf : t.isFixed = true) (hw : t.isWord = true) :
    ∃ c cs, t.text.toList = c :: cs ∧ isNameStart c = true ∧ cs.all isNameChar = true := by
  cases t <;> cases hf <;> cases hw <;> exact ⟨_, _, rfl, rfl, rfl⟩

/-- What the lexer reads is the longest match where it starts. -/
theorem longest_of_spells {t : Token} {word rest : List Char} (h : Spells t word rest) :
    Longest word rest ∧ t.SpelledBy word := by
  obtain ⟨c, cs, rfl, -, -, hr⟩ := h
  have hrun {p : Char → Bool} (hl : cs.length = ((cs ++ rest).takeWhile p).length) :
      (cs ++ rest).takeWhile p = cs ∧ ∀ d ∈ cs, p d = true := by
    have e : cs = (cs ++ rest).takeWhile p :=
      (List.prefix_of_prefix_length_le (List.prefix_append cs rest) (List.takeWhile_prefix _)
        (Nat.le_of_eq hl)).eq_of_length hl
    refine ⟨e.symm, ?_⟩
    rw [e]
    exact List.all_eq_true.1 List.all_takeWhile
  rcases readToken_eq_ok_iff.1 hr with ⟨hc, hl, ht⟩ | ⟨-, hc, hl, rfl⟩ |
    ⟨hd, hn, ⟨hl, hm⟩ | ⟨hl, hm, ht⟩⟩
  case inl =>
    obtain ⟨hcs, hall⟩ := hrun hl
    rw [hcs] at ht
    obtain ⟨n, hn, rfl⟩ := (literal?_eq_some_iff hc hall).1 ht
    exact ⟨longest_of_takeWhile (matched_digits hc _ hall) (fun _ hm => hm.digits_of_isDigit hc)
      hcs, .int (List.cons_ne_nil _ _) (List.forall_mem_cons.2 ⟨hc, hall⟩) hn⟩
  case inr.inl =>
    obtain ⟨hcs, hall⟩ := hrun hl
    rw [hcs]
    exact ⟨longest_of_takeWhile (.word hc hall) (fun _ hm => hm.word_of_isNameStart hc) hcs,
      spelledBy_wordToken hc hall⟩
  case inr.inr.inl =>
    -- no match that starts like a mark is longer than two characters
    obtain ⟨d, rfl⟩ := List.length_eq_one_iff.1 hl
    obtain ⟨hw, e⟩ := doubleMark?_eq_some_iff.1 hm
    rw [← e]
    refine ⟨⟨.mark hw, fun u hu hmu => ?_⟩, .fixed (fixed_of_mark hw)⟩
    rw [e] at hu ⊢
    obtain ⟨a, us, rfl⟩ := List.exists_cons_of_ne_nil hmu.ne_nil
    obtain ⟨rfl, -⟩ := List.cons_prefix_cons.1 hu
    obtain ⟨_, ⟨-, rfl⟩ | ⟨_, -, rfl⟩⟩ := hmu.mark_of_not_word hd hn <;> simp
  case inr.inr.inr =>
    -- a match of two characters would be a mark of two characters
    cases List.eq_nil_of_length_eq_zero hl
    obtain ⟨hw, e⟩ := singleMark?_eq_some_iff.1 ht
    rw [← e]
    refine ⟨⟨.mark hw, fun u hu hmu => ?_⟩, .fixed (fixed_of_mark hw)⟩
    rw [e] at hu ⊢
    obtain ⟨a, us, rfl⟩ := List.exists_cons_of_ne_nil hmu.ne_nil
    obtain ⟨rfl, ys, hus⟩ := List.cons_prefix_cons.1 hu
    obtain ⟨_, ⟨-, rfl⟩ | ⟨d, hd', rfl⟩⟩ := hmu.mark_of_not_word hd hn
    · exact Nat.le_refl _
    · have hus : d :: ys = rest := hus
      rw [← hus] at hm
      exact absurd (hd'.symm.trans hm) (Option.some_ne_none _)

section

variable {c : Char} {cs rest : List Char} (h : Longest (c :: cs) rest)
include h

theorem Longest.readToken_digits (hc : Text.isDigit c = true)
    (hcs : ∀ d ∈ cs, Text.isDigit d = true) :
    readToken c (cs ++ rest) = match literal? (c :: cs) with
      | some token => .ok (token, cs.length)
      | none => .error (.literal (c :: cs)) := by
  cases hl : literal? (c :: cs) <;>
    simp [readToken, hc, h.takeWhile_eq hcs (matched_digits hc), hl]

theorem Longest.readToken_word (hc : isNameStart c = true) (hcs : ∀ d ∈ cs, isNameChar d = true) :
    readToken c (cs ++ rest) = .ok (wordToken (String.ofList (c :: cs)), cs.length) := by
  simp [readToken, isDigit_of_isNameStart hc, hc,
    h.takeWhile_eq hcs fun us hus => .word hc hus]

theorem Longest.readToken_mark {t : Token} (hw : t.isWord = false)
    (e : t.text.toList = c :: cs) : readToken c (cs ++ rest) = .ok (t, cs.length) := by
  obtain ⟨c', cs', e', hd, hn, hcs⟩ := mark_cases hw
  rw [e] at e'
  cases e'
  rw [readToken_eq_ok_iff]
  rcases hcs with rfl | ⟨d, rfl⟩
  · refine .inr (.inr ⟨hd, hn, .inr ⟨rfl, ?_, singleMark?_eq_some_iff.2 ⟨hw, e⟩⟩⟩)
    cases rest with
    | nil => rfl
    | cons d rest =>
      cases hm : doubleMark? c d with
      | none => simpa using hm
      | some u =>
        obtain ⟨hu, eu⟩ := doubleMark?_eq_some_iff.1 hm
        have hle := h.longest [c, d] ⟨rest, rfl⟩ (eu ▸ .mark hu)
        simp at hle
  · exact .inr (.inr ⟨hd, hn, .inl ⟨rfl, doubleMark?_eq_some_iff.2 ⟨hw, e⟩⟩⟩)

theorem Longest.readToken_eq {t : Token} (ht : t.SpelledBy (c :: cs)) :
    readToken c (cs ++ rest) = .ok (t, cs.length) := by
  generalize e : c :: cs = word at ht
  cases ht with
  | int _ hds hn =>
    rw [← e] at hds hn
    obtain ⟨hc, hcs⟩ := List.forall_mem_cons.1 hds
    rw [h.readToken_digits hc hcs, (literal?_eq_some_iff hc hcs).2 ⟨_, hn, rfl⟩]
  | @ident name hname =>
    obtain ⟨⟨c', cs', e', hc, hcs⟩, hk⟩ := hname
    cases e.trans e'
    rw [h.readToken_word hc (List.all_eq_true.1 hcs), e, String.ofList_toList, wordToken, hk]
    rfl
  | fixed hf =>
    cases hw : t.isWord with
    | false => exact h.readToken_mark hw e.symm
    | true =>
      obtain ⟨c', cs', e', hc, hcs⟩ := keyword_cases hf hw
      cases e.trans e'
      rw [h.readToken_word hc (List.all_eq_true.1 hcs), e, String.ofList_toList, wordToken,
        keyword?_eq_some_iff.2 ⟨hf, hw, rfl⟩]
      rfl

end

/-- **A token is the longest match where it starts.** -/
theorem spells_iff {t : Token} {word rest : List Char} :
    Spells t word rest ↔ Longest word rest ∧ t.SpelledBy word := by
  refine ⟨longest_of_spells, fun ⟨hl, ht⟩ => ?_⟩
  obtain ⟨c, cs, rfl⟩ := List.exists_cons_of_ne_nil hl.matched.ne_nil
  obtain ⟨hg, hc⟩ := hl.matched.not_gap
  exact ⟨c, cs, rfl, hg, hc, hl.readToken_eq ht⟩

/-! ## Where the lexer is stuck -/

theorem readToken_eq_error_iff {c : Char} {rest : List Char} {fault : Fault} :
    readToken c rest = .error fault ↔
      (Text.isDigit c = true ∧ literal? (c :: rest.takeWhile Text.isDigit) = none ∧
        fault = .literal (c :: rest.takeWhile Text.isDigit)) ∨
      (Text.isDigit c = false ∧ isNameStart c = false ∧
        rest.head?.bind (doubleMark? c) = none ∧ singleMark? c = none ∧ fault = .character c) := by
  unfold readToken
  cases Text.isDigit c with
  | true =>
    simp only [if_true]
    cases literal? (c :: rest.takeWhile Text.isDigit) <;> simp [eq_comm (a := fault)]
  | false =>
    cases isNameStart c with
    | true => simp
    | false =>
      simp only [Bool.false_eq_true, if_false]
      cases rest.head?.bind (doubleMark? c) with
      | some u => simp
      | none => cases singleMark? c <;> simp [eq_comm (a := fault)]

theorem stuck_of_readToken {c : Char} {rest : List Char} {fault : Fault} (hg : isGap c = false)
    (hc : c ≠ '#') (h : readToken c rest = .error fault) :
    ∃ bad after, c :: rest = bad ++ after ∧ Stuck bad after fault := by
  rcases readToken_eq_error_iff.1 h with ⟨hd, hl, rfl⟩ | ⟨hd, hn, hm, hs, rfl⟩
  case inl =>
    have hrun : ∀ d ∈ rest.takeWhile Text.isDigit, Text.isDigit d = true :=
      List.all_eq_true.1 List.all_takeWhile
    refine ⟨c :: rest.takeWhile Text.isDigit, rest.dropWhile Text.isDigit, ?_, .literal
      (List.forall_mem_cons.2 ⟨hd, hrun⟩) (longest_of_takeWhile (matched_digits hd _ hrun)
        (fun _ hm => hm.digits_of_isDigit hd) ?_) ((literal?_eq_none_iff hd hrun).1 hl)⟩
    · rw [List.cons_append, List.takeWhile_append_dropWhile]
    · rw [List.takeWhile_append_dropWhile]
  case inr =>
    refine ⟨[c], rest, rfl, .character hg hc fun u hu hmu => ?_⟩
    obtain ⟨a, us, rfl⟩ := List.exists_cons_of_ne_nil hmu.ne_nil
    obtain ⟨rfl, ys, rfl⟩ := List.cons_prefix_cons.1 hu
    obtain ⟨t, ⟨ht, -⟩ | ⟨d, hd', rfl⟩⟩ := hmu.mark_of_not_word hd hn
    · exact absurd (hs.symm.trans ht) (Option.some_ne_none t).symm
    · exact absurd (hm.symm.trans hd') (Option.some_ne_none t).symm

namespace Stuck

variable {bad after : List Char} {fault : Fault}

/-- The fault names the characters that are no token. -/
theorem length_eq (h : Stuck bad after fault) : fault.length = byteLength bad := by
  cases h with
  | character => simp [Fault.length]
  | literal => rfl

theorem readToken_eq (h : Stuck bad after fault) : ∃ c cs, bad = c :: cs ∧ isGap c = false ∧
    c ≠ '#' ∧ readToken c (cs ++ after) = .error fault := by
  cases h with
  | @character c _ hg hc hno =>
    have hone : ¬ Matched [c] := hno [c] ⟨after, rfl⟩
    have hd : Text.isDigit c = false := by
      rw [← Bool.not_eq_true]
      exact fun hd => hone (matched_digits hd [] (by simp))
    have hn : isNameStart c = false := by
      rw [← Bool.not_eq_true]
      exact fun hn => hone (.word hn (by simp))
    refine ⟨c, [], rfl, hg, hc, readToken_eq_error_iff.2 (.inr ⟨hd, hn, ?_, ?_, rfl⟩)⟩
    · rw [Option.eq_none_iff_forall_ne_some]
      intro t hm
      obtain ⟨d, hd, hm⟩ := Option.bind_eq_some_iff.1 hm
      obtain ⟨after, rfl⟩ := List.head?_eq_some_iff.1 hd
      obtain ⟨hw, e⟩ := doubleMark?_eq_some_iff.1 hm
      exact hno [c, d] ⟨after, rfl⟩ (e ▸ .mark hw)
    · rw [Option.eq_none_iff_forall_ne_some]
      intro t hm
      obtain ⟨hw, e⟩ := singleMark?_eq_some_iff.1 hm
      exact hone (e ▸ .mark hw)
  | literal hds hl hbig =>
    obtain ⟨c, cs, rfl⟩ := List.exists_cons_of_ne_nil hl.matched.ne_nil
    obtain ⟨hc, hcs⟩ := List.forall_mem_cons.1 hds
    obtain ⟨hg, hh⟩ := hl.matched.not_gap
    refine ⟨c, cs, rfl, hg, hh, ?_⟩
    rw [hl.readToken_digits hc hcs, (literal?_eq_none_iff hc hcs).2 hbig]

theorem scan_eq (h : Stuck bad after fault) (position : Nat) :
    scan position (bad ++ after) = .error (fault.at position) := by
  obtain ⟨c, cs, rfl, hg, hc, hr⟩ := h.readToken_eq
  rw [List.cons_append, scan, if_neg (by simp [hg]), if_neg hc, hr]

end Stuck

/-! ## Blanks and comments -/

namespace Skipped

variable {gap rest : List Char}

theorem scan_eq (h : Skipped gap rest) (position : Nat) :
    scan position (gap ++ rest) = scan (position + byteLength gap) rest := by
  induction h generalizing position with
  | nil => simp
  | blank hc _ ih =>
    rw [List.cons_append, scan_blank hc, ih, byteLength_cons, Nat.add_assoc]
  | comment hn hc _ ih =>
    rw [List.cons_append, List.append_assoc, scan_note hn hc, ih]
    simp [Nat.add_assoc]

theorem append {pre : List Char} (hp : Skipped pre (gap ++ rest)) (h : Skipped gap rest) :
    Skipped (pre ++ gap) rest := by
  generalize e : gap ++ rest = cs at hp
  induction hp with
  | nil => exact h
  | blank hc _ ih => exact .blank hc (ih e)
  | comment hn hc _ ih =>
    subst e
    rw [List.cons_append, List.append_assoc]
    exact .comment hn (by simpa using hc) (ih rfl)

/-- What follows can be left out. -/
theorem alone {cs : List Char} (h : Skipped gap (cs ++ rest)) : Skipped gap cs := by
  generalize e : cs ++ rest = text at h
  induction h with
  | nil => exact .nil
  | blank hc _ ih => exact .blank hc (ih e)
  | @comment note gap _ hn hc _ ih =>
    refine .comment hn (fun c hm => hc c ?_) (ih e)
    rw [← e, ← List.append_assoc, List.head?_append, Option.mem_def.1 hm]
    rfl

end Skipped

/-! ## Tokens and the text between them -/

theorem Longest.alone {word cs rest : List Char} (h : Longest word (cs ++ rest)) :
    Longest word cs :=
  ⟨h.matched, fun u hu => h.longest u (hu.trans ⟨rest, by simp⟩)⟩

namespace Cut

variable {position : Nat} {cs after : List Char} {ls : List Lexeme}

theorem skip {gap : List Char} (hg : Skipped gap (cs ++ after))
    (h : Cut (position + byteLength gap) cs after ls) : Cut position (gap ++ cs) after ls := by
  generalize e : position + byteLength gap = p at h
  cases h with
  | done hs => exact .done (hg.append hs)
  | token hs hstart hl ht hstop h =>
    rw [← List.append_assoc]
    refine .token (.append (by simpa using hg) hs) ?_ hl ht hstop h
    rw [hstart, ← e, byteLength_append, Nat.add_assoc]

theorem cons {t : Token} {word : List Char} (hw : Spells t word (cs ++ after))
    (h : Cut (position + byteLength word) cs after ls) :
    Cut position (word ++ cs) after (⟨t, ⟨position, position + byteLength word⟩⟩ :: ls) :=
  .token .nil rfl (spells_iff.1 hw).1 (spells_iff.1 hw).2 rfl h

/-- The lexer reads the tokens and goes on after them. -/
theorem scan_eq (h : Cut position cs after ls) :
    scan position (cs ++ after) =
      (scan (position + byteLength cs) after).map (ls ++ ·) := by
  induction h with
  | done hs =>
    rw [hs.scan_eq]
    cases scan _ _ <;> rfl
  | @token position start stop gap word cs after t ls hs hstart hl ht hstop _ ih =>
    obtain ⟨c, ws, rfl, hg, hc, hr⟩ := spells_iff.2 ⟨hl, ht⟩
    have hpos : position + byteLength (gap ++ (c :: ws ++ cs)) = stop + byteLength cs := by
      rw [byteLength_append, byteLength_append, hstop, hstart]
      omega
    rw [hpos, List.append_assoc, List.append_assoc, hs.scan_eq, ← hstart, List.cons_append, scan,
      if_neg (by simp [hg]), if_neg hc, hr]
    simp only [List.take_left', List.drop_left', ← hstop, ih]
    cases scan (stop + byteLength cs) after <;> rfl

/-- What follows can be left out. -/
theorem alone (h : Cut position cs after ls) : Cut position cs [] ls := by
  induction h with
  | @done position gap after hs =>
    have hs : Skipped gap ([] ++ after) := hs
    exact .done hs.alone
  | @token _ _ _ gap word cs after _ _ hs hstart hl ht hstop _ ih =>
    rw [← List.append_assoc] at hs
    refine .token ?_ hstart ?_ ht hstop ih
    · simpa using hs.alone
    · simpa using hl.alone

/-- Each token is the longest match of the text where its span starts. -/
theorem exact (h : Cut position cs after ls) : ∀ l ∈ ls, ∃ before word rest,
    cs ++ after = before ++ word ++ rest ∧
      l.span = ⟨position + byteLength before, position + byteLength before + byteLength word⟩ ∧
      Longest word rest ∧ l.token.SpelledBy word := by
  induction h with
  | done => simp
  | @token position start stop gap word cs after t ls _ hstart hl ht hstop _ ih =>
    rw [List.forall_mem_cons]
    refine ⟨⟨gap, word, cs ++ after, by simp, by rw [hstop, hstart], hl, ht⟩, fun l hm => ?_⟩
    obtain ⟨before, w, rest, e, hspan, hw⟩ := ih l hm
    refine ⟨gap ++ (word ++ before), w, rest, ?_, ?_, hw⟩
    · simp [e]
    · rw [hspan, hstop, hstart]
      simp [Nat.add_assoc]

end Cut

/-- A text is cut into tokens, up to its end or to a place where the lexer is stuck. -/
theorem exists_cut (position : Nat) (cs : List Char) : ∃ before rest ls,
    cs = before ++ rest ∧ Cut position before rest ls ∧
      (rest = [] ∨ ∃ bad after fault, rest = bad ++ after ∧ Stuck bad after fault) := by
  fun_induction scan position cs with
  | case1 => exact ⟨[], [], [], rfl, .done .nil, .inl rfl⟩
  | case2 position c rest hg ih =>
    obtain ⟨before, rest, ls, rfl, h, hr⟩ := ih
    have h : Cut (position + byteLength [c]) before rest ls := by simpa using h
    exact ⟨c :: before, rest, ls, rfl, h.skip (.blank hg .nil), hr⟩
  | case3 position rest hg ih =>
    obtain ⟨hn, hd⟩ := note_of_takeWhile rest
    obtain ⟨before, rest', ls, e, h, hr⟩ := ih
    rw [e] at hd
    refine ⟨'#' :: rest.takeWhile (· ≠ '\n') ++ before, rest', ls, ?_, h.skip ?_, hr⟩
    · rw [List.append_assoc, ← e, List.cons_append, List.takeWhile_append_dropWhile]
    · have hs : Skipped ('#' :: (rest.takeWhile (· ≠ '\n') ++ [])) (before ++ rest') :=
        .comment hn hd .nil
      simpa using hs
  | case4 position c rest hg hc fault hr =>
    obtain ⟨bad, after, e, hs⟩ := stuck_of_readToken (by simpa using hg) hc hr
    exact ⟨[], bad ++ after, [], e, .done .nil, .inr ⟨bad, after, fault, rfl, hs⟩⟩
  | case5 position c rest hg hc t n hr stop _ _ ih
  | case6 position c rest hg hc t n hr stop _ _ ih =>
    have hw := spells_of_readToken (by simpa using hg) hc hr
    obtain ⟨before, rest', ls, e, h, hrest⟩ := ih
    rw [e] at hw
    refine ⟨c :: rest.take n ++ before, rest', _, ?_, h.cons hw, hrest⟩
    rw [List.append_assoc, ← e, List.cons_append, List.take_append_drop]

theorem scan_eq_ok_iff_cut {position : Nat} {cs : List Char} {ls : List Lexeme} :
    scan position cs = .ok ls ↔ Cut position cs [] ls := by
  have hscan {ls : List Lexeme} (h : Cut position cs [] ls) : scan position cs = .ok ls := by
    have h := h.scan_eq
    rw [List.append_nil, scan] at h
    simpa [Except.map] using h
  refine ⟨fun h => ?_, hscan⟩
  obtain ⟨before, rest, ms, e, hcut, rfl | ⟨bad, after, fault, rfl, hs⟩⟩ := exists_cut position cs
  · rw [List.append_nil] at e
    subst e
    cases (hscan hcut).symm.trans h
    exact hcut
  · rw [e, hcut.scan_eq, hs.scan_eq] at h
    cases h

theorem scan_eq_error_iff {position : Nat} {cs : List Char} {e : CompileError} :
    scan position cs = .error e ↔ ∃ before bad after fault ls, cs = before ++ (bad ++ after) ∧
      Cut position before (bad ++ after) ls ∧ Stuck bad after fault ∧
      e = fault.at (position + byteLength before) := by
  constructor
  · intro h
    obtain ⟨before, rest, ms, rfl, hcut, rfl | ⟨bad, after, fault, rfl, hs⟩⟩ :=
      exists_cut position cs
    · rw [List.append_nil, scan_eq_ok_iff_cut.2 hcut] at h
      cases h
    · rw [hcut.scan_eq, hs.scan_eq] at h
      cases h
      exact ⟨before, bad, after, fault, ms, rfl, hcut, hs, rfl⟩
  · rintro ⟨before, bad, after, fault, ls, rfl, hcut, hs, rfl⟩
    rw [hcut.scan_eq, hs.scan_eq]
    rfl

theorem Fault.span_at (fault : Fault) (position : Nat) :
    (fault.at position).span = ⟨position, position + fault.length⟩ := by
  cases fault <;> rfl

end Lexer

/-- A token is read where its span is: it is what the rules make of the text there, and with the
text after it there is no longer match. -/
structure Lexeme.StandsIn (source : String) (l : Lexeme) : Prop where
  nonempty : l.span.start < l.span.stop
  inside : l.span.stop ≤ source.utf8ByteSize
  start_isValid : (String.Pos.Raw.mk l.span.start).IsValid source
  stop_isValid : (String.Pos.Raw.mk l.span.stop).IsValid source
  spelled : l.token.SpelledBy (l.span.slice source).toList
  longest : Longest (l.span.slice source).toList
    ((Span.mk l.span.stop source.utf8ByteSize).slice source).toList

theorem Lexer.Cut.standsIn {source : String} {ls : List Lexeme} (h : Cut 0 source.toList [] ls)
    {l : Lexeme} (hl : l ∈ ls) : l.StandsIn source := by
  obtain ⟨before, word, rest, e, hspan, hw, ht⟩ := h.exact l hl
  rw [List.append_nil] at e
  have hsource : source = String.ofList (before ++ word ++ rest) := by
    rw [← e, String.ofList_toList]
  have hsize : source.utf8ByteSize = byteLength (before ++ word) + byteLength rest := by
    rw [hsource, String.utf8ByteSize_ofList, ← byteLength_eq_utf8Len, byteLength_append]
  rw [Nat.zero_add] at hspan
  have hslice : l.span.slice source = String.ofList word := by
    rw [hspan, hsource, slice_ofList]
  have hstop : l.span.stop = byteLength (before ++ word) := by rw [hspan, byteLength_append]
  have hafter : (Span.mk l.span.stop source.utf8ByteSize).slice source = String.ofList rest := by
    have h := slice_ofList (before ++ word) rest []
    rw [List.append_nil, ← hsource, ← hsize, ← hstop] at h
    exact h
  constructor
  case nonempty =>
    have hpos := byteLength_pos hw.matched.ne_nil
    rw [hspan]
    exact Nat.lt_add_of_pos_right hpos
  case inside =>
    rw [hstop, hsize]
    omega
  case start_isValid =>
    rw [hspan, hsource, List.append_assoc]
    exact isValid_byteLength before _
  case stop_isValid =>
    rw [hstop, hsource]
    exact isValid_byteLength (before ++ word) rest
  case spelled => rwa [hslice, String.toList_ofList]
  case longest => rwa [hslice, hafter, String.toList_ofList, String.toList_ofList]

/-- **The lexer cuts a source at the longest matches.** It returns tokens if the source is cut into
just these, and their spans are in order, each on its own characters. It fails if the source is
cut into tokens up to a place where it is stuck, with the error of this place, and the text before
the place alone has just the tokens before it. -/
theorem tokenize_exact (source : String) :
    (∀ ls, tokenize source = .ok ls ↔ Cut 0 source.toList [] ls) ∧
    (∀ ls, tokenize source = .ok ls → InOrder ls ∧ ∀ l ∈ ls, l.StandsIn source) ∧
    ∀ e, tokenize source = .error e ↔ ∃ before bad after fault ls,
      source.toList = before ++ (bad ++ after) ∧ Cut 0 before (bad ++ after) ls ∧
      Stuck bad after fault ∧ tokenize (String.ofList before) = .ok ls ∧
      e = fault.at (byteLength before) ∧
      e.span = ⟨byteLength before, byteLength before + byteLength bad⟩ := by
  refine ⟨fun ls => scan_eq_ok_iff_cut, fun ls h => ?_, fun e => ⟨fun h => ?_, ?_⟩⟩
  case refine_1 =>
    have hcut := scan_eq_ok_iff_cut.1 h
    exact ⟨(scan_eq_ok_iff.1 h).inOrder, fun l hl => hcut.standsIn hl⟩
  case refine_2 =>
    obtain ⟨before, bad, after, fault, ls, hs, hcut, hbad, rfl⟩ := scan_eq_error_iff.1 h
    have halone : tokenize (String.ofList before) = .ok ls := by
      rw [tokenize, String.toList_ofList]
      exact scan_eq_ok_iff_cut.2 hcut.alone
    refine ⟨before, bad, after, fault, ls, hs, hcut, hbad, halone, by rw [Nat.zero_add], ?_⟩
    rw [Fault.span_at, hbad.length_eq, Nat.zero_add]
  case refine_3 =>
    rintro ⟨before, bad, after, fault, ls, hs, hcut, hbad, -, he, -⟩
    exact scan_eq_error_iff.2 ⟨before, bad, after, fault, ls, hs, hcut, hbad, by simpa using he⟩

/-- A name that begins like a keyword next to a mark of two characters, after a comment, and the
same text with a mark that has lost its second character. -/
theorem tokenize_exact_comment :
    (∃ ls, tokenize "# é\nif1<=7x" = .ok ls ∧
      ls.map Lexeme.listing = ["Ident(\"if1\") @ 5..8", "LtEq @ 8..10", "IntLit(7) @ 10..11",
        "Ident(\"x\") @ 11..12"] ∧ Cut 0 "# é\nif1<=7x".toList [] ls ∧
      ∀ l ∈ ls, l.StandsIn "# é\nif1<=7x") ∧
    ∃ before bad after fault ls, "# é\nif1!7x".toList = before ++ (bad ++ after) ∧
      Stuck bad after fault ∧ tokenize (String.ofList before) = .ok ls ∧
      (⟨byteLength before, byteLength before + byteLength bad⟩ : Span) = ⟨8, 9⟩ := by
  have hok : tokenize "# é\nif1<=7x" = .ok [⟨.ident "if1", ⟨5, 8⟩⟩, ⟨.ltEq, ⟨8, 10⟩⟩,
      ⟨.int 7, ⟨10, 11⟩⟩, ⟨.ident "x", ⟨11, 12⟩⟩] := by cbv
  have herror : tokenize "# é\nif1!7x" = .error (.unexpectedCharacter '!' ⟨8, 9⟩) := by cbv
  obtain ⟨hcut, hplaces, -⟩ := tokenize_exact "# é\nif1<=7x"
  obtain ⟨before, bad, after, fault, ls, hs, -, hbad, halone, -, hspan⟩ :=
    ((tokenize_exact "# é\nif1!7x").2.2 _).1 herror
  exact ⟨⟨_, hok, by cbv, (hcut _).1 hok, (hplaces _ hok).2⟩,
    before, bad, after, fault, ls, hs, hbad, halone, hspan.symm⟩

end Dynascope
