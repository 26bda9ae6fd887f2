import Dynascope.Lexer
import Dynascope.Proofs.ExactArith

/-! # Written tokens are read back

A text is spelled by `Piece`s: tokens, and blanks and comments between them. If no token is
extended by the character after it (`Separate`), the lexer reads exactly the tokens of the pieces,
each at its place: `scan_spell`. In the other direction every token that the lexer reads is one
that it can read back (`lexical_of_tokenize`).
-/

set_option autoImplicit false

namespace Dynascope

open Lexer

/-- The words that can be names. -/
def IsName (word : String) : Prop :=
  (∃ c cs, word.toList = c :: cs ∧ isNameStart c = true ∧ cs.all isNameChar = true) ∧
    Token.keyword? word = none

/-- The tokens that the lexer can read. -/
def Token.Lexical : Token → Prop
  | .int n => 0 ≤ n
  | .ident name => IsName name
  | _ => True

/-- The words among the tokens: literals, names and keywords. -/
def Token.isWord : Token → Bool
  | .kwIf | .kwElse | .kwWhile | .kwFor | .kwIn | .kwRange | .kwLambda | .int _ | .ident _ => true
  | _ => false

/-- Whether a character after a token makes another token of it. -/
def Token.extendedBy (t : Token) (c : Char) : Bool :=
  match t with
  | .lt | .gt | .assign => c == '='
  | t => t.isWord && isNameChar c

namespace Spelling

/-! ## Characters -/

theorem isNameChar_of_isDigit {c : Char} (h : Text.isDigit c = true) : isNameChar c = true := by
  simp [isNameChar, h]

theorem isNameChar_of_isNameStart {c : Char} (h : isNameStart c = true) :
    isNameChar c = true := by
  simp [isNameChar, h]

/-- Letters are no digits. -/
theorem isDigit_of_isNameStart {c : Char} (h : isNameStart c = true) :
    Text.isDigit c = false := by
  simp only [isNameStart, Text.isDigit, Bool.or_eq_true, Bool.and_eq_true, beq_iff_eq,
    decide_eq_true_eq, Bool.and_eq_false_iff, decide_eq_false_iff_not, Char.le_def,
    UInt32.le_iff_toNat_le] at *
  have h9 : '9'.val.toNat = 57 := rfl
  have ha : 'a'.val.toNat = 97 := rfl
  have hA : 'A'.val.toNat = 65 := rfl
  rcases h with (rfl | h) | h
  · decide
  · omega
  · omega

/-- Words do not start like blanks or comments. -/
theorem not_gap_of_isNameChar {c : Char} (h : isNameChar c = true) :
    isGap c = false ∧ c ≠ '#' := by
  have hne : ∀ d, isNameChar d = false → c ≠ d := fun d hd e => by rw [e, hd] at h; cases h
  have h₁ := hne ' ' rfl
  have h₂ := hne '\t' rfl
  have h₃ := hne '\n' rfl
  have h₄ := hne '\r' rfl
  exact ⟨by simp [isGap, h₁, h₂, h₃, h₄], hne '#' rfl⟩

theorem takeWhile_append_stop {α : Type} {p : α → Bool} {xs ys : List α}
    (hx : xs.all p = true) (hy : ∀ y ∈ ys.head?, p y = false) :
    (xs ++ ys).takeWhile p = xs := by
  rw [List.takeWhile_append_of_pos (by simpa using hx)]
  cases ys with
  | nil => simp
  | cons y ys => simp [hy y rfl]

/-! ## Literals -/

theorem isDigit_eq (c : Char) : Text.isDigit c = c.isDigit := by
  simp [Text.isDigit, Char.isDigit, Char.le_def, UInt32.le_iff_toNat_le]

theorem digitsValue_toDigits (n : Nat) : Text.digitsValue (Nat.toDigits 10 n) = n := by
  have h := Nat.ofDigitChars_ten_toDigits (n := n)
  rwa [Nat.ofDigitChars_eq_foldl] at h

theorem isDigit_toDigits {n : Nat} {c : Char} (h : c ∈ Nat.toDigits 10 n) :
    Text.isDigit c = true := by
  rw [isDigit_eq]
  exact Nat.isDigit_of_mem_toDigits (by decide) (by decide) h

theorem toDigits_head (n : Nat) :
    ∃ c cs, Nat.toDigits 10 n = c :: cs ∧ Text.isDigit c = true := by
  obtain ⟨c, cs, h⟩ := List.exists_cons_of_ne_nil (Nat.toDigits_ne_nil (b := 10) (n := n))
  have hc : c ∈ Nat.toDigits 10 n := by rw [h]; exact .head cs
  exact ⟨c, cs, h, isDigit_toDigits hc⟩

/-- The digits of a negative number follow its sign. -/
theorem toList_repr_negSucc (k : Nat) :
    (Int.repr (Int.negSucc k)).toList = '-' :: Nat.toDigits 10 (k + 1) := by
  show ("-" ++ Nat.repr (k + 1)).toList = _
  rw [String.toList_append, Nat.toList_repr]
  rfl

theorem toNat_toInt {n : Int64} (h : 0 ≤ n) : (n.toInt.toNat : Int) = n.toInt := by
  have h₀ : (0 : Int64).toInt ≤ n.toInt := Int64.le_iff_toInt_le.1 h
  exact Int.toNat_of_nonneg h₀

theorem toString_of_nonneg {n : Int64} (h : 0 ≤ n) :
    (toString n).toList = Nat.toDigits 10 n.toInt.toNat := by
  have e : toString n = Int.repr n.toInt := rfl
  rw [e, ← toNat_toInt h]
  exact Nat.toList_repr

/-- A text of digits has the value of its digits. -/
theorem readInt64_digits {c : Char} {cs : List Char} (h : (c :: cs).all Text.isDigit = true) :
    Text.readInt64 (c :: cs) = Text.word? (Int.ofNat (Text.digitsValue (c :: cs))) := by
  have hc : Text.isDigit c = true := by simp_all
  have hne : ∀ d, Text.isDigit d = false → c ≠ d := fun d hd e => by rw [e, hd] at hc; cases hc
  have e : Text.readNat (c :: cs) = some (Text.digitsValue (c :: cs)) := by
    rw [Text.readNat, if_pos ⟨List.cons_ne_nil _ _, h⟩]
  have h₁ : ∀ xs, c :: cs = '-' :: xs → False := fun _ e => hne '-' rfl (List.cons.inj e).1
  have h₂ : ∀ xs, c :: cs = '+' :: xs → False := fun _ e => hne '+' rfl (List.cons.inj e).1
  rw [Text.readInt64.eq_3 _ h₁ h₂, e]
  generalize Text.digitsValue (c :: cs) = n
  rw [Option.bind_eq_bind, Option.bind_some]

/-- The digits of a literal are read as the literal. -/
theorem literal?_toString {n : Int64} (h : 0 ≤ n) {c : Char} {cs : List Char}
    (e : (toString n).toList = c :: cs) :
    literal? (c :: cs) = some (.int n) ∧ (c :: cs).all Text.isDigit = true := by
  rw [toString_of_nonneg h] at e
  have hd : (c :: cs).all Text.isDigit = true := by
    rw [← e, List.all_eq_true]
    exact fun _ => isDigit_toDigits
  refine ⟨?_, hd⟩
  rw [literal?, readInt64_digits hd, ← e, digitsValue_toDigits, Int.ofNat_eq_natCast,
    toNat_toInt h, word?_toInt]
  rfl

/-! ## One token -/

theorem doubleMark?_eq_none {c d : Char} (h : d ≠ '=') : doubleMark? c d = none := by
  unfold doubleMark?
  split <;> simp_all

/-- A mark that the next character does not extend. -/
theorem readToken_mark {c : Char} {t : Token} {rest : List Char} (hd : Text.isDigit c = false)
    (hs : isNameStart c = false) (hm : singleMark? c = some t)
    (hr : ∀ d ∈ rest.head?, doubleMark? c d = none) : readToken c rest = .ok (t, 0) := by
  have h : rest.head?.bind (doubleMark? c) = none := by
    cases rest with
    | nil => rfl
    | cons d rest => exact hr d rfl
  simp [readToken, hd, hs, h, hm]

/-- A run of name characters that starts like a name. -/
theorem readToken_word {c : Char} {cs rest : List Char} (hc : isNameStart c = true)
    (hcs : cs.all isNameChar = true) (hr : ∀ d ∈ rest.head?, isNameChar d = false) :
    readToken c (cs ++ rest) = .ok (wordToken (String.ofList (c :: cs)), cs.length) := by
  simp [readToken, isDigit_of_isNameStart hc, hc, takeWhile_append_stop hcs hr]

theorem readToken_literal {n : Int64} (h : 0 ≤ n) {c : Char} {cs rest : List Char}
    (e : (toString n).toList = c :: cs) (hr : ∀ d ∈ rest.head?, isNameChar d = false) :
    readToken c (cs ++ rest) = .ok (.int n, cs.length) := by
  obtain ⟨hl, hd⟩ := literal?_toString h e
  have hc : Text.isDigit c = true := by simp_all
  have hcs : cs.all Text.isDigit = true := by simp_all
  have hr' : ∀ d ∈ rest.head?, Text.isDigit d = false := fun d hdr => by
    have := hr d hdr
    simp [isNameChar] at this
    exact this.2
  simp [readToken, hc, takeWhile_append_stop hcs hr', hl]

theorem readToken_name {name : String} (h : IsName name) {c : Char} {cs rest : List Char}
    (e : name.toList = c :: cs) (hr : ∀ d ∈ rest.head?, isNameChar d = false) :
    readToken c (cs ++ rest) = .ok (.ident name, cs.length) := by
  obtain ⟨⟨c', cs', e', hc, hcs⟩, hk⟩ := h
  rw [e] at e'
  cases e'
  rw [readToken_word hc hcs hr, ← e, String.ofList_toList, wordToken, hk]
  rfl

/-- A token is read back from its text if the next character does not extend it. -/
theorem readToken_text {t : Token} (ht : t.Lexical) {c : Char} {cs rest : List Char}
    (e : t.text.toList = c :: cs) (hr : ∀ d ∈ rest.head?, t.extendedBy d = false) :
    readToken c (cs ++ rest) = .ok (t, cs.length) := by
  cases t with
  | int n => exact readToken_literal ht e (by simpa [Token.extendedBy, Token.isWord] using hr)
  | ident name => exact readToken_name ht e (by simpa [Token.extendedBy, Token.isWord] using hr)
  | kwIf | kwElse | kwWhile | kwFor | kwIn | kwRange | kwLambda =>
    simp only [Token.text, String.reduceToList, List.cons.injEq] at e
    obtain ⟨rfl, rfl⟩ := e
    exact readToken_word rfl rfl (by simpa [Token.extendedBy, Token.isWord] using hr)
  | lt | gt | assign =>
    simp only [Token.text, String.reduceToList, List.cons.injEq] at e
    obtain ⟨rfl, rfl⟩ := e
    refine readToken_mark rfl rfl rfl fun d hd => doubleMark?_eq_none ?_
    simpa [Token.extendedBy] using hr d hd
  | plus | minus | star | slash | lparen | rparen | lbrace | rbrace | comma | semi | colon =>
    simp only [Token.text, String.reduceToList, List.cons.injEq] at e
    obtain ⟨rfl, rfl⟩ := e
    exact readToken_mark rfl rfl rfl fun d _ => by unfold doubleMark?; split <;> simp_all
  | eqEq | notEq | ltEq | gtEq =>
    simp only [Token.text, String.reduceToList, List.cons.injEq] at e
    obtain ⟨rfl, rfl⟩ := e
    rfl

/-! ## Places -/

theorem foldl_utf8Size (cs : List Char) (n : Nat) :
    cs.foldl (fun n c => n + c.utf8Size) n = n + byteLength cs := by
  unfold byteLength
  induction cs generalizing n with
  | nil => rfl
  | cons c cs ih => rw [List.foldl_cons, List.foldl_cons, ih, ih (0 + _)]; omega

@[simp] theorem byteLength_nil : byteLength [] = 0 := rfl

@[simp] theorem byteLength_cons (c : Char) (cs : List Char) :
    byteLength (c :: cs) = c.utf8Size + byteLength cs := by
  rw [byteLength, List.foldl_cons, foldl_utf8Size, Nat.zero_add]

@[simp] theorem byteLength_append (xs ys : List Char) :
    byteLength (xs ++ ys) = byteLength xs + byteLength ys := by
  rw [byteLength, List.foldl_append, foldl_utf8Size]
  rfl

/-! ## Texts of pieces -/

/-- A token, or what can stand between tokens. -/
inductive Piece where
  | token (t : Token)
  | blank (c : Char)
  /-- a comment with the line feed that ends it -/
  | comment (cs : List Char)

namespace Piece

/-- The text of a piece. -/
def chars : Piece → List Char
  | token t => t.text.toList
  | blank c => [c]
  | comment cs => '#' :: (cs ++ ['\n'])

/-- A piece that the lexer reads as what it is meant for. -/
def Valid : Piece → Prop
  | token t => t.Lexical
  | blank c => isGap c = true
  | comment cs => '\n' ∉ cs

/-- A text that can follow a piece, as it makes no other token of it. -/
def StopsAt : Piece → List Char → Prop
  | token t, rest => ∀ c ∈ rest.head?, t.extendedBy c = false
  | _, _ => True

/-- The token that a piece is. -/
def token? : Piece → Option Token
  | token t => some t
  | _ => none

end Piece

/-- The text of pieces one after the other. -/
def spell (ps : List Piece) : List Char :=
  ps.flatMap Piece.chars

/-- The tokens among pieces. -/
def tokensOf (ps : List Piece) : List Token :=
  ps.filterMap Piece.token?

/-- The tokens among pieces of which the first starts at a position. -/
def lexemesFrom (position : Nat) : List Piece → List Lexeme
  | [] => []
  | p :: ps =>
    let stop := position + byteLength p.chars
    match p with
    | .token t => ⟨t, ⟨position, stop⟩⟩ :: lexemesFrom stop ps
    | _ => lexemesFrom stop ps

/-- No piece is extended by what follows it; `rest` follows the last. -/
def Separate : List Piece → List Char → Prop
  | [], _ => True
  | p :: ps, rest => p.StopsAt (spell ps ++ rest) ∧ Separate ps rest

@[simp] theorem spell_nil : spell [] = [] := rfl

@[simp] theorem spell_cons (p : Piece) (ps : List Piece) :
    spell (p :: ps) = p.chars ++ spell ps := rfl

@[simp] theorem spell_append (ps qs : List Piece) : spell (ps ++ qs) = spell ps ++ spell qs := by
  simp [spell]

@[simp] theorem tokensOf_token (t : Token) (ps : List Piece) :
    tokensOf (.token t :: ps) = t :: tokensOf ps := rfl

@[simp] theorem tokensOf_blank (c : Char) (ps : List Piece) :
    tokensOf (.blank c :: ps) = tokensOf ps := rfl

@[simp] theorem tokensOf_comment (cs : List Char) (ps : List Piece) :
    tokensOf (.comment cs :: ps) = tokensOf ps := rfl

@[simp] theorem tokensOf_append (ps qs : List Piece) :
    tokensOf (ps ++ qs) = tokensOf ps ++ tokensOf qs := by
  simp [tokensOf]

@[simp] theorem separate_append (ps qs : List Piece) (rest : List Char) :
    Separate (ps ++ qs) rest ↔ Separate ps (spell qs ++ rest) ∧ Separate qs rest := by
  induction ps with
  | nil => simp [Separate]
  | cons p ps ih => simp [Separate, ih, and_assoc]

theorem map_token_lexemesFrom (position : Nat) (ps : List Piece) :
    (lexemesFrom position ps).map (·.token) = tokensOf ps := by
  induction ps generalizing position with
  | nil => rfl
  | cons p ps ih => cases p <;> simp [lexemesFrom, ih]

/-! ## Reading pieces -/

theorem scan_blank {c : Char} (h : isGap c = true) (position : Nat) (rest : List Char) :
    scan position (c :: rest) = scan (position + c.utf8Size) rest := by
  rw [scan, if_pos h]

theorem scan_comment {cs : List Char} (h : '\n' ∉ cs) (position : Nat) (rest : List Char) :
    scan position ('#' :: (cs ++ '\n' :: rest)) =
      scan (position + byteLength ('#' :: (cs ++ ['\n']))) rest := by
  have hne : ∀ c ∈ cs, c ≠ '\n' := fun c hc e => h (e ▸ hc)
  have ht : (cs ++ '\n' :: rest).takeWhile (· ≠ '\n') = cs :=
    takeWhile_append_stop (by simpa using hne) (by simp)
  have hd : (cs ++ '\n' :: rest).dropWhile (· ≠ '\n') = '\n' :: rest := by
    rw [List.dropWhile_append_of_pos (by simpa using hne)]
    simp
  rw [scan, if_neg (by decide), if_pos rfl, ht, hd, scan_blank rfl]
  congr 1
  simp only [byteLength_cons, byteLength_append, byteLength_nil]
  omega

/-- The first character of a token's text. -/
theorem text_eq_cons {t : Token} (ht : t.Lexical) :
    ∃ c cs, t.text.toList = c :: cs ∧ isGap c = false ∧ c ≠ '#' := by
  have word : ∀ w : List Char, w ≠ [] → (∀ c ∈ w, isNameChar c = true) →
      ∃ c cs, w = c :: cs ∧ isGap c = false ∧ c ≠ '#' := by
    intro w hw h
    obtain ⟨c, cs, rfl⟩ := List.exists_cons_of_ne_nil hw
    exact ⟨c, cs, rfl, not_gap_of_isNameChar (h c (.head _))⟩
  cases t with
  | int n =>
    refine word _ ?_ fun c hc => isNameChar_of_isDigit ?_ <;>
      rw [Token.text, toString_of_nonneg ht] at *
    · exact Nat.toDigits_ne_nil
    · exact isDigit_toDigits hc
  | ident name =>
    obtain ⟨⟨c, cs, e, hc, -⟩, -⟩ := ht
    exact ⟨c, cs, e, not_gap_of_isNameChar (isNameChar_of_isNameStart hc)⟩
  | _ => exact ⟨_, _, rfl, rfl, by decide⟩

theorem scan_token {t : Token} (ht : t.Lexical) {rest : List Char}
    (hr : ∀ d ∈ rest.head?, t.extendedBy d = false) (position : Nat) :
    scan position (t.text.toList ++ rest) =
      (scan (position + byteLength t.text.toList) rest).map
        (⟨t, ⟨position, position + byteLength t.text.toList⟩⟩ :: ·) := by
  obtain ⟨c, cs, e, hg, hc⟩ := text_eq_cons ht
  have h := readToken_text ht e hr
  rw [e, List.cons_append, scan, if_neg (by simp [hg]), if_neg hc, h]
  simp only [List.take_left', List.drop_left']
  cases scan (position + byteLength (c :: cs)) rest <;> rfl

/-- **Pieces are read back**: the lexer reads the tokens of a text of pieces, each at its place,
and then the rest. -/
theorem scan_spell {ps : List Piece} (hv : ∀ p ∈ ps, p.Valid) {rest : List Char}
    (hs : Separate ps rest) (position : Nat) :
    scan position (spell ps ++ rest) =
      (scan (position + byteLength (spell ps)) rest).map (lexemesFrom position ps ++ ·) := by
  induction ps generalizing position with
  | nil => cases h : scan position rest <;> simp [Except.map, lexemesFrom, h]
  | cons p ps ih =>
    obtain ⟨hp, hs⟩ := hs
    have hpv := hv p (.head _)
    have ih := ih (fun q hq => hv q (.tail _ hq)) hs (position + byteLength p.chars)
    rw [spell_cons, List.append_assoc, byteLength_append, ← Nat.add_assoc]
    cases p with
    | token t =>
      rw [Piece.chars, scan_token hpv hp, ← Piece.chars, ih]
      cases scan (position + byteLength (Piece.chars (.token t)) + byteLength (spell ps)) rest <;>
        rfl
    | blank c =>
      rw [Piece.chars, List.singleton_append, scan_blank hpv]
      simpa [Piece.chars, lexemesFrom] using ih
    | comment cs =>
      have h := scan_comment hpv position (spell ps ++ rest)
      rw [Piece.chars, List.cons_append, List.append_assoc, List.singleton_append, h]
      exact ih

/-- A text of pieces has the tokens of the pieces. -/
theorem tokenize_spell {ps : List Piece} (hv : ∀ p ∈ ps, p.Valid) (hs : Separate ps [])
    {source : String} (h : source.toList = spell ps) :
    tokenize source = .ok (lexemesFrom 0 ps) := by
  have hscan := scan_spell hv hs 0
  rw [List.append_nil, scan, ← h] at hscan
  simpa [tokenize, Except.map] using hscan

/-! ## What the lexer reads -/

theorem lexical_of_literal? {ds : List Char} {t : Token} (hd : ds.all Text.isDigit = true)
    (hne : ds ≠ []) (h : literal? ds = some t) : t.Lexical := by
  obtain ⟨d, ds, rfl⟩ := List.exists_cons_of_ne_nil hne
  obtain ⟨n, hn, rfl⟩ := Option.map_eq_some_iff.1 h
  rw [readInt64_digits hd] at hn
  have e := word?_eq_some hn
  have : (0 : Int64).toInt ≤ n.toInt := by
    rw [e]
    exact Int.natCast_nonneg _
  exact Int64.le_iff_toInt_le.2 this

theorem lexical_of_keyword? {w : String} {t : Token} (h : Token.keyword? w = some t) :
    t.Lexical := by
  unfold Token.keyword? at h
  split at h <;> cases h <;> trivial

theorem lexical_of_mark {c d : Char} {t : Token}
    (h : doubleMark? c d = some t ∨ singleMark? c = some t) : t.Lexical := by
  unfold doubleMark? singleMark? at h
  rcases h with h | h <;> split at h <;> cases h <;> trivial

theorem lexical_of_readToken {c : Char} {rest : List Char} {t : Token} {n : Nat}
    (h : readToken c rest = .ok (t, n)) : t.Lexical := by
  unfold readToken at h
  split at h
  · rename_i hc
    simp only at h
    split at h <;> cases h
    refine lexical_of_literal? ?_ (List.cons_ne_nil _ _) ‹_›
    simp [hc, List.all_takeWhile]
  · split at h
    · rename_i hc
      cases h
      unfold wordToken
      cases hk : Token.keyword? (String.ofList (c :: rest.takeWhile isNameChar)) with
      | some t => exact lexical_of_keyword? hk
      | none => exact ⟨⟨c, _, String.toList_ofList, hc, List.all_takeWhile⟩, hk⟩
    · split at h
      · cases h
        rename_i hm
        obtain ⟨d, -, hd⟩ := Option.bind_eq_some_iff.1 hm
        exact lexical_of_mark (.inl hd)
      · split at h <;> cases h
        exact lexical_of_mark (d := c) (.inr ‹_›)

theorem lexical_of_scan {position : Nat} {cs : List Char} {ls : List Lexeme}
    (h : scan position cs = .ok ls) : ∀ l ∈ ls, l.token.Lexical := by
  fun_induction scan position cs generalizing ls with
  | case1 =>
    cases h
    simp
  | case2 _ _ _ _ ih => exact ih h
  | case3 _ _ _ ih => exact ih h
  | case4 => cases h
  | case5 => cases h
  | case6 =>
    rename_i hr _ _ hs ih
    cases h
    intro l hl
    rcases List.mem_cons.1 hl with rfl | hl
    · exact lexical_of_readToken hr
    · exact ih hs l hl

/-- Every token that the lexer returns is one that it reads back. -/
theorem lexical_of_tokenize {source : String} {ls : List Lexeme} (h : tokenize source = .ok ls) :
    ∀ l ∈ ls, l.token.Lexical :=
  lexical_of_scan h

end Spelling

end Dynascope
