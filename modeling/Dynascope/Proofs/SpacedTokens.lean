import Dynascope.Proofs.Spans
import Dynascope.Text.Join

/-! # Tokens written apart from each other

`Spaced ts cs`: the characters `cs` are the texts of the tokens `ts` in order, with a `Separator`
between each two. A separator extends no token and hides none, so the lexer reads the tokens back,
each where its text is: `tokenize_spaced`. The tokens that this works for are those that the lexer
can read at all (`Token.lexical_iff`).
-/

set_option autoImplicit false

namespace Dynascope

open Lexer Spelling

namespace Spelling

/-- Blanks and comments, at least one of them, each comment with the line feed that ends it. -/
inductive Separator : List Char → Prop
  | blank {c : Char} : isGap c = true → Separator [c]
  | comment {note : List Char} : '\n' ∉ note → Separator ('#' :: (note ++ ['\n']))
  | append {xs ys : List Char} : Separator xs → Separator ys → Separator (xs ++ ys)

/-- The texts of tokens in order, with a separator between each two. -/
inductive Spaced : List Token → List Char → Prop
  | nil : Spaced [] []
  | single {t : Token} : Spaced [t] t.text.toList
  | cons {t u : Token} {ts : List Token} {gap cs : List Char} : Separator gap →
      Spaced (u :: ts) cs → Spaced (t :: u :: ts) (t.text.toList ++ (gap ++ cs))

/-! ## Separators -/

theorem Separator.head {gap : List Char} (h : Separator gap) :
    ∃ c cs, gap = c :: cs ∧ (isGap c = true ∨ c = '#') := by
  induction h with
  | @blank c hc => exact ⟨c, [], rfl, .inl hc⟩
  | comment => exact ⟨'#', _, rfl, .inr rfl⟩
  | @append _ ys _ _ ih =>
    obtain ⟨c, cs, rfl, hc⟩ := ih
    exact ⟨c, cs ++ ys, rfl, hc⟩

/-- No token goes on with what a separator starts with. -/
theorem extendedBy_eq_false (t : Token) {c : Char} (h : isGap c = true ∨ c = '#') :
    t.extendedBy c = false := by
  have hname : isNameChar c = false := by
    rw [← Bool.not_eq_true]
    intro hn
    obtain ⟨hg, hc⟩ := not_gap_of_isNameChar hn
    exact h.elim (by simp [hg]) hc
  have hne : c ≠ '=' := by
    rintro rfl
    exact h.elim (by decide) (by decide)
  cases t <;> simp [Token.extendedBy, hname, hne]

theorem Separator.exists_pieces {gap : List Char} (h : Separator gap) : ∃ ps : List Piece,
    gap = spell ps ∧ tokensOf ps = [] ∧ (∀ p ∈ ps, p.Valid) ∧ ∀ rest, Separate ps rest := by
  induction h with
  | @blank c hc =>
    exact ⟨[.blank c], rfl, rfl, List.forall_mem_singleton.2 hc, fun _ => ⟨trivial, trivial⟩⟩
  | @comment note hn =>
    refine ⟨[.comment note], ?_, rfl, List.forall_mem_singleton.2 hn,
      fun _ => ⟨trivial, trivial⟩⟩
    rw [spell_cons, spell_nil, List.append_nil, Piece.chars]
  | append _ _ ihx ihy =>
    obtain ⟨ps, rfl, hp, hpv, hps⟩ := ihx
    obtain ⟨qs, rfl, hq, hqv, hqs⟩ := ihy
    refine ⟨ps ++ qs, (spell_append ps qs).symm, by simp [hp, hq],
      List.forall_mem_append.2 ⟨hpv, hqv⟩, fun rest => ?_⟩
    exact (separate_append ps qs rest).2 ⟨hps _, hqs rest⟩

theorem separator_space : Separator " ".toList := by
  have h : isGap ' ' = true := rfl
  simpa using Separator.blank h

/-! ## Tokens with separators between them -/

theorem Spaced.exists_pieces {ts : List Token} {cs : List Char} (h : Spaced ts cs)
    (ht : ∀ t ∈ ts, t.Lexical) : ∃ ps : List Piece,
    cs = spell ps ∧ tokensOf ps = ts ∧ (∀ p ∈ ps, p.Valid) ∧ Separate ps [] := by
  induction h with
  | nil => exact ⟨[], rfl, rfl, by simp, trivial⟩
  | @single t =>
    exact ⟨[.token t], by simp [Piece.chars], rfl, by simpa [Piece.Valid] using ht,
      by simp [Piece.StopsAt], trivial⟩
  | @cons t u ts gap cs hg _ ih =>
    obtain ⟨hlex, hrest⟩ := List.forall_mem_cons.1 ht
    obtain ⟨c, _, e, hc⟩ := hg.head
    obtain ⟨gs, rfl, hgt, hgv, hgs⟩ := hg.exists_pieces
    obtain ⟨qs, rfl, hq, hqv, hqs⟩ := ih hrest
    refine ⟨.token t :: (gs ++ qs), by simp [Piece.chars], by simp [hgt, hq], ?_, ?_, ?_⟩
    · exact List.forall_mem_cons.2 ⟨hlex, List.forall_mem_append.2 ⟨hgv, hqv⟩⟩
    · intro d hd
      rw [spell_append, e, List.cons_append, List.cons_append, List.head?_cons] at hd
      cases hd
      exact extendedBy_eq_false t hc
    · exact (separate_append gs qs []).2 ⟨hgs _, hqs⟩

theorem spaced_joinWith {gap : String} (hg : Separator gap.toList) (ts : List Token) :
    Spaced ts (Text.joinWith gap (ts.map Token.text)).toList := by
  induction ts with
  | nil => exact .nil
  | cons t ts ih =>
    cases ts with
    | nil => exact .single
    | cons u ts =>
      have h := Spaced.cons (t := t) hg ih
      simpa [Text.joinWith] using h

/-- The tokens among pieces stand where their texts are. -/
theorem map_slice_lexemesFrom (before : List Char) (ps : List Piece) (after : List Char) :
    (lexemesFrom (byteLength before) ps).map
        (·.span.slice (String.ofList (before ++ spell ps ++ after))) =
      (tokensOf ps).map Token.text := by
  induction ps generalizing before with
  | nil => rfl
  | cons p ps ih =>
    have ih := ih (before ++ p.chars)
    have e : before ++ spell (p :: ps) ++ after = before ++ p.chars ++ spell ps ++ after := by
      simp
    rw [byteLength_append] at ih
    rw [e]
    cases p with
    | token t =>
      have hs := slice_ofList before t.text.toList (spell ps ++ after)
      rw [← List.append_assoc, String.ofList_toList] at hs
      rw [lexemesFrom, List.map_cons, tokensOf_token, List.map_cons, ih]
      exact congrArg (· :: _) hs
    | blank | comment => exact ih

end Spelling

/-- The tokens that the lexer reads off some source. -/
theorem Token.lexical_iff {t : Token} :
    t.Lexical ↔ ∃ source ls, tokenize source = .ok ls ∧ t ∈ ls.map (·.token) := by
  constructor
  · intro ht
    obtain ⟨ps, e, hp, hv, hs⟩ := Spaced.single.exists_pieces (List.forall_mem_singleton.2 ht)
    refine ⟨t.text, _, tokenize_spell hv hs e, ?_⟩
    rw [map_token_lexemesFrom, hp]
    exact .head _
  · rintro ⟨source, ls, h, hm⟩
    obtain ⟨l, hl, rfl⟩ := List.mem_map.1 hm
    exact lexical_of_tokenize h l hl

/-- **Tokens written apart are read back.** If the texts of tokens that the lexer can read are
joined by a space, or by blanks and comments of any kind, the lexer returns these tokens in order,
and the span of each is its own text. -/
theorem tokenize_spaced {tokens : List Token} (ht : ∀ t ∈ tokens, t.Lexical) {source : String}
    (h : source = Text.joinWith " " (tokens.map Token.text) ∨ Spaced tokens source.toList) :
    ∃ ls, tokenize source = .ok ls ∧ ls.map (·.token) = tokens ∧
      ls.map (·.span.slice source) = tokens.map Token.text ∧ InOrder ls := by
  have h : Spaced tokens source.toList := by
    rcases h with rfl | h
    · exact spaced_joinWith separator_space tokens
    · exact h
  obtain ⟨ps, e, hp, hv, hs⟩ := h.exists_pieces ht
  have hok := tokenize_spell hv hs e
  have hslice := map_slice_lexemesFrom [] ps []
  rw [List.nil_append, List.append_nil, ← e, String.ofList_toList, hp] at hslice
  exact ⟨lexemesFrom 0 ps, hok, by rw [map_token_lexemesFrom, hp], hslice,
    (scan_eq_ok_iff.1 hok).inOrder⟩

/-- A keyword after a name that starts like it, two marks that would be other marks without the
comment between them, and the largest literal. -/
theorem tokenize_spaced_comment :
    (∀ t ∈ [.ident "if1", .kwIf, .assign, .eqEq, .int 9223372036854775807], Token.Lexical t) ∧
      Spaced [.ident "if1", .kwIf, .assign, .eqEq, .int 9223372036854775807]
        "if1 if\t=# é <=\n \r==\n9223372036854775807".toList ∧
      ∃ ls, tokenize "if1 if\t=# é <=\n \r==\n9223372036854775807" = .ok ls ∧
        ls.map (·.token) = [.ident "if1", .kwIf, .assign, .eqEq, .int 9223372036854775807] ∧
        ls.map (·.span.slice "if1 if\t=# é <=\n \r==\n9223372036854775807") =
          ["if1", "if", "=", "==", "9223372036854775807"] ∧ InOrder ls := by
  have hname : IsName "if1" := ⟨⟨'i', ['f', '1'], by simp, rfl, rfl⟩, rfl⟩
  have ht : ∀ t ∈ [.ident "if1", .kwIf, .assign, .eqEq, .int 9223372036854775807],
      Token.Lexical t := by
    simp [Token.Lexical, hname]
  have hnote : Separator "# é <=\n \r".toList := by
    have hn : Separator ('#' :: ([' ', 'é', ' ', '<', '='] ++ ['\n'])) := .comment (by decide)
    have hb : Separator ([' '] ++ ['\r']) := .append (.blank rfl) (.blank rfl)
    simpa using hn.append hb
  have hs : Spaced [.ident "if1", .kwIf, .assign, .eqEq, .int 9223372036854775807]
      "if1 if\t=# é <=\n \r==\n9223372036854775807".toList := by
    have hmax : (toString (9223372036854775807 : Int64)) = "9223372036854775807" := by cbv
    have h : Spaced [.eqEq, .int 9223372036854775807] _ :=
      .cons (.blank (c := '\n') rfl) .single
    have h := Spaced.cons (t := .assign) hnote h
    have h := Spaced.cons (t := .kwIf) (.blank (c := '\t') rfl) h
    have h := Spaced.cons (t := .ident "if1") (.blank (c := ' ') rfl) h
    simpa [Token.text, hmax] using h
  exact ⟨ht, hs, tokenize_spaced ht (.inr hs)⟩

end Dynascope
