import Dynascope.Json
import Dynascope.Proofs.Spelling

/-! # JSON texts are read back

`Json.Spells` says which characters spell some data: the written forms of its parts in order, with
blanks between them. Both ways to write data spell it (`Json.compact_spells`, `Json.pretty_spells`),
and the reader gives back what is spelled (`Json.read?_of_spells`), with the fuel that it has. Data
is `Plain` if no number in it is kept as a text.
-/

set_option autoImplicit false

namespace Dynascope.Json

/-! ## Blanks -/

/-- Blanks between the parts of a text. -/
def Gap (cs : List Char) : Prop :=
  ∀ c ∈ cs, isSpace c = true

theorem Gap.nil : Gap [] :=
  fun _ h => nomatch h

theorem skip_append {gap : List Char} (h : Gap gap) (cs : List Char) :
    skip (gap ++ cs) = skip cs := by
  induction gap with
  | nil => rfl
  | cons c gap ih =>
    obtain ⟨hc, hg⟩ := List.forall_mem_cons.1 h
    rw [List.cons_append, skip, List.dropWhile_cons_of_pos hc]
    exact ih hg

theorem skip_cons {c : Char} (h : isSpace c = false) (cs : List Char) : skip (c :: cs) = c :: cs :=
  List.dropWhile_cons_of_neg (by simp [h])

theorem skip_gap {gap : List Char} (h : Gap gap) {c : Char} (hc : isSpace c = false)
    (cs : List Char) : skip (gap ++ c :: cs) = c :: cs := by
  rw [skip_append h, skip_cons hc]

theorem gap_newline (depth : Nat) : Gap (newline depth) := by
  intro c hc
  rcases List.mem_cons.1 hc with rfl | hc
  · rfl
  · rw [(List.mem_replicate.1 hc).2]
    rfl

/-! ## Numbers -/

/-- What follows is no part of a number. -/
def Stops (rest : List Char) : Prop :=
  ∀ c ∈ rest.head?, Text.isDigit c = false ∧ c ≠ '.' ∧ c ≠ 'e' ∧ c ≠ 'E'

theorem Stops.nil : Stops [] :=
  fun _ h => nomatch h

theorem Stops.newline (depth : Nat) (rest : List Char) : Stops (newline depth ++ rest) := by
  rintro c ⟨⟩
  decide

theorem Stops.comma (rest : List Char) : Stops (',' :: rest) := by
  rintro c ⟨⟩
  decide

theorem Stops.closed {c : Char} (h : c = ']' ∨ c = '}') (rest : List Char) : Stops (c :: rest) := by
  rintro d ⟨⟩
  rcases h with rfl | rfl <;> decide

/-- Only zero begins with the digit zero. -/
theorem toDigits_cons (k : Nat) :
    Nat.toDigits 10 k = ['0'] ∨ ∃ c cs, Nat.toDigits 10 k = c :: cs ∧ c ≠ '0' := by
  have hdigit : ∀ d < 10, Nat.digitChar d = '0' → d = 0 := by decide
  induction k using Nat.strongRecOn with
  | _ k ih =>
    rcases Nat.lt_or_ge k 10 with hlt | hge
    · rw [Nat.toDigits_of_lt_base hlt]
      by_cases h0 : k = 0
      · exact .inl (by rw [h0]; rfl)
      · exact .inr ⟨_, [], rfl, fun hc => h0 (hdigit k hlt hc)⟩
    · rw [Nat.toDigits_of_base_le (by decide) hge]
      rcases ih (k / 10) (Nat.div_lt_self (by omega) (by decide)) with h | ⟨c, cs, h, hc⟩
      · have h0 := congrArg Text.digitsValue h
        rw [Spelling.digitsValue_toDigits] at h0
        have hz : Text.digitsValue ['0'] = 0 := rfl
        omega
      · exact .inr ⟨c, cs ++ [Nat.digitChar (k % 10)], by rw [h, List.cons_append], hc⟩

section

variable {rest : List Char} (hr : Stops rest)
include hr

theorem readDigits?_toDigits (k : Nat) :
    readDigits? (Nat.toDigits 10 k ++ rest) = some (Nat.toDigits 10 k, rest) := by
  have hd : (Nat.toDigits 10 k).all Text.isDigit = true :=
    List.all_eq_true.2 fun _ => Spelling.isDigit_toDigits
  have ht := Spelling.takeWhile_append_stop hd fun c hc => (hr c hc).1
  have hlen := List.takeWhile_append_dropWhile (p := Text.isDigit) (l := Nat.toDigits 10 k ++ rest)
  rw [ht, List.append_cancel_left_eq] at hlen
  unfold readDigits?
  rw [ht, hlen]
  cases h : Nat.toDigits 10 k with
  | nil => exact absurd h Nat.toDigits_ne_nil
  | cons c cs => rfl

theorem readWhole?_toDigits (k : Nat) :
    readWhole? (Nat.toDigits 10 k ++ rest) = some (Nat.toDigits 10 k, rest) := by
  rcases toDigits_cons k with h | ⟨c, cs, h, hc⟩
  · rw [h]
    cases rest with
    | nil => rfl
    | cons c rest =>
      show (if Text.isDigit c then none else some (['0'], c :: rest)) = _
      rw [(hr c rfl).1]
      rfl
  · have hd := readDigits?_toDigits hr k
    rw [h, List.cons_append] at hd ⊢
    unfold readWhole?
    split
    · rename_i e
      exact absurd (List.cons.inj e).1 hc
    · exact hd

theorem readFraction?_stops : readFraction? rest = some ([], rest) := by
  unfold readFraction?
  split
  · exact absurd rfl (hr _ rfl).2.1
  · rfl

theorem readExponent?_stops : readExponent? rest = some ([], rest) := by
  cases rest with
  | nil => rfl
  | cons c rest =>
    obtain ⟨-, -, he, hE⟩ := hr c rfl
    exact if_neg (not_or.2 ⟨he, hE⟩)

/-- A number is read back. -/
theorem readNumber?_toString (n : Int) :
    readNumber? ((toString n).toList ++ rest) = some (integer n, rest) := by
  have hwhole (k : Nat) := readWhole?_toDigits hr k
  cases n with
  | ofNat k =>
    have h : (toString (Int.ofNat k)).toList = Nat.toDigits 10 k := Nat.toList_repr
    have hne : ∀ cs, Nat.toDigits 10 k ++ rest ≠ '-' :: cs := by
      intro cs e
      obtain ⟨c, ds, hd, hc⟩ := Spelling.toDigits_head k
      rw [hd, List.cons_append] at e
      rw [(List.cons.inj e).1] at hc
      cases hc
    rw [h]
    unfold readNumber?
    split
    rename_i negative cs e
    split at e
    · rename_i e'
      exact absurd e' (hne _)
    · cases e
      simp [hwhole, readFraction?_stops hr, readExponent?_stops hr, number,
        Spelling.digitsValue_toDigits]
  | negSucc k =>
    have h : (toString (Int.negSucc k)).toList = '-' :: Nat.toDigits 10 (k + 1) :=
      Spelling.toList_repr_negSucc k
    rw [h]
    simp [readNumber?, hwhole, readFraction?_stops hr, readExponent?_stops hr, number,
      Spelling.digitsValue_toDigits, Int.negSucc_eq]

end

/-- Numbers begin with a digit or a sign. -/
theorem toString_cons (n : Int) :
    ∃ c cs, (toString n).toList = c :: cs ∧ (c = '-' ∨ Text.isDigit c = true) := by
  cases n with
  | ofNat k =>
    obtain ⟨c, cs, hd, hc⟩ := Spelling.toDigits_head k
    exact ⟨c, cs, Nat.toList_repr.trans hd, .inr hc⟩
  | negSucc k => exact ⟨'-', _, Spelling.toList_repr_negSucc k, .inl rfl⟩

section

variable {c : Char} (h : c = '-' ∨ Text.isDigit c = true)
include h

theorem ne_of_numeral {d : Char} (hd : d ≠ '-' ∧ Text.isDigit d = false) : c ≠ d := by
  rintro rfl
  rcases h with h | h
  · exact hd.1 h
  · exact Bool.false_ne_true (hd.2.symm.trans h)

theorem isSpace_of_numeral : isSpace c = false := by
  have hs := ne_of_numeral h (d := ' ') (by decide)
  have hn := ne_of_numeral h (d := '\n') (by decide)
  have ht := ne_of_numeral h (d := '\t') (by decide)
  have hr := ne_of_numeral h (d := '\r') (by decide)
  simp [isSpace, hs, hn, ht, hr]

end

/-! ## Strings -/

theorem hexValue?_hexDigit : ∀ k < 16, hexValue? (hexDigit k) = some k := by
  decide

/-- The number of a control is read back as the control. -/
theorem readUnicode?_control {c : Char} (h : c.toNat < 0x20) (rest : List Char) :
    readUnicode? ('0' :: '0' :: hexDigit (c.toNat / 16) :: hexDigit (c.toNat % 16) :: rest) =
      some (c, 4) := by
  have h0 : hexValue? '0' = some 0 := rfl
  have hunit : (0 * 16 + 0) * 256 + (c.toNat / 16 * 16 + c.toNat % 16) = c.toNat := by omega
  have hfour : fourDigits? ('0' :: '0' :: hexDigit (c.toNat / 16) :: hexDigit (c.toNat % 16) ::
      rest) = some c.toNat := by
    simp only [fourDigits?, h0, hexValue?_hexDigit _ (show c.toNat / 16 < 16 by omega),
      hexValue?_hexDigit _ (show c.toNat % 16 < 16 by omega), Option.bind_eq_bind,
      Option.bind_some, Option.pure_def, hunit]
  have h₁ : ¬ (0xD800 ≤ c.toNat ∧ c.toNat < 0xDC00) := by omega
  have h₂ : ¬ (0xDC00 ≤ c.toNat ∧ c.toNat < 0xE000) := by omega
  simp only [readUnicode?, hfour, Option.bind_eq_bind, Option.bind_some, if_neg h₁, if_neg h₂,
    Char.ofNat_toNat]

/-- The written form of a character is read back as the character. -/
theorem readChar?_escapeChar (c : Char) :
    ∃ e es, escapeChar c = e :: es ∧ e ≠ '"' ∧
      ∀ rest, readChar? e (es ++ rest) = some (c, es.length) := by
  by_cases hs : c ∈ ['"', '\\', '\x08', '\x0c', '\n', '\r', '\t']
  · simp only [List.mem_cons, List.not_mem_nil, or_false] at hs
    rcases hs with rfl | rfl | rfl | rfl | rfl | rfl | rfl <;>
      exact ⟨_, _, rfl, by decide, fun _ => rfl⟩
  · simp only [List.mem_cons, List.not_mem_nil, or_false, not_or] at hs
    obtain ⟨hq, hb, h₃, h₄, h₅, h₆, h₇⟩ := hs
    by_cases hc : c.toNat < 0x20
    · refine ⟨'\\', ['u', '0', '0', hexDigit (c.toNat / 16), hexDigit (c.toNat % 16)], ?_,
        by decide, fun rest => ?_⟩
      · simp only [escapeChar, hq, hb, h₃, h₄, h₅, h₆, h₇, hc, ↓reduceIte]
      · show (readUnicode? ('0' :: '0' :: hexDigit (c.toNat / 16) :: hexDigit (c.toNat % 16) ::
          rest)).map (fun r => (r.1, r.2 + 1)) = _
        rw [readUnicode?_control hc]
        rfl
    · refine ⟨c, [], ?_, hq, fun rest => ?_⟩
      · simp only [escapeChar, hq, hb, h₃, h₄, h₅, h₆, h₇, hc, ↓reduceIte]
      · simp only [readChar?, hb, hc, ↓reduceIte, List.length_nil]

/-- A string is read back, up to its closing quote. -/
theorem readString?_quoted (cs rest : List Char) :
    readString? (cs.flatMap escapeChar ++ '"' :: rest) = some (cs, rest) := by
  induction cs with
  | nil =>
    rw [List.flatMap_nil, List.nil_append, readString?, if_pos rfl]
  | cons c cs ih =>
    obtain ⟨e, es, he, hq, hread⟩ := readChar?_escapeChar c
    rw [List.flatMap_cons, he, List.append_assoc, List.cons_append, readString?, if_neg hq]
    simp only [hread, List.drop_left, ih]

theorem quoted_append (s : String) (rest : List Char) :
    quoted s ++ rest = '"' :: (s.toList.flatMap escapeChar ++ '"' :: rest) := by
  simp [quoted]

/-! ## Spellings -/

/-- What is spelled: some data, or the items or fields that are left up to the end of an array or
object. -/
inductive Part where
  | value (json : Json)
  | items (items : List Json)
  | fields (fields : List (String × Json))

/-- The characters spell a part, with `rest` after it. -/
inductive Spells : Part → List Char → List Char → Prop
  | gap {json : Json} {gap cs rest : List Char} : Gap gap → Spells (.value json) cs rest →
      Spells (.value json) (gap ++ cs) rest
  | null {rest : List Char} : Spells (.value null) ("null".toList ++ rest) rest
  | true {rest : List Char} : Spells (.value (bool true)) ("true".toList ++ rest) rest
  | false {rest : List Char} : Spells (.value (bool false)) ("false".toList ++ rest) rest
  | integer (n : Int) {rest : List Char} : Stops rest →
      Spells (.value (integer n)) ((toString n).toList ++ rest) rest
  | string (s : String) {rest : List Char} : Spells (.value (string s)) (quoted s ++ rest) rest
  | emptyArray {gap rest : List Char} : Gap gap →
      Spells (.value (array [])) ('[' :: (gap ++ ']' :: rest)) rest
  | array {items : List Json} {cs rest : List Char} : Spells (.items items) cs rest →
      Spells (.value (array items)) ('[' :: cs) rest
  | emptyObject {gap rest : List Char} : Gap gap →
      Spells (.value (object [])) ('\x7b' :: (gap ++ '\x7d' :: rest)) rest
  | object {fields : List (String × Json)} {cs rest : List Char} :
      Spells (.fields fields) cs rest → Spells (.value (object fields)) ('\x7b' :: cs) rest
  | lastItem {item : Json} {cs g rest : List Char} :
      Spells (.value item) cs (g ++ ']' :: rest) → Gap g → Spells (.items [item]) cs rest
  | item {item : Json} {items : List Json} {cs g more rest : List Char} :
      Spells (.value item) cs (g ++ ',' :: more) → Gap g → Spells (.items items) more rest →
      Spells (.items (item :: items)) cs rest
  | lastField (key : String) {value : Json} {before after cs g rest : List Char} :
      Gap before → Gap after → Spells (.value value) cs (g ++ '\x7d' :: rest) → Gap g →
      Spells (.fields [(key, value)]) (before ++ (quoted key ++ (after ++ ':' :: cs))) rest
  | field (key : String) {value : Json} {fields : List (String × Json)}
      {before after cs g more rest : List Char} :
      Gap before → Gap after → Spells (.value value) cs (g ++ ',' :: more) → Gap g →
      Spells (.fields fields) more rest →
      Spells (.fields ((key, value) :: fields)) (before ++ (quoted key ++ (after ++ ':' :: cs)))
        rest

/-! ## Reading what is spelled -/

/-- The reader reads a part, with some fuel, and leaves the rest. -/
def Part.Reads (fuel : Nat) (cs rest : List Char) : Part → Prop
  | value json => readValue? fuel cs = some (json, rest)
  | items js => readItems? fuel cs = some (js, rest)
  | fields fs => readFields? fuel cs = some (fs, rest)

/-- The fuel that reads a part of a text: two for each character, and one for a list of items or
fields. -/
def Part.need (cs : List Char) : Part → Nat
  | value _ => 2 * cs.length
  | items _ => 2 * cs.length + 1
  | fields _ => 2 * cs.length + 1

/-- What a spelled part begins with, apart from blanks: values do not begin as an array ends, and
fields begin with a quote. -/
def Part.Begins (cs : List Char) : Part → Prop
  | value _ => ∃ c more, skip cs = c :: more ∧ c ≠ ']'
  | items _ => ∃ c more, skip cs = c :: more ∧ c ≠ ']'
  | fields _ => ∃ more, skip cs = '"' :: more

section

-- The equations of the three readers are made here once for the lemmas on each kind of value.
attribute [local simp] readValue? readItems? readFields?

theorem readValue?_skip {gap : List Char} (h : Gap gap) (fuel : Nat) (cs : List Char) :
    readValue? fuel (gap ++ cs) = readValue? fuel cs := by
  cases fuel with
  | zero => rfl
  | succ fuel => rw [readValue?, readValue?, skip_append h]

theorem readValue?_numeral {c : Char} (h : c = '-' ∨ Text.isDigit c = true) (fuel : Nat)
    (cs : List Char) : readValue? (fuel + 1) (c :: cs) = readNumber? (c :: cs) := by
  rw [readValue?, skip_cons (isSpace_of_numeral h)]
  split
  case h_7 => rfl
  all_goals
    rename_i e
    exact absurd (List.cons.inj e).1 (ne_of_numeral h (by decide))

theorem readValue?_quoted (fuel : Nat) (s : String) (rest : List Char) :
    readValue? (fuel + 1) (quoted s ++ rest) = some (string s, rest) := by
  rw [quoted_append, readValue?, skip_cons rfl]
  show (readString? (s.toList.flatMap escapeChar ++ '"' :: rest)).map
    (fun r => (string (String.ofList r.1), r.2)) = _
  rw [readString?_quoted, Option.map_some, String.ofList_toList]

theorem readValue?_array {fuel : Nat} {cs : List Char}
    (h : ∃ c more, skip cs = c :: more ∧ c ≠ ']') :
    readValue? (fuel + 1) ('[' :: cs) =
      (readItems? fuel cs).map fun r => (array r.1, r.2) := by
  obtain ⟨c, more, hs, hc⟩ := h
  have hopen := skip_cons (c := '[') rfl cs
  simp [hopen, hs, hc]

theorem readValue?_object {fuel : Nat} {cs : List Char} (h : ∃ more, skip cs = '"' :: more) :
    readValue? (fuel + 1) ('\x7b' :: cs) =
      (readFields? fuel cs).map fun r => (object r.1, r.2) := by
  obtain ⟨more, hs⟩ := h
  have hopen := skip_cons (c := '\x7b') rfl cs
  simp [hopen, hs]

theorem readValue?_emptyArray {gap : List Char} (hg : Gap gap) (fuel : Nat) (rest : List Char) :
    readValue? (fuel + 1) ('[' :: (gap ++ ']' :: rest)) = some (array [], rest) := by
  have hskip : skip (gap ++ ']' :: rest) = ']' :: rest := skip_gap hg rfl rest
  have hopen := skip_cons (c := '[') rfl (gap ++ ']' :: rest)
  simp [hopen, hskip]

theorem readValue?_emptyObject {gap : List Char} (hg : Gap gap) (fuel : Nat) (rest : List Char) :
    readValue? (fuel + 1) ('\x7b' :: (gap ++ '\x7d' :: rest)) = some (object [], rest) := by
  have hskip : skip (gap ++ '\x7d' :: rest) = '\x7d' :: rest := skip_gap hg rfl rest
  have hopen := skip_cons (c := '\x7b') rfl (gap ++ '\x7d' :: rest)
  simp [hopen, hskip]

theorem readItems?_last {fuel : Nat} {json : Json} {cs gap rest : List Char}
    (h : readValue? fuel cs = some (json, gap ++ ']' :: rest)) (hg : Gap gap) :
    readItems? (fuel + 1) cs = some ([json], rest) := by
  rw [readItems?, h]
  simp only [Option.bind_eq_bind, Option.bind_some]
  rw [skip_gap hg rfl]
  rfl

theorem readItems?_cons {fuel : Nat} {json : Json} {items : List Json}
    {cs gap more rest : List Char} (h : readValue? fuel cs = some (json, gap ++ ',' :: more))
    (hg : Gap gap) (hm : readItems? fuel more = some (items, rest)) :
    readItems? (fuel + 1) cs = some (json :: items, rest) := by
  rw [readItems?, h]
  simp only [Option.bind_eq_bind, Option.bind_some]
  rw [skip_gap hg rfl]
  simp only [hm, Option.map_some]

/-- A field up to its value. -/
theorem readFields?_key {fuel : Nat} (key : String) {before after : List Char} (hb : Gap before)
    (ha : Gap after) (cs : List Char) :
    readFields? (fuel + 1) (before ++ (quoted key ++ (after ++ ':' :: cs))) = (do
      let (value, cs) ← readValue? fuel cs
      match skip cs with
      | ',' :: rest =>
        (readFields? fuel rest).map fun (fields, after) => ((key, value) :: fields, after)
      | '\x7d' :: after => some ([(key, value)], after)
      | _ => none) := by
  rw [readFields?, quoted_append, skip_gap hb rfl]
  simp only [readString?_quoted, Option.bind_eq_bind, Option.bind_some]
  rw [skip_gap ha rfl]
  have hkey : String.ofList key.toList = key := String.ofList_toList
  generalize String.ofList key.toList = read at hkey ⊢
  subst hkey
  rfl

theorem readFields?_last {fuel : Nat} (key : String) {json : Json}
    {before after cs gap rest : List Char} (hb : Gap before) (ha : Gap after)
    (h : readValue? fuel cs = some (json, gap ++ '\x7d' :: rest)) (hg : Gap gap) :
    readFields? (fuel + 1) (before ++ (quoted key ++ (after ++ ':' :: cs))) =
      some ([(key, json)], rest) := by
  rw [readFields?_key key hb ha, h]
  simp only [Option.bind_eq_bind, Option.bind_some]
  rw [skip_gap hg rfl]
  rfl

theorem readFields?_cons {fuel : Nat} (key : String) {json : Json} {fields : List (String × Json)}
    {before after cs gap more rest : List Char} (hb : Gap before) (ha : Gap after)
    (h : readValue? fuel cs = some (json, gap ++ ',' :: more)) (hg : Gap gap)
    (hm : readFields? fuel more = some (fields, rest)) :
    readFields? (fuel + 1) (before ++ (quoted key ++ (after ++ ':' :: cs))) =
      some ((key, json) :: fields, rest) := by
  rw [readFields?_key key hb ha, h]
  simp only [Option.bind_eq_bind, Option.bind_some]
  rw [skip_gap hg rfl]
  simp only [hm, Option.map_some]

end

/-- What the reader makes of a spelled part. -/
structure Part.Read (cs rest : List Char) (part : Part) : Prop where
  begins : part.Begins cs
  shorter : rest.length < cs.length
  reads : ∀ fuel, part.need cs ≤ fuel → part.Reads fuel cs rest

/-- A value without parts, from how it begins and how it is read. -/
theorem Part.Read.scalar {json : Json} {c : Char} {cs rest : List Char} (hs : isSpace c = false)
    (hc : c ≠ ']') (hl : rest.length ≤ cs.length)
    (h : ∀ fuel, readValue? (fuel + 1) (c :: cs) = some (json, rest)) :
    (Part.value json).Read (c :: cs) rest where
  begins := ⟨c, cs, skip_cons hs cs, hc⟩
  shorter := Nat.lt_succ_of_le hl
  reads fuel hf := by
    simp only [Part.need, List.length_cons] at hf
    obtain ⟨k, rfl⟩ := Nat.exists_eq_succ_of_ne_zero (show fuel ≠ 0 by omega)
    exact h k

/-- **What is spelled is read**, with fuel for its characters. -/
theorem Spells.read {part : Part} {cs rest : List Char} (h : Spells part cs rest) :
    part.Read cs rest := by
  induction h with
  | @gap json gap cs rest hg _ ih =>
    obtain ⟨⟨c, more, hb, hc⟩, hs, hr⟩ := ih
    refine ⟨⟨c, more, by rw [skip_append hg, hb], hc⟩, ?_, fun fuel hf => ?_⟩
    · rw [List.length_append]
      omega
    · simp only [Part.need, List.length_append] at hf
      show readValue? fuel (gap ++ cs) = _
      rw [readValue?_skip hg]
      exact hr fuel (show 2 * cs.length ≤ fuel by omega)
  | null =>
    exact .scalar rfl (by decide) (by simp; omega) fun fuel => by
      rw [readValue?, skip_cons rfl]
      rfl
  | true =>
    exact .scalar rfl (by decide) (by simp; omega) fun fuel => by
      rw [readValue?, skip_cons rfl]
      rfl
  | false =>
    exact .scalar rfl (by decide) (by simp; omega) fun fuel => by
      rw [readValue?, skip_cons rfl]
      rfl
  | @integer n rest hr =>
    obtain ⟨c, cs, hn, hc⟩ := toString_cons n
    have hread := readNumber?_toString hr n
    rw [hn, List.cons_append] at hread ⊢
    refine .scalar (isSpace_of_numeral hc) (ne_of_numeral hc (by decide)) (by simp) fun fuel => ?_
    rw [readValue?_numeral hc, hread]
  | @string s rest =>
    have hread (fuel : Nat) := readValue?_quoted fuel s rest
    rw [quoted_append] at hread ⊢
    exact .scalar rfl (by decide) (by simp; omega) hread
  | @emptyArray gap rest hg =>
    exact .scalar rfl (by decide) (by simp; omega) fun fuel => readValue?_emptyArray hg fuel rest
  | @emptyObject gap rest hg =>
    exact .scalar rfl (by decide) (by simp; omega) fun fuel => readValue?_emptyObject hg fuel rest
  | @array items cs rest _ ih =>
    refine ⟨⟨'[', cs, skip_cons rfl cs, by decide⟩, Nat.lt_succ_of_lt ih.shorter,
      fun fuel hf => ?_⟩
    simp only [Part.need, List.length_cons] at hf
    obtain ⟨k, rfl⟩ := Nat.exists_eq_succ_of_ne_zero (show fuel ≠ 0 by omega)
    have hneed : 2 * cs.length + 1 ≤ k := by omega
    have hi : readItems? k cs = some (items, rest) := ih.reads k hneed
    show readValue? (k + 1) ('[' :: cs) = _
    rw [readValue?_array ih.begins, hi, Option.map_some]
  | @object fields cs rest _ ih =>
    refine ⟨⟨'\x7b', cs, skip_cons rfl cs, by decide⟩, Nat.lt_succ_of_lt ih.shorter,
      fun fuel hf => ?_⟩
    simp only [Part.need, List.length_cons] at hf
    obtain ⟨k, rfl⟩ := Nat.exists_eq_succ_of_ne_zero (show fuel ≠ 0 by omega)
    have hi : readFields? k cs = some (fields, rest) :=
      ih.reads k (show 2 * cs.length + 1 ≤ k by omega)
    show readValue? (k + 1) ('\x7b' :: cs) = _
    rw [readValue?_object ih.begins, hi, Option.map_some]
  | @lastItem item cs gap rest _ hg ih =>
    have hl := ih.shorter
    simp only [List.length_append, List.length_cons] at hl
    refine ⟨ih.begins, by omega, fun fuel hf => ?_⟩
    simp only [Part.need] at hf
    obtain ⟨k, rfl⟩ := Nat.exists_eq_succ_of_ne_zero (show fuel ≠ 0 by omega)
    exact readItems?_last (ih.reads k (show 2 * cs.length ≤ k by omega)) hg
  | @item item items cs gap more rest _ hg _ ih ihm =>
    have hl := ih.shorter
    have hm := ihm.shorter
    simp only [List.length_append, List.length_cons] at hl
    refine ⟨ih.begins, by omega, fun fuel hf => ?_⟩
    simp only [Part.need] at hf
    obtain ⟨k, rfl⟩ := Nat.exists_eq_succ_of_ne_zero (show fuel ≠ 0 by omega)
    exact readItems?_cons (ih.reads k (show 2 * cs.length ≤ k by omega)) hg
      (ihm.reads k (show 2 * more.length + 1 ≤ k by omega))
  | @lastField key value before after cs gap rest hb ha _ hg ih =>
    have hl := ih.shorter
    simp only [List.length_append, List.length_cons] at hl
    refine ⟨⟨_, by rw [quoted_append, skip_gap hb rfl]⟩, ?_, fun fuel hf => ?_⟩
    · simp only [List.length_append, List.length_cons]
      omega
    · simp only [Part.need, List.length_append, List.length_cons] at hf
      obtain ⟨k, rfl⟩ := Nat.exists_eq_succ_of_ne_zero (show fuel ≠ 0 by omega)
      exact readFields?_last key hb ha (ih.reads k (show 2 * cs.length ≤ k by omega)) hg
  | @field key value fields before after cs gap more rest hb ha _ hg _ ih ihm =>
    have hl := ih.shorter
    have hm := ihm.shorter
    simp only [List.length_append, List.length_cons] at hl
    refine ⟨⟨_, by rw [quoted_append, skip_gap hb rfl]⟩, ?_, fun fuel hf => ?_⟩
    · simp only [List.length_append, List.length_cons]
      omega
    · simp only [Part.need, List.length_append, List.length_cons] at hf
      obtain ⟨k, rfl⟩ := Nat.exists_eq_succ_of_ne_zero (show fuel ≠ 0 by omega)
      exact readFields?_cons key hb ha (ih.reads k (show 2 * cs.length ≤ k by omega)) hg
        (ihm.reads k (show 2 * more.length + 1 ≤ k by omega))

/-- A text that spells data, up to blanks at its end, is read as the data. -/
theorem read?_of_spells {json : Json} {text : String} {rest : List Char}
    (h : Spells (.value json) text.toList rest) (hr : Gap rest) : read? text = some json := by
  have hread : readValue? (2 * text.toList.length + 2) text.toList = some (json, rest) :=
    h.read.reads _ (Nat.le_add_right _ 2)
  have hempty : skip rest = [] := by
    have hs := skip_append hr []
    rwa [List.append_nil] at hs
  simp only [read?, hread, Option.bind_eq_bind, Option.bind_some, hempty, List.isEmpty_nil,
    ↓reduceIte]

/-! ## Both ways to write data spell it -/

/-- Data in which no number is kept as it is written. -/
inductive Plain : Json → Prop
  | null : Plain null
  | bool (b : Bool) : Plain (bool b)
  | integer (n : Int) : Plain (integer n)
  | string (s : String) : Plain (string s)
  | array {items : List Json} : (∀ item ∈ items, Plain item) → Plain (array items)
  | object {fields : List (String × Json)} : (∀ field ∈ fields, Plain field.2) →
      Plain (object fields)

theorem compactItems_spells {items : List Json} (hn : items ≠ [])
    (h : ∀ item ∈ items, ∀ rest, Stops rest → Spells (.value item) (item.compactOnto rest) rest)
    (rest : List Char) : Spells (.items items) (compactItems items rest) rest := by
  induction items with
  | nil => exact absurd rfl hn
  | cons item items ih =>
    obtain ⟨hi, his⟩ := List.forall_mem_cons.1 h
    cases items with
    | nil => exact .lastItem (g := []) (hi _ (.closed (.inl rfl) rest)) .nil
    | cons next items =>
      exact .item (g := []) (hi _ (.comma _)) .nil (ih (List.cons_ne_nil next items) his)

theorem compactFields_spells {fields : List (String × Json)} (hn : fields ≠ [])
    (h : ∀ field ∈ fields, ∀ rest, Stops rest →
      Spells (.value field.2) (field.2.compactOnto rest) rest)
    (rest : List Char) : Spells (.fields fields) (compactFields fields rest) rest := by
  induction fields with
  | nil => exact absurd rfl hn
  | cons field fields ih =>
    obtain ⟨key, value⟩ := field
    obtain ⟨hf, hfs⟩ := List.forall_mem_cons.1 h
    cases fields with
    | nil => exact .lastField (g := []) key .nil .nil (hf _ (.closed (.inr rfl) rest)) .nil
    | cons next fields =>
      exact .field (g := []) key .nil .nil (hf _ (.comma _)) .nil
        (ih (List.cons_ne_nil next fields) hfs)

theorem compactOnto_spells {json : Json} (h : json.Plain) (rest : List Char) (hr : Stops rest) :
    Spells (.value json) (json.compactOnto rest) rest := by
  induction h generalizing rest with
  | null => exact .null
  | bool b => cases b with
    | true => exact .true
    | false => exact .false
  | integer n => exact .integer n hr
  | string s => exact .string s
  | @array items _ ih =>
    cases items with
    | nil => exact .emptyArray .nil
    | cons item items => exact .array (compactItems_spells (List.cons_ne_nil item items) ih rest)
  | @object fields _ ih =>
    cases fields with
    | nil => exact .emptyObject .nil
    | cons field fields =>
      exact .object (compactFields_spells (List.cons_ne_nil field fields) ih rest)

/-- Data without blanks is spelled. -/
theorem compact_spells {json : Json} (h : json.Plain) :
    Spells (.value json) json.compact.toList [] := by
  rw [compact, String.toList_ofList]
  exact compactOnto_spells h [] .nil

theorem prettyItems_spells {items : List Json} (hn : items ≠ []) (depth : Nat)
    (h : ∀ item ∈ items, ∀ rest, Stops rest →
      Spells (.value item) (item.prettyOnto (depth + 1) rest) rest)
    (rest : List Char) :
    Spells (.items items) (newline (depth + 1) ++ prettyItems depth items rest) rest := by
  induction items with
  | nil => exact absurd rfl hn
  | cons item items ih =>
    obtain ⟨hi, his⟩ := List.forall_mem_cons.1 h
    cases items with
    | nil =>
      exact .lastItem (.gap (gap_newline _) (hi _ (.newline depth _))) (gap_newline depth)
    | cons next items =>
      exact .item (g := []) (.gap (gap_newline _) (hi _ (.comma _))) .nil
        (ih (List.cons_ne_nil next items) his)

theorem gap_space : Gap [' '] := by
  rintro c (_ | ⟨_, ⟨⟩⟩)
  rfl

theorem prettyFields_spells {fields : List (String × Json)} (hn : fields ≠ []) (depth : Nat)
    (h : ∀ field ∈ fields, ∀ rest, Stops rest →
      Spells (.value field.2) (field.2.prettyOnto (depth + 1) rest) rest)
    (rest : List Char) :
    Spells (.fields fields) (newline (depth + 1) ++ prettyFields depth fields rest) rest := by
  induction fields with
  | nil => exact absurd rfl hn
  | cons field fields ih =>
    obtain ⟨key, value⟩ := field
    obtain ⟨hf, hfs⟩ := List.forall_mem_cons.1 h
    cases fields with
    | nil =>
      exact .lastField key (gap_newline _) .nil (.gap gap_space (hf _ (.newline depth _)))
        (gap_newline depth)
    | cons next fields =>
      exact .field (g := []) key (gap_newline _) .nil (.gap gap_space (hf _ (.comma _))) .nil
        (ih (List.cons_ne_nil next fields) hfs)

theorem prettyOnto_spells {json : Json} (h : json.Plain) (depth : Nat) (rest : List Char)
    (hr : Stops rest) : Spells (.value json) (json.prettyOnto depth rest) rest := by
  induction h generalizing depth rest with
  | null => exact .null
  | bool b => cases b with
    | true => exact .true
    | false => exact .false
  | integer n => exact .integer n hr
  | string s => exact .string s
  | @array items _ ih =>
    cases items with
    | nil => exact .emptyArray .nil
    | cons item items =>
      exact .array (prettyItems_spells (List.cons_ne_nil item items) depth
        (fun item hi => ih item hi (depth + 1)) rest)
  | @object fields _ ih =>
    cases fields with
    | nil => exact .emptyObject .nil
    | cons field fields =>
      exact .object (prettyFields_spells (List.cons_ne_nil field fields) depth
        (fun field hf => ih field hf (depth + 1)) rest)

/-- Data with one item or field to a line is spelled. -/
theorem pretty_spells {json : Json} (h : json.Plain) :
    Spells (.value json) json.pretty.toList [] := by
  rw [pretty, String.toList_ofList]
  exact prettyOnto_spells h 0 [] .nil

end Dynascope.Json
