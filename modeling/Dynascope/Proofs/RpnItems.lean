import Mathlib.Data.List.Forall2
import Dynascope.Proofs.Spelling
import Dynascope.Rpn

/-! # How the items of a text in reverse Polish notation are written

`Numeral cs k`: the characters are a number with the value `k`, an optional sign before digits. A
word spells an item (`RpnItem.SpelledBy`) if it is the sign of the operator or a numeral with the
value of the number, and that is how words are read (`ofWord?_eq_some_iff`). Every item spells itself
(`spelledBy_text`), and items that are written with blanks between them are the words of that text
(`words_joinWith`).
-/

set_option autoImplicit false

namespace Dynascope

/-! ## Numbers -/

namespace Text

/-- A number: digits, perhaps after a sign. -/
inductive Numeral : List Char → Int → Prop
  | unsigned {ds : List Char} : ds ≠ [] → (∀ d ∈ ds, isDigit d = true) →
      Numeral ds (digitsValue ds)
  | plus {ds : List Char} : ds ≠ [] → (∀ d ∈ ds, isDigit d = true) →
      Numeral ('+' :: ds) (digitsValue ds)
  | minus {ds : List Char} : ds ≠ [] → (∀ d ∈ ds, isDigit d = true) →
      Numeral ('-' :: ds) (-digitsValue ds)

theorem word?_eq_some_iff {k : Int} {n : Int64} : word? k = some n ↔ n.toInt = k :=
  ⟨word?_eq_some, fun h => h ▸ word?_toInt n⟩

theorem readNat_eq_some_iff {cs : List Char} {k : Nat} :
    readNat cs = some k ↔ cs ≠ [] ∧ (∀ c ∈ cs, isDigit c = true) ∧ digitsValue cs = k := by
  unfold readNat
  split
  · rename_i h
    have hd : ∀ c ∈ cs, isDigit c = true := List.all_eq_true.1 h.2
    simp only [Option.some.injEq]
    exact ⟨fun e => ⟨h.1, hd, e⟩, fun h => h.2.2⟩
  · rename_i h
    simp only [List.all_eq_true] at h
    simp only [reduceCtorEq, false_iff]
    exact fun h' => h ⟨h'.1, h'.2.1⟩

/-- What is read as a number is a numeral with its value. -/
theorem readInt64_eq_some_iff {cs : List Char} {n : Int64} :
    readInt64 cs = some n ↔ Numeral cs n.toInt := by
  constructor
  · intro h
    unfold readInt64 at h
    split at h <;> obtain ⟨k, hk, h⟩ := Option.bind_eq_some_iff.1 h <;>
      obtain ⟨hne, hd, rfl⟩ := readNat_eq_some_iff.1 hk <;> rw [word?_eq_some_iff.1 h]
    · exact .minus hne hd
    · exact .plus hne hd
    · exact .unsigned hne hd
  · generalize hk : n.toInt = k
    intro h
    have hsign {c : Char} (hc : isDigit c = false) {ds : List Char}
        (hd : ∀ d ∈ ds, isDigit d = true) (cs : List Char) : ds ≠ c :: cs := by
      rintro rfl
      rw [hd c (.head _)] at hc
      cases hc
    cases h with
    | unsigned hne hd =>
      rw [readInt64.eq_3 _ (hsign rfl hd) (hsign rfl hd), readNat_eq_some_iff.2 ⟨hne, hd, rfl⟩]
      exact word?_eq_some_iff.2 hk
    | plus hne hd =>
      rw [readInt64.eq_2, readNat_eq_some_iff.2 ⟨hne, hd, rfl⟩]
      exact word?_eq_some_iff.2 hk
    | minus hne hd =>
      rw [readInt64.eq_1, readNat_eq_some_iff.2 ⟨hne, hd, rfl⟩]
      exact word?_eq_some_iff.2 hk

theorem numeral_toDigits (k : Nat) : Numeral (Nat.toDigits 10 k) k := by
  have h : Numeral (Nat.toDigits 10 k) _ :=
    .unsigned Nat.toDigits_ne_nil fun d hd => Spelling.isDigit_toDigits hd
  rwa [Spelling.digitsValue_toDigits] at h

/-- Every number is written as a numeral with its value. -/
theorem numeral_toString (n : Int64) : Numeral (toString n).toList n.toInt := by
  have e : toString n = Int.repr n.toInt := rfl
  rw [e]
  cases n.toInt with
  | ofNat k =>
    have h : (Int.repr (Int.ofNat k)).toList = Nat.toDigits 10 k := Nat.toList_repr
    rw [h]
    exact numeral_toDigits k
  | negSucc k =>
    rw [Spelling.toList_repr_negSucc]
    have hd : Numeral ('-' :: Nat.toDigits 10 (k + 1)) _ :=
      .minus Nat.toDigits_ne_nil fun d hd => Spelling.isDigit_toDigits hd
    rwa [Spelling.digitsValue_toDigits] at hd

theorem isBlank_of_isDigit {c : Char} (h : isDigit c = true) : isBlank c = false := by
  have h₀ : '0'.val.toNat = 48 := rfl
  have h₉ : '9'.val.toNat = 57 := rfl
  have hc : c.toNat = c.val.toNat := rfl
  simp only [isDigit, Bool.and_eq_true, decide_eq_true_eq, Char.le_def,
    UInt32.le_iff_toNat_le] at h
  simp only [isBlank, Bool.or_eq_false_iff, Bool.and_eq_false_iff, decide_eq_false_iff_not,
    beq_eq_false_iff_ne]
  omega

theorem Numeral.ne_nil {cs : List Char} {k : Int} (h : Numeral cs k) : cs ≠ [] := by
  cases h with
  | unsigned hne _ => exact hne
  | plus | minus => exact List.cons_ne_nil _ _

theorem Numeral.not_blank {cs : List Char} {k : Int} (h : Numeral cs k) :
    ∀ c ∈ cs, isBlank c = false := by
  cases h with
  | unsigned _ hd => exact fun c hc => isBlank_of_isDigit (hd c hc)
  | plus _ hd | minus _ hd =>
    exact List.forall_mem_cons.2 ⟨rfl, fun c hc => isBlank_of_isDigit (hd c hc)⟩

/-- A sign alone is no number. -/
theorem not_numeral_symbol (op : ArithOp) (k : Int) : ¬ Numeral op.symbol.toList k := by
  have hdigit {c : Char} (hc : isDigit c = false) : ¬ ∀ d ∈ [c], isDigit d = true := by
    simp [hc]
  cases op with
  | add =>
    rintro (⟨-, hd⟩ | ⟨hne, -⟩)
    · exact hdigit rfl hd
    · exact hne rfl
  | sub =>
    rintro (⟨-, hd⟩ | - | ⟨hne, -⟩)
    · exact hdigit rfl hd
    · exact hne rfl
  | mul =>
    rintro ⟨-, hd⟩
    exact hdigit rfl hd
  | div =>
    rintro ⟨-, hd⟩
    exact hdigit rfl hd

/-! ## Words -/

theorem wordsOf_of_blank {c : Char} (h : isBlank c = true) (cs : List Char) :
    wordsOf (c :: cs) = wordsOf cs :=
  if_pos h

theorem wordsOf_of_not_blank {c : Char} (h : isBlank c = false) (cs : List Char) :
    wordsOf (c :: cs) = match cs, wordsOf cs with
      | d :: _, w :: ws => if isBlank d then [c] :: w :: ws else (c :: w) :: ws
      | _, ws => [c] :: ws :=
  if_neg (by rw [h]; exact Bool.false_ne_true)

/-- A word ends where a blank or the end of the text follows. -/
theorem wordsOf_append {w : List Char} (hne : w ≠ []) (hw : ∀ c ∈ w, isBlank c = false)
    (rest : List Char) (hr : ∀ c ∈ rest.head?, isBlank c = true) :
    wordsOf (w ++ rest) = w :: wordsOf rest := by
  induction w with
  | nil => exact (hne rfl).elim
  | cons c cs ih =>
    have hc : isBlank c = false := hw c (.head _)
    have hcs : ∀ d ∈ cs, isBlank d = false := fun d hd => hw d (.tail _ hd)
    rw [List.cons_append, wordsOf_of_not_blank hc]
    cases cs with
    | nil =>
      cases rest with
      | nil => rfl
      | cons d rest =>
        have hd : isBlank d = true := hr d rfl
        rw [List.nil_append, wordsOf_of_blank hd]
        cases wordsOf rest <;> simp [hd]
    | cons d cs =>
      have hd : isBlank d = false := hcs d (.head _)
      rw [ih (List.cons_ne_nil d cs) hcs]
      simp [hd]

/-- Words with a space between each two are the words of their text. -/
theorem words_joinWith {ws : List String} (hne : ∀ w ∈ ws, w.toList ≠ [])
    (hw : ∀ w ∈ ws, ∀ c ∈ w.toList, isBlank c = false) : words (joinWith " " ws) = ws := by
  unfold words
  induction ws with
  | nil => rfl
  | cons w ws ih =>
    obtain ⟨hwne, hne⟩ := List.forall_mem_cons.1 hne
    obtain ⟨hwb, hw⟩ := List.forall_mem_cons.1 hw
    have ih := ih hne hw
    cases ws with
    | nil =>
      have h := wordsOf_append hwne hwb [] fun c hc => nomatch hc
      rw [List.append_nil] at h
      rw [joinWith, h, List.map_cons, String.ofList_toList]
      rfl
    | cons v vs =>
      have hspace : isBlank ' ' = true := rfl
      have h := wordsOf_append hwne hwb (' ' :: (joinWith " " (v :: vs)).toList)
        fun c hc => by cases hc; exact hspace
      have hs : " ".toList = [' '] := rfl
      have hj : joinWith " " (w :: v :: vs) = w ++ " " ++ joinWith " " (v :: vs) := rfl
      rw [hj, String.toList_append, String.toList_append, List.append_assoc, hs,
        List.singleton_append, h, wordsOf_of_blank hspace, List.map_cons, ih,
        String.ofList_toList]

end Text

/-! ## Items -/

/-- A word that is the sign of an operator, or a numeral with the value of a number. -/
def RpnItem.SpelledBy (word : String) : RpnItem → Prop
  | .number n => Text.Numeral word.toList n.toInt
  | .operator op => word = op.symbol

/-- Words are read as what they spell. -/
theorem RpnItem.ofWord?_eq_some_iff {word : String} {item : RpnItem} :
    ofWord? word = some item ↔ item.SpelledBy word := by
  constructor
  · intro h
    unfold ofWord? at h
    split at h
    · cases h
      rfl
    · cases h
      rfl
    · cases h
      rfl
    · cases h
      rfl
    · obtain ⟨n, hn, rfl⟩ := Option.map_eq_some_iff.1 h
      exact Text.readInt64_eq_some_iff.1 hn
  · intro h
    cases item with
    | operator op =>
      cases h
      cases op <;> rfl
    | number n =>
      have hne (op : ArithOp) : word ≠ op.symbol := fun e =>
        Text.not_numeral_symbol op n.toInt (e ▸ h)
      unfold ofWord?
      split
      · exact absurd rfl (hne .add)
      · exact absurd rfl (hne .sub)
      · exact absurd rfl (hne .mul)
      · exact absurd rfl (hne .div)
      · rw [Text.readInt64_eq_some_iff.2 h]
        rfl

theorem RpnItem.spelledBy_text (item : RpnItem) : item.SpelledBy item.text := by
  cases item with
  | number n => exact Text.numeral_toString n
  | operator op => rfl

theorem RpnItem.text_ne_nil (item : RpnItem) : item.text.toList ≠ [] := by
  cases item with
  | number n => exact (Text.numeral_toString n).ne_nil
  | operator op => cases op <;> simp [text, ArithOp.symbol]

theorem RpnItem.text_not_blank (item : RpnItem) :
    ∀ c ∈ item.text.toList, Text.isBlank c = false := by
  cases item with
  | number n => exact (Text.numeral_toString n).not_blank
  | operator op => cases op <;> simp [text, ArithOp.symbol, Text.isBlank]

/-- The words of the text spell the items, one each. -/
def SpelledItems (text : String) (items : List RpnItem) : Prop :=
  List.Forall₂ (fun word item => item.SpelledBy word) (Text.words text) items

/-- Items written with blanks between them are what the words of the text spell. -/
theorem spelledItems_joinWith (items : List RpnItem) :
    SpelledItems (Text.joinWith " " (items.map RpnItem.text)) items := by
  have hne : ∀ w ∈ items.map RpnItem.text, w.toList ≠ [] := by
    rintro w hw
    obtain ⟨item, -, rfl⟩ := List.mem_map.1 hw
    exact item.text_ne_nil
  have hb : ∀ w ∈ items.map RpnItem.text, ∀ c ∈ w.toList, Text.isBlank c = false := by
    rintro w hw
    obtain ⟨item, -, rfl⟩ := List.mem_map.1 hw
    exact item.text_not_blank
  rw [SpelledItems, Text.words_joinWith hne hb, List.forall₂_map_left_iff]
  exact List.forall₂_same.2 fun item _ => item.spelledBy_text

/-- A word spells at most one item. -/
theorem RpnItem.SpelledBy.unique {word : String} {a b : RpnItem} (ha : a.SpelledBy word)
    (hb : b.SpelledBy word) : a = b :=
  Option.some.inj ((ofWord?_eq_some_iff.2 ha).symm.trans (ofWord?_eq_some_iff.2 hb))

theorem SpelledItems.unique {text : String} {xs ys : List RpnItem} (hx : SpelledItems text xs)
    (hy : SpelledItems text ys) : xs = ys := by
  unfold SpelledItems at hx hy
  generalize Text.words text = words at hx hy
  induction hx generalizing ys with
  | nil =>
    cases hy
    rfl
  | cons hx _ ih =>
    cases hy with
    | cons hy hys => rw [hx.unique hy, ih hys]

end Dynascope
