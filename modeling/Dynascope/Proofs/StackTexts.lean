import Dynascope.Proofs.FrameContents
import Dynascope.Proofs.RpnItems

/-! # What the text of the frames tells

The text of the frames lists what each of them binds, and the marks between bindings and between
frames also stand within the text of a closure. Still it can be read in one way only if all names
are identifiers: whatever is listed is told apart from what is not, up to what it looks like, by its
text and the mark that follows (`Told`). So two scope stacks have the same text exactly if they bind
the same names, frame by frame, to values that look the same: `stack_text_canonical`.
-/

set_option autoImplicit false

namespace Dynascope

open Lexer

/-! ## Texts with a stop -/

/-- Things of a kind are told apart, up to a relation, by their texts where one of the stops follows.
What follows can be told as well. -/
def Told {α : Type} (stops : List Char) (kind : α → Prop) (text : α → String)
    (same : α → α → Prop) : Prop :=
  ∀ ⦃a b : α⦄ ⦃c d : Char⦄ ⦃r r' : List Char⦄, kind a → kind b → c ∈ stops → d ∈ stops →
    (text a).toList ++ c :: r = (text b).toList ++ d :: r' → same a b ∧ c :: r = d :: r'

/-- Characters with a property up to one that does not have it. -/
theorem append_stop_inj {p : Char → Bool} {as bs r r' : List Char} {c d : Char}
    (ha : as.all p = true) (hb : bs.all p = true) (hc : p c = false) (hd : p d = false)
    (h : as ++ c :: r = bs ++ d :: r') : as = bs ∧ c :: r = d :: r' := by
  have e := congrArg (List.takeWhile p) h
  rw [Spelling.takeWhile_append_stop ha (by simpa using hc),
    Spelling.takeWhile_append_stop hb (by simpa using hd)] at e
  subst e
  exact ⟨rfl, List.append_cancel_left h⟩

namespace Text

/-- What follows the first of some texts with commas between them, up to the end and beyond. -/
def afterFirst : List String → List Char → List Char
  | [], rest => rest
  | x :: xs, rest => ',' :: ' ' :: ((joinWith ", " (x :: xs)).toList ++ rest)

theorem joinWith_cons (x : String) (xs : List String) (rest : List Char) :
    (joinWith ", " (x :: xs)).toList ++ rest = x.toList ++ afterFirst xs rest := by
  cases xs with
  | nil => rfl
  | cons y ys =>
    have h : joinWith ", " (x :: y :: ys) = x ++ ", " ++ joinWith ", " (y :: ys) := rfl
    rw [h, String.toList_append, String.toList_append, List.append_assoc, List.append_assoc]
    rfl

theorem mem_joinWith {xs : List String} {c : Char} (h : c ∈ (joinWith ", " xs).toList) :
    c = ',' ∨ c = ' ' ∨ ∃ x ∈ xs, c ∈ x.toList := by
  induction xs with
  | nil => cases h
  | cons x xs ih =>
    rw [← List.append_nil (joinWith ", " (x :: xs)).toList, joinWith_cons, List.mem_append] at h
    rcases h with h | h
    · exact .inr (.inr ⟨x, .head _, h⟩)
    · cases xs with
      | nil => cases h
      | cons y ys =>
        rw [afterFirst, List.append_nil, List.mem_cons, List.mem_cons] at h
        rcases h with h | h | h
        · exact .inl h
        · exact .inr (.inl h)
        · exact (ih h).imp_right (.imp_right fun ⟨z, hz, h⟩ => ⟨z, .tail _ hz, h⟩)

theorem afterFirst_eq_cons (xs : List String) (close : Char) (rest : List Char) :
    ∃ c r, afterFirst xs (close :: rest) = c :: r ∧ c ∈ [',', close] := by
  cases xs with
  | nil => exact ⟨close, rest, rfl, .tail _ (.head _)⟩
  | cons x xs => exact ⟨',', _, rfl, .head _⟩

end Text

namespace Told

open Text

variable {α : Type} {close : Char} {kind : α → Prop} {text : α → String} {same : α → α → Prop}

/-- The first of two lists of items is told apart by its text and what follows it in the list. -/
theorem first (h : Told [',', close] kind text same) {a b : α} {xs ys : List String}
    {r r' : List Char} (ha : kind a) (hb : kind b)
    (e : (text a).toList ++ afterFirst xs (close :: r) =
      (text b).toList ++ afterFirst ys (close :: r')) :
    same a b ∧ afterFirst xs (close :: r) = afterFirst ys (close :: r') := by
  obtain ⟨c, q, hq, hc⟩ := afterFirst_eq_cons xs close r
  obtain ⟨d, q', hq', hd⟩ := afterFirst_eq_cons ys close r'
  rw [hq, hq'] at e ⊢
  exact h ha hb hc hd e

theorem others (h : Told [',', close] kind text same) (hclose : close ≠ ',') {xs ys : List α}
    {r r' : List Char} (hx : ∀ a ∈ xs, kind a) (hy : ∀ b ∈ ys, kind b)
    (e : afterFirst (xs.map text) (close :: r) = afterFirst (ys.map text) (close :: r')) :
    List.Forall₂ same xs ys ∧ close :: r = close :: r' := by
  induction xs generalizing ys with
  | nil =>
    cases ys with
    | nil => exact ⟨.nil, e⟩
    | cons => exact absurd (List.cons.inj e).1 hclose
  | cons x xs ih =>
    cases ys with
    | nil => exact absurd (List.cons.inj e).1.symm hclose
    | cons y ys =>
      obtain ⟨hx, hxs⟩ := List.forall_mem_cons.1 hx
      obtain ⟨hy, hys⟩ := List.forall_mem_cons.1 hy
      have e := (List.cons.inj (List.cons.inj e).2).2
      rw [joinWith_cons, joinWith_cons] at e
      obtain ⟨hxy, e⟩ := h.first hx hy e
      obtain ⟨hrest, e⟩ := ih hxs hys e
      exact ⟨.cons hxy hrest, e⟩

/-- What is told apart before a comma and before a closing mark can be listed, with commas, before
this mark. No text may begin with the mark, as an empty list begins with it. -/
theorem listed (h : Told [',', close] kind text same) (hclose : close ≠ ',')
    (hbegin : ∀ a, kind a → ∃ c cs, (text a).toList = c :: cs ∧ c ≠ close) :
    Told [close] (∀ a ∈ ·, kind a) (fun xs : List α => joinWith ", " (xs.map text))
      (List.Forall₂ same) := by
  have begins {a : α} (ha : kind a) {q r : List Char} : (text a).toList ++ q ≠ close :: r := by
    obtain ⟨c, cs, e, hne⟩ := hbegin a ha
    rw [e]
    exact fun e => hne (List.cons.inj e).1
  intro xs ys c d r r' hx hy hc hd e
  rw [List.mem_singleton.1 hc, List.mem_singleton.1 hd] at e ⊢
  dsimp only at e
  cases xs with
  | nil =>
    cases ys with
    | nil => exact ⟨.nil, e⟩
    | cons y ys =>
      rw [List.map_cons, joinWith_cons] at e
      exact absurd e.symm (begins (hy y (.head _)))
  | cons x xs =>
    cases ys with
    | nil =>
      rw [List.map_cons, joinWith_cons] at e
      exact absurd e (begins (hx x (.head _)))
    | cons y ys =>
      obtain ⟨hx, hxs⟩ := List.forall_mem_cons.1 hx
      obtain ⟨hy, hys⟩ := List.forall_mem_cons.1 hy
      rw [List.map_cons, List.map_cons, joinWith_cons, joinWith_cons] at e
      obtain ⟨hxy, e⟩ := h.first hx hy e
      obtain ⟨hrest, e⟩ := h.others hclose hxs hys e
      exact ⟨.cons hxy hrest, e⟩

end Told

/-! ## Names and values -/

/-- A word of the form of a name: a letter or an underscore, and then letters, underscores and
digits. It may be a keyword. -/
def IsIdentifier (word : String) : Prop :=
  word.toList.head?.any isNameStart = true ∧ word.toList.all isNameChar = true

instance : DecidablePred IsIdentifier :=
  fun _ => inferInstanceAs (Decidable (_ ∧ _))

theorem isIdentifier_iff {x : String} : IsIdentifier x ↔
    ∃ c cs, x.toList = c :: cs ∧ isNameStart c = true ∧ cs.all isNameChar = true := by
  constructor
  · rintro ⟨hstart, hchars⟩
    cases e : x.toList with
    | nil =>
      rw [e] at hstart
      cases hstart
    | cons c cs =>
      rw [e] at hstart hchars
      exact ⟨c, cs, rfl, hstart, (Bool.and_eq_true_iff.1 hchars).2⟩
  · rintro ⟨c, cs, e, hstart, hchars⟩
    rw [IsIdentifier, e]
    exact ⟨hstart, Bool.and_eq_true_iff.2 ⟨Spelling.isNameChar_of_isNameStart hstart, hchars⟩⟩

/-- The words that can be names are the identifiers that are not keywords. -/
theorem isName_iff {x : String} : IsName x ↔ IsIdentifier x ∧ Token.keyword? x = none :=
  and_congr_left' isIdentifier_iff.symm

/-- A value that, if it is a closure, has parameters that are identifiers. -/
def Value.WellNamed : Value → Prop
  | .closure c => ∀ p ∈ c.params, IsIdentifier p
  | _ => True

instance : DecidablePred Value.WellNamed
  | .closure c => inferInstanceAs (Decidable (∀ p ∈ c.params, IsIdentifier p))
  | .int _ | .builtin _ | .none => isTrue trivial

theorem told_identifiers : Told [':'] IsIdentifier id Eq := by
  intro x y c d r r' hx hy hc hd e
  obtain rfl := List.mem_singleton.1 hc
  obtain rfl := List.mem_singleton.1 hd
  obtain ⟨e, er⟩ := append_stop_inj hx.2 hy.2 rfl rfl e
  exact ⟨String.toList_inj.1 e, er⟩

/-- The characters of the texts of values other than closures and built-ins. -/
def isPlain (c : Char) : Bool :=
  c != ',' && c != '}' && c != '<'

theorem Text.Numeral.isPlain {cs : List Char} {k : Int} (h : Numeral cs k) :
    cs.all isPlain = true := by
  have hdigit {c : Char} (hc : isDigit c = true) : Dynascope.isPlain c = true := by
    have hne (d : Char) (hd : isDigit d = false) : (c != d) = true :=
      bne_iff_ne.2 fun e => Bool.false_ne_true (hd.symm.trans (e ▸ hc))
    simp only [Dynascope.isPlain, hne ',' rfl, hne '}' rfl, hne '<' rfl, Bool.and_self]
  rw [List.all_eq_true]
  cases h with
  | unsigned _ hd => exact fun c hc => hdigit (hd c hc)
  | plus _ hd | minus _ hd => exact List.forall_mem_cons.2 ⟨rfl, fun c hc => hdigit (hd c hc)⟩

/-- The text of a value has no comma in it, or else it stands between angle brackets. -/
theorem Value.WellNamed.text_form {v : Value} (h : v.WellNamed) :
    v.text.toList.all isPlain = true ∨
      ∃ cs, v.text.toList = '<' :: (cs ++ ['>']) ∧ cs.all (· != '>') = true := by
  cases v with
  | int n => exact .inl (Text.numeral_toString n).isPlain
  | none => exact .inl rfl
  | builtin b => exact .inr ⟨("builtin " ++ b.name).toList, by cases b <;> exact ⟨rfl, rfl⟩⟩
  | closure c =>
    right
    rw [text]
    split
    · exact ⟨"lambda".toList, rfl, rfl⟩
    · refine ⟨"lambda ".toList ++ (Text.joinWith ", " c.params).toList, ?_, ?_⟩
      · simp
      · rw [List.all_append, Bool.and_eq_true]
        refine ⟨rfl, List.all_eq_true.2 fun d hd => bne_iff_ne.2 ?_⟩
        rintro rfl
        rcases Text.mem_joinWith hd with e | e | ⟨p, hp, hd⟩
        · cases e
        · cases e
        · exact Bool.false_ne_true (List.all_eq_true.1 (h p hp).2 _ hd)

theorem told_values :
    Told [',', '}'] Value.WellNamed Value.text fun v w => v.text = w.text := by
  have hstop {c : Char} (hc : c ∈ [',', '}']) : isPlain c = false ∧ c ≠ '<' := by
    simp only [List.mem_cons, List.not_mem_nil, or_false] at hc
    rcases hc with rfl | rfl <;> exact ⟨rfl, by decide⟩
  -- a plain text and what follows it do not begin with an angle bracket
  have plain {as r q : List Char} {c : Char} (ha : as.all isPlain = true) (hc : c ∈ [',', '}']) :
      as ++ c :: r ≠ '<' :: q := by
    cases as with
    | nil => exact fun e => (hstop hc).2 (List.cons.inj e).1
    | cons a as =>
      rintro e
      rw [(List.cons.inj e).1] at ha
      cases ha
  intro v w c d r r' hv hw hc hd e
  show v.text = w.text ∧ c :: r = d :: r'
  rw [← String.toList_inj]
  rcases hv.text_form with hp | ⟨as, ha, hp⟩ <;> rcases hw.text_form with hp' | ⟨bs, hb, hp'⟩
  · exact append_stop_inj hp hp' (hstop hc).1 (hstop hd).1 e
  · rw [hb] at e
    exact absurd e (plain hp hc)
  · rw [ha] at e
    exact absurd e.symm (plain hp' hd)
  · rw [ha, hb, List.cons_append, List.cons_append, List.append_assoc, List.append_assoc] at e
    obtain ⟨rfl, er⟩ := append_stop_inj hp hp' rfl rfl (List.cons.inj e).2
    exact ⟨by rw [ha, hb], (List.cons.inj er).2⟩

/-! ## Bindings and frames -/

/-- The text of a binding. -/
def bindingText (b : String × Value) : String :=
  b.1 ++ ": " ++ b.2.text

namespace Frame

/-- A frame in which all names, and all parameters of the closures that it binds, are identifiers. -/
def WellNamed (f : Frame Value) : Prop :=
  ∀ b ∈ f.bindings, IsIdentifier b.1 ∧ b.2.WellNamed

instance : DecidablePred WellNamed :=
  fun f => inferInstanceAs (Decidable (∀ b ∈ f.bindings, IsIdentifier b.1 ∧ b.2.WellNamed))

/-- The frames bind the same names, to values with the same text. -/
def Alike (f g : Frame Value) : Prop :=
  ∀ x, (f.get? x).map Value.text = (g.get? x).map Value.text

variable {f g : Frame Value}

theorem alike_iff : f.Alike g ↔ f.map Value.text = g.map Value.text := by
  constructor
  · exact fun h => ext_get? fun x => by rw [get?_map, get?_map, h x]
  · exact fun h x => by rw [← get?_map, ← get?_map, h]

theorem Alike.of_forall₂
    (h : List.Forall₂ (fun b b' => b.1 = b'.1 ∧ b.2.text = b'.2.text) f.bindings g.bindings) :
    f.Alike g := by
  refine alike_iff.2 (ext_bindings (forall₂_iff_map_eq.1 (h.imp ?_)))
  rintro b b' ⟨hname, hvalue⟩
  exact Prod.ext hname hvalue

theorem Alike.frameText_eq (h : f.Alike g) : Scope.frameText f = Scope.frameText g := by
  have he (f : Frame Value) : Scope.frameText f = "\x7b" ++ Text.joinWith ", "
      ((f.map Value.text).bindings.map fun b => b.1 ++ ": " ++ b.2) ++ "\x7d" := by
    simp [Scope.frameText, map, Function.comp_def]
  rw [he, he, alike_iff.1 h]

end Frame

theorem bindingText_append (b : String × Value) (rest : List Char) :
    (bindingText b).toList ++ rest = b.1.toList ++ ':' :: ' ' :: (b.2.text.toList ++ rest) := by
  rw [bindingText, String.toList_append, String.toList_append, List.append_assoc,
    List.append_assoc]
  rfl

theorem told_bindings : Told [',', '}'] (fun b => IsIdentifier b.1 ∧ b.2.WellNamed) bindingText
    fun b b' => b.1 = b'.1 ∧ b.2.text = b'.2.text := by
  rintro b b' c d r r' ⟨hx, hv⟩ ⟨hx', hv'⟩ hc hd e
  rw [bindingText_append, bindingText_append] at e
  obtain ⟨hname, e⟩ := told_identifiers hx hx' (.head _) (.head _) e
  obtain ⟨hvalue, e⟩ := told_values hv hv' hc hd (List.cons.inj (List.cons.inj e).2).2
  exact ⟨⟨hname, hvalue⟩, e⟩

theorem frameText_append (f : Frame Value) (rest : List Char) :
    (Scope.frameText f).toList ++ rest =
      '{' :: ((Text.joinWith ", " (f.bindings.map bindingText)).toList ++ '}' :: rest) := by
  have e : Scope.frameText f =
      "\x7b" ++ Text.joinWith ", " (f.bindings.map bindingText) ++ "\x7d" := rfl
  rw [e, String.toList_append, String.toList_append, List.append_assoc, List.append_assoc]
  rfl

theorem told_frames : Told [',', ']'] Frame.WellNamed Scope.frameText Frame.Alike := by
  have hbindings := told_bindings.listed (by decide) fun b hb => by
    obtain ⟨c, cs, e, hc, -⟩ := isIdentifier_iff.1 hb.1
    have hb := bindingText_append b []
    rw [List.append_nil, e, List.cons_append] at hb
    refine ⟨c, _, hb, ?_⟩
    rintro rfl
    cases hc
  intro f g c d r r' hf hg hc hd e
  rw [frameText_append, frameText_append] at e
  obtain ⟨h, e⟩ := hbindings hf hg (.head _) (.head _) (List.cons.inj e).2
  exact ⟨.of_forall₂ h, (List.cons.inj e).2⟩

/-! ## Stacks of frames -/

namespace Scope

variable {s t : Scope}

theorem text_eq_of_alike (h : List.Forall₂ Frame.Alike s.userFrames t.userFrames) :
    s.text = t.text := by
  have he : s.userFrames.map frameText = t.userFrames.map frameText :=
    forall₂_iff_map_eq.1 (h.imp fun _ _ => Frame.Alike.frameText_eq)
  rw [text, text, he]

theorem alike_of_text_eq (hs : ∀ f ∈ s.userFrames, f.WellNamed)
    (ht : ∀ f ∈ t.userFrames, f.WellNamed) (h : s.text = t.text) :
    List.Forall₂ Frame.Alike s.userFrames t.userFrames := by
  have hframes := told_frames.listed (by decide) fun f _ =>
    ⟨'{', _, (List.append_nil _).symm.trans (frameText_append f []), by decide⟩
  have e := congrArg String.toList h
  rw [text, text, String.toList_append, String.toList_append, String.toList_append,
    String.toList_append] at e
  exact (hframes hs ht (.head _) (.head _) (List.cons.inj e).2).1

/-- The text of a frame whose bindings are listed in whatever order: they are put in the order of
their names before they are written. -/
def entriesText (entries : List (String × Value)) : String :=
  "\x7b" ++ Text.joinWith ", " ((sortBindings entries).map bindingText) ++ "\x7d"

/-- The text of frames whose bindings are listed in whatever order. -/
def listedText (listings : List (List (String × Value))) : String :=
  "[" ++ Text.joinWith ", " (listings.map entriesText) ++ "]"

theorem listedText_eq {listings : List (List (String × Value))}
    (h : List.Forall₂ Frame.Listing s.userFrames listings) : listedText listings = s.text := by
  have he : s.userFrames.map frameText = listings.map entriesText := by
    refine forall₂_iff_map_eq.1 (h.imp fun f entries hl => ?_)
    rw [entriesText, hl.sortBindings_eq]
    rfl
  rw [listedText, text, he]

end Scope

/-- A session in which all names, and all parameters of the closures that are bound, are identifiers,
those of the outermost frame aside. -/
def Session.WellNamed (s : Session) : Prop :=
  ∀ f ∈ s.scope.userFrames, f.WellNamed

instance : DecidablePred Session.WellNamed :=
  fun s => inferInstanceAs (Decidable (∀ f ∈ s.scope.userFrames, f.WellNamed))

/-- **The text of the frames tells what they bind, and nothing else.** If all names are identifiers,
two sessions have the same text exactly if they have as many frames and these bind, frame by frame,
the same names to values with the same text. Whatever the names are, the text is the one that comes
of listing the bindings of each frame in any order and putting them in the order of their names; and
it is the same after two courses of steps that do the same to each name in the same frames, though
they may take turns between names in different ways. -/
theorem stack_text_canonical (s : Session) :
    (∀ t : Session, s.WellNamed → t.WellNamed → (s.scope.text = t.scope.text ↔
      List.Forall₂ Frame.Alike s.scope.userFrames t.scope.userFrames)) ∧
    (∀ listings, List.Forall₂ Frame.Listing s.scope.userFrames listings →
      Scope.listedText listings = s.scope.text) ∧
    ∀ xs ys, (∀ x, xs.filter (Scope.Step.concerns x) = ys.filter (Scope.Step.concerns x)) →
      (s.scope.run xs).map Scope.text = (s.scope.run ys).map Scope.text := by
  refine ⟨fun t hs ht => ⟨Scope.alike_of_text_eq hs ht, Scope.text_eq_of_alike⟩,
    fun listings => Scope.listedText_eq, fun xs ys h => ?_⟩
  rw [Scope.run_eq_of_filter_eq h]

/-- Two sessions whose closures have other bodies, and a third in which the second parameter is a
name of its own; the bindings of the first session listed as they were made; and a name that is
bound again before another name is bound, or after that. -/
theorem stack_text_canonical_closure :
    ∃ (s t u : Session) (listings : List (List (String × Value))) (xs ys : List Scope.Step),
      s.WellNamed ∧ t.WellNamed ∧ u.WellNamed ∧
      s.scope.text = "[\x7ba: -5, f: <lambda x, y>\x7d, \x7bx: 2\x7d]" ∧
      u.scope.text = "[\x7ba: -5, f: <lambda x>, y: 1\x7d, \x7bx: 2\x7d]" ∧
      List.Forall₂ Frame.Alike s.scope.userFrames t.scope.userFrames ∧
      s.scope.text = t.scope.text ∧
      ¬List.Forall₂ Frame.Alike s.scope.userFrames u.scope.userFrames ∧
      List.Forall₂ Frame.Listing s.scope.userFrames listings ∧
      Scope.listedText listings = s.scope.text ∧
      (∀ x, xs.filter (Scope.Step.concerns x) = ys.filter (Scope.Step.concerns x)) ∧
      xs ≠ ys ∧ (s.scope.run xs).map Scope.text = (s.scope.run ys).map Scope.text := by
  let f : Value := .closure ⟨0, ["x", "y"], .var default "x"⟩
  let g : Value := .closure ⟨7, ["x", "y"], .number default 1⟩
  let h : Value := .closure ⟨0, ["x"], .var default "x"⟩
  let call : Frame Value := Frame.empty.insert "x" (.int 2)
  let s : Session :=
    { scope := ⟨call, [(Frame.empty.insert "f" f).insert "a" (.int (-5)), builtinFrame]⟩ }
  let t : Session :=
    { scope := ⟨call, [((Frame.empty.insert "a" .none).insert "f" g).insert "a" (.int (-5)),
        builtinFrame]⟩ }
  let u : Session :=
    { scope := ⟨call, [((Frame.empty.insert "a" (.int (-5))).insert "f" h).insert "y" (.int 1),
        builtinFrame]⟩ }
  let xs : List Scope.Step :=
    [.push, .assign "b" (.int 1), .assign "b" (.int 2), .define "a" (.int 3)]
  let ys : List Scope.Step :=
    [.push, .assign "b" (.int 1), .define "a" (.int 3), .assign "b" (.int 2)]
  have hs : s.WellNamed := by decide
  have ht : t.WellNamed := by decide
  have hu : u.WellNamed := by decide
  have htext : s.scope.text = "[\x7ba: -5, f: <lambda x, y>\x7d, \x7bx: 2\x7d]" := by cbv
  have htext' : u.scope.text = "[\x7ba: -5, f: <lambda x>, y: 1\x7d, \x7bx: 2\x7d]" := by cbv
  have hst : List.Forall₂ Frame.Alike s.scope.userFrames t.scope.userFrames :=
    .cons (Frame.alike_iff.2 (Frame.ext_bindings rfl)) (.cons (fun _ => rfl) .nil)
  have hl : List.Forall₂ Frame.Listing s.scope.userFrames
      [[("f", f), ("a", .int (-5))], [("x", .int 2)]] := by
    refine .cons ⟨by decide, fun x v => ?_⟩ (.cons ⟨by decide, fun x v => ?_⟩ .nil)
    · rw [← Frame.mem_bindings_iff]
      exact (List.Perm.swap ("a", .int (-5)) ("f", f) []).mem_iff
    · rw [← Frame.mem_bindings_iff]
      rfl
  have hxs (x : String) : xs.filter (Scope.Step.concerns x) = ys.filter (Scope.Step.concerns x) := by
    by_cases ha : "a" = x
    · subst ha
      rfl
    · by_cases hb : "b" = x
      · subst hb
        rfl
      · simp [xs, ys, List.filter_cons, Scope.Step.concerns, ha, hb]
  obtain ⟨htold, hlisted, hturns⟩ := stack_text_canonical s
  refine ⟨s, t, u, _, xs, ys, hs, ht, hu, htext, htext', hst, (htold t hs ht).2 hst, fun hsu => ?_,
    hl, hlisted _ hl, hxs, by simp [xs, ys], hturns xs ys hxs⟩
  have he := (htold u hs hu).2 hsu
  rw [htext, htext'] at he
  exact absurd he (by decide)

end Dynascope
