import Dynascope.Proofs.RpnTrees
import Dynascope.Proofs.Termination

/-! # Programs and their reverse Polish notation

A term that is built from numbers, parentheses and operations has an `ArithTree`
(`exists_arithTree?_iff`). Its form in reverse Polish notation lists that tree, and evaluation of
the term, which does nothing to a session, computes the value of that tree (`eval_eq`). So a program
and its form have the same outcome: `Program.toRpn_agrees`.
-/

set_option autoImplicit false

namespace Dynascope

/-! ## Arithmetic terms -/

/-- Built from numbers, parentheses and operations only. -/
inductive Term.Arithmetic : Term → Prop
  | number (span : Span) (n : Int64) : Arithmetic (.number span n)
  | paren (span : Span) {inner : Term} : Arithmetic inner → Arithmetic (.paren span inner)
  | arith (span : Span) (op : ArithOp) {left right : Term} : Arithmetic left → Arithmetic right →
      Arithmetic (.arith span op left right)

namespace Term

/-- The tree of an arithmetic term, without parentheses. -/
def arithTree? : Term → Option ArithTree
  | .number _ n => some (.number n)
  | .paren _ inner => inner.arithTree?
  | .arith _ op left right =>
    match left.arithTree?, right.arithTree? with
    | some l, some r => some (.operation op l r)
    | _, _ => none
  | _ => none

variable {t : Term} {tree : ArithTree}

theorem arithTree?_arith {span : Span} {op : ArithOp} {left right : Term} :
    (arith span op left right).arithTree? = some tree ↔
      ∃ l r, left.arithTree? = some l ∧ right.arithTree? = some r ∧
        tree = .operation op l r := by
  rw [arithTree?]
  cases left.arithTree? <;> cases right.arithTree? <;> simp [eq_comm]

/-- Arithmetic terms are those that have a tree. -/
theorem exists_arithTree?_iff : (∃ tree, t.arithTree? = some tree) ↔ t.Arithmetic := by
  constructor
  · rintro ⟨tree, h⟩
    induction t generalizing tree with
    | number span n => exact .number span n
    | paren span inner ih => exact .paren span (ih tree h)
    | arith span op left right ihl ihr =>
      obtain ⟨l, r, hl, hr, rfl⟩ := arithTree?_arith.1 h
      exact .arith span op (ihl l hl) (ihr r hr)
    | _ => cases h
  · intro h
    induction h with
    | number span n => exact ⟨.number n, rfl⟩
    | paren span _ ih => exact ih
    | arith span op _ _ ihl ihr =>
      obtain ⟨l, hl⟩ := ihl
      obtain ⟨r, hr⟩ := ihr
      exact ⟨.operation op l r, arithTree?_arith.2 ⟨l, r, hl, hr, rfl⟩⟩

/-- The items of an arithmetic term are those of its tree. -/
theorem postorder_of_arithTree? (h : t.arithTree? = some tree) : t.postorder = .ok tree.items := by
  induction t generalizing tree with
  | number span n =>
    cases h
    rfl
  | paren span inner ih => exact ih h
  | arith span op left right ihl ihr =>
    obtain ⟨l, r, hl, hr, rfl⟩ := arithTree?_arith.1 h
    simp [postorder, ihl hl, ihr hr, ArithTree.items]
  | _ => cases h

/-- Only arithmetic terms have items. -/
theorem exists_arithTree?_of_postorder {items : List RpnItem} (h : t.postorder = .ok items) :
    ∃ tree, t.arithTree? = some tree := by
  induction t generalizing items with
  | number span n => exact ⟨.number n, rfl⟩
  | paren span inner ih => exact ih h
  | arith span op left right ihl ihr =>
    rw [postorder] at h
    cases hl : left.postorder with
    | error e => simp [hl] at h
    | ok first =>
      cases hr : right.postorder with
      | error e => simp [hl, hr] at h
      | ok second =>
        obtain ⟨l, hl⟩ := ihl hl
        obtain ⟨r, hr⟩ := ihr hr
        exact ⟨.operation op l r, arithTree?_arith.2 ⟨l, r, hl, hr, rfl⟩⟩
  | _ => cases h

end Term

/-! ## Evaluation -/

/-- How a computation ends with a value or a fault of arithmetic. -/
def outcomeOf {α : Type} : Except ArithFault α → Outcome RuntimeError α
  | .ok a => .value a
  | .error fault => .failure (.fault fault)

theorem evalInt_eq {ev : Term → Run Value} {t : Term} {s : Session} {value : Except ArithFault Int64}
    (h : ev t s = (outcomeOf (value.map .int), s)) : evalInt ev t s = (outcomeOf value, s) := by
  unfold evalInt
  cases value with
  | ok n => exact bind_of_value h
  | error fault => exact bind_of_failure h

/-- Evaluation of an arithmetic term has the value or the fault of its tree, and leaves the session
as it was. -/
theorem Term.eval_eq {fuel : Nat} {t : Term} {tree : ArithTree} (h : t.arithTree? = some tree)
    (hf : t.size ≤ fuel) (s : Session) :
    t.eval fuel s = (outcomeOf (tree.value.map .int), s) := by
  have hpos := t.size_pos
  induction fuel generalizing t tree with
  | zero => omega
  | succ fuel ih =>
    have part {u : Term} {tree : ArithTree} (hu : u ∈ t.children) (h : u.arithTree? = some tree) :
        u.eval fuel s = (outcomeOf (tree.value.map .int), s) := by
      have hlt := Term.size_lt hu
      exact ih h (by omega) u.size_pos
    cases t with
    | number span n =>
      cases h
      rfl
    | paren span inner => exact part (.head _) h
    | arith span op left right =>
      obtain ⟨l, r, hl, hr, rfl⟩ := arithTree?_arith.1 h
      have hl := evalInt_eq (part (by simp [children]) hl)
      have hr := evalInt_eq (part (by simp [children]) hr)
      show (evalInt (Term.eval fuel) left >>= _) s = _
      rw [ArithTree.value]
      cases hm : l.value with
      | error fault =>
        rw [hm] at hl
        exact bind_of_failure hl
      | ok m =>
        rw [hm] at hl
        rw [bind_of_value hl]
        cases hn : r.value with
        | error fault =>
          rw [hn] at hr
          exact bind_of_failure hr
        | ok n =>
          rw [hn] at hr
          rw [bind_of_value hr]
          dsimp only
          cases op.apply m n <;> rfl
    | _ => cases h

namespace Program

variable {p : Program}

theorem ends_of_arithTree? {t : Term} {tree : ArithTree} (hp : p.statements = [t])
    (h : t.arithTree? = some tree) (s : Session) :
    p.Ends s (outcomeOf (tree.value.map .int), s) := by
  have he := Term.eval_eq h (Nat.le_refl _) s
  refine ⟨?_, t.size, ?_⟩
  · cases tree.value <;> simp [outcomeOf, Except.map]
  · rw [run, hp]
    show (t.eval t.size >>= fun v => pure v) s = _
    rw [bind_pure]
    exact he

/-- A program has a form in reverse Polish notation exactly if it is one arithmetic term; then the
form lists the tree of the term. -/
theorem toRpn_eq_ok_iff {text : String} :
    p.toRpn = .ok text ↔ ∃ t tree, p.statements = [t] ∧ t.arithTree? = some tree ∧
      text = Text.joinWith " " (tree.items.map RpnItem.text) := by
  constructor
  · intro h
    unfold toRpn at h
    split at h
    · rename_i t hp
      cases ht : t.postorder with
      | error e => simp [ht, Except.map] at h
      | ok items =>
        obtain ⟨tree, htree⟩ := Term.exists_arithTree?_of_postorder ht
        rw [Term.postorder_of_arithTree? htree] at h
        cases h
        exact ⟨t, tree, hp, htree, rfl⟩
    · cases h
  · rintro ⟨t, tree, hp, htree, rfl⟩
    unfold toRpn
    rw [hp]
    simp only [Term.postorder_of_arithTree? htree]
    rfl

/-- **The form of a program in reverse Polish notation has the outcome of the program.** There is
one exactly if the program is a single statement, built from numbers, parentheses and operations.
Its value is what the program computes in any session, or both fail with the same fault and message,
and the program leaves the session as it was. -/
theorem toRpn_agrees (p : Program) :
    ((∃ text, p.toRpn = .ok text) ↔ ∃ t, p.statements = [t] ∧ t.Arithmetic) ∧
    ∀ text, p.toRpn = .ok text → ∀ s : Session,
      (∃ n, evalRpn text = .ok n ∧ p.Ends s (.value (.int n), s)) ∨
      ∃ fault, evalRpn text = .error (.fault fault) ∧ p.Ends s (.failure (.fault fault), s) ∧
        (RpnError.fault fault).message = (RuntimeError.fault fault).text := by
  constructor
  · constructor
    · rintro ⟨text, h⟩
      obtain ⟨t, tree, hp, htree, -⟩ := toRpn_eq_ok_iff.1 h
      exact ⟨t, hp, Term.exists_arithTree?_iff.1 ⟨tree, htree⟩⟩
    · rintro ⟨t, hp, ht⟩
      obtain ⟨tree, htree⟩ := Term.exists_arithTree?_iff.2 ht
      exact ⟨_, toRpn_eq_ok_iff.2 ⟨t, tree, hp, htree, rfl⟩⟩
  · intro text h s
    obtain ⟨t, tree, hp, htree, rfl⟩ := toRpn_eq_ok_iff.1 h
    have hrpn := evalRpn_of_tree (spelledItems_joinWith tree.items)
    have hends := ends_of_arithTree? hp htree s
    cases hv : tree.value with
    | ok n =>
      rw [hv] at hrpn hends
      exact .inl ⟨n, hrpn, hends⟩
    | error fault =>
      rw [hv] at hrpn hends
      exact .inr ⟨fault, hrpn, hends, rfl⟩

/-- A product with the least integer, which overflows before its second operand is divided by
zero. -/
theorem toRpn_agrees_overflow :
    ∃ p : Program, p.toRpn = .ok "-9223372036854775808 -1 * 1 0 / -" ∧
      ∃ fault, evalRpn "-9223372036854775808 -1 * 1 0 / -" = .error (.fault fault) ∧
        p.Ends (.start none none) (.failure (.fault fault), .start none none) := by
  let p : Program := ⟨[.arith ⟨0, 30⟩ .sub
    (.arith ⟨0, 25⟩ .mul (.number ⟨0, 20⟩ (-9223372036854775808)) (.number ⟨23, 25⟩ (-1)))
    (.arith ⟨28, 30⟩ .div (.number ⟨28, 29⟩ 1) (.number ⟨29, 30⟩ 0))]⟩
  have htext : p.toRpn = .ok "-9223372036854775808 -1 * 1 0 / -" := by rfl
  refine ⟨p, htext, ?_⟩
  obtain ⟨n, hn, -⟩ | ⟨fault, hfault, hends, -⟩ := (toRpn_agrees p).2 _ htext (.start none none)
  · have : evalRpn "-9223372036854775808 -1 * 1 0 / -" =
        .error (.fault (.overflow .mul (-9223372036854775808) (-1))) := by decide +kernel
    rw [this] at hn
    cases hn
  · exact ⟨fault, hfault, hends⟩

end Program

end Dynascope
