import Mathlib.Data.List.Infix
import Dynascope.Proofs.RpnItems

/-! # Trees and their listings

A text in reverse Polish notation lists an `ArithTree`: an operator stands after the listings of its
two operands. Items can be read back as the trees that they list, at most in one way
(`readTrees_eq_some_iff`), and while the values of these trees exist, they are what stands on the
stack (`pushItems_eq_ok`). So `evalRpn` has a value exactly for the texts that list one tree which
has this value, and where a text lists none, counting its numbers and operators says what is wrong
with it: `evalRpn_iff_tree`.
-/

set_option autoImplicit false

namespace Dynascope

/-! ## Trees -/

/-- An arithmetic expression. -/
inductive ArithTree where
  | number (n : Int64)
  | operation (op : ArithOp) (left right : ArithTree)
deriving DecidableEq, Repr

namespace ArithTree

/-- The items of a tree, every operator after its two operands. -/
def items : ArithTree → List RpnItem
  | number n => [.number n]
  | operation op left right => left.items ++ (right.items ++ [.operator op])

/-- The value of a tree. The left operand is evaluated before the right one. -/
def value : ArithTree → Except ArithFault Int64
  | number n => .ok n
  | operation op left right =>
    match left.value with
    | .error fault => .error fault
    | .ok m =>
      match right.value with
      | .error fault => .error fault
      | .ok n => op.apply m n

end ArithTree

/-- The items of some trees, those of the last one first. -/
def listing (trees : List ArithTree) : List RpnItem :=
  trees.reverse.flatMap ArithTree.items

@[simp] theorem listing_cons (tree : ArithTree) (trees : List ArithTree) :
    listing (tree :: trees) = listing trees ++ tree.items := by
  simp [listing]

/-! ## Reading trees -/

/-- The trees that items list after some trees, the last one first. -/
def readTrees (trees : List ArithTree) : List RpnItem → Option (List ArithTree)
  | [] => some trees
  | .number n :: rest => readTrees (.number n :: trees) rest
  | .operator op :: rest =>
    match trees with
    | right :: left :: trees => readTrees (.operation op left right :: trees) rest
    | _ => none

theorem readTrees_items (tree : ArithTree) (trees : List ArithTree) (rest : List RpnItem) :
    readTrees trees (tree.items ++ rest) = readTrees (tree :: trees) rest := by
  induction tree generalizing trees rest with
  | number n => rfl
  | operation op left right ihl ihr =>
    rw [ArithTree.items, List.append_assoc, List.append_assoc, ihl, ihr]
    rfl

theorem readTrees_listing (trees : List ArithTree) (rest : List RpnItem) :
    readTrees [] (listing trees ++ rest) = readTrees trees rest := by
  induction trees generalizing rest with
  | nil => rfl
  | cons tree trees ih => rw [listing_cons, List.append_assoc, ih, readTrees_items]

theorem listing_of_readTrees {trees trees' : List ArithTree} {items : List RpnItem}
    (h : readTrees trees items = some trees') : listing trees' = listing trees ++ items := by
  induction items generalizing trees with
  | nil =>
    cases h
    rw [List.append_nil]
  | cons item items ih =>
    cases item with
    | number n =>
      rw [ih h, listing_cons, List.append_assoc]
      rfl
    | operator op =>
      rcases trees with _ | ⟨right, _ | ⟨left, trees⟩⟩
      · cases h
      · cases h
      · rw [ih h]
        simp [ArithTree.items]

/-- Items list some trees in at most one way, and that is how they are read. -/
theorem readTrees_eq_some_iff {items : List RpnItem} {trees : List ArithTree} :
    readTrees [] items = some trees ↔ listing trees = items := by
  constructor
  · exact listing_of_readTrees
  · rintro rfl
    have h := readTrees_listing trees []
    rwa [List.append_nil] at h

/-- A tree is determined by its items. -/
theorem ArithTree.items_injective {tree other : ArithTree} (h : tree.items = other.items) :
    tree = other := by
  have read (tree : ArithTree) : readTrees [] tree.items = some [tree] :=
    readTrees_eq_some_iff.2 (by simp [listing])
  have e := (read tree).symm.trans ((congrArg (readTrees []) h).trans (read other))
  exact (List.cons.inj (Option.some.inj e)).1

/-! ## The stack -/

/-- The stack after some more items. -/
def pushItems (stack : List Int64) : List RpnItem → Except RpnError (List Int64)
  | [] => .ok stack
  | item :: rest =>
    match item.push stack with
    | .error e => .error e
    | .ok stack => pushItems stack rest

/-- Words are pushed as the items that they spell. -/
theorem pushWords_eq {words : List String} {items : List RpnItem}
    (h : List.Forall₂ (fun word item => RpnItem.SpelledBy word item) words items)
    (stack : List Int64) : pushWords stack words = pushItems stack items := by
  induction h generalizing stack with
  | nil => rfl
  | @cons word item words items hw _ ih =>
    have hw := RpnItem.ofWord?_eq_some_iff.2 hw
    simp only [pushWords, hw, pushItems]
    cases item.push stack with
    | error e => rfl
    | ok stack => exact ih stack

/-- Only words that spell items can all be pushed. -/
theorem forall₂_of_pushWords {words : List String} {stack stack' : List Int64}
    (h : pushWords stack words = .ok stack') :
    ∃ items, List.Forall₂ (fun word item => RpnItem.SpelledBy word item) words items := by
  induction words generalizing stack with
  | nil => exact ⟨[], .nil⟩
  | cons word words ih =>
    rw [pushWords] at h
    cases hw : RpnItem.ofWord? word with
    | none => simp [hw] at h
    | some item =>
      rw [hw] at h
      cases hp : item.push stack with
      | error e => simp [hp] at h
      | ok next =>
        simp only [hp] at h
        obtain ⟨items, hi⟩ := ih h
        exact ⟨item :: items, .cons (RpnItem.ofWord?_eq_some_iff.1 hw) hi⟩

/-- The items of a tree push its value, or end the reading where there is none. -/
theorem pushItems_items (tree : ArithTree) (stack : List Int64) (rest : List RpnItem) :
    pushItems stack (tree.items ++ rest) =
      match tree.value with
      | .error fault => .error (.fault fault)
      | .ok n => pushItems (n :: stack) rest := by
  induction tree generalizing stack rest with
  | number n => rfl
  | operation op left right ihl ihr =>
    rw [ArithTree.items, List.append_assoc, List.append_assoc, ihl, ArithTree.value]
    cases left.value with
    | error fault => rfl
    | ok m =>
      simp only [ihr]
      cases right.value with
      | error fault => rfl
      | ok n =>
        simp only [List.singleton_append, pushItems, RpnItem.push]
        cases op.apply m n <;> rfl

/-- What stands on the stack are the values of the trees that were read. -/
theorem pushItems_eq_ok {items : List RpnItem} {stack stack' : List Int64}
    (h : pushItems stack items = .ok stack') (trees : List ArithTree)
    (hv : trees.map ArithTree.value = stack.map .ok) :
    ∃ trees', readTrees trees items = some trees' ∧
      trees'.map ArithTree.value = stack'.map .ok := by
  induction items generalizing stack trees with
  | nil =>
    cases h
    exact ⟨trees, rfl, hv⟩
  | cons item items ih =>
    rw [pushItems] at h
    cases item with
    | number n =>
      refine ih h (.number n :: trees) ?_
      rw [List.map_cons, List.map_cons, hv]
      rfl
    | operator op =>
      -- an operator that was applied had two values, so there are two trees
      rcases stack with _ | ⟨n, _ | ⟨m, stack⟩⟩
      · cases h
      · cases h
      · obtain ⟨right, trees, rfl, hr, hv⟩ := List.map_eq_cons_iff.1 hv
        obtain ⟨left, trees, rfl, hl, hv⟩ := List.map_eq_cons_iff.1 hv
        cases hk : op.apply m n with
        | error fault => simp [RpnItem.push, hk] at h
        | ok k =>
          simp only [RpnItem.push, hk] at h
          refine ih h (.operation op left right :: trees) ?_
          rw [List.map_cons, List.map_cons, hv, ArithTree.value, hl, hr]
          simp only [hk]

/-! ## Counting -/

/-- Whether an item is a number. -/
def RpnItem.isNumber : RpnItem → Bool
  | .number _ => true
  | .operator _ => false

/-- How many of the items are numbers. -/
def numbers (items : List RpnItem) : Nat :=
  items.countP RpnItem.isNumber

/-- How many of the items are operators. -/
def operators (items : List RpnItem) : Nat :=
  items.countP fun item => !item.isNumber

@[simp] theorem numbers_number (n : Int64) (items : List RpnItem) :
    numbers (.number n :: items) = numbers items + 1 :=
  List.countP_cons_of_pos rfl

@[simp] theorem numbers_operator (op : ArithOp) (items : List RpnItem) :
    numbers (.operator op :: items) = numbers items :=
  List.countP_cons_of_neg Bool.false_ne_true

@[simp] theorem operators_number (n : Int64) (items : List RpnItem) :
    operators (.number n :: items) = operators items :=
  List.countP_cons_of_neg Bool.false_ne_true

@[simp] theorem operators_operator (op : ArithOp) (items : List RpnItem) :
    operators (.operator op :: items) = operators items + 1 :=
  List.countP_cons_of_pos rfl

/-- After `depth` numbers, some items up to an operator have no more numbers than operators. -/
def Starved (depth : Nat) (items : List RpnItem) : Prop :=
  ∃ front op, front ++ [.operator op] <+: items ∧
    depth + numbers (front ++ [.operator op]) ≤ operators (front ++ [.operator op])

section

variable {depth : Nat} {items : List RpnItem}

theorem not_starved_nil (depth : Nat) : ¬ Starved depth [] := by
  rintro ⟨front, op, hp, -⟩
  simp at hp

theorem starved_number {n : Int64} :
    Starved depth (.number n :: items) ↔ Starved (depth + 1) items := by
  constructor
  · rintro ⟨front, op, hp, hle⟩
    cases front with
    | nil => simp at hp
    | cons item front =>
      obtain ⟨rfl, hfront⟩ := List.cons_prefix_cons.1 hp
      rw [List.cons_append, numbers_number, operators_number] at hle
      exact ⟨front, op, hfront, by omega⟩
  · rintro ⟨front, op, hp, hle⟩
    refine ⟨.number n :: front, op, List.cons_prefix_cons.2 ⟨rfl, hp⟩, ?_⟩
    rw [List.cons_append, numbers_number, operators_number]
    omega

theorem starved_operator_of_lt {op : ArithOp} (h : depth < 2) :
    Starved depth (.operator op :: items) := by
  refine ⟨[], op, List.cons_prefix_cons.2 ⟨rfl, List.nil_prefix⟩, ?_⟩
  have hn : numbers [] = 0 := rfl
  rw [List.nil_append, numbers_operator, operators_operator, hn]
  omega

theorem starved_operator (op : ArithOp) :
    Starved (depth + 2) (.operator op :: items) ↔ Starved (depth + 1) items := by
  constructor
  · rintro ⟨front, op', hp, hle⟩
    cases front with
    | nil =>
      have hn : numbers [] = 0 := rfl
      have ho : operators [] = 0 := rfl
      rw [List.nil_append, numbers_operator, operators_operator, hn, ho] at hle
      omega
    | cons item front =>
      obtain ⟨rfl, hfront⟩ := List.cons_prefix_cons.1 hp
      rw [List.cons_append, numbers_operator, operators_operator] at hle
      exact ⟨front, op', hfront, by omega⟩
  · rintro ⟨front, op', hp, hle⟩
    refine ⟨.operator op :: front, op', List.cons_prefix_cons.2 ⟨rfl, hp⟩, ?_⟩
    rw [List.cons_append, numbers_operator, operators_operator]
    omega

end

/-- Items that are no trees leave the stack too small for an operator, and all others leave one value
for each number that no operator took. -/
theorem pushItems_cases (stack : List Int64) (items : List RpnItem) :
    (∃ stack', pushItems stack items = .ok stack' ∧ ¬ Starved stack.length items ∧
        stack'.length + operators items = stack.length + numbers items) ∨
      (∃ op, pushItems stack items = .error (.stackUnderflow op) ∧ Starved stack.length items) ∨
      ∃ fault, pushItems stack items = .error (.fault fault) := by
  induction items generalizing stack with
  | nil => exact .inl ⟨stack, rfl, not_starved_nil _, rfl⟩
  | cons item items ih =>
    cases item with
    | number n =>
      have h := ih (n :: stack)
      rw [List.length_cons, ← starved_number (n := n)] at h
      rw [numbers_number, operators_number]
      exact h.imp (fun ⟨stack', hp, hs, hl⟩ => ⟨stack', hp, hs, by omega⟩) id
    | operator op =>
      rcases stack with _ | ⟨n, _ | ⟨m, stack⟩⟩
      · exact .inr (.inl ⟨op, rfl, starved_operator_of_lt Nat.zero_lt_two⟩)
      · exact .inr (.inl ⟨op, rfl, starved_operator_of_lt Nat.one_lt_two⟩)
      · cases hk : op.apply m n with
        | error fault => exact .inr (.inr ⟨fault, by simp [pushItems, RpnItem.push, hk]⟩)
        | ok k =>
          have h := ih (k :: stack)
          rw [List.length_cons, ← starved_operator op] at h
          have hp : pushItems (n :: m :: stack) (.operator op :: items) =
              pushItems (k :: stack) items := by
            simp only [pushItems, RpnItem.push, hk]
          rw [hp, numbers_operator, operators_operator, List.length_cons, List.length_cons]
          exact h.imp (fun ⟨stack', hp, hs, hl⟩ => ⟨stack', hp, hs, by omega⟩) id

/-! ## Whole texts -/

/-- What a text is evaluated to once all its items are on the stack. -/
def valueOf : List Int64 → Except RpnError Int64
  | [] => .error .empty
  | [n] => .ok n
  | stack => .error (.leftover stack.length)

theorem valueOf_eq_leftover_iff {stack : List Int64} {k : Nat} :
    valueOf stack = .error (.leftover k) ↔ stack.length = k ∧ 2 ≤ k := by
  rcases stack with _ | ⟨n, _ | ⟨m, stack⟩⟩
  · simp only [valueOf, Except.error.injEq, reduceCtorEq, List.length_nil, false_iff]
    omega
  · simp only [valueOf, reduceCtorEq, List.length_singleton, false_iff]
    omega
  · simp only [valueOf, Except.error.injEq, RpnError.leftover.injEq, List.length_cons]
    omega

theorem valueOf_eq_empty_iff {stack : List Int64} :
    valueOf stack = .error .empty ↔ stack = [] := by
  rcases stack with _ | ⟨n, _ | ⟨m, stack⟩⟩ <;> simp [valueOf]

theorem valueOf_ne_stackUnderflow (stack : List Int64) (op : ArithOp) :
    valueOf stack ≠ .error (.stackUnderflow op) := by
  rcases stack with _ | ⟨n, _ | ⟨m, stack⟩⟩ <;> simp [valueOf]

theorem evalRpn_eq {text : String} {items : List RpnItem} (h : SpelledItems text items) :
    evalRpn text = (pushItems [] items).bind valueOf := by
  rw [evalRpn, pushWords_eq h]
  rcases pushItems [] items with e | (_ | ⟨n, _ | ⟨m, stack⟩⟩) <;> rfl

/-- A text that lists a tree has the value of the tree, or its fault. -/
theorem evalRpn_of_tree {text : String} {tree : ArithTree} (h : SpelledItems text tree.items) :
    evalRpn text = tree.value.mapError .fault := by
  have hp := pushItems_items tree [] []
  rw [List.append_nil] at hp
  rw [evalRpn_eq h, hp]
  cases tree.value <;> rfl

/-- A text that has a value lists a tree. -/
theorem exists_tree_of_evalRpn {text : String} {n : Int64} (h : evalRpn text = .ok n) :
    ∃ tree : ArithTree, SpelledItems text tree.items ∧ tree.value = .ok n := by
  obtain ⟨items, hi⟩ : ∃ items, SpelledItems text items := by
    cases hp : pushWords [] (Text.words text) with
    | error e => simp [evalRpn, hp] at h
    | ok stack => exact forall₂_of_pushWords hp
  rw [evalRpn_eq hi] at h
  obtain ⟨stack, hp, hv⟩ : ∃ stack, pushItems [] items = .ok stack ∧ valueOf stack = .ok n := by
    cases hp : pushItems [] items with
    | error e => simp [hp, Except.bind] at h
    | ok stack => exact ⟨stack, rfl, by simpa [hp, Except.bind] using h⟩
  have hn : stack = [n] := by
    rcases stack with _ | ⟨m, _ | ⟨k, stack⟩⟩
    · cases hv
    · cases hv
      rfl
    · cases hv
  subst hn
  obtain ⟨trees, ht, hvs⟩ := pushItems_eq_ok hp [] rfl
  obtain ⟨tree, rest, rfl, htree, hrest⟩ := List.map_eq_cons_iff.1 hvs
  cases List.map_eq_nil_iff.1 hrest
  have hl := readTrees_eq_some_iff.1 ht
  rw [listing_cons] at hl
  exact ⟨tree, by rw [← hl] at hi; exact hi, htree⟩

/-- **A text in reverse Polish notation is a tree, written in postorder.** A text has a value
exactly if its words, all of them numbers or signs, list a tree that has this value; there is no
other tree that they list. If all words are numbers or signs and no operation faults, an operator
lacks an operand exactly if some items up to an operator have no more numbers than operators;
otherwise values are left over exactly if there are that many more numbers than operators, at least
two; and the text is empty exactly if it has no words. -/
theorem evalRpn_iff_tree (text : String) :
    (∀ n, evalRpn text = .ok n ↔
      ∃ tree : ArithTree, SpelledItems text tree.items ∧ tree.value = .ok n ∧
        ∀ other : ArithTree, SpelledItems text other.items → other = tree) ∧
    ∀ items, SpelledItems text items → (∀ fault, evalRpn text ≠ .error (.fault fault)) →
      ((∃ op, evalRpn text = .error (.stackUnderflow op)) ↔ Starved 0 items) ∧
      (∀ k, evalRpn text = .error (.leftover k) ↔
        ¬ Starved 0 items ∧ numbers items = operators items + k ∧ 2 ≤ k) ∧
      (evalRpn text = .error .empty ↔ Text.words text = []) := by
  refine ⟨fun n => ⟨fun h => ?_, fun ⟨tree, hi, hv, _⟩ => ?_⟩, fun items hi hfault => ?_⟩
  · obtain ⟨tree, hi, hv⟩ := exists_tree_of_evalRpn h
    exact ⟨tree, hi, hv, fun other ho => ArithTree.items_injective (ho.unique hi)⟩
  · rw [evalRpn_of_tree hi, hv]
    rfl
  · have hempty : Text.words text = [] ↔ items = [] := by
      rw [← List.length_eq_zero_iff, ← List.length_eq_zero_iff, hi.length_eq]
    rw [hempty]
    rcases pushItems_cases [] items with ⟨stack, hp, hs, hl⟩ | ⟨op, hp, hs⟩ | ⟨fault, hp⟩
    · have he : evalRpn text = valueOf stack := by
        rw [evalRpn_eq hi, hp]
        rfl
      have hs : ¬ Starved 0 items := hs
      rw [List.length_nil, Nat.zero_add] at hl
      rw [he]
      refine ⟨?_, fun k => ?_, ?_⟩
      · exact iff_of_false (fun ⟨op, h⟩ => valueOf_ne_stackUnderflow stack op h) hs
      · rw [valueOf_eq_leftover_iff]
        exact ⟨fun h => ⟨hs, by omega, h.2⟩, fun h => ⟨by omega, h.2.2⟩⟩
      · rw [valueOf_eq_empty_iff]
        constructor
        -- the stack is empty only if no tree was read
        · rintro rfl
          obtain ⟨trees, ht, hv⟩ := pushItems_eq_ok hp [] rfl
          cases List.map_eq_nil_iff.1 hv
          exact (readTrees_eq_some_iff.1 ht).symm
        · rintro rfl
          cases hp
          rfl
    · have he : evalRpn text = .error (.stackUnderflow op) := by
        rw [evalRpn_eq hi, hp]
        rfl
      have hs : Starved 0 items := hs
      rw [he]
      refine ⟨iff_of_true ⟨op, rfl⟩ hs, fun k => iff_of_false (by simp) fun h => h.1 hs, ?_⟩
      refine iff_of_false (by simp) ?_
      rintro rfl
      exact not_starved_nil 0 hs
    · refine absurd ?_ (hfault fault)
      rw [evalRpn_eq hi, hp]
      rfl

/-- A text of two trees, of which no operator makes one. -/
theorem evalRpn_iff_tree_leftover :
    (∀ fault, evalRpn "1 2 3 +" ≠ .error (.fault fault)) ∧
      ¬ Starved 0 [.number 1, .number 2, .number 3, .operator .add] ∧
      evalRpn "1 2 3 +" = .error (.leftover 2) := by
  have hi : SpelledItems "1 2 3 +" [.number 1, .number 2, .number 3, .operator .add] := by
    have h := spelledItems_joinWith [.number 1, .number 2, .number 3, .operator .add]
    have e : Text.joinWith " " ([.number 1, .number 2, .number 3, .operator .add].map
        RpnItem.text) = "1 2 3 +" := by cbv
    rwa [e] at h
  have hs : ¬ Starved 0 [.number 1, .number 2, .number 3, .operator .add] := by
    simp [starved_number, starved_operator, not_starved_nil]
  have hf : ∀ fault, evalRpn "1 2 3 +" ≠ .error (.fault fault) := by
    rw [evalRpn_eq hi]
    exact fun fault h => by cases h
  exact ⟨hf, hs, (((evalRpn_iff_tree _).2 _ hi hf).2.1 2).2 ⟨hs, by decide⟩⟩

end Dynascope
