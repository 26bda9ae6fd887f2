import Dynascope.Proofs.ExactArith
import Dynascope.Proofs.Flatten
import Dynascope.Proofs.Limit

/-! # Operations evaluated exactly

`exactRun` evaluates a chain of operands from left to right on integers of any size. An operation
that does not overflow does the same (`spineRun_exact`), whichever way it is grouped, so two
operations with the same flattened form have the same outcome unless one of them overflows:
`follows_flatten`.
-/

set_option autoImplicit false

namespace Dynascope

variable {α β : Type}

def IsOverflow (e : RuntimeError) : Prop :=
  ∃ op a b, e = .fault (.overflow op a b)

/-! ## Exact evaluation of chains -/

def ArithOp.exactStep (op : ArithOp) (a b : Int) : Run Int :=
  match op.exact a b with
  | some k => pure k
  | none => Run.fail (.fault .divisionByZero)

def ArithOp.step (op : ArithOp) (m n : Int64) : Run Int64 :=
  match op.apply m n with
  | .ok k => pure k
  | .error fault => Run.fail (.fault fault)

section

variable (ev : Term → Run Value)

/-- Operands after a value that has been reached. -/
def chainRun (a : Int) : Chain → Run Int
  | [] => pure a
  | x :: rest => do
    let n ← evalInt ev x.2
    let k ← x.1.exactStep a n.toInt
    chainRun k rest

def exactRun (c : Term × Chain) : Run Int := do
  let n ← evalInt ev c.1
  chainRun ev n.toInt c.2

theorem chainRun_append (a : Int) (xs ys : Chain) :
    chainRun ev a (xs ++ ys) = chainRun ev a xs >>= fun k => chainRun ev k ys := by
  induction xs generalizing a with
  | nil => rfl
  | cons x xs ih => simp only [List.cons_append, chainRun, ih, bind_assoc]

theorem exactRun_append (t : Term) (xs ys : Chain) :
    exactRun ev (t, xs ++ ys) = exactRun ev (t, xs) >>= fun k => chainRun ev k ys := by
  simp only [exactRun, chainRun_append, bind_assoc]

/-- A function that the operators of a chain pass on can be applied before the chain or after it. -/
theorem chainRun_map {g : Int → Int} {xs : Chain}
    (h : ∀ x ∈ xs, ∀ a b, x.1.exact (g a) b = (x.1.exact a b).map g) (a : Int) :
    chainRun ev (g a) xs = chainRun ev a xs >>= fun k => pure (g k) := by
  induction xs generalizing a with
  | nil => rfl
  | cons x xs ih =>
    have ih := ih fun y hy => h y (.tail _ hy)
    have hx : ∀ b, x.1.exactStep (g a) b = x.1.exactStep a b >>= fun k => pure (g k) := by
      intro b
      unfold ArithOp.exactStep
      rw [h x (.head _)]
      cases x.1.exact a b <;> rfl
    simp only [chainRun, hx, bind_assoc]
    congr 1
    funext n
    congr 1
    funext k
    exact ih k

/-- **The left operand moves**: to go on with the operands of a sum or product is to operate on its
value. -/
theorem chainRun_cons_of_moves {op : ArithOp} (ho : op = .add ∨ op = .mul) (a : Int) (t : Term)
    {xs : Chain} (h : ∀ x ∈ xs, op.movesInto x.1 = true) :
    chainRun ev a ((op, t) :: xs) = exactRun ev (t, xs) >>= fun b => op.exactStep a b := by
  rcases ho with rfl | rfl
  · have hx : ∀ x ∈ xs, ∀ b c, x.1.exact (a + b) c = (x.1.exact b c).map (a + ·) := by
      intro x hx b c
      have := h x hx
      generalize x.1 = o at this
      cases o <;> simp [ArithOp.movesInto] at this <;>
        simp only [ArithOp.exact, Option.map_some, Option.some.injEq] <;> omega
    simp only [chainRun, exactRun, bind_assoc]
    congr 1
    funext n
    exact chainRun_map ev hx n.toInt
  · have hx : ∀ x ∈ xs, ∀ b c, x.1.exact (a * b) c = (x.1.exact b c).map (a * ·) := by
      intro x hx b c
      have := h x hx
      generalize x.1 = o at this
      cases o <;> simp [ArithOp.movesInto] at this
      simp only [ArithOp.exact, Option.map_some, Int.mul_assoc]
    simp only [chainRun, exactRun, bind_assoc]
    congr 1
    funext n
    exact chainRun_map ev hx n.toInt

/-! ## Checked evaluation of the same operands -/

/-- The operands of a chain in the grouping of the term, with checked operations. -/
def spineRun (p : Nat) : Term → Run Int64
  | .paren _ inner => spineRun p inner
  | .arith span op left right =>
    if op.precedence = p then do
      let m ← spineRun p left
      let n ← (if op.enters right.flatten then spineRun p right else evalInt ev right)
      op.step m n
    else evalInt ev (.arith span op left right)
  | t => evalInt ev t

/-- Unless it overflows, a computation of words is one of integers. -/
def ExactAs (m : Run Int64) (e : Run Int) : Prop :=
  ∀ s, Escapes IsOverflow (m s) ∨ (m >>= fun n => pure n.toInt) s = e s

variable {ev}

theorem ExactAs.refl (m : Run Int64) : ExactAs m (m >>= fun n => pure n.toInt) :=
  fun _ => .inr rfl

theorem ExactAs.bind {m : Run Int64} {e : Run Int} {next : Int64 → Run Int64}
    {Next : Int → Run Int} (h : ExactAs m e) (hn : ∀ n, ExactAs (next n) (Next n.toInt)) :
    ExactAs (m >>= next) (e >>= Next) := by
  intro s
  rw [bind_assoc]
  rcases hm : m s with ⟨o, t⟩
  obtain ⟨x, t', he, hx⟩ | he := h s
  · exact .inl ⟨x, t', bind_of_failure he, hx⟩
  · cases o with
    | value n =>
      rw [bind_of_value hm] at he
      rw [bind_of_value hm, bind_of_value hm, bind_of_value he.symm]
      exact hn n t
    | failure x =>
      rw [bind_of_failure hm] at he
      rw [bind_of_failure hm, bind_of_failure hm, bind_of_failure he.symm]
      exact .inr rfl
    | outOfFuel =>
      rw [bind_of_outOfFuel hm] at he
      rw [bind_of_outOfFuel hm, bind_of_outOfFuel hm, bind_of_outOfFuel he.symm]
      exact .inr rfl

theorem ArithOp.step_exact (op : ArithOp) (m n : Int64) :
    ExactAs (op.step m n) (op.exactStep m.toInt n.toInt) := by
  intro s
  unfold step exactStep
  rw [apply_eq]
  cases op.exact m.toInt n.toInt with
  | none => exact .inr rfl
  | some k =>
    cases hk : Text.word? k with
    | none => exact .inl ⟨_, s, by simp only [hk]; rfl, op, m, n, rfl⟩
    | some w =>
      refine .inr ?_
      simp only [hk]
      show (Outcome.value w.toInt, s) = (Outcome.value k, s)
      rw [word?_eq_some hk]

/-- **Checked operations are exact** in any grouping, unless one overflows. -/
theorem spineRun_exact (p : Nat) (t : Term) : ExactAs (spineRun ev p t) (exactRun ev (t.chain p)) := by
  induction t with
  | paren span inner ih => exact ih
  | arith span op left right ihl ihr =>
    rw [spineRun, Term.chain]
    split
    · rename_i hp
      have hr : ExactAs (if op.enters right.flatten then spineRun ev p right else evalInt ev right)
          (if op.enters right.flatten then exactRun ev (right.chain p)
            else exactRun ev (right, [])) := by
        split
        · exact ihr
        · exact .refl _
      have e : exactRun ev ((left.chain p).1, (left.chain p).2 ++
          if op.enters right.flatten then (op, (right.chain p).1) :: (right.chain p).2
          else [(op, right)]) = exactRun ev (left.chain p) >>= fun a =>
            (if op.enters right.flatten then exactRun ev (right.chain p)
              else exactRun ev (right, [])) >>= fun b => op.exactStep a b := by
        rw [exactRun_append]
        congr 1
        funext a
        split
        · rename_i he
          refine chainRun_cons_of_moves ev ?_ a _ ?_
          · obtain ⟨⟨child, -, hm⟩, -⟩ := ArithOp.enters_iff.1 he
            cases op <;> cases child <;> simp_all [ArithOp.movesInto]
          · exact hp ▸ ArithOp.movesInto_of_enters he
        · simp only [chainRun, exactRun, bind_assoc, bind_pure, pure_bind]
      rw [e]
      exact ihl.bind fun m => hr.bind fun n => op.step_exact m n
    · exact .refl _
  | _ => exact .refl _

end

/-! ## Evaluation and chains -/

theorem evalInt_arith (fuel : Nat) (span : Span) (op : ArithOp) (left right : Term) :
    evalInt (Term.eval (fuel + 1)) (.arith span op left right) =
      evalInt (Term.eval fuel) left >>= fun m =>
        evalInt (Term.eval fuel) right >>= fun n => op.step m n := by
  unfold evalInt
  simp only [Term.eval, Term.evalWith, bind_assoc, evalInt]
  congr 1
  funext v
  congr 1
  funext m
  congr 1
  funext w
  congr 1
  funext n
  unfold ArithOp.step
  cases op.apply m n <;> rfl

/-- The value of an operation is an integer. -/
theorem eval_arith (fuel : Nat) (span : Span) (op : ArithOp) (left right : Term) :
    (Term.arith span op left right).eval (fuel + 1) =
      evalInt (Term.eval (fuel + 1)) (.arith span op left right) >>= fun n => pure (.int n) := by
  rw [evalInt_arith]
  simp only [Term.eval, Term.evalWith, bind_assoc]
  congr 1
  funext m
  congr 1
  funext n
  unfold ArithOp.step
  cases op.apply m n <;> rfl

/-- A computation that has another as its limit. -/
abbrev Nears (m : Run Int64) (M : Nat → Run Int64) : Prop :=
  Tracks id (fun _ => False) Eq m M

theorem Nears.refl (m : Run Int64) : Nears m fun _ => m := by
  intro s s' hs hm
  have hs : s = s' := by simpa using hs
  subst hs
  refine Tracks.settle (.const m s) ?_
  rcases hr : m s with ⟨o, t⟩
  cases o with
  | value n => exact .value rfl rfl
  | failure e => exact .failure rfl
  | outOfFuel => exact absurd (by rw [hr]) hm

theorem Nears.eq {m : Run Int64} {M : Nat → Run Int64} (h : Nears m M) {s : Session}
    (hm : (m s).1 ≠ .outOfFuel) : Settles M s (m s) := by
  obtain ⟨e, t, -, ⟨⟩⟩ | ⟨r, hr, ⟨e, t, -, ⟨⟩⟩ | ha⟩ := h s s rfl hm
  generalize m s = r' at *
  cases ha with
  | value hv hs => simp_all
  | failure hs => simp_all

/-- With the fuel of its operands an operation is its chain of operands. -/
theorem nears_spineRun_arith {p fuel more : Nat} (hle : fuel ≤ more) {span : Span} {op : ArithOp}
    {left right : Term} (hp : op.precedence = p)
    (hl : Nears (evalInt (Term.eval fuel) left) fun _ => spineRun (Term.eval more) p left)
    (hr : Nears (evalInt (Term.eval fuel) right) fun _ => spineRun (Term.eval more) p right) :
    Nears (evalInt (Term.eval (fuel + 1)) (.arith span op left right))
      fun _ => spineRun (Term.eval more) p (.arith span op left right) := by
  rw [evalInt_arith]
  unfold spineRun
  rw [if_pos hp]
  refine hl.bind fun m m' hm => Tracks.bind (V := Eq) ?_ fun n n' hn => ?_
  · split
    · exact hr
    · exact Tracks.evalInt (follows_mono hle) rfl
  · subst hm hn
    exact Nears.refl _

theorem nears_spineRun (p : Nat) {fuel more : Nat} (hle : fuel ≤ more) (t : Term) :
    Nears (evalInt (Term.eval fuel) t) fun _ => spineRun (Term.eval more) p t := by
  have other : Nears (evalInt (Term.eval fuel) t) fun _ => evalInt (Term.eval more) t :=
    Tracks.evalInt (follows_mono hle) rfl
  induction t generalizing fuel with
  | paren span inner ih =>
    cases fuel with
    | zero => exact .outOfFuel
    | succ fuel =>
      have hle : fuel ≤ more := Nat.le_of_succ_le hle
      exact ih hle (Tracks.evalInt (follows_mono hle) rfl)
  | arith span op left right ihl ihr =>
    by_cases hp : op.precedence = p
    · cases fuel with
      | zero => exact .outOfFuel
      | succ fuel =>
        have hle : fuel ≤ more := Nat.le_of_succ_le hle
        exact nears_spineRun_arith hle hp (ihl hle (Tracks.evalInt (follows_mono hle) rfl))
          (ihr hle (Tracks.evalInt (follows_mono hle) rfl))
    · unfold spineRun
      rwa [if_neg hp]
  | _ => exact other

/-- Every chain of operands is evaluated with enough fuel. -/
theorem nears_eval (p fuel : Nat) (t : Term) :
    Nears (spineRun (Term.eval fuel) p t) fun k => evalInt (Term.eval k) t := by
  have other : ∀ t, Nears (evalInt (Term.eval fuel) t) fun k => evalInt (Term.eval k) t :=
    fun t => Tracks.evalInt (follows_limit fuel) rfl
  induction t with
  | paren span inner ih => exact Tracks.shift ih
  | arith span op left right ihl ihr =>
    rw [spineRun]
    split
    · refine Tracks.shift ?_
      simp only [evalInt_arith]
      refine ihl.bind fun m m' hm => Tracks.bind (V := Eq) ?_ fun n n' hn => ?_
      · split
        · exact ihr
        · exact other right
      · subst hm hn
        exact Nears.refl _
    · exact other _
  | _ => exact other _

/-! ## Flattened forms -/

section

variable {tol : RuntimeError → Prop} {ev : Term → Run Value} {EV : Nat → Term → Run Value}

theorem Tracks.exactStep {f : Term → Term} (op : ArithOp) (a b : Int) :
    Tracks f tol Eq (op.exactStep a b) fun _ => op.exactStep a b := by
  unfold ArithOp.exactStep
  cases op.exact a b with
  | none => exact .fail rfl
  | some k => exact .ret rfl

theorem Tracks.chainRun (h : Follows Term.flatten tol ev EV) (a : Int) {xs ys : Chain}
    (e : xs.flatten = ys.flatten) :
    Tracks Term.flatten tol Eq (chainRun ev a xs) fun k => chainRun (EV k) a ys := by
  induction xs generalizing ys a with
  | nil =>
    cases ys with
    | nil => exact .ret rfl
    | cons y ys => cases e
  | cons x xs ih =>
    cases ys with
    | nil => cases e
    | cons y ys =>
      obtain ⟨op, t⟩ := x
      obtain ⟨op', u⟩ := y
      obtain ⟨e, es⟩ := List.cons.inj e
      obtain ⟨rfl, e⟩ := Prod.mk.inj e
      refine (Tracks.evalInt h e).bind fun m n hmn => ?_
      subst hmn
      refine (Tracks.exactStep op a m.toInt).bind fun k l hkl => ?_
      subst hkl
      exact ih k es

theorem Tracks.exactRun (h : Follows Term.flatten tol ev EV) (p : Nat) {t u : Term}
    (e : t.flatten = u.flatten) :
    Tracks Term.flatten tol Eq (exactRun ev (t.chain p)) fun k => exactRun (EV k) (u.chain p) := by
  obtain ⟨e₁, e₂⟩ := Term.chain_eq_of_flatten_eq p e
  refine (Tracks.evalInt h e₁).bind fun m n hmn => ?_
  subst hmn
  exact Tracks.chainRun h _ e₂

end

/-- The result of a computation of words as one of integers. -/
def exactly (r : Result Int64) : Result Int :=
  match r with
  | (.value n, s) => (.value n.toInt, s)
  | (.failure e, s) => (.failure e, s)
  | (.outOfFuel, s) => (.outOfFuel, s)

theorem bind_toInt (m : Run Int64) (s : Session) :
    (m >>= fun n => pure n.toInt) s = exactly (m s) := by
  rcases hm : m s with ⟨o, t⟩
  cases o with
  | value n => rw [bind_of_value hm]; rfl
  | failure e => rw [bind_of_failure hm]; rfl
  | outOfFuel => rw [bind_of_outOfFuel hm]; rfl

theorem finished_exactly {r : Result Int64} (h : r.1 ≠ .outOfFuel) :
    (exactly r).1 ≠ .outOfFuel := by
  obtain ⟨o, s⟩ := r
  cases o with
  | outOfFuel => exact absurd rfl h
  | _ => simp [exactly]

theorem finished_of_exactly {r : Result Int64} (h : (exactly r).1 ≠ .outOfFuel) :
    r.1 ≠ .outOfFuel := by
  rintro hr
  obtain ⟨o, s⟩ := r
  cases hr
  exact h rfl

theorem escapes_of_exactly {tol : RuntimeError → Prop} {r : Result Int64}
    (h : Escapes tol (exactly r)) : Escapes tol r := by
  obtain ⟨o, s⟩ := r
  obtain ⟨e, t, hr, ht⟩ := h
  cases o <;> cases hr
  exact ⟨e, s, rfl, ht⟩

theorem alike_of_exactly {f : Term → Term} {r r' : Result Int64}
    (h : Alike f Eq (exactly r) (exactly r')) : Alike f Eq r r' := by
  obtain ⟨o, s⟩ := r
  obtain ⟨o', s'⟩ := r'
  cases o <;> cases o' <;> cases h
  · exact .value (Int64.toInt_inj.1 ‹_›) ‹_›
  · exact .failure ‹_›

theorem exactly_of_spineRun {fuel p : Nat} {t : Term} {s : Session} {r : Result Int64}
    (h : spineRun (Term.eval fuel) p t s = r) :
    Escapes IsOverflow r ∨ exactly r = exactRun (Term.eval fuel) (t.chain p) s := by
  subst h
  rw [← bind_toInt]
  exact spineRun_exact p t s

/-- A chain that comes to a result is the value of the term that it was taken from, unless an
operation of that term overflows. -/
theorem settles_of_chain {p n : Nat} {u : Term} {s : Session} {r : Result Int}
    (hr : exactRun (Term.eval n) (u.chain p) s = r) (hf : r.1 ≠ .outOfFuel) :
    ∃ r', Settles (fun k => evalInt (Term.eval k) u) s r' ∧
      (Escapes IsOverflow r' ∨ exactly r' = r) := by
  have settles : ∀ h, Settles (fun k => evalInt (Term.eval k) u) s (spineRun (Term.eval n) p u s) :=
    fun h => (nears_eval p n u).eq h
  obtain hesc | hex := exactly_of_spineRun (Eq.refl (spineRun (Term.eval n) p u s))
  · obtain ⟨e, t, he, ht⟩ := hesc
    exact ⟨_, settles (by rw [he]; simp), .inl ⟨e, t, he, ht⟩⟩
  · rw [hr] at hex
    exact ⟨_, settles (finished_of_exactly (hex ▸ hf)), .inr hex⟩

/-- Operations with the same flattened form have the same value, unless one of them overflows. -/
theorem tracks_evalInt_arith {fuel : Nat}
    (ih : Follows Term.flatten IsOverflow (Term.eval fuel) fun k => Term.eval k)
    {span : Span} {op : ArithOp} {left right u : Term}
    (e : (Term.arith span op left right).flatten = u.flatten) :
    Tracks Term.flatten IsOverflow Eq (evalInt (Term.eval (fuel + 1)) (.arith span op left right))
      fun k => evalInt (Term.eval k) u := by
  intro s s' hs hm
  have near : Nears (evalInt (Term.eval (fuel + 1)) (.arith span op left right))
      fun _ => spineRun (Term.eval fuel) op.precedence (.arith span op left right) :=
    nears_spineRun_arith (Nat.le_refl fuel) rfl (nears_spineRun _ (Nat.le_refl fuel) left)
      (nears_spineRun _ (Nat.le_refl fuel) right)
  obtain ⟨n, hn⟩ := near.eq hm
  have hex := exactly_of_spineRun (hn n (Nat.le_refl n))
  generalize evalInt (Term.eval (fuel + 1)) (.arith span op left right) s = r at *
  obtain hesc | hex := hex
  · exact .inl hesc
  have run := Tracks.exactRun ih op.precedence e s s' hs (hex ▸ finished_exactly hm)
  rw [← hex] at run
  obtain hesc | ⟨r', ⟨n', hn'⟩, hr'⟩ := run
  · exact .inl (escapes_of_exactly hesc)
  · have hf : r'.1 ≠ .outOfFuel := by
      obtain ⟨e, t, rfl, -⟩ | ha := hr'
      · simp
      · exact ha.finished
    obtain ⟨w, hw, hesc | hwr⟩ := settles_of_chain (hn' n' (Nat.le_refl n')) hf
    · exact .inr ⟨w, hw, .inl hesc⟩
    · rw [← hwr] at hr'
      exact .inr ⟨w, hw, hr'.imp escapes_of_exactly alike_of_exactly⟩

theorem Term.mapParts_flatten {t : Term} (h : t.unparen = t) (ho : t.op? = none) :
    t.mapParts flatten = t.flatten := by
  cases t with
  | paren span inner => exact absurd h (inner.unparen_ne_paren span inner)
  | arith => cases ho
  | forLoop => rw [mapParts, flatten_forLoop]
  | _ => simp [mapParts, flatten]

theorem Term.op?_eq_of_flatten_eq {t u : Term} (e : t.flatten = u.flatten) (ht : t.unparen = t)
    (hu : u.unparen = u) (h : t.op? = none) : u.op? = none := by
  rw [Option.eq_none_iff_forall_ne_some] at h ⊢
  intro a ha
  obtain ⟨b, hb, -⟩ := exists_op?_flatten (hu.symm ▸ ha)
  obtain ⟨c, hc, -⟩ := exists_op?_of_flatten (e ▸ hb)
  exact h c (ht ▸ hc)

theorem Term.exists_arith {t : Term} {op : ArithOp} (h : t.op? = some op) :
    ∃ span left right, t = .arith span op left right := by
  cases t <;> cases h
  exact ⟨_, _, _, rfl⟩

/-- **Terms with the same flattened form have the same outcome**, unless an operation of one of them
overflows. -/
theorem follows_flatten (fuel : Nat) :
    Follows Term.flatten IsOverflow (Term.eval fuel) fun k => Term.eval k := by
  induction fuel with
  | zero => exact fun _ _ _ => .outOfFuel
  | succ fuel ih =>
    refine .of_unparen (fun _ _ => rfl) ih fun t u e ht hu => ?_
    cases ho : t.op? with
    | none =>
      have ho' := Term.op?_eq_of_flatten_eq e ht hu ho
      have e : t.mapParts Term.flatten = u.mapParts Term.flatten := by
        rw [Term.mapParts_flatten ht ho, Term.mapParts_flatten hu ho', e]
      exact Tracks.evalWith ih e ⟨fuel, fun _ hk => hk⟩
    | some op =>
      cases ho' : u.op? with
      | none => cases ho.symm.trans (Term.op?_eq_of_flatten_eq e.symm hu ht ho')
      | some op' =>
        obtain ⟨span, left, right, rfl⟩ := Term.exists_arith ho
        obtain ⟨span', left', right', rfl⟩ := Term.exists_arith ho'
        simp only [eval_arith]
        refine Tracks.bind (V := Eq) ?_ fun m n hmn => .ret (hmn ▸ rfl)
        exact (tracks_evalInt_arith ih e).succ

end Dynascope
