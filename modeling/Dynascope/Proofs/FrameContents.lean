import Dynascope.Proofs.ScopeLaws
import Dynascope.Proofs.UnmentionedNames

/-! # What frames bind

A frame is determined by what it binds its names to: `Frame.ext_get?`. So its bindings can be listed
in any order, and putting them in the order of their names gives them as the frame keeps them:
`Frame.Listing.sortBindings_eq`. A scope stack is determined by its columns, one for each name, and
what is done to a name changes no column but its own. So the order in which different names are
bound, within the same frames, does not matter: `Scope.run_eq_of_filter_eq`.
-/

set_option autoImplicit false

namespace Dynascope

/-! ## Bindings in the order of their names -/

section

variable {α : Type} {bs cs : List (String × α)}

/-- Bindings in the order of their names, no two of one name, are determined by their members. -/
theorem eq_of_sorted (hb : bs.Pairwise fun a b => a.1 < b.1)
    (hc : cs.Pairwise fun a b => a.1 < b.1) (h : ∀ b, b ∈ bs ↔ b ∈ cs) : bs = cs := by
  have nodup {ds : List (String × α)} (hd : ds.Pairwise fun a b => a.1 < b.1) : ds.Nodup :=
    hd.imp fun hlt => ne_of_apply_ne Prod.fst (ne_of_lt hlt)
  have hperm : bs.Perm cs := (List.perm_ext_iff_of_nodup (nodup hb) (nodup hc)).2 h
  exact hperm.eq_of_pairwise (fun _ _ _ _ hlt hgt => absurd hgt (String.lt_asymm hlt)) hb hc

theorem findBinding?_of_mem {x : String} {v : α} (hb : bs.Pairwise fun a b => a.1 < b.1)
    (h : (x, v) ∈ bs) : findBinding? x bs = some v := by
  induction bs with
  | nil => cases h
  | cons b rest ih =>
    obtain ⟨head, tail⟩ := List.pairwise_cons.1 hb
    rw [findBinding?]
    rcases List.mem_cons.1 h with rfl | h
    · rw [if_pos rfl]
    · have hlt : b.1 < x := head _ h
      rw [if_neg (ne_of_gt hlt), ih tail h]

end

namespace Frame

variable {α : Type} {f g : Frame α}

theorem mem_bindings_iff {x : String} {v : α} : (x, v) ∈ f.bindings ↔ f.get? x = some v :=
  ⟨findBinding?_of_mem f.sorted, mem_of_findBinding?⟩

/-- A frame is determined by what it binds its names to. -/
theorem ext_get? (h : ∀ x, f.get? x = g.get? x) : f = g := by
  refine ext_bindings (eq_of_sorted f.sorted g.sorted fun ⟨x, v⟩ => ?_)
  rw [mem_bindings_iff, mem_bindings_iff, h x]

/-! ## Bindings in any order -/

/-- The bindings of a frame, each of them once, in whatever order. -/
structure Listing (f : Frame α) (entries : List (String × α)) : Prop where
  nodup : (entries.map (·.1)).Nodup
  mem_iff : ∀ x v, (x, v) ∈ entries ↔ f.get? x = some v

end Frame

/-- Bindings put in the order of their names. -/
def sortBindings {α : Type} (entries : List (String × α)) : List (String × α) :=
  entries.mergeSort fun a b => decide (a.1 ≤ b.1)

theorem sortBindings_sorted {α : Type} {entries : List (String × α)}
    (h : (entries.map (·.1)).Nodup) : (sortBindings entries).Pairwise fun a b => a.1 < b.1 := by
  have hle : (sortBindings entries).Pairwise fun a b => a.1 ≤ b.1 := by
    refine (List.pairwise_mergeSort (fun a b c hab hbc => ?_) (fun a b => ?_) entries).imp
      of_decide_eq_true
    · exact decide_eq_true (String.le_trans (of_decide_eq_true hab) (of_decide_eq_true hbc))
    · simpa using String.le_total a.1 b.1
  have hne : (sortBindings entries).Pairwise fun a b => a.1 ≠ b.1 :=
    List.pairwise_map.1 (((List.mergeSort_perm entries _).map _).nodup_iff.2 h)
  exact (hle.and hne).imp fun ⟨hle, hne⟩ =>
    String.not_le.1 fun hge => hne (String.le_antisymm hle hge)

/-- In whatever order the bindings of a frame are listed, in the order of their names they are as
the frame keeps them. -/
theorem Frame.Listing.sortBindings_eq {α : Type} {f : Frame α} {entries : List (String × α)}
    (h : f.Listing entries) : sortBindings entries = f.bindings := by
  refine eq_of_sorted (sortBindings_sorted h.nodup) f.sorted fun ⟨x, v⟩ => ?_
  rw [Frame.mem_bindings_iff, ← h.mem_iff]
  exact List.mem_mergeSort

/-! ## Columns -/

theorem isSome_find_column (x : String) (fs : List (Frame Value)) :
    (fs.findSome? (·.get? x)).isSome = ((column x fs).findSome? id).isSome := by
  rw [column, List.findSome?_map]
  rfl

theorem column_insert_self (x : String) (v : Value) (f : Frame Value) (fs : List (Frame Value)) :
    column x (f.insert x v :: fs) = some v :: column x fs := by
  rw [column, List.map_cons, Frame.get?_insert, if_pos rfl]
  rfl

/-- To what a name is bound again is a matter of its column. -/
theorem column_rebind_congr {x : String} {fs gs : List (Frame Value)}
    (h : column x fs = column x gs) (v : Value) :
    column x (rebind x v fs) = column x (rebind x v gs) := by
  induction fs generalizing gs with
  | nil =>
    cases gs with
    | nil => rfl
    | cons g gs => cases h
  | cons f fs ih =>
    cases gs with
    | nil => cases h
    | cons g gs =>
      obtain ⟨hhead, htail⟩ : f.get? x = g.get? x ∧ column x fs = column x gs := List.cons.inj h
      have hc : f.contains x = g.contains x := congrArg Option.isSome hhead
      rw [rebind, rebind, hc]
      split
      · rw [column_insert_self, column_insert_self, htail]
      · show f.get? x :: column x (rebind x v fs) = g.get? x :: column x (rebind x v gs)
        rw [hhead, ih htail]

namespace Scope

variable {s t : Scope} {x : String}

/-- What the frames of a scope stack bind a name to. -/
def column (x : String) (s : Scope) : List (Option Value) :=
  Dynascope.column x s.frames

theorem frames_inj : s.frames = t.frames ↔ s = t :=
  ⟨fun h => by cases s; cases t; cases h; rfl, congrArg frames⟩

/-- A scope stack is determined by its columns. -/
theorem ext_column (h : ∀ x, s.column x = t.column x) : s = t := by
  refine frames_inj.1 (List.ext_getElem? fun i => ?_)
  have hi (x : String) : s.frames[i]?.map (·.get? x) = t.frames[i]?.map (·.get? x) := by
    simpa [column, Dynascope.column] using congrArg (·[i]?) (h x)
  cases hs : s.frames[i]? with
  | none =>
    cases ht : t.frames[i]? with
    | none => rfl
    | some g => simpa [hs, ht] using hi ""
  | some f =>
    cases ht : t.frames[i]? with
    | none => simpa [hs, ht] using hi ""
    | some g =>
      have he : f = g := Frame.ext_get? fun x => by simpa [hs, ht] using hi x
      rw [he]

/-! ## Steps that have to do with a name -/

/-- The steps that bind a name, and those that open or close a frame. -/
def Step.concerns (x : String) : Step → Bool
  | push | pop => true
  | define y _ | assign y _ => y = x
  | lookup _ => false

/-- A step that has nothing to do with a name leaves its column alone. -/
theorem Step.column_apply_of_not_concerns {step : Step} (h : step.concerns x = false) (s : Scope) :
    ∃ t, step.apply s = some t ∧ t.column x = s.column x := by
  cases step with
  | push => cases h
  | pop => cases h
  | lookup y => exact ⟨s, rfl, rfl⟩
  | define y v =>
    have hne : y ≠ x := of_decide_eq_false h
    exact ⟨_, rfl, column_insert hne v s.inner s.outer⟩
  | assign y v =>
    have hne : y ≠ x := of_decide_eq_false h
    refine ⟨_, rfl, ?_⟩
    rw [column, frames_assign]
    split
    · exact column_rebind hne v s.frames
    · exact column_insert hne v s.inner s.outer

/-- A step that has to do with a name makes of its column what depends on the column only. -/
theorem Step.column_apply_congr {step : Step} (h : step.concerns x = true)
    (hc : s.column x = t.column x) :
    (step.apply s).map (column x) = (step.apply t).map (column x) := by
  have ho : Dynascope.column x s.outer = Dynascope.column x t.outer := (List.cons.inj hc).2
  cases step with
  | lookup y => cases h
  | push => exact congrArg (fun c => some (none :: c)) hc
  | pop =>
    obtain ⟨inner, _ | ⟨f, fs⟩⟩ := s <;> obtain ⟨inner', _ | ⟨g, gs⟩⟩ := t
    · rfl
    · cases ho
    · cases ho
    · exact congrArg some ho
  | define y v =>
    have e : y = x := of_decide_eq_true h
    subst e
    refine congrArg some ?_
    show Dynascope.column y (s.inner.insert y v :: s.outer) =
      Dynascope.column y (t.inner.insert y v :: t.outer)
    rw [column_insert_self, column_insert_self, ho]
  | assign y v =>
    have e : y = x := of_decide_eq_true h
    subst e
    have hbound : (s.get? y).isSome = (t.get? y).isSome := by
      rw [get?_eq, get?_eq, isSome_find_column, isSome_find_column]
      exact congrArg (fun c => (List.findSome? id c).isSome) hc
    refine congrArg some ?_
    rw [column, column, frames_assign, frames_assign, hbound]
    split
    · exact column_rebind_congr hc v
    · rw [column_insert_self, column_insert_self, ho]

/-! ## Runs -/

theorem column_run_congr {steps : List Step} (h : ∀ step ∈ steps, step.concerns x = true)
    (hc : s.column x = t.column x) :
    (s.run steps).map (column x) = (t.run steps).map (column x) := by
  induction steps generalizing s t with
  | nil => exact congrArg some hc
  | cons step steps ih =>
    obtain ⟨hstep, hsteps⟩ := List.forall_mem_cons.1 h
    have happly := step.column_apply_congr hstep hc
    rw [run, run]
    cases hs : step.apply s with
    | none =>
      cases ht : step.apply t with
      | none => rfl
      | some t' => simp [hs, ht] at happly
    | some s' =>
      cases ht : step.apply t with
      | none => simp [hs, ht] at happly
      | some t' =>
        rw [hs, ht] at happly
        exact ih hsteps (Option.some.inj happly)

/-- Only the steps that have to do with a name matter for its column. -/
theorem column_run_filter (x : String) (s : Scope) (steps : List Step) :
    (s.run steps).map (column x) = (s.run (steps.filter (Step.concerns x))).map (column x) := by
  induction steps generalizing s with
  | nil => rfl
  | cons step steps ih =>
    cases hc : step.concerns x with
    | true =>
      rw [List.filter_cons_of_pos hc, run, run]
      cases step.apply s with
      | none => rfl
      | some t => exact ih t
    | false =>
      obtain ⟨t, ht, hcol⟩ := step.column_apply_of_not_concerns hc s
      rw [List.filter_cons_of_neg (by simp [hc]), run, ht, Option.bind_some, ih t]
      exact column_run_congr (fun _ h => (List.mem_filter.1 h).2) hcol

/-- **The order of steps on different names does not matter.** Steps that do the same to every name,
in the same order and in the same frames, come to the same scope stack. -/
theorem run_eq_of_filter_eq {xs ys : List Step}
    (h : ∀ x, xs.filter (Step.concerns x) = ys.filter (Step.concerns x)) (s : Scope) :
    s.run xs = s.run ys := by
  have hcol (x : String) : (s.run xs).map (column x) = (s.run ys).map (column x) := by
    rw [column_run_filter, h x, ← column_run_filter]
  cases hs : s.run xs with
  | none =>
    cases ht : s.run ys with
    | none => rfl
    | some t => simpa [hs, ht] using hcol ""
  | some s' =>
    cases ht : s.run ys with
    | none => simpa [hs, ht] using hcol ""
    | some t =>
      have he : s' = t := ext_column fun x => by simpa [hs, ht] using hcol x
      rw [he]

end Scope

end Dynascope
