import XtAsm.Fault

/-!
# Actions on a state

An action changes a state and yields a value.  It may break a precondition, and it may fail to come
to an end.  An action that repeats itself has a bound on its repetitions; one that exceeds its bound
has not come to an end.

* `Action`, with `element` and `slice` for the accesses that have a precondition;
* `exhausted`: what is left of an action at its bound;
* `Runs`: an action that comes to an end without breaking any.
-/

namespace XtAsm

/-- An action on a state.  `none` stands for an action that does not come to an end. -/
abbrev Action (σ : Type) : Type → Type := StateT σ (ExceptT Fault Option)

/-- What may break a precondition is part of an action. -/
instance {σ : Type} : MonadLift (Except Fault) (Action σ) where
  monadLift x := fun s => some (x.map fun a => (a, s))

/-- The bound on the repetitions of an action is used up before it has come to an end. -/
def exhausted {σ α : Type} : Action σ α := fun _ => none

/-- The element at an index, which has to lie within the list. -/
def element {α : Type} (as : List α) (i : Int) : Except Fault α :=
  if 0 ≤ i then
    match as[i.toNat]? with
    | some a => .ok a
    | none => .error .outOfRange
  else .error .outOfRange

/-- The elements between two bounds, which have to be in order and within the list. -/
def slice {α : Type} (as : List α) (start stop : Int) : Except Fault (List α) :=
  if 0 ≤ start ∧ start ≤ stop ∧ stop ≤ as.length then
    .ok ((as.drop start.toNat).take (stop - start).toNat)
  else .error .outOfRange

theorem element_of_getElem? {α : Type} {as : List α} {i : Nat} {a : α} (h : as[i]? = some a) :
    element as i = .ok a := by
  simp [element, h]

theorem element_append {α : Type} (as bs : List α) (a : α) {i : Int} (h : i = as.length) :
    element (as ++ a :: bs) i = .ok a := by
  subst h
  simp [element]

theorem slice_append {α : Type} (as bs cs : List α) {start stop : Int} (hs : start = as.length)
    (ht : stop = as.length + bs.length) : slice (as ++ (bs ++ cs)) start stop = .ok bs := by
  subst hs ht
  have within : 0 ≤ (as.length : Int) ∧ (as.length : Int) ≤ as.length + bs.length ∧
      (as.length : Int) + bs.length ≤ (as ++ (bs ++ cs)).length := by
    simp only [List.length_append]
    omega
  have count : ((as.length : Int) + bs.length - as.length).toNat = bs.length := by omega
  rw [slice, if_pos within, Int.toNat_natCast, List.drop_left, count, List.take_left]

/-- All elements from an index on. -/
theorem slice_rest {α : Type} (as bs : List α) {start : Int} (h : start = as.length) :
    slice (as ++ bs) start (as ++ bs).length = .ok bs := by
  have sliced := slice_append as bs [] h rfl
  rwa [List.append_nil, ← Int.natCast_add, ← List.length_append] at sliced

/-- All elements but the first one. -/
theorem slice_cons {α : Type} (a : α) (as : List α) :
    slice (a :: as) 1 (a :: as).length = .ok as :=
  slice_rest [a] as rfl

/-- Started in the first state, the action ends in the second one with the value, and meets all
preconditions on the way. -/
def Runs {σ α : Type} (x : Action σ α) (s : σ) (a : α) (s' : σ) : Prop := x s = some (.ok (a, s'))

section Runs

variable {σ α β : Type} {s s' s'' : σ} {a : α} {b : β}

theorem runs_pure (a : α) (s : σ) : Runs (pure a) s a s := rfl

theorem runs_get (s : σ) : Runs get s s s := rfl

theorem runs_set (h : s' = s'') (s : σ) : Runs (set s') s ⟨⟩ s'' := h ▸ rfl

theorem runs_modify {f : σ → σ} (h : f s = s') : Runs (modify f) s ⟨⟩ s' := h ▸ rfl

/-- A precondition that is met. -/
theorem runs_lift {x : Except Fault α} (h : x = .ok a) (s : σ) :
    Runs (MonadLift.monadLift x : Action σ α) s a s := by
  subst h
  rfl

/-- After an action, what follows it runs on its value and in its last state. -/
theorem Runs.bind_eq {x : Action σ α} (hx : Runs x s a s') (f : α → Action σ β) :
    (x >>= f) s = f a s' := by
  show (x s).bind _ = _
  rw [hx]
  rfl

/-- Actions in a row. -/
theorem Runs.bind {x : Action σ α} {f : α → Action σ β} (hx : Runs x s a s')
    (hf : Runs (f a) s' b s'') : Runs (x >>= f) s b s'' :=
  (hx.bind_eq f).trans hf

theorem Runs.map {x : Action σ α} (hx : Runs x s a s') (f : α → β) :
    Runs (f <$> x) s (f a) s' := by
  show (x s).bind _ = _
  rw [hx]
  rfl

end Runs

/-- An action on a part of the state. -/
def onPart {σ τ α : Type} (view : σ → τ) (update : σ → τ → σ) (x : Action τ α) : Action σ α :=
  fun s => (fun (a, t) => (a, update s t)) <$> x (view s)

/-- An action that may also end with a defect. -/
abbrev Attempt (ε σ : Type) : Type → Type := ExceptT ε (Action σ)

/-- Started in the first state, the attempt ends in the second one with a value or a defect, and
meets all preconditions on the way. -/
def Yields {ε σ α : Type} (x : Attempt ε σ α) (s : σ) (r : Except ε α) (s' : σ) : Prop :=
  Runs x.run s r s'

section Yields

variable {ε σ α β : Type} {s s' s'' : σ} {a : α} {e : ε} {r : Except ε β}

theorem yields_pure (a : α) (s : σ) : Yields (ε := ε) (pure a) s (.ok a) s := rfl

theorem yields_throw (e : ε) (s : σ) : Yields (α := α) (throw e) s (.error e) s := rfl

theorem yields_get (s : σ) : Yields (ε := ε) get s (.ok s) s := rfl

theorem yields_set (h : s' = s'') (s : σ) : Yields (ε := ε) (set s') s (.ok ⟨⟩) s'' := h ▸ rfl

theorem yields_modify {f : σ → σ} (h : f s = s') : Yields (ε := ε) (modify f) s (.ok ⟨⟩) s' :=
  h ▸ rfl

/-- A precondition that is met. -/
theorem yields_lift {x : Except Fault α} (h : x = .ok a) (s : σ) :
    Yields (liftM x : Attempt ε σ α) s (.ok a) s := by
  subst h
  rfl

/-- A judgement that reads and changes nothing. -/
theorem yields_judgement (x : Except ε α) (s : σ) : Yields (liftM x : Attempt ε σ α) s x s := by
  cases x <;> rfl

/-- An attempt comes to one end only. -/
theorem Yields.unique {x : Attempt ε σ β} {r' : Except ε β} (h : Yields x s r s')
    (h' : Yields x s r' s'') : r = r' ∧ s' = s'' := by
  have same := Option.some.inj (h.symm.trans h')
  exact Prod.mk.inj (Except.ok.inj same)

/-- Attempts in a row. -/
theorem Yields.bind {x : Attempt ε σ α} {f : α → Attempt ε σ β} (hx : Yields x s (.ok a) s')
    (hf : Yields (f a) s' r s'') : Yields (x >>= f) s r s'' := Runs.bind hx hf

/-- A defect ends what follows. -/
theorem Yields.bind_error {x : Attempt ε σ α} (hx : Yields x s (.error e) s')
    (f : α → Attempt ε σ β) : Yields (x >>= f) s (.error e) s' := Runs.bind hx (runs_pure _ _)

end Yields

end XtAsm
