/-!
# What computations yield

A computation with a state that may fail yields values of some kind if every value it can give, from
any state, is of that kind, and likewise for its failures. This passes through the ways computations
are put together.
-/

namespace Assay

variable {ε σ α β : Type} {P : α → Prop} {Q : β → Prop}

theorem run_bind (x : ExceptT ε (StateM σ) α) (f : α → ExceptT ε (StateM σ) β) (s : σ) :
    (x >>= f).run s = match x.run s with
      | (.ok a, after) => (f a).run after
      | (.error e, after) => (.error e, after) := by
  change (ExceptT.run x >>= ExceptT.bindCont f) s = _
  change (let r := x.run s; (ExceptT.bindCont f r.1) r.2) = _
  rcases x.run s with ⟨_ | _, _⟩ <;> rfl

/-- Every value that the computation gives satisfies `P`. -/
def Yields (x : ExceptT ε (StateM σ) α) (P : α → Prop) : Prop :=
  ∀ s a, (x.run s).1 = .ok a → P a

theorem yields_true (x : ExceptT ε (StateM σ) α) : Yields x fun _ => True :=
  fun _ _ _ => trivial

theorem yields_pure {a : α} (h : P a) : Yields (pure a : ExceptT ε (StateM σ) α) P := by
  intro s b hb
  cases hb
  exact h

theorem yields_throw (e : ε) : Yields (throw e : ExceptT ε (StateM σ) α) P := by
  intro s a h
  cases h

namespace Yields

variable {x : ExceptT ε (StateM σ) α}

theorem bind {f : α → ExceptT ε (StateM σ) β} (hx : Yields x P)
    (hf : ∀ a, P a → Yields (f a) Q) : Yields (x >>= f) Q := by
  intro s b hb
  rw [run_bind] at hb
  rcases hr : x.run s with ⟨e | a, after⟩ <;> rw [hr] at hb
  · cases hb
  · exact hf a (hx s a (by rw [hr])) after b hb

/-- A test that may fail goes before the rest. -/
theorem guard {c : Bool} {e : ε} (hx : Yields x P) :
    Yields (if c then do throw e; x else x) P := by
  split
  · exact (yields_true _).bind fun _ _ => hx
  · exact hx

/-- What follows only counts for the values that are yielded. -/
theorem bind_congr {f f' : α → ExceptT ε (StateM σ) β} (hx : Yields x P)
    (hf : ∀ a, P a → f a = f' a) : x >>= f = x >>= f' := by
  funext s
  change (x >>= f).run s = (x >>= f').run s
  rw [run_bind, run_bind]
  rcases hr : x.run s with ⟨e | a, after⟩
  · rfl
  · have ha : P a := hx s a (by rw [hr])
    simp only [hf a ha]

theorem imp {P' : α → Prop} (hx : Yields x P) (h : ∀ a, P a → P' a) : Yields x P' :=
  fun s a ha => h a (hx s a ha)

theorem and {P' : α → Prop} (hx : Yields x P) (hx' : Yields x P') :
    Yields x fun a => P a ∧ P' a :=
  fun s a ha => ⟨hx s a ha, hx' s a ha⟩

end Yields

/-- Every failure of the computation satisfies `E`. -/
def FailsWith (x : ExceptT ε (StateM σ) α) (E : ε → Prop) : Prop :=
  ∀ s e, (x.run s).1 = .error e → E e

variable {E : ε → Prop}

theorem failsWith_pure (a : α) : FailsWith (pure a : ExceptT ε (StateM σ) α) E := by
  intro s e h
  cases h

theorem failsWith_throw {e : ε} (h : E e) :
    FailsWith (throw e : ExceptT ε (StateM σ) α) E := by
  intro s e' he
  cases he
  exact h

namespace FailsWith

variable {x : ExceptT ε (StateM σ) α}

/-- What follows only counts for the values that are yielded. -/
theorem bind_yields {f : α → ExceptT ε (StateM σ) β} (hx : FailsWith x E) (hy : Yields x P)
    (hf : ∀ a, P a → FailsWith (f a) E) : FailsWith (x >>= f) E := by
  intro s e he
  rw [run_bind] at he
  rcases hr : x.run s with ⟨e' | a, after⟩ <;> rw [hr] at he
  · cases he
    exact hx s e (by rw [hr])
  · exact hf a (hy s a (by rw [hr])) after e he

theorem bind {f : α → ExceptT ε (StateM σ) β} (hx : FailsWith x E)
    (hf : ∀ a, FailsWith (f a) E) : FailsWith (x >>= f) E :=
  hx.bind_yields (yields_true x) fun a _ => hf a

/-- A test that may fail goes before the rest. -/
theorem guard {c : Bool} {e : ε} (he : E e) (hx : FailsWith x E) :
    FailsWith (if c then do throw e; x else x) E := by
  split
  · exact (failsWith_throw he).bind fun _ => hx
  · exact hx

end FailsWith

/-- The computation yields values that satisfy `P`, or fails with an `E`. -/
structure Ends (x : ExceptT ε (StateM σ) α) (P : α → Prop) (E : ε → Prop) : Prop where
  yields : Yields x P
  fails : FailsWith x E

theorem ends_pure {a : α} (h : P a) : Ends (pure a : ExceptT ε (StateM σ) α) P E :=
  ⟨yields_pure h, failsWith_pure a⟩

theorem ends_throw {e : ε} (h : E e) : Ends (throw e : ExceptT ε (StateM σ) α) P E :=
  ⟨yields_throw e, failsWith_throw h⟩

namespace Ends

variable {x : ExceptT ε (StateM σ) α}

theorem bind {f : α → ExceptT ε (StateM σ) β} (hx : Ends x P E)
    (hf : ∀ a, P a → Ends (f a) Q E) : Ends (x >>= f) Q E where
  yields := hx.yields.bind fun a ha => (hf a ha).yields
  fails := hx.fails.bind_yields hx.yields fun a ha => (hf a ha).fails

theorem imp {P' : α → Prop} {E' : ε → Prop} (hx : Ends x P E) (hP : ∀ a, P a → P' a)
    (hE : ∀ e, E e → E' e) : Ends x P' E' where
  yields := hx.yields.imp hP
  fails := fun s e he => hE e (hx.fails s e he)

/-- A test that may fail goes before the rest. -/
theorem guard {c : Bool} {e : ε} (he : E e) (hx : Ends x P E) :
    Ends (if c then do throw e; x else x) P E :=
  ⟨hx.yields.guard, hx.fails.guard he⟩

end Ends

end Assay
