import Mathlib.Init

/-! # Computations with a state and failures

    A call of a method changes the objects it reaches and may end with an
    exception; the changes made before the exception stay.  `Exec σ ε α` is that
    shape, and `Triple` its rules of pre- and postconditions, with one
    postcondition for the normal end and one for the failure. -/

namespace Execution

/-- A computation over the state `σ` that returns an `α` or fails with an `ε`;
    either way it leaves a state. -/
def Exec (σ ε α : Type) : Type := σ → Except ε α × σ

variable {σ ε α β : Type}

namespace Exec

/-- Return a value and leave the state alone. -/
protected def pure (a : α) : Exec σ ε α := fun s => (.ok a, s)

/-- Run one computation after the other; a failure ends both. -/
protected def bind (m : Exec σ ε α) (f : α → Exec σ ε β) : Exec σ ε β :=
  fun s => match m s with
    | (.ok a, s') => f a s'
    | (.error e, s') => (.error e, s')

instance : Monad (Exec σ ε) where
  pure := Exec.pure
  bind := Exec.bind

instance : MonadExceptOf ε (Exec σ ε) where
  throw e := fun s => (.error e, s)
  tryCatch m f := fun s => match m s with
    | (.ok a, s') => (.ok a, s')
    | (.error e, s') => f e s'

instance : MonadStateOf σ (Exec σ ε) where
  get := fun s => (.ok s, s)
  set s' := fun _ => (.ok (), s')
  modifyGet f := fun s => (.ok (f s).1, (f s).2)

/-- Fail unless the condition holds. -/
def require (c : Bool) (e : ε) : Exec σ ε Unit :=
  if c then pure () else throw e

/-- Run the computation only if the condition holds. -/
def onlyIf (c : Prop) [Decidable c] (m : Exec σ ε Unit) : Exec σ ε Unit :=
  if c then m else pure ()

/-- A result computed without the state. -/
def ofExcept : Except ε α → Exec σ ε α
  | .ok a => pure a
  | .error e => throw e

/-- Run the computation for every element, in list order. -/
def forEach (f : α → Exec σ ε Unit) : List α → Exec σ ε Unit
  | [] => pure ()
  | a :: rest => do f a; forEach f rest

/-- Run a computation on one part of a larger state. -/
def onPart {τ ε' : Type} (part : τ → σ) (put : σ → τ → τ) (fail : ε → ε') (m : Exec σ ε α) :
    Exec τ ε' α :=
  fun t => match m (part t) with
    | (.ok a, s) => (.ok a, put s t)
    | (.error e, s) => (.error (fail e), put s t)

end Exec

open Exec

/-! ## Running -/

@[simp] theorem pure_run (a : α) (s : σ) :
    (pure a : Exec σ ε α) s = (.ok a, s) := rfl

@[simp] theorem bind_run (m : Exec σ ε α) (f : α → Exec σ ε β) (s : σ) :
    (m >>= f) s = match m s with
      | (.ok a, s') => f a s'
      | (.error e, s') => (.error e, s') := rfl

@[simp] theorem throw_run (e : ε) (s : σ) :
    (throw e : Exec σ ε α) s = (.error e, s) := rfl

@[simp] theorem get_run (s : σ) : (get : Exec σ ε σ) s = (.ok s, s) := rfl

@[simp] theorem set_run (s s' : σ) : (set s' : Exec σ ε Unit) s = (.ok (), s') := rfl

@[simp] theorem modify_run (f : σ → σ) (s : σ) :
    (modify f : Exec σ ε Unit) s = (.ok (), f s) := rfl

@[simp] theorem modifyGet_run (f : σ → α × σ) (s : σ) :
    (modifyGet f : Exec σ ε α) s = (.ok (f s).1, (f s).2) := rfl

@[simp] theorem require_run (c : Bool) (e : ε) (s : σ) :
    (Exec.require c e : Exec σ ε Unit) s
      = if c then (.ok (), s) else (.error e, s) := by
  cases c <;> rfl

@[simp] theorem ofExcept_run (r : Except ε α) (s : σ) :
    (Exec.ofExcept r : Exec σ ε α) s = (r, s) := by
  cases r <;> rfl

@[simp] theorem forEach_nil (f : α → Exec σ ε Unit) (s : σ) :
    forEach f [] s = (.ok (), s) := rfl

@[simp] theorem forEach_cons (f : α → Exec σ ε Unit) (a : α) (rest : List α) :
    forEach f (a :: rest) = (do f a; forEach f rest) := rfl

/-- A sequence that ends normally has two parts that do. -/
theorem bind_ok {m : Exec σ ε α} {f : α → Exec σ ε β} {s s' : σ} {b : β}
    (h : (m >>= f) s = (.ok b, s')) : ∃ a t, m s = (.ok a, t) ∧ f a t = (.ok b, s') := by
  rw [bind_run] at h
  rcases hm : m s with ⟨r, t⟩
  rw [hm] at h
  cases r with
  | ok a => exact ⟨a, t, rfl, h⟩
  | error e => cases h

/-- A loop of assignments is a fold. -/
theorem forEach_modify (g : α → σ → σ) (l : List α) (s : σ) :
    (forEach (fun a => modify (g a)) l : Exec σ ε Unit) s
      = (.ok (), l.foldl (fun s a => g a s) s) := by
  induction l generalizing s with
  | nil => rfl
  | cons a l ih =>
      rw [forEach_cons, bind_run, modify_run]
      exact ih (g a s)

/-! ## Pre- and postconditions -/

/-- Started in `P`, the computation ends normally in `Q` or fails in `E`. -/
def Triple (P : σ → Prop) (m : Exec σ ε α) (Q : α → σ → Prop)
    (E : ε → σ → Prop) : Prop :=
  ∀ s, P s → match m s with
    | (.ok a, s') => Q a s'
    | (.error e, s') => E e s'

variable {P P' : σ → Prop} {Q Q' : α → σ → Prop} {R : β → σ → Prop}
  {E E' : ε → σ → Prop}

/-- Strengthen the precondition, weaken the postconditions. -/
theorem Triple.consequence {m : Exec σ ε α} (h : Triple P m Q E)
    (hP : ∀ s, P' s → P s) (hQ : ∀ a s, Q a s → Q' a s)
    (hE : ∀ e s, E e s → E' e s) : Triple P' m Q' E' := by
  intro s hs
  have := h s (hP s hs)
  rcases hm : m s with ⟨r, s'⟩
  rw [hm] at this
  cases r with
  | ok a => exact hQ a s' this
  | error e => exact hE e s' this

/-- What the postcondition says of a run that ends normally. -/
theorem Triple.of_ok {m : Exec σ ε α} (h : Triple P m Q E) {s s' : σ} {a : α} (hs : P s)
    (hrun : m s = (.ok a, s')) : Q a s' := by
  have h1 := h s hs
  rw [hrun] at h1
  exact h1

/-- Every computation ends in some state. -/
theorem Triple.trivial {m : Exec σ ε α} : Triple P m (fun _ _ => True) fun _ _ => True := by
  intro s _
  rcases m s with ⟨r, s'⟩
  cases r <;> exact True.intro

/-- Sequencing. -/
theorem Triple.bind {m : Exec σ ε α} {f : α → Exec σ ε β}
    (hm : Triple P m Q E) (hf : ∀ a, Triple (Q a) (f a) R E) :
    Triple P (m >>= f) R E := by
  intro s hs
  have h1 := hm s hs
  rw [bind_run]
  rcases hms : m s with ⟨r, s'⟩
  rw [hms] at h1
  cases r with
  | ok a => exact hf a s' h1
  | error e => exact h1

theorem Triple.pure {a : α} (h : ∀ s, P s → Q a s) :
    Triple P (pure a : Exec σ ε α) Q E :=
  fun s hs => h s hs

theorem Triple.throw {e : ε} (h : ∀ s, P s → E e s) :
    Triple P (throw e : Exec σ ε α) Q E :=
  fun s hs => h s hs

/-- Reading the state: the rest may use that it reads the current one. -/
theorem Triple.get_bind {f : σ → Exec σ ε β}
    (h : ∀ s₀, Triple (fun s => s = s₀ ∧ P s) (f s₀) R E) :
    Triple P (get >>= f) R E := by
  intro s hs
  exact h s s ⟨rfl, hs⟩

/-- Reading the state, if what is read does not matter. -/
theorem Triple.get_bind_any {f : σ → Exec σ ε β} (h : ∀ s, Triple P (f s) R E) :
    Triple P (get >>= f) R E :=
  fun s hs => h s s hs

/-- One start state at a time. -/
theorem Triple.at_state {m : Exec σ ε α} (h : ∀ s, P s → Triple (fun t => t = s) m Q E) :
    Triple P m Q E :=
  fun s hs => h s hs s rfl

/-- Reading a state that is known. -/
theorem Triple.get_bind_at {f : σ → Exec σ ε β} {s : σ}
    (h : Triple (fun t => t = s) (f s) R E) : Triple (fun t => t = s) (get >>= f) R E := by
  rintro _ rfl
  exact h _ rfl

theorem Triple.modify {g : σ → σ} {Q : Unit → σ → Prop}
    (h : ∀ s, P s → Q () (g s)) :
    Triple P (modify g : Exec σ ε Unit) Q E :=
  fun s hs => h s hs

/-- A condition that fails ends the computation. -/
theorem Triple.require {c : Bool} {e : ε} {Q : Unit → σ → Prop}
    (hok : c = true → ∀ s, P s → Q () s) (herr : c = false → ∀ s, P s → E e s) :
    Triple P (Exec.require c e : Exec σ ε Unit) Q E := by
  intro s hs
  cases hc : c with
  | true => exact hok hc s hs
  | false => exact herr hc s hs

/-- A result computed without the state. -/
theorem Triple.ofExcept {r : Except ε α} (hok : ∀ a, r = .ok a → ∀ s, P s → Q a s)
    (herr : ∀ e, r = .error e → ∀ s, P s → E e s) :
    Triple P (Exec.ofExcept r : Exec σ ε α) Q E := by
  intro s hs
  cases hr : r with
  | ok a => exact hok a hr s hs
  | error e => exact herr e hr s hs

theorem Triple.ite {c : Prop} [Decidable c] {m n : Exec σ ε α}
    (hm : c → Triple P m Q E) (hn : ¬c → Triple P n Q E) :
    Triple P (if c then m else n) Q E := by
  by_cases hc : c
  · rw [if_pos hc]; exact hm hc
  · rw [if_neg hc]; exact hn hc

theorem Triple.onlyIf {c : Prop} [Decidable c] {m : Exec σ ε Unit} {Q : Unit → σ → Prop}
    (hm : c → Triple P m Q E) (hn : ¬c → ∀ s, P s → Q () s) :
    Triple P (Exec.onlyIf c m) Q E :=
  Triple.ite hm fun hc => Triple.pure (hn hc)

/-- A computation on one part keeps what is known of the rest. -/
theorem Triple.onPart {τ ε' : Type} {part : τ → σ} {put : σ → τ → τ} {fail : ε → ε'}
    {m : Exec σ ε α} {P : τ → Prop} {Q : α → τ → Prop} {E : ε' → τ → Prop}
    (h : ∀ t, P t → Triple (fun s => s = part t) m (fun a s => Q a (put s t))
      (fun e s => E (fail e) (put s t))) : Triple P (Exec.onPart part put fail m) Q E := by
  intro t ht
  have h1 := h t ht (part t) rfl
  rw [Exec.onPart]
  rcases hm : m (part t) with ⟨r, s⟩
  rw [hm] at h1
  cases r with
  | ok a => exact h1
  | error e => exact h1

/-- A handler runs in the state the failure left. -/
theorem Triple.tryCatch {m : Exec σ ε α} {f : ε → Exec σ ε α} {F : ε → σ → Prop}
    (hm : Triple P m Q F) (hf : ∀ e, Triple (F e) (f e) Q E) :
    Triple P (tryCatch m f) Q E := by
  intro s hs
  have h1 := hm s hs
  show match (match m s with
    | (.ok a, s') => (.ok a, s')
    | (.error e, s') => f e s' : Except ε α × σ) with
    | (.ok a, s') => Q a s'
    | (.error e, s') => E e s'
  rcases hms : m s with ⟨r, s'⟩
  rw [hms] at h1
  cases r with
  | ok a => exact h1
  | error e => exact hf e s' h1

/-- A loop keeps what every round keeps. -/
theorem Triple.forEach {I : σ → Prop} {f : α → Exec σ ε Unit} {l : List α}
    (h : ∀ a ∈ l, Triple I (f a) (fun _ => I) E) :
    Triple I (forEach f l) (fun _ => I) E := by
  induction l with
  | nil => exact Triple.pure fun _ hs => hs
  | cons a l ih =>
      refine Triple.bind (h a (List.mem_cons_self ..)) fun _ => ?_
      exact ih fun b hb => h b (List.mem_cons_of_mem a hb)

/-! ## Invariants of computations -/

/-- The state a computation leaves, whether it ended normally or failed. -/
def final (m : Exec σ ε α) (s : σ) : σ := (m s).2

/-- A computation keeps `I` when `I` holds after it, whatever its result. -/
def Keeps (I : σ → Prop) (m : Exec σ ε α) : Prop := ∀ s, I s → I (final m s)

variable {I : σ → Prop}

/-- A postcondition that both ends share holds of the state that is left. -/
theorem Triple.final {m : Exec σ ε α} (h : Triple P m (fun _ => I) (fun _ => I))
    {s : σ} (hs : P s) : I (final m s) := by
  have h1 := h s hs
  show I (m s).2
  rcases hms : m s with ⟨r, s'⟩
  rw [hms] at h1
  cases r with
  | ok a => exact h1
  | error e => exact h1

theorem Keeps.of_triple {m : Exec σ ε α}
    (h : Triple I m (fun _ => I) (fun _ => I)) : Keeps I m :=
  fun _ hs => h.final hs

theorem Keeps.triple {m : Exec σ ε α} (h : Keeps I m) :
    Triple I m (fun _ => I) (fun _ => I) := by
  intro s hs
  have h1 : I (m s).2 := h s hs
  rcases hms : m s with ⟨r, s'⟩
  rw [hms] at h1
  cases r with
  | ok a => exact h1
  | error e => exact h1

/-- What a computation keeps may be added to its conditions. -/
theorem Triple.and_keeps {m : Exec σ ε α} (h : Triple P m Q E) (hk : Keeps I m) :
    Triple (fun s => P s ∧ I s) m (fun a s => Q a s ∧ I s) (fun e s => E e s ∧ I s) := by
  intro s hs
  have h1 := h s hs.1
  have h2 : I (m s).2 := hk s hs.2
  rcases hms : m s with ⟨r, s'⟩
  rw [hms] at h1 h2
  cases r with
  | ok a => exact ⟨h1, h2⟩
  | error e => exact ⟨h1, h2⟩

/-- After a part that keeps `I`, the rest starts in `I`. -/
theorem Keeps.bind_triple {m : Exec σ ε α} {f : α → Exec σ ε β} (hm : Keeps I m)
    (hE : ∀ e s, I s → E e s) (hf : ∀ a, Triple I (f a) R E) : Triple I (m >>= f) R E :=
  Triple.bind (hm.triple.consequence (fun _ h => h) (fun _ _ h => h) hE) hf

theorem Keeps.pure (a : α) : Keeps I (pure a : Exec σ ε α) := fun _ hs => hs

theorem Keeps.throw (e : ε) : Keeps I (throw e : Exec σ ε α) := fun _ hs => hs

theorem Keeps.require (c : Bool) (e : ε) : Keeps I (Exec.require c e : Exec σ ε Unit) := by
  cases c with
  | true => exact Keeps.pure ()
  | false => exact Keeps.throw e

theorem Keeps.ofExcept (r : Except ε α) : Keeps I (Exec.ofExcept r : Exec σ ε α) := by
  cases r with
  | ok a => exact Keeps.pure a
  | error e => exact Keeps.throw e

theorem Keeps.bind {m : Exec σ ε α} {f : α → Exec σ ε β} (hm : Keeps I m)
    (hf : ∀ a, Keeps I (f a)) : Keeps I (m >>= f) :=
  Keeps.of_triple (hm.triple.bind fun a => (hf a).triple)

/-- Reading the state: the rest may use that the invariant holds of what it
    reads. -/
theorem Keeps.get_bind {f : σ → Exec σ ε β}
    (hf : ∀ s, I s → I (final (f s) s)) : Keeps I (get >>= f) :=
  fun s hs => hf s hs

/-- Reading the state, if what is read does not matter. -/
theorem Keeps.get_bind_any {f : σ → Exec σ ε β} (hf : ∀ s, Keeps I (f s)) :
    Keeps I (get >>= f) :=
  fun s hs => hf s s hs

theorem Keeps.modify {g : σ → σ} (h : ∀ s, I s → I (g s)) :
    Keeps I (modify g : Exec σ ε Unit) := fun s hs => h s hs

theorem Keeps.modifyGet {g : σ → α × σ} (h : ∀ s, I s → I (g s).2) :
    Keeps I (modifyGet g : Exec σ ε α) := fun s hs => h s hs

theorem Keeps.ite {c : Prop} [Decidable c] {m n : Exec σ ε α}
    (hm : c → Keeps I m) (hn : ¬c → Keeps I n) : Keeps I (if c then m else n) := by
  by_cases hc : c
  · rw [if_pos hc]; exact hm hc
  · rw [if_neg hc]; exact hn hc

theorem Keeps.onlyIf {c : Prop} [Decidable c] {m : Exec σ ε Unit} (hm : c → Keeps I m) :
    Keeps I (Exec.onlyIf c m) :=
  Keeps.ite hm fun _ => Keeps.pure ()

theorem Keeps.tryCatch {m : Exec σ ε α} {f : ε → Exec σ ε α} (hm : Keeps I m)
    (hf : ∀ e, Keeps I (f e)) : Keeps I (tryCatch m f) :=
  Keeps.of_triple (hm.triple.tryCatch fun e => (hf e).triple)

theorem Keeps.forEach {f : α → Exec σ ε Unit} {l : List α}
    (h : ∀ a ∈ l, Keeps I (f a)) : Keeps I (forEach f l) :=
  Keeps.of_triple (Triple.forEach fun a ha => (h a ha).triple)

end Execution
