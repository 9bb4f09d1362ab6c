import Mathlib.Logic.Relation

/-! # Runs of a labelled transition system

    A system is an initial predicate and a step relation with labels.  The
    states a system reaches, the rule that lifts a one-step fact to whole runs,
    and the restriction of a system to the steps that meet a condition. -/

namespace RunInvariant

variable {σ ω : Type*}

/-- The states reached from an initial state by finitely many steps. -/
def Reach (init : σ → Prop) (step : σ → ω → σ → Prop) (s : σ) : Prop :=
  ∃ s₀, init s₀ ∧ Relation.ReflTransGen (fun a b => ∃ o, step a o b) s₀ s

/-- The steps of a system that meet a condition on the state before them. -/
def Guarded (guard : σ → ω → Prop) (step : σ → ω → σ → Prop) :
    σ → ω → σ → Prop :=
  fun s o s' => guard s o ∧ step s o s'

variable {init : σ → Prop} {step step' : σ → ω → σ → Prop} {s s' : σ} {o : ω}

/-- Every initial state is reached. -/
theorem Reach.start (h : init s) : Reach init step s :=
  ⟨s, h, Relation.ReflTransGen.refl⟩

/-- One more step. -/
theorem Reach.next (h : Reach init step s) (hs : step s o s') :
    Reach init step s' := by
  obtain ⟨s₀, h0, hrun⟩ := h
  exact ⟨s₀, h0, hrun.tail ⟨o, hs⟩⟩

/-- A list of operations, each of them a function of the state. -/
theorem Reach.foldl {f : σ → ω → σ} (hf : ∀ s o, step s o (f s o))
    (h : Reach init step s) (ops : List ω) : Reach init step (ops.foldl f s) := by
  induction ops generalizing s with
  | nil => exact h
  | cons o ops ih => exact ih (h.next (hf s o))

/-- A list of operations, each of which may be refused. -/
def runAll (next : σ → ω → Option σ) (s : σ) : List ω → Option σ
  | [] => some s
  | o :: ops => (next s o).bind fun s => runAll next s ops

theorem Reach.runAll {next : σ → ω → Option σ} {ops : List ω}
    (hnext : ∀ s o s', next s o = some s' → step s o s') (h : Reach init step s)
    (hrun : RunInvariant.runAll next s ops = some s') : Reach init step s' := by
  induction ops generalizing s with
  | nil =>
      cases hrun
      exact h
  | cons o ops ih =>
      obtain ⟨s₁, hstep, hrest⟩ := Option.bind_eq_some_iff.mp hrun
      exact ih (h.next (hnext s o s₁ hstep)) hrest

/-- The operations that meet a condition. -/
def nextIf (guard : σ → ω → Prop) [∀ s o, Decidable (guard s o)] (next : σ → ω → Option σ)
    (s : σ) (o : ω) : Option σ :=
  if guard s o then next s o else none

theorem nextIf_step {guard : σ → ω → Prop} [∀ s o, Decidable (guard s o)]
    {next : σ → ω → Option σ} (hnext : ∀ s o s', next s o = some s' → step s o s')
    (h : nextIf guard next s o = some s') : Guarded guard step s o s' := by
  rw [nextIf] at h
  split at h
  · rename_i hguard
    exact ⟨hguard, hnext s o s' h⟩
  · cases h

/-- The invariant rule: what holds initially and is kept by every step holds in
    every reached state. -/
theorem Reach.invariant {I : σ → Prop} (h0 : ∀ s, init s → I s)
    (hs : ∀ s o s', I s → step s o s' → I s') (h : Reach init step s) : I s := by
  obtain ⟨s₀, hi, hrun⟩ := h
  induction hrun with
  | refl => exact h0 s₀ hi
  | tail _ hlast ih =>
      obtain ⟨o, hstep⟩ := hlast
      exact hs _ o _ ih hstep

/-- Dropping a condition on the steps only adds runs. -/
theorem Reach.mono (hsub : ∀ s o s', step s o s' → step' s o s')
    (h : Reach init step s) : Reach init step' s := by
  obtain ⟨s₀, hi, hrun⟩ := h
  have hle : (fun a b => ∃ o, step a o b) ≤ fun a b => ∃ o, step' a o b := by
    rintro a b ⟨o, hab⟩
    exact ⟨o, hsub a o b hab⟩
  exact ⟨s₀, hi, Relation.ReflTransGen.mono hle _ _ hrun⟩

/-- A run of guarded steps is a run. -/
theorem Reach.of_guarded {guard : σ → ω → Prop}
    (h : Reach init (Guarded guard step) s) : Reach init step s :=
  h.mono fun _ _ _ hg => hg.2

/-! ## Runs with their operations -/

/-- The steps of a system under the listed operations. -/
inductive Run (step : σ → ω → σ → Prop) : σ → List ω → σ → Prop where
  | refl (s : σ) : Run step s [] s
  | head {s t u : σ} {o : ω} {ops : List ω} :
      step s o t → Run step t ops u → Run step s (o :: ops) u

theorem Run.append {t : σ} {ops ops' : List ω} (h : Run step s ops t)
    (h' : Run step t ops' s') : Run step s (ops ++ ops') s' := by
  induction h with
  | refl => exact h'
  | head hstep _ ih => exact Run.head hstep (ih h')

/-- What leads back to the same state may be repeated. -/
theorem Run.replicate {ops : List ω} (h : Run step s ops s) (m : Nat) :
    Run step s (List.replicate m ops).flatten s := by
  induction m with
  | zero => exact Run.refl s
  | succ m ih =>
      rw [List.replicate_succ, List.flatten_cons]
      exact h.append ih

theorem Run.invariant {I : σ → Prop} (hs : ∀ s o s', I s → step s o s' → I s') {ops : List ω}
    (hrun : Run step s ops s') (h : I s) : I s' := by
  induction hrun with
  | refl => exact h
  | head hstep _ ih => exact ih (hs _ _ _ h hstep)

/-- The staging rule: a run passes the stages whose calls it contains, in their order and
    with any other calls in between. -/
theorem Run.stage {κ : Type*} {c : ω → κ} {P : List κ → σ → Prop}
    (keep : ∀ l s o s', P l s → step s o s' → P l s')
    (pass : ∀ l s o s', P (c o :: l) s → step s o s' → P l s')
    {ops : List ω} {l : List κ} (hrun : Run step s ops s')
    (hl : l.Sublist (ops.map c)) (h : P l s) : P [] s' := by
  induction hrun generalizing l with
  | refl =>
      rw [List.map_nil, List.sublist_nil] at hl
      exact hl ▸ h
  | @head s t u o ops hstep _ ih =>
      rw [List.map_cons] at hl
      cases hl with
      | cons _ hl => exact ih hl (keep l s o t h hstep)
      | cons_cons _ hl => exact ih hl (pass _ s o t h hstep)

end RunInvariant
