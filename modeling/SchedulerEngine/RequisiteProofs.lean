import Mathlib.Data.List.Nodup
import Mathlib.Logic.Function.Basic

/-! # The register of requisites

    A `Dependant` has requisites: paths of other objects, in sets by subsystem.  The
    `Dependencies` of the subsystem know in turn who has asked for a path.  The
    registration is kept on both sides. -/

set_option linter.unusedSectionVars false

namespace Requisite

variable {D S : Type} [DecidableEq D] [DecidableEq S]

/-- `Requisite_path`. -/
structure RequisitePath (S : Type) where
  subsystem : S
  path : String
deriving DecidableEq

/-- What is fixed: how the subsystems normalize paths, and which dependants are a
    `File_based` with a path of their own. -/
structure Scheduler (D S : Type) where
  normalizedPath : S → String → String
  normalizedPath_idem : ∀ s p, normalizedPath s (normalizedPath s p) = normalizedPath s p
  /-- `subsystem()` and `normalized_path()` of a `File_based`. -/
  fileBased : D → Option (RequisitePath S)

/-- The requisite with its normalized path. -/
def Scheduler.normalized (c : Scheduler D S) (r : RequisitePath S) : RequisitePath S :=
  ⟨r.subsystem, c.normalizedPath r.subsystem r.path⟩

@[simp] theorem Scheduler.normalized_idem (c : Scheduler D S) (r : RequisitePath S) :
    c.normalized (c.normalized r) = c.normalized r := by
  rw [normalized, normalized, c.normalizedPath_idem]

structure Registry (D S : Type) where
  /-- `_requisite_sets`, of every dependant. -/
  requisiteSets : D → List (RequisitePath S)
  /-- `_path_requestors_map`, of every subsystem, in the order of the hash set. -/
  requestors : RequisitePath S → List D
  /-- `_accompanying_dependants`. -/
  accompanying : D → List D

namespace Registry

/-- `Dependencies::add_requisite`.  The hash set may arrange its elements anew. -/
def registerRequestor (c : Scheduler D S) (d : D) (order : List D) (r : RequisitePath S)
    (g : Registry D S) : Registry D S :=
  let key := c.normalized r
  { g with
    requestors :=
      Function.update g.requestors key
        (if d ∈ g.requestors key then g.requestors key else order) }

/-- `Dependencies::remove_requisite`. -/
def unregisterRequestor (c : Scheduler D S) (d : D) (r : RequisitePath S)
    (g : Registry D S) : Registry D S :=
  let key := c.normalized r
  { g with requestors := Function.update g.requestors key ((g.requestors key).erase d) }

/-- `add_requisite`. -/
def addRequisite (c : Scheduler D S) (d : D) (order : List D) (r : RequisitePath S)
    (g : Registry D S) : Except String (Registry D S) :=
  if (c.fileBased d).any fun own => own = c.normalized r then .error "SCHEDULER-486"
  else .ok (registerRequestor c d order r
    { g with requisiteSets :=
        Function.update g.requisiteSets d ((g.requisiteSets d).insert (c.normalized r)) })

/-- `remove_requisite`. -/
def removeRequisite (c : Scheduler D S) (d : D) (r : RequisitePath S)
    (g : Registry D S) : Registry D S :=
  unregisterRequestor c d r
    { g with requisiteSets :=
        Function.update g.requisiteSets d ((g.requisiteSets d).erase (c.normalized r)) }

/-- `remove_requisites`. -/
def removeRequisites (c : Scheduler D S) (d : D) (g : Registry D S) : Registry D S :=
  (g.requisiteSets d).foldl (fun g r => unregisterRequestor c d r g) g

/-- `add_accompanying_dependant`. -/
def addAccompanyingDependant (d accompanying : D) (g : Registry D S) : Registry D S :=
  { g with accompanying :=
      Function.update g.accompanying d ((g.accompanying d).insert accompanying) }

/-- `requisite_is_registered`. -/
def requisiteIsRegistered (c : Scheduler D S) (d : D) (r : RequisitePath S)
    (g : Registry D S) : Bool :=
  (g.requisiteSets d).contains (c.normalized r)

/-- A dependant is destructed. -/
def destruct (c : Scheduler D S) (d : D) (g : Registry D S) : Registry D S :=
  let g' := g.removeRequisites c d
  { g' with requisiteSets := Function.update g'.requisiteSets d [] }

end Registry

/-! ## Both sides agree -/

/-- A dependant is registered under a path if and only if the path is in its sets. -/
structure WellFormed (c : Scheduler D S) (g : Registry D S) : Prop where
  registered_iff : ∀ d r, d ∈ g.requestors r ↔ r ∈ g.requisiteSets d
  nodup_requestors : ∀ r, (g.requestors r).Nodup
  nodup_sets : ∀ d, (g.requisiteSets d).Nodup
  normalized : ∀ d, ∀ r ∈ g.requisiteSets d, c.normalized r = r

variable {c : Scheduler D S} {g g' : Registry D S} {d e : D} {r q : RequisitePath S}
  {order : List D}

theorem registerRequestor_of_ne (h : q ≠ c.normalized r) :
    (g.registerRequestor c d order r).requestors q = g.requestors q :=
  Function.update_of_ne h _ _

theorem registerRequestor_self :
    (g.registerRequestor c d order r).requestors (c.normalized r) =
      if d ∈ g.requestors (c.normalized r) then g.requestors (c.normalized r) else order :=
  Function.update_self _ _ _

theorem unregisterRequestor_of_ne (h : q ≠ c.normalized r) :
    (g.unregisterRequestor c d r).requestors q = g.requestors q :=
  Function.update_of_ne h _ _

theorem unregisterRequestor_self :
    (g.unregisterRequestor c d r).requestors (c.normalized r) =
      (g.requestors (c.normalized r)).erase d :=
  Function.update_self _ _ _

/-- The hash set has one more element. -/
theorem mem_registerRequestor
    (horder : d ∉ g.requestors (c.normalized r) →
      order.Perm (d :: g.requestors (c.normalized r))) :
    e ∈ (g.registerRequestor c d order r).requestors q ↔
      (e = d ∧ q = c.normalized r) ∨ e ∈ g.requestors q := by
  by_cases hq : q = c.normalized r
  · subst hq
    rw [registerRequestor_self]
    split
    · rename_i hmem
      constructor
      · exact Or.inr
      · rintro (⟨rfl, -⟩ | he)
        · exact hmem
        · exact he
    · rename_i hnew
      rw [(horder hnew).mem_iff, List.mem_cons]
      simp
  · rw [registerRequestor_of_ne hq]
    simp [hq]

theorem WellFormed.addRequisite (h : WellFormed c g)
    (horder : d ∉ g.requestors (c.normalized r) →
      order.Perm (d :: g.requestors (c.normalized r)))
    (hadd : g.addRequisite c d order r = .ok g') : WellFormed c g' := by
  rw [Registry.addRequisite] at hadd
  split at hadd
  · cases hadd
  · rw [← Except.ok.inj hadd]
    let sets := Function.update g.requisiteSets d ((g.requisiteSets d).insert (c.normalized r))
    have hsets : ∀ e, sets e =
        if e = d then (g.requisiteSets d).insert (c.normalized r) else g.requisiteSets e :=
      fun e => Function.update_apply _ _ _ e
    have hmem : ∀ e q, q ∈ sets e ↔
        (e = d ∧ q = c.normalized r) ∨ q ∈ g.requisiteSets e := by
      intro e q
      rw [hsets]
      split
      · rename_i he
        subst he
        rw [List.mem_insert_iff]
        simp
      · rename_i he
        simp [he]
    refine ⟨?_, ?_, ?_, ?_⟩
    · intro e q
      rw [mem_registerRequestor (by exact horder)]
      exact (or_congr Iff.rfl (h.registered_iff e q)).trans (hmem e q).symm
    · intro q
      by_cases hq : q = c.normalized r
      · subst hq
        rw [registerRequestor_self]
        split
        · exact h.nodup_requestors _
        · rename_i hnew
          exact (horder hnew).nodup_iff.mpr (List.nodup_cons.mpr ⟨hnew, h.nodup_requestors _⟩)
      · rw [registerRequestor_of_ne hq]
        exact h.nodup_requestors q
    · intro e
      show (sets e).Nodup
      rw [hsets]
      split
      · exact (h.nodup_sets d).insert
      · exact h.nodup_sets e
    · intro e q hq
      rcases (hmem e q).mp hq with ⟨-, rfl⟩ | hold
      · exact c.normalized_idem r
      · exact h.normalized e q hold

theorem addRequisite_of_ne (hadd : g.addRequisite c d order r = .ok g') (h : e ≠ d) :
    g'.requisiteSets e = g.requisiteSets e := by
  rw [Registry.addRequisite] at hadd
  split at hadd
  · cases hadd
  · rw [← Except.ok.inj hadd]
    exact Function.update_of_ne h _ _

theorem removeRequisite_of_ne (h : e ≠ d) :
    (g.removeRequisite c d r).requisiteSets e = g.requisiteSets e :=
  Function.update_of_ne h _ _

theorem WellFormed.removeRequisite (h : WellFormed c g) :
    WellFormed c (g.removeRequisite c d r) := by
  have hsets : ∀ e, (g.removeRequisite c d r).requisiteSets e =
      if e = d then (g.requisiteSets d).erase (c.normalized r) else g.requisiteSets e := by
    intro e
    show Function.update g.requisiteSets d _ e = _
    rw [Function.update_apply]
  have hreqs : ∀ q, (g.removeRequisite c d r).requestors q =
      if q = c.normalized r then (g.requestors (c.normalized r)).erase d else g.requestors q := by
    intro q
    show Function.update g.requestors (c.normalized r) _ q = _
    rw [Function.update_apply]
  refine ⟨?_, ?_, ?_, ?_⟩
  · intro e q
    rw [hsets, hreqs]
    by_cases hq : q = c.normalized r
    · subst hq
      rw [if_pos rfl, (h.nodup_requestors _).mem_erase_iff, h.registered_iff]
      split
      · rename_i he
        subst he
        rw [(h.nodup_sets e).mem_erase_iff]
        simp
      · rename_i he
        simp [he]
    · rw [if_neg hq, h.registered_iff]
      split
      · rename_i he
        subst he
        rw [(h.nodup_sets e).mem_erase_iff]
        simp [hq]
      · exact Iff.rfl
  · intro q
    rw [hreqs]
    split
    · exact (h.nodup_requestors _).erase d
    · exact h.nodup_requestors q
  · intro e
    rw [hsets]
    split
    · exact (h.nodup_sets d).erase _
    · exact h.nodup_sets e
  · intro e q hq
    rw [hsets] at hq
    split at hq
    · exact h.normalized d q (List.mem_of_mem_erase hq)
    · exact h.normalized e q hq

theorem foldl_unregister_sets (l : List (RequisitePath S)) :
    (l.foldl (fun g r => g.unregisterRequestor c d r) g).requisiteSets = g.requisiteSets := by
  induction l generalizing g with
  | nil => rfl
  | cons r l ih => exact ih

/-- The dependant is taken from the paths of a list. -/
theorem foldl_unregister (l : List (RequisitePath S)) (hnodup : l.Nodup)
    (hnorm : ∀ r ∈ l, c.normalized r = r) (q : RequisitePath S) :
    (l.foldl (fun g r => g.unregisterRequestor c d r) g).requestors q =
      if q ∈ l then (g.requestors q).erase d else g.requestors q := by
  induction l generalizing g with
  | nil => rfl
  | cons r l ih =>
      obtain ⟨hr, hl⟩ := List.nodup_cons.mp hnodup
      have hnormr := hnorm r List.mem_cons_self
      rw [List.foldl_cons, ih hl fun r hr => hnorm r (List.mem_cons_of_mem _ hr)]
      by_cases hq : q = r
      · subst hq
        rw [if_neg hr, if_pos List.mem_cons_self]
        have hself := unregisterRequestor_self (c := c) (g := g) (d := d) (r := q)
        rw [hnormr] at hself
        exact hself
      · have hne : q ≠ c.normalized r := by
          rw [hnormr]
          exact hq
        rw [unregisterRequestor_of_ne hne]
        simp [List.mem_cons, hq]

theorem destruct_sets (e : D) :
    (g.destruct c d).requisiteSets e = if e = d then [] else g.requisiteSets e := by
  show Function.update (g.removeRequisites c d).requisiteSets d [] e = _
  rw [Function.update_apply, Registry.removeRequisites, foldl_unregister_sets]

theorem WellFormed.destruct (h : WellFormed c g) : WellFormed c (g.destruct c d) := by
  have hreqs : ∀ q, (g.destruct c d).requestors q =
      if q ∈ g.requisiteSets d then (g.requestors q).erase d else g.requestors q :=
    foldl_unregister (g.requisiteSets d) (h.nodup_sets d) (h.normalized d)
  refine ⟨?_, ?_, ?_, ?_⟩
  · intro e q
    rw [destruct_sets, hreqs]
    split
    · rw [(h.nodup_requestors q).mem_erase_iff, h.registered_iff]
      split <;> simp [*]
    · rename_i hq
      rw [h.registered_iff]
      split
      · rename_i he
        subst he
        simp [hq]
      · exact Iff.rfl
  · intro q
    rw [hreqs]
    split
    · exact (h.nodup_requestors q).erase d
    · exact h.nodup_requestors q
  · intro e
    rw [destruct_sets]
    split
    · exact List.nodup_nil
    · exact h.nodup_sets e
  · intro e q hq
    rw [destruct_sets] at hq
    split at hq
    · exact absurd hq List.not_mem_nil
    · exact h.normalized e q hq

end Requisite
