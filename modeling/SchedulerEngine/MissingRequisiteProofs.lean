import SchedulerEngine.GatheringProofs
import SchedulerEngine.RequisiteProofs
import SchedulerEngine.RunInvariantProofs

/-! # Missing requisites

    `missing_requisites` asks every requisite of a dependant, and every dependant that
    accompanies it, for its own missing requisites.  It does not know which dependants
    it has been to. -/

set_option linter.unusedSectionVars false

namespace Requisite

open RunInvariant

variable {D S : Type} [DecidableEq D] [DecidableEq S]

/-! ## The recursion -/

/-- The objects that are loaded. -/
structure Loaded (D S : Type) where
  /-- `file_based_or_null`, of a normalized path. -/
  fileBasedOrNull : RequisitePath S → Option D
  isActiveAndNotToBeRemoved : D → Bool

variable {w : Loaded D S} {g : Registry D S} {d e : D} {r : RequisitePath S} {n : Nat}

/-- No object, or one that is not active or is to be removed. -/
def IsMissing (w : Loaded D S) (r : RequisitePath S) : Prop :=
  (w.fileBasedOrNull r).any w.isActiveAndNotToBeRemoved = false

instance (w : Loaded D S) (r : RequisitePath S) : Decidable (IsMissing w r) :=
  inferInstanceAs (Decidable ((w.fileBasedOrNull r).any w.isActiveAndNotToBeRemoved = false))

/-- `missing_requisites`, with `fuel` nested calls. -/
def missingRequisites (w : Loaded D S) (g : Registry D S) :
    Nat → D → Option (List (RequisitePath S))
  | 0, _ => none
  | fuel + 1, d =>
      (Gathering.concat (fun r =>
        ((w.fileBasedOrNull r).elim (some []) (missingRequisites w g fuel)).map fun missings =>
          if IsMissing w r then missings ++ [r] else missings) (g.requisiteSets d)).bind
        fun ofRequisites =>
          (Gathering.concat (missingRequisites w g fuel) (g.accompanying d)).map fun ofAccompanying =>
            ofRequisites ++ ofAccompanying

/-- The recursion goes from a dependant to the objects of its requisites, and to those
    that accompany it. -/
def Leads (w : Loaded D S) (g : Registry D S) (d e : D) : Prop :=
  (∃ r ∈ g.requisiteSets d, e ∈ w.fileBasedOrNull r) ∨ e ∈ g.accompanying d

def Reachable (w : Loaded D S) (g : Registry D S) : D → D → Prop :=
  Relation.ReflTransGen (Leads w g)

/-- It ends, and the result has exactly the missing paths that are reachable. -/
def EndsRight (w : Loaded D S) (g : Registry D S) (d : D) : Prop :=
  ∃ n result, (∀ m, n ≤ m → missingRequisites w g m d = some result) ∧
    ∀ r, r ∈ result ↔ ∃ e, Reachable w g d e ∧ r ∈ g.requisiteSets e ∧ IsMissing w r

/-- A dependant that the recursion comes to again. -/
def ReachesCycle (w : Loaded D S) (g : Registry D S) (d : D) : Prop :=
  ∃ e, Reachable w g d e ∧ Relation.TransGen (Leads w g) e e

/-! ## As a collection over a graph -/

/-- What a requisite adds. -/
def requisiteItems (w : Loaded D S) (r : RequisitePath S) : List (D ⊕ RequisitePath S) :=
  (w.fileBasedOrNull r).toList.map .inl ++ if IsMissing w r then [.inr r] else []

def items (w : Loaded D S) (g : Registry D S) (d : D) : List (D ⊕ RequisitePath S) :=
  (g.requisiteSets d).flatMap (requisiteItems w) ++ (g.accompanying d).map .inl

theorem concat_requisiteItems (f : D → Option (List (RequisitePath S))) :
    Gathering.concat (Sum.elim f fun x => some [x]) (requisiteItems w r) =
      ((w.fileBasedOrNull r).elim (some []) f).map fun missings =>
        if IsMissing w r then missings ++ [r] else missings := by
  rw [requisiteItems, Gathering.concat_append, Gathering.concat_map]
  have hobject : Gathering.concat (fun c => Sum.elim f (fun x => some [x]) (.inl c))
        (w.fileBasedOrNull r).toList = (w.fileBasedOrNull r).elim (some []) f := by
    cases w.fileBasedOrNull r with
    | none => rfl
    | some e =>
        show (f e).bind (fun xs => some (xs ++ [])) = f e
        cases f e with
        | none => rfl
        | some xs => exact congrArg some (List.append_nil xs)
  rw [hobject]
  cases (w.fileBasedOrNull r).elim (some []) f with
  | none => rfl
  | some xs =>
      rw [Option.bind_some, Option.map_some]
      split
      · rfl
      · exact congrArg some (List.append_nil xs)

theorem missingRequisites_eq_gather :
    missingRequisites w g n d = Gathering.gather (items w g) n d := by
  induction n generalizing d with
  | zero => rfl
  | succ n ih =>
      have hrec : missingRequisites w g n = Gathering.gather (items w g) n := funext fun _ => ih
      rw [missingRequisites, Gathering.gather, items, Gathering.concat_append,
        Gathering.concat_flatMap, Gathering.concat_map, hrec]
      simp only [concat_requisiteItems, Sum.elim_inl]

theorem child_iff : Gathering.Child (items w g) d e ↔ Leads w g d e := by
  simp only [Gathering.Child, items, Leads, List.mem_append, List.mem_flatMap, requisiteItems]
  constructor
  · rintro (⟨r, hr, hmem | hmem⟩ | hmem)
    · obtain ⟨e', he', heq⟩ := List.mem_map.mp hmem
      cases heq
      exact Or.inl ⟨r, hr, Option.mem_toList.mp he'⟩
    · split at hmem
      · cases List.mem_singleton.mp hmem
      · exact absurd hmem List.not_mem_nil
    · obtain ⟨e', he', heq⟩ := List.mem_map.mp hmem
      cases heq
      exact Or.inr he'
  · rintro (⟨r, hr, he⟩ | he)
    · exact Or.inl ⟨r, hr, Or.inl (List.mem_map_of_mem (Option.mem_toList.mpr he))⟩
    · exact Or.inr (List.mem_map_of_mem he)

theorem inr_mem_items : Sum.inr r ∈ items w g d ↔ r ∈ g.requisiteSets d ∧ IsMissing w r := by
  simp only [items, List.mem_append, List.mem_flatMap, requisiteItems]
  constructor
  · rintro (⟨r', hr', hmem | hmem⟩ | hmem)
    · obtain ⟨e, -, heq⟩ := List.mem_map.mp hmem
      cases heq
    · split at hmem
      · rename_i hmissing
        cases List.mem_singleton.mp hmem
        exact ⟨hr', hmissing⟩
      · exact absurd hmem List.not_mem_nil
    · obtain ⟨e, -, heq⟩ := List.mem_map.mp hmem
      cases heq
  · rintro ⟨hr, hmissing⟩
    refine Or.inl ⟨r, hr, Or.inr ?_⟩
    rw [if_pos hmissing]
    exact List.mem_singleton_self _

theorem child_eq_leads : Gathering.Child (items w g) = Leads w g := by
  funext d e
  exact propext child_iff

/-- If the recursion ends, it ends right. -/
theorem endsRight_iff_ends :
    EndsRight w g d ↔ ∃ n result, Gathering.gather (items w g) n d = some result := by
  constructor
  · rintro ⟨n, result, hends, -⟩
    refine ⟨n, result, ?_⟩
    rw [← missingRequisites_eq_gather]
    exact hends n (Nat.le_refl n)
  · rintro ⟨n, result, hends⟩
    refine ⟨n, result, ?_, ?_⟩
    · intro m hle
      rw [missingRequisites_eq_gather]
      exact Gathering.gather_mono hle hends
    · intro r
      rw [Gathering.mem_gather hends, child_eq_leads]
      simp only [inr_mem_items]
      rfl

theorem endsRight_iff_reachesCycle [Finite D] : EndsRight w g d ↔ ¬ReachesCycle w g d := by
  rw [endsRight_iff_ends, Gathering.gather_iff, child_eq_leads]
  rfl

/-! ## Every graph that can be registered -/

inductive Op (D S : Type) where
  | addRequisite (d : D) (order : List D) (r : RequisitePath S)
  | addAccompanyingDependant (d accompanying : D)

/-- The requisites and accompanying dependants that are added, one after another.
    A requisite that is rejected throws. -/
def add (c : Scheduler D S) (g : Registry D S) : Op D S → Option (Registry D S)
  | .addRequisite d order r => (g.addRequisite c d order r).toOption
  | .addAccompanyingDependant d accompanying => some (g.addAccompanyingDependant d accompanying)

def Step (c : Scheduler D S) (g : Registry D S) (op : Op D S) (g' : Registry D S) : Prop :=
  add c g op = some g'

/-- Nothing is registered. -/
def empty : Registry D S := ⟨fun _ => [], fun _ => [], fun _ => []⟩

/-- However the requisites have been registered, the search ends right if and only if no
    cycle is reachable from the dependant. -/
theorem missingRequisites_endsRight_iff [Finite D] (w : Loaded D S) (g : Registry D S) (d : D) :
    EndsRight w g d ↔ ¬ReachesCycle w g d :=
  endsRight_iff_reachesCycle

/-! ## Two schedules that substitute one another -/

/-- Two schedules, `/a` and `/b`. -/
def twoSchedules : Scheduler Bool Unit :=
  ⟨fun _ path => path, fun _ _ => rfl, fun d => some ⟨(), if d then "/a" else "/b"⟩⟩

def twoLoaded : Loaded Bool Unit :=
  ⟨fun r => if r.path = "/a" then some true else if r.path = "/b" then some false else none,
    fun _ => true⟩

/-- `/a` substitutes `/b`, which substitutes a schedule that is not there. -/
def oneSubstitute : List (Op Bool Unit) :=
  [.addRequisite true [true] ⟨(), "/b"⟩, .addRequisite false [false] ⟨(), "/c"⟩]

/-- Each of them substitutes the other one. -/
def mutualSubstitutes : List (Op Bool Unit) :=
  [.addRequisite true [true] ⟨(), "/b"⟩, .addRequisite false [false] ⟨(), "/a"⟩]

theorem missingRequisites_endsRight_iff_oneSubstitute :
    ∃ g, runAll (add twoSchedules) empty oneSubstitute = some g ∧
      missingRequisites twoLoaded g 2 true = some [⟨(), "/c"⟩] ∧
      (EndsRight twoLoaded g true ↔ ¬ReachesCycle twoLoaded g true) := by
  have hrun : runAll (add twoSchedules) empty oneSubstitute = some _ := rfl
  exact ⟨_, hrun, by decide, missingRequisites_endsRight_iff twoLoaded _ true⟩

/-- Both requisites are accepted, and the search for missing ones does not end. -/
theorem mutualSubstitutes_endless :
    ¬∀ g, Reach (fun g => g = empty) (Step twoSchedules) g → ∀ d, EndsRight twoLoaded g d := by
  intro h
  have hrun : runAll (add twoSchedules) empty mutualSubstitutes = some _ := rfl
  have hstart : Reach (fun g => g = empty) (Step twoSchedules) empty := Reach.start rfl
  have hreach := hstart.runAll (fun _ _ _ hadd => hadd) hrun
  have hends := endsRight_iff_reachesCycle.mp (h _ hreach true)
  -- from one to the other, and back
  refine hends ⟨true, .refl, .tail (b := false) (.single ?_) ?_⟩
  · exact Or.inl ⟨⟨(), "/b"⟩, by decide, rfl⟩
  · exact Or.inl ⟨⟨(), "/a"⟩, by decide, rfl⟩

end Requisite
