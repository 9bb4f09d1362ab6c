import SchedulerEngine.SortedInsertProofs
import Mathlib.Data.List.InsertIdx

/-! # The scheduler's call queue

    `StandardCallQueue` holds the timed calls in the order of their instants;
    calls for one instant stand in the order in which they were added.  A due
    call is taken out before it is executed. -/

namespace CallQueue

open SortedInsert

variable {α : Type} {epochMillis : α → Nat}

/-- A call is added after `close`. -/
inductive ClosedException where
  | closed
deriving DecidableEq, Repr

/-- The buffer of calls, sorted by `epochMillis`. -/
structure StandardCallQueue (α : Type) (epochMillis : α → Nat) where
  queue : List α
  closed : Bool
  sorted : Sorted epochMillis queue

/-- `indexWhere { _.epochMillis > at }`, or the size. -/
def positionAfter (epochMillis : α → Nat) (at_ : Nat) (queue : List α) : Nat :=
  queue.findIdx fun o => decide (at_ < epochMillis o)

/-- Inserting at `positionAfter` is insertion by the key `epochMillis`. -/
theorem insertIdx_positionAfter (o : α) (l : List α) :
    l.insertIdx (positionAfter epochMillis (epochMillis o) l) o = insertByKey epochMillis o l := by
  induction l with
  | nil => rfl
  | cons b l ih =>
      by_cases h : epochMillis b ≤ epochMillis o
      · have hb : decide (epochMillis o < epochMillis b) = false := by simp [h]
        rw [insertByKey_of_le h, ← ih]
        simp only [positionAfter, List.findIdx_cons, hb, cond_false, List.insertIdx_succ_cons]
      · have hb : decide (epochMillis o < epochMillis b) = true := by simp; omega
        rw [insertByKey_of_lt (by omega)]
        simp only [positionAfter, List.findIdx_cons, hb, cond_true, List.insertIdx_zero]

namespace StandardCallQueue

/-- No calls yet. -/
def empty : StandardCallQueue α epochMillis := ⟨[], false, List.Pairwise.nil⟩

def add (q : StandardCallQueue α epochMillis) (o : α) :
    Except ClosedException (StandardCallQueue α epochMillis) :=
  if q.closed then .error .closed
  else .ok
    { q with
      queue := q.queue.insertIdx (positionAfter epochMillis (epochMillis o) q.queue) o
      sorted := by
        rw [insertIdx_positionAfter]
        exact q.sorted.insert o }

/-- Takes the call out if it is there; the result tells whether it was. -/
def tryCancel [DecidableEq α] (q : StandardCallQueue α epochMillis) (o : α) :
    Bool × StandardCallQueue α epochMillis :=
  (decide (o ∈ q.queue),
    { q with queue := q.queue.erase o, sorted := q.sorted.sublist List.erase_sublist })

/-- The first call, if it is due. -/
def matureHeadOption (q : StandardCallQueue α epochMillis) (currentTimeMillis : Nat) : Option α :=
  q.queue.head?.filter fun o => decide (epochMillis o ≤ currentTimeMillis)

/-- Takes out the first call if it is due. -/
def popMature (q : StandardCallQueue α epochMillis) (currentTimeMillis : Nat) :
    Option α × StandardCallQueue α epochMillis :=
  match q.matureHeadOption currentTimeMillis with
  | none => (none, q)
  | some o => (some o,
      { q with queue := q.queue.tail, sorted := q.sorted.sublist (List.tail_sublist _) })

def close (q : StandardCallQueue α epochMillis) : StandardCallQueue α epochMillis :=
  { q with queue := [], closed := true, sorted := List.Pairwise.nil }

variable {q q' : StandardCallQueue α epochMillis} {o c : α} {now : Nat}

@[simp] theorem tryCancel_queue [DecidableEq α] :
    (q.tryCancel o).2.queue = q.queue.erase o := rfl

@[simp] theorem close_queue : q.close.queue = [] := rfl

/-- A call that is accepted joins the others. -/
theorem add_perm (h : q.add o = .ok q') : q'.queue.Perm (o :: q.queue) := by
  rw [add] at h
  split at h
  · cases h
  · cases h
    show (q.queue.insertIdx _ o).Perm (o :: q.queue)
    rw [insertIdx_positionAfter]
    exact insertByKey_perm epochMillis o q.queue

/-- Nothing is added by taking out a due call. -/
theorem popMature_sublist (q : StandardCallQueue α epochMillis) (now : Nat) :
    (q.popMature now).2.queue.Sublist q.queue := by
  rw [popMature]
  split
  · exact List.Sublist.refl _
  · exact List.tail_sublist _

/-- What is executed is due, and no call that stays is earlier. -/
theorem popMature_least (h : (q.popMature now).1 = some o) :
    epochMillis o ≤ now ∧ ∀ c ∈ (q.popMature now).2.queue, epochMillis o ≤ epochMillis c := by
  rcases hq : q.queue with _ | ⟨b, l⟩
  · simp [popMature, matureHeadOption, hq] at h
  · by_cases hb : epochMillis b ≤ now
    · have hpop : q.matureHeadOption now = some b := by simp [matureHeadOption, hq, hb]
      simp only [popMature, hpop, Option.some.injEq] at h ⊢
      subst h
      refine ⟨hb, ?_⟩
      have hs := q.sorted
      rw [hq] at hs
      simpa [hq] using (List.pairwise_cons.mp hs).1
    · have hpop : q.matureHeadOption now = none := by
        simp only [matureHeadOption, hq, List.head?_cons, Option.filter_some, hb, decide_false]
        rfl
      rw [popMature, hpop] at h
      cases h

/-- Only a due call is taken out. -/
theorem popMature_gone (hin : c ∈ q.queue) (hout : c ∉ (q.popMature now).2.queue) :
    epochMillis c ≤ now := by
  cases hpop : q.matureHeadOption now with
  | none =>
      rw [popMature, hpop] at hout
      exact absurd hin hout
  | some o =>
      have hfirst : (q.popMature now).1 = some o := by rw [popMature, hpop]
      have hleast := popMature_least hfirst
      rw [popMature, hpop] at hout
      obtain ⟨hhead, -⟩ := Option.filter_eq_some_iff.mp hpop
      obtain ⟨l, hl⟩ := List.head?_eq_some_iff.mp hhead
      rw [hl] at hin
      obtain rfl | htail := List.mem_cons.mp hin
      · exact hleast.1
      · exact absurd (by simpa [hl] using htail) hout

end StandardCallQueue

end CallQueue
