import Mathlib.Data.Vector.Basic
import SchedulerEngine.ExecutionProofs

/-! # Writing to and reading from a list of symbols

    A reader is a computation over the symbols that are left.  `Reads m w a` says
    that `m` takes exactly the word `w`, whatever follows it, and returns `a`: the
    rules below build such facts along a reader, so that a round trip is the
    statement about the word a writer has appended.  Numbers stand in bytes, the
    highest first. -/

namespace Wire

open Execution

variable {σ τ ε α γ : Type}

/-! ## Repetition -/

/-- Run the computation `n` times and collect the results. -/
def fill (n : Nat) (m : Exec σ ε α) : Exec σ ε (List.Vector α n) :=
  List.Vector.mmap (fun _ => m) (List.Vector.replicate n ())

/-- Filling `n` places is going through any `n` elements without looking at them. -/
theorem fill_eq {n : Nat} (m : Exec σ ε α) (v : List.Vector γ n) :
    fill n m = List.Vector.mmap (fun _ => m) v := by
  induction v with
  | nil => rfl
  | cons ih =>
      rw [List.Vector.mmap_cons, ← ih]
      rfl

theorem mmap_map {κ : Type} {n : Nat} (g : κ → γ) (f : γ → Exec σ ε α) (v : List.Vector κ n) :
    List.Vector.mmap f (v.map g) = List.Vector.mmap (fun x => f (g x)) v := by
  induction v with
  | nil => rfl
  | cons ih => rw [List.Vector.map_cons, List.Vector.mmap_cons, List.Vector.mmap_cons, ih]

/-! ## Reading -/

/-- Take the next `n` symbols; with fewer left, fail and leave them. -/
def take (short : ε) (n : Nat) : Exec (List τ) ε (List τ) := fun s =>
  if s.length < n then (.error short, s) else (.ok (s.take n), s.drop n)

/-- `m` takes exactly the word `w`, whatever follows it, and returns `a`. -/
def Reads (m : Exec (List τ) ε α) (w : List τ) (a : α) : Prop :=
  ∀ rest, m (w ++ rest) = (.ok a, rest)

theorem Reads.pure (a : α) : Reads (pure a : Exec (List τ) ε α) [] a := fun _ => rfl

/-- Reading one word after the other. -/
theorem Reads.bind {m : Exec (List τ) ε α} {f : α → Exec (List τ) ε γ} {v w : List τ} {a : α}
    {c : γ} (hm : Reads m v a) (hf : Reads (f a) w c) : Reads (m >>= f) (v ++ w) c := by
  intro rest
  rw [List.append_assoc, bind_run, hm]
  exact hf rest

/-- The last step of a reader takes nothing. -/
theorem Reads.ret {m : Exec (List τ) ε α} {f : α → Exec (List τ) ε γ} {w : List τ} {a : α}
    {c : γ} (hm : Reads m w a) (hf : Reads (f a) [] c) : Reads (m >>= f) w c := by
  have h := hm.bind hf
  rwa [List.append_nil] at h

theorem Reads.require {c : Bool} {e : ε} (h : c = true) :
    Reads (Exec.require c e : Exec (List τ) ε Unit) [] () := by
  intro rest
  rw [require_run, if_pos h]
  rfl

theorem reads_take (short : ε) (w : List τ) : Reads (take short w.length) w w := by
  intro rest
  rw [take, if_neg (by rw [List.length_append]; omega), List.take_left, List.drop_left]

/-- Going through elements reads their words one after the other. -/
theorem Reads.mmap {f : γ → Exec (List τ) ε α} {w : γ → List τ} {r : γ → α} {n : Nat}
    {v : List.Vector γ n} (h : ∀ x ∈ v.toList, Reads (f x) (w x) (r x)) :
    Reads (List.Vector.mmap f v) (v.toList.flatMap w) (v.map r) := by
  induction v with
  | nil => exact Reads.pure _
  | @cons n x v ih =>
      rw [List.Vector.toList_cons] at h
      rw [List.Vector.mmap_cons, List.Vector.toList_cons, List.Vector.map_cons]
      have h1 := h x (List.mem_cons_self ..)
      have h2 := ih fun y hy => h y (List.mem_cons_of_mem x hy)
      exact h1.bind (h2.ret (Reads.pure _))

/-- Reading `n` words with the same reader, and what they stand for. -/
theorem Reads.fill_map {m : Exec (List τ) ε α} {w : γ → List τ} {r : γ → α} {n : Nat}
    {v : List.Vector γ n} (h : ∀ x ∈ v.toList, Reads m (w x) (r x)) :
    Reads (fill n m) (v.toList.flatMap w) (v.map r) := by
  rw [fill_eq m v]
  exact Reads.mmap h

/-- Reading `n` words with the same reader. -/
theorem Reads.fill {m : Exec (List τ) ε α} {w : α → List τ} {n : Nat} {v : List.Vector α n}
    (h : ∀ x ∈ v.toList, Reads m (w x) x) : Reads (fill n m) (v.toList.flatMap w) v := by
  have h1 := Reads.fill_map (r := id) h
  rwa [show v.map id = v from List.Vector.eq _ _ (by simp)] at h1

/-! ## Readers bounded by what is left -/

/-- A reader never gives symbols back. -/
def Shrinks (m : Exec (List τ) ε α) : Prop := ∀ s, (m s).2.length ≤ s.length

/-- A reader that ends normally has taken at least `n` symbols. -/
def Consumes (n : Nat) (m : Exec (List τ) ε α) : Prop :=
  ∀ s a t, m s = (.ok a, t) → t.length + n ≤ s.length

/-- Two readers do the same with fewer than `k` symbols left. -/
def Agree (k : Nat) (m m' : Exec (List τ) ε α) : Prop := ∀ s, s.length < k → m s = m' s

theorem Shrinks.pure (a : α) : Shrinks (pure a : Exec (List τ) ε α) := fun _ => Nat.le_refl _

theorem Shrinks.throw (e : ε) : Shrinks (throw e : Exec (List τ) ε α) := fun _ => Nat.le_refl _

theorem Shrinks.take (short : ε) (n : Nat) : Shrinks (@take τ ε short n) := by
  intro s
  rw [Wire.take]
  by_cases h : s.length < n
  · rw [if_pos h]
  · rw [if_neg h]
    show (s.drop n).length ≤ s.length
    rw [List.length_drop]
    omega

theorem Shrinks.bind {m : Exec (List τ) ε α} {f : α → Exec (List τ) ε γ} (hm : Shrinks m)
    (hf : ∀ a, Shrinks (f a)) : Shrinks (m >>= f) := by
  intro s
  have h1 := hm s
  rw [bind_run]
  rcases h : m s with ⟨r, t⟩
  rw [h] at h1
  cases r with
  | ok a => exact Nat.le_trans (hf a t) h1
  | error e => exact h1

theorem Shrinks.require (c : Bool) (e : ε) :
    Shrinks (Exec.require c e : Exec (List τ) ε Unit) := by
  cases c with
  | true => exact Shrinks.pure ()
  | false => exact Shrinks.throw e

theorem Shrinks.ite {c : Prop} [Decidable c] {m m' : Exec (List τ) ε α} (hm : Shrinks m)
    (hm' : Shrinks m') : Shrinks (if c then m else m') := by
  by_cases h : c
  · rw [if_pos h]
    exact hm
  · rw [if_neg h]
    exact hm'

theorem Shrinks.ofExcept (r : Except ε α) : Shrinks (Exec.ofExcept r : Exec (List τ) ε α) := by
  cases r with
  | ok a => exact Shrinks.pure a
  | error e => exact Shrinks.throw e

theorem Shrinks.mmap {f : γ → Exec (List τ) ε α} (h : ∀ x, Shrinks (f x)) {n : Nat}
    (v : List.Vector γ n) : Shrinks (List.Vector.mmap f v) := by
  induction v with
  | nil => exact Shrinks.pure _
  | cons ih =>
      rw [List.Vector.mmap_cons]
      exact (h _).bind fun _ => ih.bind fun _ => Shrinks.pure _

theorem Shrinks.fill {m : Exec (List τ) ε α} (h : Shrinks m) (n : Nat) : Shrinks (fill n m) :=
  Shrinks.mmap (fun _ => h) _

theorem Consumes.take (short : ε) (n : Nat) : Consumes n (@take τ ε short n) := by
  intro s a t h
  rw [Wire.take] at h
  by_cases hn : s.length < n
  · rw [if_pos hn] at h
    cases h
  · rw [if_neg hn] at h
    cases h
    rw [List.length_drop]
    omega

theorem Consumes.bind {n : Nat} {m : Exec (List τ) ε α} {f : α → Exec (List τ) ε γ}
    (hm : Consumes n m) (hf : ∀ a, Shrinks (f a)) : Consumes n (m >>= f) := by
  intro s c t h
  obtain ⟨a, u, h1, h2⟩ := bind_ok h
  have h3 := hm s a u h1
  have h4 := hf a u
  rw [h2] at h4
  have h5 : t.length ≤ u.length := h4
  omega

theorem Agree.refl {k : Nat} (m : Exec (List τ) ε α) : Agree k m m := fun _ _ => rfl

theorem Agree.mono {k n : Nat} {m m' : Exec (List τ) ε α} (h : Agree n m m') (hk : k ≤ n) :
    Agree k m m' := fun s hs => h s (Nat.lt_of_lt_of_le hs hk)

theorem Agree.bind {k : Nat} {m m' : Exec (List τ) ε α} {f f' : α → Exec (List τ) ε γ}
    (hs : Shrinks m) (hm : Agree k m m') (hf : ∀ a, Agree k (f a) (f' a)) :
    Agree k (m >>= f) (m' >>= f') := by
  intro s hk
  have h1 := hs s
  rw [bind_run, bind_run, ← hm s hk]
  rcases h : m s with ⟨r, t⟩
  rw [h] at h1
  cases r with
  | ok a => exact hf a t (Nat.lt_of_le_of_lt h1 hk)
  | error e => rfl

theorem Agree.ite {k : Nat} {c : Prop} [Decidable c] {m m' n n' : Exec (List τ) ε α}
    (hm : Agree k m m') (hn : Agree k n n') :
    Agree k (if c then m else n) (if c then m' else n') := by
  by_cases h : c
  · rw [if_pos h, if_pos h]
    exact hm
  · rw [if_neg h, if_neg h]
    exact hn

/-- What follows a reader that takes symbols has fewer of them left. -/
theorem Agree.after {k n : Nat} {m : Exec (List τ) ε α} {f f' : α → Exec (List τ) ε γ}
    (hm : Consumes n m) (hf : ∀ a, Agree k (f a) (f' a)) : Agree (k + n) (m >>= f) (m >>= f') := by
  intro s hs
  rw [bind_run, bind_run]
  rcases h : m s with ⟨r, t⟩
  cases r with
  | ok a =>
      have h1 := hm s a t h
      exact hf a t (by omega)
  | error e => rfl

theorem Agree.mmap {k : Nat} {f f' : γ → Exec (List τ) ε α} (hs : ∀ x, Shrinks (f x))
    (h : ∀ x, Agree k (f x) (f' x)) {n : Nat} (v : List.Vector γ n) :
    Agree k (List.Vector.mmap f v) (List.Vector.mmap f' v) := by
  induction v with
  | nil => exact Agree.refl _
  | cons ih =>
      rw [List.Vector.mmap_cons, List.Vector.mmap_cons]
      refine Agree.bind (hs _) (h _) fun a => ?_
      exact Agree.bind (Shrinks.mmap hs _) ih fun _ => Agree.refl _

theorem Agree.fill {k : Nat} {m m' : Exec (List τ) ε α} (hs : Shrinks m) (h : Agree k m m')
    (n : Nat) : Agree k (fill n m) (fill n m') :=
  Agree.mmap (fun _ => hs) (fun _ => h) _

/-! ## Writing -/

/-- A state to which words of symbols are appended. -/
structure Sink (τ σ : Type) where
  put : List τ → σ → σ
  put_nil : ∀ s, put [] s = s
  put_append : ∀ v w s, put (v ++ w) s = put w (put v s)

namespace Sink

variable (k : Sink τ σ)

/-- `m` ends normally, appends the word `w` and does nothing else. -/
def Writes (m : Exec σ ε Unit) (w : List τ) : Prop := ∀ s, m s = (.ok (), k.put w s)

variable {k}

theorem Writes.pure : k.Writes (pure () : Exec σ ε Unit) [] := by
  intro s
  rw [k.put_nil]
  rfl

/-- Writing one word after the other. -/
theorem Writes.bind {m n : Exec σ ε Unit} {v w : List τ} (hm : k.Writes m v)
    (hn : k.Writes n w) : k.Writes (do m; n) (v ++ w) := by
  intro s
  rw [bind_run, hm s, k.put_append]
  exact hn _

theorem Writes.forEach {f : α → Exec σ ε Unit} {w : α → List τ} {xs : List α}
    (h : ∀ x ∈ xs, k.Writes (f x) (w x)) : k.Writes (Exec.forEach f xs) (xs.flatMap w) := by
  induction xs with
  | nil => exact Writes.pure
  | cons x xs ih =>
      exact (h x (List.mem_cons_self ..)).bind (ih fun y hy => h y (List.mem_cons_of_mem x hy))

end Sink

/-! ## Numbers in bytes -/

/-- The last `n` digits of a number to the base 256, the highest first. -/
def digits : Nat → Nat → List UInt8
  | 0, _ => []
  | n + 1, x => digits n (x / 256) ++ [UInt8.ofNat x]

/-- The number whose digits these bytes are. -/
def number (bytes : List UInt8) : Nat := bytes.foldl (fun x b => 256 * x + b.toNat) 0

@[simp] theorem length_digits (n x : Nat) : (digits n x).length = n := by
  induction n generalizing x with
  | zero => rfl
  | succ n ih =>
      show (digits n (x / 256) ++ [UInt8.ofNat x]).length = n + 1
      rw [List.length_append, ih]
      rfl

/-- The highest digit. -/
theorem digits_succ (n x : Nat) : digits (n + 1) x = UInt8.ofNat (x / 256 ^ n) :: digits n x := by
  induction n generalizing x with
  | zero => rw [Nat.pow_zero, Nat.div_one]; rfl
  | succ n ih =>
      rw [digits, ih, Nat.div_div_eq_div_mul, Nat.mul_comm, ← Nat.pow_succ]
      rfl

theorem number_concat (bytes : List UInt8) (b : UInt8) :
    number (bytes ++ [b]) = 256 * number bytes + b.toNat := by
  rw [number, List.foldl_append]
  rfl

/-- A number that has no more than `n` digits is read back from them. -/
theorem number_digits {n x : Nat} (h : x < 256 ^ n) : number (digits n x) = x := by
  induction n generalizing x with
  | zero =>
      have : x = 0 := by simpa using h
      rw [this]
      rfl
  | succ n ih =>
      have h1 : x / 256 < 256 ^ n := by
        rw [Nat.div_lt_iff_lt_mul (by decide), ← Nat.pow_succ]
        exact h
      have h2 : (UInt8.ofNat x).toNat = x % 256 := UInt8.toNat_ofNat ..
      rw [digits, number_concat, ih h1, h2]
      omega

end Wire
