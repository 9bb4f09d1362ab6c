import SchedulerEngine.DirectoryObserverProofs

/-! # Observing a hot folder

    The state of a watched directory is what its reads so far have made of it.  What
    is said of an entry is said of these reads: since when a file has been listed
    with its time stamp, since when it has been missing, and which time stamps have
    been shown. -/

set_option linter.unusedSectionVars false

namespace HotFolder

open DirectoryObserver DirectoryObserver.Listing

/-! ## Histories -/

/-- `read( read_subdirectories )` in a watched tree. -/
def hot : Mode := ⟨true, false, true⟩

/-- The reads so far, the latest one first. -/
abbrev History : Type := List (Int × Listing)

def observe : History → Directory
  | [] => Directory.new
  | (now, l) :: H => (read hot now l (observe H)).1

/-- What the latest read has returned. -/
def changed : History → Bool
  | [] => false
  | (now, l) :: H => (read hot now l (observe H)).2

/-- The times do not decrease, and each listing is in order. -/
def Valid : History → Prop
  | [] => True
  | (now, l) :: H => l.Ordered ∧ 0 < now ∧ (∀ r ∈ H, r.1 ≤ now) ∧ Valid H

def entryAt (H : History) (n : String) : Option (Entry Directory) := (observe H).entryOrNull n

/-- What the latest read has found under a name. -/
def itemAt : History → String → Option Item
  | [], _ => none
  | (_, l) :: _, n => l.lookup n

/-- The reads of a subdirectory, as long as it has been one. -/
def lives (n : String) : History → History
  | [] => []
  | (now, l) :: H =>
      match l.lookup n with
      | some (.directory _ content) => (now, content) :: lives n H
      | _ => []

/-- The file is shown with the time stamp: it is not aging. -/
def ShownNow (H : History) (n : String) (t : Int) : Prop :=
  ∃ e ∈ entryAt H n, e.subdirectory = none ∧ e.isAging = false ∧ e.lastWriteTime = t

/-- After some read it was shown. -/
def Shown : History → String → Int → Prop
  | [], _, _ => False
  | x :: H, n, t => ShownNow (x :: H) n t ∨ Shown H n t

/-- The time stamp the file had when it was not aging. -/
def lastShown : History → String → Option Int
  | [], _ => none
  | x :: H, n => (entryAt (x :: H) n).bind fun e =>
      if e.subdirectory.isSome then none
      else if e.isAging then lastShown H n
      else some e.lastWriteTime

/-- All reads since then have listed the file with the time stamp. -/
def ListedSince : History → String → Int → Int → Prop
  | [], _, _, _ => False
  | (now, l) :: H, n, t, since =>
      l.lookup n = some (.file t) ∧ (now = since ∨ ListedSince H n t since)

/-- The file was listed before, and no read since then has found it. -/
def MissingSince : History → String → Int → Prop
  | [], _, _ => False
  | (now, l) :: H, n, since =>
      l.lookup n = none ∧
        ((now = since ∧ ∃ t, itemAt H n = some (.file t)) ∨ MissingSince H n since)

variable {H K : History} {now since t : Int} {l : Listing} {n : String}
  {e e' : Entry Directory} {d : Directory}

/-! ## What a read does -/

theorem lastReadAt_le (hpos : 0 ≤ now) (hle : ∀ r ∈ H, r.1 ≤ now) :
    (observe H).lastReadAt ≤ now := by
  induction H with
  | nil => exact hpos
  | cons x H ih =>
      show (readWith hot x.1 (merge hot x.1 x.2) (observe H)).1.lastReadAt ≤ now
      rw [readWith]
      split
      · exact hle x List.mem_cons_self
      · exact ih fun r hr => hle r (List.mem_cons_of_mem _ hr)

/-- Time has not gone back, so the listing is merged. -/
theorem read_observe (hv : Valid ((now, l) :: H)) :
    read hot now l (observe H) =
      (.mk (if (merge hot now l (observe H).orderedList).2 then (observe H).version + 1
          else (observe H).version) now (merge hot now l (observe H).orderedList).1,
        (merge hot now l (observe H).orderedList).2) := by
  have hle := lastReadAt_le (le_of_lt hv.2.1) hv.2.2.1
  have hcond : (!hot.readSubdirectories || decide ((observe H).lastReadAt ≤ now)) = true := by
    rw [decide_eq_true hle]
    rfl
  show readWith hot now (merge hot now l) (observe H) = _
  rw [readWith, if_pos hcond]
  rfl

theorem orderedList_observe (hv : Valid ((now, l) :: H)) :
    (observe ((now, l) :: H)).orderedList = (merge hot now l (observe H).orderedList).1 := by
  rw [observe, read_observe hv]
  rfl

theorem changed_eq (hv : Valid ((now, l) :: H)) :
    changed ((now, l) :: H) = (merge hot now l (observe H).orderedList).2 := by
  rw [changed, read_observe hv]

theorem version_observe (hv : Valid ((now, l) :: H)) :
    (observe ((now, l) :: H)).version =
      if changed ((now, l) :: H) then (observe H).version + 1 else (observe H).version := by
  rw [changed_eq hv, observe, read_observe hv]
  rfl

theorem Valid.tail (hv : Valid ((now, l) :: H)) : Valid H := hv.2.2.2

theorem sorted_observe (hv : Valid H) : Sorted (observe H).orderedList := by
  induction H with
  | nil => exact List.Pairwise.nil
  | cons x H ih =>
      rw [orderedList_observe hv]
      exact sorted_merge hv.1 (ih hv.tail)

/-- The entry under a name comes from what is found there and the entry before. -/
theorem entryAt_cons (hv : Valid ((now, l) :: H)) (n : String) :
    entryAt ((now, l) :: H) n = after hot now n (l.lookup n) (entryAt H n) := by
  show entryOf n (observe ((now, l) :: H)).orderedList = _
  rw [orderedList_observe hv]
  exact (merge_merges hv.1 n).entry _ (sorted_observe hv.tail)

theorem changed_of_changedAt (hv : Valid ((now, l) :: H))
    (h : changedAt hot now n (l.lookup n) (entryAt H n) = true) : changed ((now, l) :: H) = true := by
  rw [changed_eq hv]
  exact (merge_merges hv.1 n).changed _ (sorted_observe hv.tail) h

/-- Everything that may happen to an entry in a read. -/
inductive Turn (now : Int) (n : String) :
    Option Item → Option (Entry Directory) → Option (Entry Directory) → Bool → Prop where
  | newFile (t : Int) :
      Turn now n (some (.file t)) none (some ⟨n, t, none, now + fileTimestampDelay, false, 1⟩) false
  | newDirectory (t : Int) (content : Listing) :
      Turn now n (some (.directory t content)) none
        (some ⟨n, t, some (read hot now content Directory.new).1, 0, false, 1⟩) true
  | fileChanged (e : Entry Directory) (t : Int) (h : e.lastWriteTime ≠ t) :
      Turn now n (some (.file t)) (some e)
        (some ⟨e.name, t, none, now + fileTimestampDelay, false, e.version⟩) false
  | fileAging (e : Entry Directory) (h : now < e.isAgingUntil) :
      Turn now n (some (.file e.lastWriteTime)) (some e)
        (some ⟨e.name, e.lastWriteTime, none, e.isAgingUntil, false, e.version⟩) false
  | fileAged (e : Entry Directory) (h : e.isAgingUntil ≤ now) (h0 : e.isAgingUntil ≠ 0) :
      Turn now n (some (.file e.lastWriteTime)) (some e)
        (some ⟨e.name, e.lastWriteTime, none, 0, false, e.version + 1⟩) true
  | fileSame (e : Entry Directory) (h0 : e.isAgingUntil = 0) :
      Turn now n (some (.file e.lastWriteTime)) (some e)
        (some ⟨e.name, e.lastWriteTime, none, e.isAgingUntil, false, e.version⟩) false
  | directory (e : Entry Directory) (t : Int) (content : Listing) :
      Turn now n (some (.directory t content)) (some e)
        (some { e with
          isRemoved := false
          subdirectory := some (read hot now content (e.subdirectory.getD Directory.new)).1 })
        (e.subdirectory.isNone || (read hot now content (e.subdirectory.getD Directory.new)).2)
  | removed (e : Entry Directory) (hs : e.subdirectory = none) (h : e.isRemoved = false) :
      Turn now n none (some e)
        (some { e with isRemoved := true, isAgingUntil := now + removeDelay }) false
  | waiting (e : Entry Directory) (hs : e.subdirectory = none) (h : e.isRemoved = true)
      (hlt : now < e.isAgingUntil) : Turn now n none (some e) (some e) false
  | erasedFile (e : Entry Directory) (hs : e.subdirectory = none) (h : e.isRemoved = true)
      (hle : e.isAgingUntil ≤ now) : Turn now n none (some e) none true
  | erasedDirectory (e : Entry Directory) (hs : e.subdirectory.isSome) :
      Turn now n none (some e) none true
  | absent : Turn now n none none none false

theorem turn_file (now : Int) (n : String) (t : Int) (e : Entry Directory) :
    Turn now n (some (.file t)) (some e) (some (foundFile hot now t e).1)
      (foundFile hot now t e).2 := by
  by_cases ht : e.lastWriteTime = t
  · subst ht
    by_cases hlt : now < e.isAgingUntil
    · have heq : foundFile hot now e.lastWriteTime e =
          (⟨e.name, e.lastWriteTime, none, e.isAgingUntil, false, e.version⟩, false) := by
        simp only [foundFile, ne_eq, not_true_eq_false, if_false, if_pos hlt]
      rw [heq]
      exact Turn.fileAging e hlt
    · by_cases h0 : e.isAgingUntil = 0
      · have heq : foundFile hot now e.lastWriteTime e =
            (⟨e.name, e.lastWriteTime, none, e.isAgingUntil, false, e.version⟩, false) := by
          simp only [foundFile, ne_eq, not_true_eq_false, if_false, h0, ite_self]
        rw [heq]
        exact Turn.fileSame e h0
      · have heq : foundFile hot now e.lastWriteTime e =
            (⟨e.name, e.lastWriteTime, none, 0, false, e.version + 1⟩, true) := by
          simp only [foundFile, ne_eq, not_true_eq_false, if_false, if_neg hlt, h0, not_false_eq_true,
            if_true]
        rw [heq]
        exact Turn.fileAged e (le_of_not_gt hlt) h0
  · have heq : foundFile hot now t e =
        (⟨e.name, t, none, now + fileTimestampDelay, false, e.version⟩, false) := by
      simp only [foundFile, ne_eq, ht, not_false_eq_true, if_true]
      rfl
    rw [heq]
    exact Turn.fileChanged e t ht

theorem turn_missing (now : Int) (n : String) (e : Entry Directory) :
    Turn now n none (some e) (missing hot now e).1 (missing hot now e).2 := by
  cases hs : e.subdirectory with
  | some d =>
      have heq : missing hot now e = (none, true) := by
        rw [missing, hs]
        rfl
      rw [heq]
      exact Turn.erasedDirectory e (by rw [hs]; rfl)
  | none =>
      cases hr : e.isRemoved with
      | false =>
          have heq : missing hot now e =
              (some { e with isRemoved := true, isAgingUntil := now + removeDelay }, false) := by
            rw [missing, hs, hr]
            rfl
          rw [heq]
          exact Turn.removed e hs hr
      | true =>
          by_cases hlt : now < e.isAgingUntil
          · have heq : missing hot now e = (some e, false) := by
              rw [missing, hs, hr, decide_eq_true hlt]
              rfl
            rw [heq]
            exact Turn.waiting e hs hr hlt
          · have heq : missing hot now e = (none, true) := by
              rw [missing, hs, hr, decide_eq_false hlt]
              rfl
            rw [heq]
            exact Turn.erasedFile e hs hr (le_of_not_gt hlt)

theorem turn (now : Int) (n : String) (i : Option Item) (o : Option (Entry Directory)) :
    Turn now n i o (after hot now n i o) (changedAt hot now n i o) := by
  cases i with
  | none =>
      cases o with
      | none => exact Turn.absent
      | some e => exact turn_missing now n e
  | some i =>
      cases i with
      | file t =>
          cases o with
          | none => exact Turn.newFile t
          | some e => exact turn_file now n t e
      | directory t content =>
          cases o with
          | none => exact Turn.newDirectory t content
          | some e => exact Turn.directory e t content

/-- What happens to the entry, and that a change is announced. -/
theorem turn_observe (hv : Valid ((now, l) :: H)) (n : String) :
    ∃ b, Turn now n (l.lookup n) (entryAt H n) (entryAt ((now, l) :: H) n) b ∧
      (b = true → changed ((now, l) :: H) = true) := by
  refine ⟨_, ?_, changed_of_changedAt (n := n) hv⟩
  rw [entryAt_cons hv]
  exact turn now n _ _

theorem entryAt_nil (n : String) : entryAt [] n = none := rfl

/-! ## Subdirectories -/

theorem lives_of_file (h : l.lookup n = some (.file t)) : lives n ((now, l) :: H) = [] := by
  rw [lives, h]

theorem lives_of_missing (h : l.lookup n = none) : lives n ((now, l) :: H) = [] := by
  rw [lives, h]

theorem lives_of_directory {content : Listing} (h : l.lookup n = some (.directory t content)) :
    lives n ((now, l) :: H) = (now, content) :: lives n H := by
  rw [lives, h]

theorem ordered_of_lookup {content : Listing} (hl : l.Ordered)
    (h : l.lookup n = some (.directory t content)) : content.Ordered := by
  induction l with
  | nil => cases h
  | file name t' rest ih =>
      rw [lookup] at h
      by_cases hn : name = n
      · rw [if_pos hn] at h
        cases h
      · rw [if_neg hn] at h
        exact ih hl.2 h
  | directory name t' content' rest _ ih =>
      rw [lookup] at h
      by_cases hn : name = n
      · rw [if_pos hn] at h
        cases h
        exact hl.2.1
      · rw [if_neg hn] at h
        exact ih hl.2.2 h

theorem mem_lives {r : Int × Listing} (h : r ∈ lives n H) : ∃ l, (r.1, l) ∈ H := by
  induction H with
  | nil => cases h
  | cons x H ih =>
      obtain ⟨now, l⟩ := x
      cases hi : l.lookup n with
      | none =>
          rw [lives_of_missing hi] at h
          cases h
      | some i =>
          cases i with
          | file t =>
              rw [lives_of_file hi] at h
              cases h
          | directory t content =>
              rw [lives_of_directory hi] at h
              rcases List.mem_cons.mp h with rfl | h
              · exact ⟨l, List.mem_cons_self⟩
              · obtain ⟨l', hl'⟩ := ih h
                exact ⟨l', List.mem_cons_of_mem _ hl'⟩

theorem Valid.lives (hv : Valid H) (n : String) : Valid (lives n H) := by
  induction H with
  | nil => exact True.intro
  | cons x H ih =>
      obtain ⟨now, l⟩ := x
      cases hi : l.lookup n with
      | none =>
          rw [lives_of_missing hi]
          exact True.intro
      | some i =>
          cases i with
          | file t =>
              rw [lives_of_file hi]
              exact True.intro
          | directory t content =>
              rw [lives_of_directory hi]
              refine ⟨ordered_of_lookup hv.1 hi, hv.2.1, fun r hr => ?_, ih hv.tail⟩
              obtain ⟨l', hl'⟩ := mem_lives hr
              exact hv.2.2.1 (r.1, l') hl'

/-- The subdirectory under a name is what its own reads have made of it. -/
theorem subdirectory_eq (hv : Valid H) (n : String) :
    (entryAt H n).bind (fun e => e.subdirectory)
      = if lives n H = [] then none else some (observe (lives n H)) := by
  induction H with
  | nil => rfl
  | cons x H ih =>
      obtain ⟨now, l⟩ := x
      have hsub := ih hv.tail
      obtain ⟨b, hturn, _⟩ := turn_observe hv n
      -- what has been read before is what is read on
      have hgetD : ((entryAt H n).bind fun e => e.subdirectory).getD Directory.new
          = observe (lives n H) := by
        rw [hsub]
        by_cases hnil : lives n H = []
        · rw [if_pos hnil, hnil]
          rfl
        · rw [if_neg hnil]
          rfl
      generalize hi : l.lookup n = i at hturn
      generalize entryAt H n = o at hturn hgetD
      generalize entryAt ((now, l) :: H) n = r at hturn ⊢
      cases hturn with
      | newDirectory t content =>
          rw [lives_of_directory hi, if_neg (List.cons_ne_nil _ _), observe, ← hgetD]
          rfl
      | directory e t content =>
          rw [lives_of_directory hi, if_neg (List.cons_ne_nil _ _), observe, ← hgetD]
          rfl
      | newFile | fileChanged | fileAging | fileAged | fileSame =>
          rw [lives_of_file hi]
          rfl
      | removed e hs | waiting e hs =>
          rw [lives_of_missing hi]
          exact hs
      | erasedFile | erasedDirectory | absent =>
          rw [lives_of_missing hi]
          rfl

theorem observe_lives (hv : Valid H) (he : e ∈ entryAt H n) (hd : d ∈ e.subdirectory) :
    d = observe (lives n H) := by
  have := subdirectory_eq hv n
  rw [Option.mem_def.mp he, Option.bind_some, Option.mem_def.mp hd] at this
  by_cases hnil : lives n H = []
  · rw [if_pos hnil] at this
    cases this
  · rw [if_neg hnil] at this
    exact Option.some.inj this

/-- A change in a subdirectory is one of the directory. -/
theorem changed_of_lives (hv : Valid H) (h : changed (lives n H) = true) : changed H = true := by
  cases H with
  | nil => cases h
  | cons x H =>
      obtain ⟨now, l⟩ := x
      cases hi : l.lookup n with
      | none =>
          rw [lives_of_missing hi] at h
          cases h
      | some i =>
          cases i with
          | file t =>
              rw [lives_of_file hi] at h
              cases h
          | directory t content =>
              rw [lives_of_directory hi, changed] at h
              refine changed_of_changedAt (n := n) hv ?_
              have hsub := subdirectory_eq hv.tail n
              rw [hi]
              cases he : entryAt H n with
              | none => rfl
              | some e =>
                  show (e.subdirectory.isNone ||
                    (DirectoryObserver.read hot now content
                      (e.subdirectory.getD Directory.new)).2) = true
                  rw [he, Option.bind_some] at hsub
                  by_cases hnil : lives n H = []
                  · rw [if_pos hnil] at hsub
                    rw [hsub]
                    rfl
                  · rw [if_neg hnil] at hsub
                    rw [hsub]
                    exact h

/-! ## Files that are listed -/

/-- No directory turns into a file, and a file that comes back while it counts as missing
    has a new time stamp or one it has been shown with. -/
def Calm : History → Prop
  | [] => True
  | (_, l) :: H =>
      (∀ n t, l.lookup n = some (.file t) → ∀ e ∈ entryAt H n,
        e.subdirectory = none ∧ (e.isRemoved = true → e.lastWriteTime = t → Shown H n t)) ∧
      Calm H

/-- What is known of the entry of a file. -/
structure Tracked (H : History) (n : String) (e : Entry Directory) : Prop where
  nonneg : 0 ≤ e.isAgingUntil
  removed : e.isRemoved = true → 0 < e.isAgingUntil
  listed : e.isRemoved = false → Shown H n e.lastWriteTime ∨
    ∃ since, ListedSince H n e.lastWriteTime since ∧ since + fileTimestampDelay ≤ e.isAgingUntil

theorem isAging_eq_false (h : e.isAgingUntil = 0) : e.isAging = false := by
  rw [Entry.isAging, h]
  rfl

theorem fileTimestampDelay_pos : 0 < fileTimestampDelay := by decide

theorem removeDelay_pos : 0 < removeDelay := by decide

/-- A time stamp that is listed once more, or that has been shown, stays so. -/
theorem listed_cons (hi : l.lookup n = some (.file t)) {until_ : Int}
    (h : Shown H n t ∨
      ∃ since, ListedSince H n t since ∧ since + fileTimestampDelay ≤ until_) :
    Shown ((now, l) :: H) n t ∨
      ∃ since, ListedSince ((now, l) :: H) n t since ∧ since + fileTimestampDelay ≤ until_ := by
  rcases h with h | ⟨since, h, hle⟩
  · exact Or.inl (Or.inr h)
  · exact Or.inr ⟨since, ⟨hi, Or.inr h⟩, hle⟩

/-- The entry of a file that is found with its time stamp was tracked, or shown. -/
theorem listed_of_calm (hc : Calm ((now, l) :: H)) (hi : l.lookup n = some (.file t))
    (he : entryAt H n = some e) (ht : e.lastWriteTime = t)
    (htracked : e.subdirectory = none → Tracked H n e) :
    Tracked H n e ∧ (Shown H n t ∨
      ∃ since, ListedSince H n t since ∧ since + fileTimestampDelay ≤ e.isAgingUntil) := by
  obtain ⟨hsub, hback⟩ := hc.1 n t hi e he
  have htr := htracked hsub
  refine ⟨htr, ?_⟩
  cases hr : e.isRemoved with
  | true => exact Or.inl (hback hr ht)
  | false => exact ht ▸ htr.listed hr

theorem tracked_of_calm (hv : Valid H) (hc : Calm H) :
    ∀ n, ∀ e ∈ entryAt H n, e.subdirectory = none → Tracked H n e := by
  induction H with
  | nil =>
      intro n e he
      cases he
  | cons x H ih =>
      obtain ⟨now, l⟩ := x
      intro n e' he' hsub
      have hpos := hv.2.1
      have htracked := ih hv.tail hc.2 n
      have hcalm := hc
      obtain ⟨b, hturn, _⟩ := turn_observe hv n
      have hnow : e'.isAging = false → Shown ((now, l) :: H) n e'.lastWriteTime :=
        fun haging => Or.inl ⟨e', he', hsub, haging, rfl⟩
      rw [Option.mem_def] at he'
      generalize hi : l.lookup n = i at hturn
      generalize ho : entryAt H n = o at hturn
      rw [he'] at hturn
      cases hturn with
      | newFile t =>
          refine ⟨?_, fun h => absurd h Bool.false_ne_true, fun _ => Or.inr ⟨now, ⟨hi, Or.inl rfl⟩, ?_⟩⟩
          · exact le_of_lt (Int.add_pos hpos fileTimestampDelay_pos)
          · exact le_rfl
      | newDirectory => cases hsub
      | fileChanged e t h =>
          refine ⟨?_, fun h => absurd h Bool.false_ne_true, fun _ => Or.inr ⟨now, ⟨hi, Or.inl rfl⟩, ?_⟩⟩
          · exact le_of_lt (Int.add_pos hpos fileTimestampDelay_pos)
          · exact le_rfl
      | fileAging e h =>
          have hl := listed_of_calm hcalm hi ho rfl (htracked e ho)
          exact ⟨hl.1.nonneg, fun h => absurd h Bool.false_ne_true, fun _ => listed_cons hi hl.2⟩
      | fileAged e h h0 =>
          exact ⟨le_rfl, fun h => absurd h Bool.false_ne_true, fun _ => Or.inl (hnow rfl)⟩
      | fileSame e h0 =>
          exact ⟨le_of_eq h0.symm, fun h => absurd h Bool.false_ne_true,
            fun _ => Or.inl (hnow (isAging_eq_false h0))⟩
      | directory => cases hsub
      | removed e hs h =>
          have hlt := Int.add_pos hpos removeDelay_pos
          exact ⟨le_of_lt hlt, fun _ => hlt, fun h => absurd h Bool.noConfusion⟩
      | waiting _ hs h hlt =>
          have htr := htracked e' ho hs
          exact ⟨htr.nonneg, htr.removed, fun hno => absurd (h.symm.trans hno) Bool.noConfusion⟩

/-- A file that is not aging has been shown before, or listed long enough. -/
theorem aged_of_calm (hv : Valid ((now, l) :: H)) (hc : Calm ((now, l) :: H))
    (he' : e' ∈ entryAt ((now, l) :: H) n) (hsub : e'.subdirectory = none)
    (haging : e'.isAging = false) :
    Shown H n e'.lastWriteTime ∨
      ∃ since, ListedSince ((now, l) :: H) n e'.lastWriteTime since ∧
        since + fileTimestampDelay ≤ now := by
  have hpos := hv.2.1
  have htracked := tracked_of_calm hv.tail hc.2 n
  have hzero : ¬0 < e'.isAgingUntil := of_decide_eq_false haging
  obtain ⟨b, hturn, _⟩ := turn_observe hv n
  rw [Option.mem_def] at he'
  generalize hi : l.lookup n = i at hturn
  generalize ho : entryAt H n = o at hturn
  rw [he'] at hturn
  cases hturn with
  | newFile | fileChanged => exact absurd (Int.add_pos hpos fileTimestampDelay_pos) hzero
  | newDirectory | directory => cases hsub
  | fileAging e h => exact absurd (lt_trans hpos h) hzero
  | fileAged e h h0 =>
      rcases (listed_of_calm hc hi ho rfl (htracked e ho)).2 with hs | ⟨since, hs, hle⟩
      · exact Or.inl hs
      · exact Or.inr ⟨since, ⟨hi, Or.inr hs⟩, le_trans hle h⟩
  | fileSame e h0 =>
      -- it was shown already
      have hsub' := (hc.1 n _ hi e ho).1
      cases H with
      | nil => cases ho
      | cons x H => exact Or.inl (Or.inl ⟨e, ho, hsub', isAging_eq_false h0, rfl⟩)
  | removed e hs h => exact absurd (Int.add_pos hpos removeDelay_pos) hzero
  | waiting e hs h hlt => exact absurd (lt_trans hpos hlt) hzero

/-! ## Files that are missing -/

/-- A file that is listed has an entry, which does not count as removed. -/
theorem entry_of_file (hv : Valid H) (hi : itemAt H n = some (.file t)) :
    ∃ e ∈ entryAt H n, e.subdirectory = none ∧ e.isRemoved = false := by
  cases H with
  | nil => cases hi
  | cons x H =>
      obtain ⟨now, l⟩ := x
      obtain ⟨b, hturn, _⟩ := turn_observe hv n
      rw [show l.lookup n = some (.file t) from hi] at hturn
      generalize entryAt H n = o at hturn
      generalize entryAt ((now, l) :: H) n = r at hturn ⊢
      cases hturn with
      | newFile | fileChanged | fileAging | fileAged | fileSame => exact ⟨_, rfl, rfl, rfl⟩

/-- As long as the removal may be a change the entry waits, and then it is erased. -/
theorem missing_spec (hv : Valid ((now, l) :: H)) (h : MissingSince ((now, l) :: H) n since) :
    (∀ e ∈ entryAt ((now, l) :: H) n, e.subdirectory = none ∧ e.isRemoved = true ∧
      e.isAgingUntil = since + removeDelay ∧ now < since + removeDelay) ∧
    (entryAt ((now, l) :: H) n = none → since + removeDelay ≤ now) := by
  induction H generalizing now l with
  | nil =>
      obtain ⟨_, ⟨_, _, hi⟩ | h⟩ := h
      · cases hi
      · cases h
  | cons x H ih =>
      obtain ⟨hnone, hor⟩ := h
      obtain ⟨b, hturn, _⟩ := turn_observe hv n
      rw [hnone] at hturn
      rcases hor with ⟨rfl, t, hi⟩ | hmissing
      · -- the first read without it
        obtain ⟨e, he, hsub, hrem⟩ := entry_of_file hv.tail hi
        rw [Option.mem_def.mp he] at hturn
        generalize entryAt ((now, l) :: x :: H) n = r at hturn ⊢
        cases hturn with
        | removed =>
            refine ⟨?_, fun h => absurd h (Option.some_ne_none _)⟩
            rintro _ ⟨⟩
            exact ⟨hsub, rfl, rfl, Int.lt_add_of_pos_right now removeDelay_pos⟩
        | waiting _ _ h => exact absurd (hrem.symm.trans h) Bool.false_ne_true
        | erasedFile _ _ h => exact absurd (hrem.symm.trans h) Bool.false_ne_true
        | erasedDirectory _ h =>
            rw [hsub] at h
            cases h
      · obtain ⟨hsome, hnone⟩ := ih hv.tail hmissing
        generalize ho : entryAt (x :: H) n = o at hturn hsome hnone
        generalize entryAt ((now, l) :: x :: H) n = r at hturn ⊢
        cases hturn with
        | removed e hs h => exact absurd ((hsome e rfl).2.1.symm.trans h) Bool.noConfusion
        | waiting e hs h hlt =>
            refine ⟨?_, fun h => absurd h (Option.some_ne_none _)⟩
            rintro _ ⟨⟩
            obtain ⟨h1, h2, h3, _⟩ := hsome e rfl
            exact ⟨h1, h2, h3, h3 ▸ hlt⟩
        | erasedFile e hs h hle =>
            refine ⟨fun _ he => ?_, fun _ => (hsome e rfl).2.2.1 ▸ hle⟩
            cases he
        | erasedDirectory e h =>
            rw [(hsome e rfl).1] at h
            cases h
        | absent =>
            refine ⟨fun _ he => ?_, fun _ => le_trans (hnone rfl) (hv.2.2.1 x List.mem_cons_self)⟩
            cases he

/-! ## What is announced -/

theorem changed_of_added (hv : Valid ((now, l) :: H)) (ho : entryAt H n = none)
    (he : e ∈ entryAt ((now, l) :: H) n) (hs : e.subdirectory.isSome = true) :
    changed ((now, l) :: H) = true := by
  obtain ⟨b, hturn, hb⟩ := turn_observe hv n
  rw [ho, Option.mem_def.mp he] at hturn
  generalize l.lookup n = i at hturn
  cases hturn with
  | newFile => cases hs
  | newDirectory => exact hb rfl

theorem changed_of_gone (hv : Valid ((now, l) :: H)) (he : e ∈ entryAt H n)
    (hr : entryAt ((now, l) :: H) n = none) : changed ((now, l) :: H) = true := by
  obtain ⟨b, hturn, hb⟩ := turn_observe hv n
  rw [hr, Option.mem_def.mp he] at hturn
  generalize l.lookup n = i at hturn
  cases hturn with
  | erasedFile => exact hb rfl
  | erasedDirectory => exact hb rfl

/-- A file that turns into a directory is announced; a directory does not turn into a
    file. -/
theorem changed_of_turned (hv : Valid ((now, l) :: H)) (hc : Calm ((now, l) :: H))
    (he : e ∈ entryAt H n) (he' : e' ∈ entryAt ((now, l) :: H) n)
    (hne : e.subdirectory.isSome ≠ e'.subdirectory.isSome) : changed ((now, l) :: H) = true := by
  obtain ⟨b, hturn, hb⟩ := turn_observe hv n
  have hfile : ∀ t, l.lookup n = some (.file t) → e.subdirectory = none :=
    fun t hi => (hc.1 n t hi e he).1
  rw [Option.mem_def.mp he, Option.mem_def.mp he'] at hturn
  generalize hi : l.lookup n = i at hturn
  cases hturn with
  | fileChanged | fileAging | fileAged | fileSame =>
      rw [hfile _ hi] at hne
      exact absurd rfl hne
  | directory _ t content =>
      refine hb ?_
      cases hs : e.subdirectory with
      | none => rfl
      | some d =>
          rw [hs] at hne
          exact absurd rfl hne
  | removed => exact absurd rfl hne
  | waiting => exact absurd rfl hne

/-- A time stamp that is shown and is not the one shown last is announced. -/
theorem changed_of_shown (hv : Valid ((now, l) :: H)) (hc : Calm ((now, l) :: H))
    (he' : e' ∈ entryAt ((now, l) :: H) n) (hsub : e'.subdirectory = none)
    (haging : e'.isAging = false) (hne : lastShown H n ≠ some e'.lastWriteTime) :
    changed ((now, l) :: H) = true := by
  have hpos := hv.2.1
  have hzero : ¬0 < e'.isAgingUntil := of_decide_eq_false haging
  obtain ⟨b, hturn, hb⟩ := turn_observe hv n
  rw [Option.mem_def.mp he'] at hturn
  generalize hi : l.lookup n = i at hturn
  generalize ho : entryAt H n = o at hturn
  cases hturn with
  | newFile | fileChanged => exact absurd (Int.add_pos hpos fileTimestampDelay_pos) hzero
  | newDirectory => cases hsub
  | directory => cases hsub
  | fileAging e h => exact absurd (lt_trans hpos h) hzero
  | fileAged => exact hb rfl
  | fileSame e h0 =>
      have hs := (hc.1 n _ hi e ho).1
      cases H with
      | nil => cases ho
      | cons x H =>
          have hlast : lastShown (x :: H) n = some e.lastWriteTime := by
            rw [lastShown, ho, Option.bind_some, hs, if_neg (by decide),
              if_neg (by rw [isAging_eq_false h0]; decide)]
          exact absurd hlast hne
  | removed e hs h => exact absurd (Int.add_pos hpos removeDelay_pos) hzero
  | waiting e hs h hlt => exact absurd (lt_trans hpos hlt) hzero

/-! ## Every directory of the tree -/

/-- After a read of the directory, with `H` its reads before. -/
structure Correct (now : Int) (l : Listing) (H : History) : Prop where
  sorted : Sorted (observe ((now, l) :: H)).orderedList
  contains : ∀ n ∈ l.names, ∃ e, entryAt ((now, l) :: H) n = some e
  aged : ∀ n, ∀ e ∈ entryAt ((now, l) :: H) n, e.subdirectory = none → e.isAging = false →
    Shown H n e.lastWriteTime ∨
      ∃ since, ListedSince ((now, l) :: H) n e.lastWriteTime since ∧
        since + fileTimestampDelay ≤ now
  kept : ∀ n since, MissingSince ((now, l) :: H) n since → now < since + removeDelay →
    ∃ e, entryAt ((now, l) :: H) n = some e
  erased : ∀ n since, MissingSince ((now, l) :: H) n since → since + removeDelay ≤ now →
    entryAt ((now, l) :: H) n = none
  added : ∀ n, entryAt H n = none → ∀ e ∈ entryAt ((now, l) :: H) n,
    e.subdirectory.isSome = true → changed ((now, l) :: H) = true
  gone : ∀ n, ∀ e ∈ entryAt H n, entryAt ((now, l) :: H) n = none →
    changed ((now, l) :: H) = true
  turned : ∀ n, ∀ e ∈ entryAt H n, ∀ e' ∈ entryAt ((now, l) :: H) n,
    e.subdirectory.isSome ≠ e'.subdirectory.isSome → changed ((now, l) :: H) = true
  shown : ∀ n, ∀ e ∈ entryAt ((now, l) :: H) n, e.subdirectory = none → e.isAging = false →
    lastShown H n ≠ some e.lastWriteTime → changed ((now, l) :: H) = true
  version : changed ((now, l) :: H) = true →
    (observe H).version < (observe ((now, l) :: H)).version
  /-- A subdirectory is what its reads have made of it, and its changes are announced
      upwards. -/
  subdirectories : ∀ n, ∀ e ∈ entryAt ((now, l) :: H) n, ∀ d ∈ e.subdirectory,
    d = observe (lives n ((now, l) :: H)) ∧
      (changed (lives n ((now, l) :: H)) = true → changed ((now, l) :: H) = true)

/-- The reads of the directories in the tree below one that has been read. -/
inductive Within (H : History) : History → Prop where
  | root : Within H H
  | subdirectory {K : History} (n : String) : Within H K → Within H (lives n K)

theorem Within.valid (hw : Within H K) (hv : Valid H) : Valid K := by
  induction hw with
  | root => exact hv
  | subdirectory n _ ih => exact ih.lives n

/-- What is listed gets an entry. -/
theorem entry_of_listed (hv : Valid ((now, l) :: H)) (hn : n ∈ l.names) :
    ∃ e, entryAt ((now, l) :: H) n = some e := by
  have hsome := lookup_isSome.mpr hn
  obtain ⟨b, hturn, _⟩ := turn_observe hv n
  generalize hi : l.lookup n = i at hturn hsome
  generalize entryAt H n = o at hturn
  generalize entryAt ((now, l) :: H) n = r at hturn ⊢
  cases hturn with
  | removed | waiting | erasedFile | erasedDirectory | absent => cases hsome
  | _ => exact ⟨_, rfl⟩

/-- Every directory of the tree, after every read, if no directory has turned into a file
    and no file has come back too early. -/
theorem correct_of_calm (hv : Valid H) (hw : Within H ((now, l) :: K))
    (hc : Calm ((now, l) :: K)) : Correct now l K := by
  have hk := hw.valid hv
  constructor
  · exact sorted_observe hk
  · exact fun n hn => entry_of_listed hk hn
  · exact fun n e he => aged_of_calm hk hc he
  · intro n since hm hlt
    cases he : entryAt ((now, l) :: K) n with
    | some e => exact ⟨e, rfl⟩
    | none => exact absurd hlt (not_lt_of_ge ((missing_spec hk hm).2 he))
  · intro n since hm hle
    cases he : entryAt ((now, l) :: K) n with
    | none => rfl
    | some e => exact absurd hle (not_le_of_gt ((missing_spec hk hm).1 e he).2.2.2)
  · exact fun n ho e he hs => changed_of_added hk ho he hs
  · exact fun n e he hr => changed_of_gone hk he hr
  · exact fun n e he e' he' hne => changed_of_turned hk hc he he' hne
  · exact fun n e he hs ha hne => changed_of_shown hk hc he hs ha hne
  · intro h
    rw [version_observe hk, if_pos h]
    exact Nat.lt_succ_self _
  · exact fun n e he d hd => ⟨observe_lives hk he hd, changed_of_lives hk⟩

/-! ## Closed histories -/

/-- The listing with the one file. -/
def fileF : Listing := .file "f" 1 .nil

def directoryF : Listing := .directory "f" 2 .nil .nil

/-- A file that is listed for four seconds. -/
def listedFile : History := [(14 * second, fileF), (10 * second, fileF)]

theorem lookup_fileF (h : fileF.lookup n = some (.file t)) : n = "f" := by
  rw [fileF, lookup] at h
  by_cases hn : "f" = n
  · exact hn.symm
  · rw [if_neg hn] at h
    cases h

theorem listedFile_valid : Valid listedFile := by
  refine ⟨⟨fun _ h => absurd h List.not_mem_nil, True.intro⟩, by decide, ?_,
    ⟨fun _ h => absurd h List.not_mem_nil, True.intro⟩, by decide,
    fun _ h => absurd h List.not_mem_nil, True.intro⟩
  intro r hr
  rw [List.mem_singleton.mp hr]
  decide

theorem listedFile_calm : Calm listedFile := by
  refine ⟨fun n t hi e he => ?_, fun n t hi e he => ?_, True.intro⟩
  · rw [lookup_fileF hi] at he
    have hentry : entryAt [(10 * second, fileF)] "f"
        = some ⟨"f", 1, none, 10 * second + fileTimestampDelay, false, 1⟩ := rfl
    rw [hentry] at he
    cases he
    exact ⟨rfl, fun h => absurd h Bool.false_ne_true⟩
  · cases he

/-- The file is shown after four seconds, and that is announced. -/
theorem correct_of_calm_listedFile :
    changed listedFile = true ∧ Correct (14 * second) fileF [(10 * second, fileF)] :=
  ⟨rfl, correct_of_calm listedFile_valid Within.root listedFile_calm⟩

/-- The file becomes a directory and the same file again. -/
def turnedBack : History :=
  [(40 * second, fileF), (30 * second, directoryF), (20 * second, fileF), (10 * second, fileF)]

theorem turnedBack_valid : Valid turnedBack := by
  have hf : fileF.Ordered := ⟨fun _ h => absurd h List.not_mem_nil, True.intro⟩
  have hd : directoryF.Ordered :=
    ⟨fun _ h => absurd h List.not_mem_nil, True.intro, True.intro⟩
  exact ⟨hf, by decide, by decide, hd, by decide, by decide, hf, by decide, by decide, hf,
    by decide, by decide, True.intro⟩

/-- Nothing is announced when the directory has become the file again. -/
theorem turnedBack_unannounced :
    ¬∀ H now l K, Valid H → Within H ((now, l) :: K) → Correct now l K := by
  intro h
  have hcorrect := h turnedBack _ _ _ turnedBack_valid Within.root
  have hturned := hcorrect.turned "f" _ rfl _ rfl (by decide)
  revert hturned
  decide

end HotFolder
