import SchedulerEngine.DirectoryCloneProofs

/-! # What merging makes of two directories

    The run of `merge_new_entries` in the memory is the merge of the forests: each step
    of the program turns the entries of the directory into other ones, and nothing
    outside their footprint changes. -/

namespace DirectoryMerge

open Execution NamedForest

/-- A file hidden by an entry is recorded in it, but not while it is aging. -/
def hide (my other : Data) : Data :=
  if other.isAging then my else { my with duplicateVersion := other.version }

theorem hide_name (my other : Data) : (hide my other).name = my.name := by
  unfold hide
  split
  · rfl
  · rfl

/-! ## Entries of a forest -/

/-- The first entry, and the others. -/
theorem Holds.uncons {m : Memory} {f : Forest Data} {e : Entry} {es : List Entry} {fp : Set Ref}
    (h : Holds m f (e :: es) fp) :
    ∃ a g fa fg, f = a.append g ∧ a.names Data.name = [e.name] ∧ Holds m a [e] fa ∧
      Holds m g es fg ∧ Disjoint fa fg ∧ fp = fa ∪ fg := by
  cases h with
  | @leaf d rest _ g h =>
      refine ⟨.leaf d .nil, rest, ∅, fp, rfl, rfl, .leaf d .nil, h, ?_, ?_⟩
      · exact Set.disjoint_left.mpr fun x hx _ => hx.elim
      · exact (Set.empty_union _).symm
  | @node d sub rest r _ f g hname h1 h2 hf hg hfg =>
      have hd : Disjoint f (∅ : Set Ref) := Set.disjoint_left.mpr fun x _ hx => hx.elim
      refine ⟨.node d sub .nil, rest, insert r (f ∪ ∅), g, rfl, rfl,
        .node d hname h1 .nil hf (Set.notMem_empty r) hd, h2, ?_, ?_⟩
      · rw [Set.union_empty]
        exact Set.disjoint_insert_left.mpr ⟨hg, hfg⟩
      · rw [Set.union_empty, Set.insert_union]

/-- An entry by itself is cloned. -/
theorem cloneEntry_of {n : Nat} {a : Forest Data} (hn : a.depth ≤ n) {m : Memory} {o : Entry}
    {fa : Set Ref} (p : Option Ref) (h : Holds m a [o] fa) (hin : ∀ q ∈ fa, q < m.next) :
    ∃ c m' fa', cloneEntry (clone2 n) p o m = (.ok c, m') ∧ Cloned m p a [c] m' fa' := by
  obtain ⟨es', m', fa', hrun, hc⟩ := clonesAt a n hn m [o] fa p h hin
  rw [cloneEntries, bind_run] at hrun
  rcases hm : cloneEntry (clone2 n) p o m with ⟨r, m1⟩
  rw [hm] at hrun
  cases r with
  | error e => cases hrun
  | ok c =>
      cases hrun
      exact ⟨c, m', fa', rfl, hc⟩

/-! ## Turning entries into others -/

/-- The entries `es` of the directory `this` have become `es'`, which are the forest `f`. -/
structure Turned (this : Ref) (m : Memory) (es : List Entry) (fp : Set Ref) (f : Forest Data)
    (m' : Memory) (es' : List Entry) (fp' : Set Ref) : Prop where
  ext : Extends fp m m'
  holds : Holds m' f es' fp'
  inside : ∀ r ∈ fp', r ∈ fp ∨ (m.next ≤ r ∧ r < m'.next)
  parents : ∀ S, some this ∈ S → ParentsIn m S es → ParentsIn m' S es'

theorem Turned.refl (this : Ref) {m : Memory} {es : List Entry} {fp : Set Ref} {f : Forest Data}
    (h : Holds m f es fp) : Turned this m es fp f m es fp :=
  ⟨Extends.refl _ _, h, fun _ hr => .inl hr, fun _ _ h => h⟩

variable {this : Ref} {m m' m'' : Memory} {es es' es'' : List Entry} {fp fp' fp'' : Set Ref}
  {f f' : Forest Data}

theorem Turned.old (h : Turned this m es fp f m' es' fp') : ∀ r < m.next, r ∈ fp' → r ∈ fp :=
  fun r hr hm => (h.inside r hm).elim id fun hn => absurd hr (not_lt.mpr hn.1)

theorem Turned.allocated (h : Turned this m es fp f m' es' fp') (hin : ∀ r ∈ fp, r < m.next) :
    ∀ r ∈ fp', r < m'.next :=
  fun r hm => (h.inside r hm).elim (fun hr => lt_of_lt_of_le (hin r hr) h.ext.next) And.right

theorem Turned.trans (h : Turned this m es fp f m' es' fp')
    (h' : Turned this m' es' fp' f' m'' es'' fp'') : Turned this m es fp f' m'' es'' fp'' := by
  refine ⟨h.ext.trans h'.ext h.old, h'.holds, fun r hr => ?_, fun S hS hp => ?_⟩
  · rcases h'.inside r hr with hr | ⟨h1, h2⟩
    · exact (h.inside r hr).imp id fun hn => ⟨hn.1, lt_of_lt_of_le hn.2 h'.ext.next⟩
    · exact .inr ⟨le_trans h.ext.next h1, h2⟩
  · exact h'.parents S hS (h.parents S hS hp)

theorem ParentsIn.append {S : Set (Option Ref)} {as : List Entry} (h : ParentsIn m S as)
    (h' : ParentsIn m S es) : ParentsIn m S (as ++ es) :=
  fun e he => (List.mem_append.mp he).elim (h e) (h' e)

/-- With entries in front of them that stay. -/
theorem Turned.behind {a : Forest Data} {as : List Entry} {fa : Set Ref} (ha : Holds m a as fa)
    (hin : ∀ r ∈ fa, r < m.next) (hd : Disjoint fa fp) (h : Turned this m es fp f m' es' fp') :
    Turned this m (as ++ es) (fa ∪ fp) (a.append f) m' (as ++ es') (fa ∪ fp') := by
  have apart : ∀ r ∈ fa, r ∉ fp := fun r hr hm => Set.disjoint_left.mp hd hr hm
  have same : ∀ r ∈ fa, m'.dir r = m.dir r := fun r hr => h.ext.same r (hin r hr) (apart r hr)
  refine ⟨h.ext.mono Set.subset_union_right, (ha.frame same).append h.holds ?_, ?_, ?_⟩
  · exact Set.disjoint_left.mpr fun r hr hm => apart r hr (h.old r (hin r hr) hm)
  · rintro r (hr | hr)
    · exact .inl (.inl hr)
    · exact (h.inside r hr).imp .inr id
  · intro S hS hp
    refine ParentsIn.append ?_ (h.parents S hS fun e he => hp e (List.mem_append_right _ he))
    refine ParentsIn.ext (fun e he => hp e (List.mem_append_left _ he)) h.ext fun e he r hr => ?_
    exact hin r (ha.subdirectory_mem e he r hr)

/-- With a clone put in front of them before. -/
theorem Turned.insert {a : Forest Data} {as : List Entry} {fa : Set Ref}
    (hc : Cloned m (some this) a as m' fa) (hin : ∀ r ∈ fp, r < m.next)
    (h : Turned this m' es fp f m'' es' fp') (hes : Holds m f' es fp) :
    Turned this m es fp (a.append f) m'' (as ++ es') (fa ∪ fp') := by
  have new : ∀ r ∈ fa, r ∉ fp := fun r hr hm =>
    absurd (hin r hm) (not_lt.mpr (hc.fresh r hr).1)
  have same : ∀ r ∈ fa, m''.dir r = m'.dir r :=
    fun r hr => h.ext.same r (hc.fresh r hr).2 (new r hr)
  refine ⟨(hc.ext.mono (Set.empty_subset _)).trans h.ext fun r _ hr => hr,
    (hc.holds.frame same).append h.holds ?_, ?_, ?_⟩
  · exact Set.disjoint_left.mpr fun r hr hm => new r hr (h.old r (hc.fresh r hr).2 hm)
  · rintro r (hr | hr)
    · exact .inr ⟨(hc.fresh r hr).1, lt_of_lt_of_le (hc.fresh r hr).2 h.ext.next⟩
    · exact (h.inside r hr).imp id fun hn => ⟨le_trans hc.ext.next hn.1, hn.2⟩
  · intro S hS hp
    have own : ∀ e ∈ es, ∀ r, e.subdirectory = some r → r < m.next :=
      fun e he r hr => hin r (hes.subdirectory_mem e he r hr)
    refine ParentsIn.append ?_ (h.parents S hS (hp.ext hc.ext own))
    intro e he r hr
    rw [h.ext.parent r (hc.fresh r (hc.holds.subdirectory_mem e he r hr)).2,
      Set.mem_singleton_iff.mp (hc.parents e he r hr)]
    exact hS

/-- In the place of an entry. -/
theorem Turned.drop {e : Entry} (h : Turned this m es fp f m' es' fp') :
    Turned this m (e :: es) fp f m' es' fp' :=
  ⟨h.ext, h.holds, h.inside,
    fun S hS hp => h.parents S hS fun e he => hp e (List.mem_cons_of_mem _ he)⟩

/-! ## The loop -/

/-- The directories of the other tree are those below `m₀.next`. -/
def Own (m₀ m : Memory) (fp : Set Ref) : Prop := ∀ r ∈ fp, m₀.next ≤ r ∧ r < m.next

theorem Own.lt {m₀ : Memory} (h : Own m₀ m fp) : ∀ r ∈ fp, r < m.next := fun r hr => (h r hr).2

theorem Turned.own {m₀ : Memory} (h : Turned this m es fp f m' es' fp') (h₀ : Extends ∅ m₀ m)
    (ho : Own m₀ m fp) : Own m₀ m' fp' := by
  intro r hr
  rcases h.inside r hr with h1 | ⟨h1, h2⟩
  · exact ⟨(ho r h1).1, lt_of_lt_of_le (ho r h1).2 h.ext.next⟩
  · exact ⟨le_trans h₀.next h1, h2⟩

theorem Turned.keeps {m₀ : Memory} (h : Turned this m es fp f m' es' fp') (h₀ : Extends ∅ m₀ m)
    (ho : Own m₀ m fp) : Extends ∅ m₀ m' :=
  h₀.trans h.ext fun r hr hm => absurd (ho r hm).1 (not_le.mpr hr)

/-- Wherever the other tree is, the entries are turned as `g` says. -/
def Does (m₀ : Memory) (this : Ref) (next : List Entry → Program (List Entry))
    (g : Forest Data → Forest Data) : Prop :=
  ∀ m f es fp, Extends ∅ m₀ m → Holds m f es fp → Own m₀ m fp →
    ∃ m' es' fp', next es m = (.ok es', m') ∧ Turned this m es fp (g f) m' es' fp'

/-- The entries of the other directory are merged into any entries. -/
def MergesAt (n : Nat) (other : Forest Data) : Prop :=
  ∀ m₀ this os fo, Holds m₀ other os fo → (∀ r ∈ fo, r < m₀.next) →
    Does m₀ this (mergeEntries (clone2 n) (mergeNewEntries n) this os)
      (other.merge Data.name hide)

section Entry

variable {m₀ : Memory} {n : Nat} {o : Entry} {next : List Entry → Program (List Entry)}
  {clone2 : Ref → Option Ref → Program Ref} {mergeNewEntries : Ref → Ref → Program Unit}
  {same absent : Forest Data → Forest Data}

/-- What is done where there is an entry of the name, -/
def DoesSame (m₀ : Memory) (this : Ref) (o : Entry) (step : Entry → List Entry → Program (List Entry))
    (same : Forest Data → Forest Data) : Prop :=
  ∀ m f my es fp, Extends ∅ m₀ m → Holds m f (my :: es) fp → Own m₀ m fp → my.name = o.name →
    ∃ m' es' fp', step my es m = (.ok es', m') ∧ Turned this m (my :: es) fp (same f) m' es' fp'

/-- By induction on the entries that are gone past. -/
theorem mergeEntry_does
    (hsame : DoesSame m₀ this o (fun my mys => do
      let my ← meet clone2 mergeNewEntries this o my
      next (my :: mys)) same)
    (habsent : Does m₀ this (fun mys => do
      let c ← cloneEntry clone2 (some this) o
      let rest ← next mys
      pure (c :: rest)) absent) :
    Does m₀ this (mergeEntry clone2 mergeNewEntries this o next)
      (Forest.walk Data.name o.name same absent) := by
  intro m f es
  induction es generalizing f with
  | nil =>
      intro fp h₀ h ho
      have hf : f = .nil := by
        cases h
        rfl
      rw [hf] at h ⊢
      exact habsent m .nil [] fp h₀ h ho
  | cons my mys ih =>
      intro fp h₀ h ho
      obtain ⟨a, g, fa, fg, hf, hn, ha, hg, hd, hfp⟩ := h.uncons
      have hnames : f.names Data.name = my.name :: g.names Data.name := by
        rw [hf, names_append, hn]
        rfl
      by_cases hlt : my.name < o.name
      · rw [hfp] at ho
        obtain ⟨m', es', fp', hrun, ht⟩ := ih g fg h₀ hg fun r hr => ho r (.inr hr)
        have hpast : ∀ x ∈ a.names Data.name, x < o.name := by
          rw [hn]
          intro x hx
          rw [List.mem_singleton.mp hx]
          exact hlt
        refine ⟨m', my :: es', fa ∪ fp', ?_, ?_⟩
        · rw [mergeEntry, if_pos hlt, bind_run, hrun]
          rfl
        · rw [hf, walk_append same absent g hpast, hfp]
          exact ht.behind ha (fun r hr => (ho r (.inl hr)).2) hd
      · by_cases heq : my.name = o.name
        · rw [walk_same same absent (heq ▸ hnames), mergeEntry, if_neg hlt, if_pos heq]
          exact hsame m f my mys fp h₀ h ho heq
        · rw [walk_absent same absent hnames hlt heq, mergeEntry, if_neg hlt, if_neg heq]
          exact habsent m f (my :: mys) fp h₀ h ho

/-- The clone of an entry of the other directory is put before the others. -/
theorem insert_does {a : Forest Data} {fa : Set Ref} {g : Forest Data → Forest Data}
    (ha : Holds m₀ a [o] fa) (hin : ∀ r ∈ fa, r < m₀.next) (hn : a.depth ≤ n)
    (hnext : Does m₀ this next g) :
    Does m₀ this (fun mys => do
      let c ← cloneEntry (DirectoryMerge.clone2 n) (some this) o
      let rest ← next mys
      pure (c :: rest)) (fun f => a.append (g f)) := by
  intro m f es fp h₀ h ho
  have keep : ∀ r ∈ fa, m.dir r = m₀.dir r :=
    fun r hr => h₀.same r (hin r hr) (Set.notMem_empty r)
  obtain ⟨c, m1, fc, hrun, hc⟩ := cloneEntry_of hn (some this) (ha.frame keep)
    fun r hr => lt_of_lt_of_le (hin r hr) h₀.next
  have h1 := h.frame fun r hr => hc.ext.same r (ho r hr).2 (Set.notMem_empty r)
  obtain ⟨m2, es', fp', hrun2, ht⟩ := hnext m1 f es fp (h₀.trans hc.ext fun _ _ hr => hr) h1
    fun r hr => ⟨(ho r hr).1, lt_of_lt_of_le (ho r hr).2 hc.ext.next⟩
  refine ⟨m2, c :: es', fc ∪ fp', ?_, Turned.insert hc ho.lt ht h⟩
  show (cloneEntry (DirectoryMerge.clone2 n) (some this) o >>= fun c =>
    next es >>= fun rest => pure (c :: rest)) m = _
  rw [bind_run, hrun]
  show (next es >>= fun rest => pure (c :: rest)) m1 = _
  rw [bind_run, hrun2]
  rfl

/-- The entry of the name is changed, and then goes the rest. -/
theorem same_does {change g : Forest Data → Forest Data}
    (hmeet : ∀ m f my es fp, Extends ∅ m₀ m → Holds m f (my :: es) fp → Own m₀ m fp →
      ∃ my' m' fp', meet clone2 mergeNewEntries this o my m = (.ok my', m') ∧
        Turned this m (my :: es) fp (change f) m' (my' :: es) fp')
    (hnext : Does m₀ this next g) :
    DoesSame m₀ this o (fun my mys => do
      let my ← meet clone2 mergeNewEntries this o my
      next (my :: mys)) (fun f => g (change f)) := by
  intro m f my es fp h₀ h ho _
  obtain ⟨my', m1, fp1, hrun, ht⟩ := hmeet m f my es fp h₀ h ho
  obtain ⟨m2, es', fp', hrun2, ht2⟩ := hnext m1 (change f) (my' :: es) fp1 (ht.keeps h₀ ho) ht.holds
    (ht.own h₀ ho)
  refine ⟨m2, es', fp', ?_, ht.trans ht2⟩
  show (meet clone2 mergeNewEntries this o my >>= fun my => next (my :: es)) m = _
  rw [bind_run, hrun]
  exact hrun2

/-- A file meets an entry. -/
theorem meet_file {d : Data} {my : Entry} (h : Holds m f (my :: es) fp) :
    ∃ my' m' fp', meet clone2 mergeNewEntries this ⟨d, none⟩ my m = (.ok my', m') ∧
      Turned this m (my :: es) fp (f.hideAtHead hide d) m' (my' :: es) fp' := by
  refine ⟨⟨hide my.toData d, my.subdirectory⟩, m, fp, ?_, Extends.refl _ _, ?_, fun _ hr => .inl hr, ?_⟩
  · rw [meet, hide]
    by_cases hd : d.isAging
    · rw [if_pos hd, if_pos hd]
      rfl
    · rw [if_neg hd, if_neg hd]
      rfl
  · cases h with
    | leaf e h => exact .leaf _ h
    | node e hname h1 h2 hf hg hfg => exact .node _ (by rw [hname, hide_name]) h1 h2 hf hg hfg
  · intro S _ hp e he r hr
    rcases List.mem_cons.mp he with rfl | he
    · exact hp my (List.mem_cons_self ..) r hr
    · exact hp e (List.mem_cons_of_mem _ he) r hr

/-- Two directories are merged: below the first one everything is turned. -/
structure MergedDir (m : Memory) (this : Ref) (fp : Set Ref) (f : Forest Data) (m' : Memory)
    (fp' : Set Ref) : Prop where
  ext : Extends (insert this fp) m m'
  holds : Holds m' f (m'.dir this).orderedList fp'
  inside : ∀ r ∈ fp', r ∈ fp ∨ (m.next ≤ r ∧ r < m'.next)
  parents : ∀ S, some this ∈ S → ParentsIn m S (m.dir this).orderedList →
    ParentsIn m' S (m'.dir this).orderedList

theorem mergeNewEntries_of {other : Ref} {g : Forest Data} {fo : Set Ref} (hmerges : MergesAt n g)
    (hother : Holds m₀ g (m₀.dir other).orderedList fo) (hin : ∀ r ∈ fo, r < m₀.next)
    (hlt : other < m₀.next) (h₀ : Extends ∅ m₀ m) (h : Holds m f (m.dir this).orderedList fp)
    (ho : Own m₀ m fp) (hthis : this < m.next) (hapart : this ∉ fp) :
    ∃ m' fp', DirectoryMerge.mergeNewEntries (n + 1) this other m = (.ok (), m') ∧
      MergedDir m this fp (g.merge Data.name hide f) m' fp' := by
  have hkeep : (m.dir other).orderedList = (m₀.dir other).orderedList := by
    rw [h₀.same other hlt (Set.notMem_empty other)]
  obtain ⟨m1, es', fp', hrun, ht⟩ :=
    hmerges m₀ this _ fo hother hin m f _ fp h₀ h ho
  have hnew : this ∉ fp' := fun hm => hapart (ht.old this hthis hm)
  have hput := extends_put (m := m1) es' (Set.mem_singleton this)
  refine ⟨m1.put this { m1.dir this with orderedList := es' }, fp', ?_, ?_, ?_, ht.inside, ?_⟩
  · simp only [DirectoryMerge.mergeNewEntries, bind_run, get_run]
    rw [hkeep, hrun]
    rfl
  · refine (ht.ext.mono (Set.subset_insert this fp)).trans hput fun r _ hr => ?_
    rw [Set.mem_singleton_iff.mp hr]
    exact Set.mem_insert ..
  · rw [Memory.put_same]
    exact ht.holds.frame fun r hr => Memory.put_other fun he => hnew (he ▸ hr)
  · intro S hS hp
    rw [Memory.put_same]
    exact (ht.parents S hS hp).ext hput fun e he r hr =>
      ht.allocated ho.lt r (ht.holds.subdirectory_mem e he r hr)

/-- A directory meets an entry. -/
theorem meet_directory {d : Data} {other : Ref} {g : Forest Data} {fo : Set Ref} {my : Entry}
    (hclones : ClonesAt n g) (hmerges : MergesAt n g)
    (hname : (m₀.dir other).name = d.name)
    (hother : Holds m₀ g (m₀.dir other).orderedList fo) (hin : ∀ r ∈ fo, r < m₀.next)
    (hlt : other < m₀.next) (h₀ : Extends ∅ m₀ m) (h : Holds m f (my :: es) fp)
    (ho : Own m₀ m fp) :
    ∃ my' m' fp', meet (DirectoryMerge.clone2 (n + 1)) (DirectoryMerge.mergeNewEntries (n + 1)) this
        ⟨d, some other⟩ my m = (.ok my', m') ∧
      Turned this m (my :: es) fp (Forest.mergeAtHead d g (g.merge Data.name hide) f) m'
        (my' :: es) fp' := by
  have keep : ∀ r < m₀.next, m.dir r = m₀.dir r :=
    fun r hr => h₀.same r hr (Set.notMem_empty r)
  cases h with
  | @leaf e rest _ _ h =>
      have hm := hother.frame fun r hr => keep r (hin r hr)
      rw [← keep other hlt] at hm hname
      obtain ⟨r', m', fp', hrun, hc⟩ := clone2_of hclones (some this) hm
        fun r hr => lt_of_lt_of_le (hin r hr) h₀.next
      rw [hname] at hc
      have hold := h.frame fun r hr => hc.ext.same r (ho r hr).2 (Set.notMem_empty r)
      have hone := Cloned.cons hc ⟨Extends.refl _ _, .nil, fun q hq => absurd hq (Set.notMem_empty q),
        fun e he => by cases he⟩
      refine ⟨⟨d, some r'⟩, m', _, ?_, (Turned.insert hone ho.lt (Turned.refl this hold) h).drop⟩
      show (DirectoryMerge.clone2 (n + 1) other (some this) >>= fun s =>
        (pure (⟨d, some s⟩ : Entry) : Program Entry)) m = _
      rw [bind_run, hrun]
      rfl
  | @node e sub rest mine _ f g' hmine h1 h2 hf hg hfg =>
      have hown : m₀.next ≤ mine ∧ mine < m.next := ho mine (Set.mem_insert ..)
      obtain ⟨m', fp', hrun, hc⟩ := mergeNewEntries_of hmerges hother hin hlt h₀ h1
        (fun r hr => ho r (Set.mem_insert_of_mem _ (.inl hr))) hown.2 hf
      have old : ∀ r ∈ fp', r < m.next → r ∈ f :=
        fun r hr hlt => (hc.inside r hr).elim id fun hn => absurd hlt (not_lt.mpr hn.1)
      have hg_lt : ∀ r ∈ g', r < m.next := fun r hr => (ho r (Set.mem_insert_of_mem _ (.inr hr))).2
      have hsame : ∀ r ∈ g', m'.dir r = m.dir r := by
        intro r hr
        refine hc.ext.same r (hg_lt r hr) fun hm => ?_
        rcases Set.mem_insert_iff.mp hm with rfl | hm
        · exact hg hr
        · exact Set.disjoint_left.mp hfg hm hr
      refine ⟨⟨e, some mine⟩, m', insert mine (fp' ∪ g'), ?_, ?_⟩
      · show (DirectoryMerge.mergeNewEntries (n + 1) mine other >>= fun _ =>
          (pure (⟨e, some mine⟩ : Entry) : Program Entry)) m = _
        rw [bind_run, hrun]
        rfl
      · refine ⟨hc.ext.mono (Set.insert_subset_insert Set.subset_union_left), ?_, ?_, ?_⟩
        · refine .node e ?_ hc.holds (h2.frame hsame) ?_ hg ?_
          · rw [hc.ext.name mine hown.2, hmine]
          · exact fun hm => hf (old mine hm hown.2)
          · exact Set.disjoint_left.mpr fun r hr hm =>
              Set.disjoint_left.mp hfg (old r hr (hg_lt r hm)) hm
        · intro r hr
          rcases Set.mem_insert_iff.mp hr with rfl | hr | hr
          · exact .inl (Set.mem_insert ..)
          · exact (hc.inside r hr).imp (fun h => Set.mem_insert_of_mem _ (.inl h)) id
          · exact .inl (Set.mem_insert_of_mem _ (.inr hr))
        · intro S _ hp
          refine hp.ext hc.ext fun x hx r hr => ?_
          rcases List.mem_cons.mp hx with rfl | hx
          · cases hr
            exact hown.2
          · exact hg_lt r (h2.subdirectory_mem x hx r hr)

end Entry

/-- By induction on the forest that is merged in. -/
theorem mergesAt (other : Forest Data) : ∀ n, other.depth ≤ n → MergesAt n other := by
  induction other with
  | nil =>
      intro n _ m₀ this os fo hos _ m f es fp _ h _
      cases hos
      exact ⟨m, es, fp, rfl, Turned.refl this h⟩
  | leaf d rest ih =>
      intro n hn m₀ this os fo hos hin
      cases hos with
      | @leaf _ _ os _ hos =>
          have hnext := ih n hn m₀ this os fo hos hin
          refine mergeEntry_does ?_ ?_
          · exact same_does (fun m f my es fp _ h _ => meet_file h) hnext
          · exact insert_does (a := .leaf d .nil) (.leaf d .nil) (fun r hr => hr.elim) (Nat.zero_le n)
              hnext
  | node d sub rest ih1 ih2 =>
      intro n hn m₀ this os fo hos hin
      cases hos with
      | @node _ _ _ r os f g hname h1 h2 hf hg hfg =>
          obtain ⟨hd, hrest⟩ := max_le_iff.mp hn
          obtain ⟨k, rfl⟩ : ∃ k, n = k + 1 := ⟨n - 1, by omega⟩
          have hr : r < m₀.next := hin r (Set.mem_insert ..)
          have hsub : ∀ q ∈ f, q < m₀.next := fun q hq => hin q (Set.mem_insert_of_mem _ (.inl hq))
          have hnext := ih2 (k + 1) hrest m₀ this os g h2
            fun q hq => hin q (Set.mem_insert_of_mem _ (.inr hq))
          refine mergeEntry_does ?_ ?_
          · exact same_does (fun m f my es fp h₀ h ho => meet_directory (clonesAt sub k (by omega))
              (ih1 k (by omega)) hname h1 hsub hr h₀ h ho) hnext
          · have hone : Holds m₀ (.node d sub .nil) [⟨d, some r⟩] (insert r (f ∪ ∅)) :=
              .node d hname h1 .nil hf (Set.notMem_empty r)
                (Set.disjoint_left.mpr fun x _ hx => hx.elim)
            refine insert_does (a := .node d sub .nil) hone ?_ ?_ hnext
            · rintro q hq
              rcases Set.mem_insert_iff.mp hq with rfl | hq | hq
              · exact hr
              · exact hsub q hq
              · exact hq.elim
            · exact max_le hd (Nat.zero_le _)

/-! ## Cache and live directory -/

/-- A tree of directories: sorted, each directory reached once, and the subdirectories of
    the root refer to it. -/
structure IsTree (m : Memory) (root : Ref) (f : Forest Data) (fp : Set Ref) : Prop where
  holds : Holds m f (m.dir root).orderedList fp
  sorted : f.Sorted Data.name
  allocated : ∀ r ∈ insert root fp, r < m.next
  name : (m.dir root).name = "/"
  parent : (m.dir root).parent = none
  parents : ParentsIn m {some root} (m.dir root).orderedList

/-- What is in the memory after merging. -/
structure MergedTree (m : Memory) (cache live : Ref) (c l : Forest Data) (m' : Memory) (r : Ref)
    (t : Forest Data) (fp : Set Ref) : Prop where
  holds : Holds m' t (m'.dir r).orderedList fp
  sorted : t.Sorted Data.name
  names : ∀ n, n ∈ t.names Data.name ↔ n ∈ c.names Data.name ∨ n ∈ l.names Data.name
  merged : IsMerged Data.name hide c l t
  /-- nothing is shared with the two trees -/
  fresh : ∀ q ∈ insert r fp, m.next ≤ q ∧ q < m'.next
  apart : r ∉ fp
  unchanged : ∀ q < m.next, m'.dir q = m.dir q
  rootPath : ∀ k, path m' (k + 1) r = path m (k + 1) cache
  paths : ∀ e ∈ (m'.dir r).orderedList, ∀ q, e.subdirectory = some q → ∀ root, root = cache ∨ root = live →
    ∀ e₀ ∈ (m.dir root).orderedList, ∀ q₀, e₀.subdirectory = some q₀ → e₀.name = e.name →
      ∀ k, path m' (k + 2) q = path m (k + 2) q₀

/-- Directories have the name of their entry. -/
theorem Holds.name_eq (h : Holds m f es fp) :
    ∀ e ∈ es, ∀ r, e.subdirectory = some r → (m.dir r).name = e.name := by
  induction h with
  | nil =>
      intro e he
      cases he
  | leaf d _ ih =>
      intro e he r hr
      rcases List.mem_cons.mp he with rfl | he
      · cases hr
      · exact ih e he r hr
  | node d hname _ _ _ _ _ _ ih =>
      intro e he r hr
      rcases List.mem_cons.mp he with rfl | he
      · cases hr
        exact hname
      · exact ih e he r hr

theorem path_root (hp : (m.dir this).parent = none) (k : Nat) :
    path m (k + 1) this = absolutePath rootPath (m.dir this).name.toList := by
  rw [path, hp]

theorem rootPath_eq : absolutePath rootPath "/".toList = .ok rootPath := by decide

/-- Directly below the root, and also without a parent, the path is the one of the name
    in the root. -/
theorem path_below {q : Ref} (hn : (m.dir this).name = "/") (hp : (m.dir this).parent = none)
    (hq : (m.dir q).parent = none ∨ (m.dir q).parent = some this) (k : Nat) :
    path m (k + 2) q = absolutePath rootPath (m.dir q).name.toList := by
  rcases hq with hq | hq
  · exact path_root hq (k + 1)
  · rw [path, hq]
    simp only
    rw [path_root hp k, hn, rootPath_eq]
    rfl

/-- Deep enough, the program ends with the merged tree. -/
theorem mergedCacheAndLocalDirectories_merges (n : Nat) {m : Memory} {cache live : Ref}
    {c l : Forest Data} {fc fl : Set Ref} (hc : IsTree m cache c fc) (hl : IsTree m live l fl)
    (hdc : c.depth < n) (hdl : l.depth < n) :
    ∃ r m' t fp, mergedCacheAndLocalDirectories n cache live m = (.ok r, m') ∧
      MergedTree m cache live c l m' r t fp := by
  obtain ⟨k, rfl⟩ : ∃ k, n = k + 1 := ⟨n - 1, by omega⟩
  obtain ⟨r, m1, f1, hrun, hclone⟩ := clone2_of (clonesAt c k (by omega)) none hc.holds
    fun q hq => hc.allocated q (Set.mem_insert_of_mem _ hq)
  obtain ⟨m2, fp, hrun2, hmerged⟩ := mergeNewEntries_of (mergesAt l k (by omega)) hl.holds
    (fun q hq => hl.allocated q (Set.mem_insert_of_mem _ hq))
    (hl.allocated live (Set.mem_insert ..)) hclone.ext hclone.holds hclone.fresh hclone.root.2
    hclone.apart
  have hm := merges_merge hide_name l c hc.sorted hl.sorted
  have hnew : ∀ q ∈ insert r fp, m.next ≤ q ∧ q < m2.next := by
    intro q hq
    rcases Set.mem_insert_iff.mp hq with rfl | hq
    · exact ⟨hclone.root.1, lt_of_lt_of_le hclone.root.2 hmerged.ext.next⟩
    · rcases hmerged.inside q hq with h | ⟨h1, h2⟩
      · exact ⟨(hclone.fresh q h).1, lt_of_lt_of_le (hclone.fresh q h).2 hmerged.ext.next⟩
      · exact ⟨le_trans hclone.ext.next h1, h2⟩
  have hold : Extends ∅ m m2 := hclone.ext.trans hmerged.ext fun q hq hin => by
    rcases Set.mem_insert_iff.mp hin with rfl | hin
    · exact absurd hclone.root.1 (not_le.mpr hq)
    · exact absurd (hclone.fresh q hin).1 (not_le.mpr hq)
  have hparent : (m2.dir r).parent = none := by
    rw [hmerged.ext.parent r hclone.root.2, hclone.parent]
  have hname : (m2.dir r).name = "/" := by
    rw [hmerged.ext.name r hclone.root.2, hclone.name, hc.name]
  refine ⟨r, m2, _, fp, ?_, hmerged.holds, hm.sorted, hm.merged.names, hm.merged, hnew, ?_,
    fun q hq => hold.same q hq (Set.notMem_empty q), ?_, ?_⟩
  · show (clone2 (k + 1) cache none >>= fun result =>
      mergeNewEntries (k + 1) result live >>= fun _ => pure result) m = _
    rw [bind_run, hrun]
    show (mergeNewEntries (k + 1) r live >>= fun _ => pure r) m1 = _
    rw [bind_run, hrun2]
    rfl
  · intro hin
    rcases hmerged.inside r hin with h | ⟨h, _⟩
    · exact hclone.apart h
    · exact absurd hclone.root.2 (not_lt.mpr h)
  · intro j
    rw [path_root hparent, path_root hc.parent, hname, hc.name]
  · intro e he q hq root hroot e₀ he₀ q₀ hq₀ hsame j
    have hparents : ParentsIn m2 {none, some r} (m2.dir r).orderedList := by
      refine hmerged.parents _ (.inr rfl) fun e he q hq => ?_
      exact .inl (hclone.parents e he q hq)
    have htree : IsTree m root (if root = cache then c else l) (if root = cache then fc else fl) := by
      rcases hroot with rfl | rfl
      · rw [if_pos rfl, if_pos rfl]
        exact hc
      · by_cases h : root = cache
        · rw [if_pos h, if_pos h, h]
          exact hc
        · rw [if_neg h, if_neg h]
          exact hl
    rw [path_below hname hparent (hparents e he q hq),
      path_below htree.name htree.parent (.inr (htree.parents e₀ he₀ q₀ hq₀)),
      hmerged.holds.name_eq e he q hq, htree.holds.name_eq e₀ he₀ q₀ hq₀, hsame]

/-! ### Two trees -/

def sampleData (name : String) (origin : ConfigurationOrigin) : Data :=
  ⟨⟨name, 0⟩, 0, false, origin, 1, 0, name⟩

def sampleDirectory (name : String) (parent : Option Ref) (entries : List Entry) : Directory :=
  ⟨name, 0, 0, parent, none, entries⟩

/-- The cache has `a/x` and `c`, the live directory has `a/y` and a directory `c`. -/
def sampleMemory : Memory where
  dir
    | 0 => sampleDirectory "/" none
        [⟨sampleData "a" .confdirCache, some 2⟩, ⟨sampleData "c" .confdirCache, none⟩]
    | 1 => sampleDirectory "/" none
        [⟨sampleData "a" .confdirLocal, some 3⟩, ⟨sampleData "c" .confdirLocal, some 4⟩]
    | 2 => sampleDirectory "a" (some 0) [⟨sampleData "x" .confdirCache, none⟩]
    | 3 => sampleDirectory "a" (some 1) [⟨sampleData "y" .confdirLocal, none⟩]
    | _ => sampleDirectory "c" (some 1) []
  next := 5

def sampleCache : Forest Data :=
  .node (sampleData "a" .confdirCache) (.leaf (sampleData "x" .confdirCache) .nil)
    (.leaf (sampleData "c" .confdirCache) .nil)

def sampleLive : Forest Data :=
  .node (sampleData "a" .confdirLocal) (.leaf (sampleData "y" .confdirLocal) .nil)
    (.node (sampleData "c" .confdirLocal) .nil .nil)

theorem sampleCache_isTree : IsTree sampleMemory 0 sampleCache (insert 2 (∅ ∪ ∅)) := by
  have none_lt : ∀ {n : String}, ∀ x ∈ (Forest.nil : Forest Data).names Data.name, n < x :=
    fun x hx => by cases hx
  refine ⟨?_, ?_, ?_, rfl, rfl, ?_⟩
  · exact .node _ rfl (.leaf _ .nil) (.leaf _ .nil) (Set.notMem_empty _) (Set.notMem_empty _)
      (Set.disjoint_left.mpr fun x hx _ => hx.elim)
  · refine ⟨fun x hx => ?_, ⟨none_lt, trivial⟩, none_lt, trivial⟩
    rw [List.mem_singleton.mp hx]
    decide
  · rintro r (rfl | rfl | hr | hr)
    · decide
    · decide
    · exact hr.elim
    · exact hr.elim
  · intro e he r hr
    rcases List.mem_cons.mp he with rfl | he
    · cases hr
      rfl
    · rw [List.mem_singleton.mp he] at hr
      cases hr

theorem sampleLive_isTree :
    IsTree sampleMemory 1 sampleLive (insert 3 (∅ ∪ insert 4 (∅ ∪ ∅))) := by
  have none_lt : ∀ {n : String}, ∀ x ∈ (Forest.nil : Forest Data).names Data.name, n < x :=
    fun x hx => by cases hx
  have disjoint : ∀ s : Set Ref, Disjoint (∅ : Set Ref) s :=
    fun s => Set.disjoint_left.mpr fun x hx _ => hx.elim
  refine ⟨?_, ?_, ?_, rfl, rfl, ?_⟩
  · refine .node _ rfl (.leaf _ .nil)
      (.node _ rfl .nil .nil (Set.notMem_empty _) (Set.notMem_empty _) (disjoint _))
      (Set.notMem_empty _) ?_ (disjoint _)
    rintro (h | h | h)
    · cases h
    · exact h
    · exact h
  · refine ⟨fun x hx => ?_, ⟨none_lt, trivial⟩, none_lt, trivial, trivial⟩
    rw [List.mem_singleton.mp hx]
    decide
  · rintro r (rfl | rfl | hr | rfl | hr | hr)
    · decide
    · decide
    · exact hr.elim
    · decide
    · exact hr.elim
    · exact hr.elim
  · intro e he r hr
    rcases List.mem_cons.mp he with rfl | he
    · cases hr
      rfl
    · rw [List.mem_singleton.mp he] at hr
      cases hr
      rfl

theorem sample_merges : sampleCache.depth < 2 ∧ sampleLive.depth < 2 ∧
    ∃ r m' t fp, mergedCacheAndLocalDirectories 2 0 1 sampleMemory = (.ok r, m') ∧
      MergedTree sampleMemory 0 1 sampleCache sampleLive m' r t fp :=
  ⟨by decide, by decide,
    mergedCacheAndLocalDirectories_merges 2 sampleCache_isTree sampleLive_isTree (by decide)
      (by decide)⟩

/-- The live directory `c` takes the place of the file of the cache. -/
theorem not_keeps_file :
    ¬ ∀ (n : Nat) (m : Memory) (cache live : Ref) (c l : Forest Data) (fc fl : Set Ref),
      IsTree m cache c fc → IsTree m live l fl → c.depth < n → l.depth < n →
      ∀ r m', mergedCacheAndLocalDirectories n cache live m = (.ok r, m') →
        ∀ e ∈ (m.dir cache).orderedList, ∃ e' ∈ (m'.dir r).orderedList,
          e'.fileInfo = e.fileInfo ∧ e'.configurationOrigin = e.configurationOrigin := by
  intro h
  have hrun : ∃ r m', mergedCacheAndLocalDirectories 2 0 1 sampleMemory = (.ok r, m') ∧
      ∀ e' ∈ (m'.dir r).orderedList, ¬ (e'.fileInfo.name = "c" ∧
        e'.configurationOrigin = .confdirCache) :=
    ⟨_, _, rfl, by decide⟩
  obtain ⟨r, m', hr, hno⟩ := hrun
  obtain ⟨e', he, hf, ho⟩ := h 2 sampleMemory 0 1 sampleCache sampleLive _ _ sampleCache_isTree
    sampleLive_isTree (by decide) (by decide) r m' hr ⟨sampleData "c" .confdirCache, none⟩
    (List.mem_cons_of_mem _ (List.mem_singleton_self _))
  exact hno e' he ⟨by rw [hf]; rfl, ho⟩

end DirectoryMerge
