import SchedulerEngine.ClusterStepProofs

/-! # Commands between cluster members

    A command is written into the one column of the addressed member's record
    and noticed there by its heart beat.  A later command replaces one that has
    not been read yet. -/

namespace ClusterCommand

open ClusterTable ClusterHeartBeat ClusterStep RunInvariant

variable {s s' : System} {t t' t'' : Table} {c c' : Cluster} {m n : Nat} {id : MemberId}
  {row : Row}

/-! ## Transactions that leave the commands alone -/

/-- The commands of the records that are still there are the same. -/
def SameCommand (t t' : Table) : Prop :=
  ∀ n row', t'.lookup (.member n) = some row' → ∃ row, t.lookup (.member n) = some row ∧
    row'.command = row.command

theorem SameCommand.refl (t : Table) : SameCommand t t := fun _ row h => ⟨row, h, rfl⟩

theorem SameCommand.trans (h₁ : SameCommand t t') (h₂ : SameCommand t' t'') : SameCommand t t'' := by
  intro n row'' hrow''
  obtain ⟨row', hrow', hsame'⟩ := h₂ n row'' hrow''
  obtain ⟨row, hrow, hsame⟩ := h₁ n row' hrow'
  exact ⟨row, hrow, hsame'.trans hsame⟩

theorem sameCommand_insert (hrow : t.lookup id = some row) {row' : Row}
    (hc : row'.command = row.command) : SameCommand t (t.insert id row') := by
  intro n r hr
  rw [lookup_insert] at hr
  split at hr
  · rename_i heq
    cases hr
    exact ⟨row, heq ▸ hrow, hc⟩
  · exact ⟨r, hr, rfl⟩

theorem sameCommand_insert_empty (row : Row) : SameCommand t (t.insert .empty row) := by
  intro n r hr
  rw [lookup_insert, if_neg nofun] at hr
  exact ⟨r, hr, rfl⟩

theorem updateRow_sameCommand (id : MemberId) (cond : Row → Bool) {f : Row → Row}
    (hf : ∀ row, (f row).command = row.command) (t : Table) :
    SameCommand t (updateRow id cond f t).2 := by
  obtain h | ⟨row, hrow, -, h⟩ := updateRow_cases id cond f t
  · rw [h]
    exact SameCommand.refl t
  · rw [h]
    exact sameCommand_insert hrow (hf row)

theorem deleteRow_sameCommand (id : MemberId) (cond : Row → Bool) (t : Table) :
    SameCommand t (deleteRow id cond t).2 := by
  obtain h | ⟨row, -, -, h⟩ := deleteRow_cases id cond t
  · rw [h]
    exact SameCommand.refl t
  · rw [h]
    intro n r hr
    rw [lookup_erase] at hr
    split at hr
    · cases hr
    · exact ⟨r, hr, rfl⟩

theorem checkEmpty_sameCommand (h : checkEmptyMemberRecord t c = some t') : SameCommand t t' := by
  rw [checkEmptyMemberRecord] at h
  split at h
  · cases h
    exact SameCommand.refl t
  · split at h
    · cases h
    · cases h
      exact sameCommand_insert_empty _

theorem heartbeat_sameCommand (m now : Nat) (t : Table) (c : Cluster) :
    SameCommand t (heartbeatMemberRecord m now t c).2.1 := by
  obtain ⟨row, hrow, -, h⟩ | ⟨-, h⟩ := heartbeat_cases m now t c
  · rw [h]
    exact sameCommand_insert hrow rfl
  · rw [h]
    exact SameCommand.refl t

theorem takeFrom_sameCommand (id : MemberId) (k : ClusterMember) (t : Table) :
    SameCommand t (takeFrom id k t).2 := by
  rw [takeFrom]
  split <;> exact updateRow_sameCommand id _ (by intro row; rfl) t

theorem giveTo_sameCommand (m : Nat) (c : Cluster) (now next : Nat) (t : Table) :
    SameCommand t (giveTo m c now next t).2 :=
  updateRow_sameCommand _ _ (by intro row; rfl) t

theorem markAsExclusive_sameCommand (m now : Nat) (t : Table) (c : Cluster) :
    SameCommand t (markAsExclusive m now t c).2.1 := by
  rw [markAsExclusive]
  split
  · exact SameCommand.refl t
  · simp only
    split
    · exact (takeFrom_sameCommand _ _ t).trans (giveTo_sameCommand m c now _ _)
    · exact SameCommand.refl t

theorem deactivateRow_sameCommand (option : MarkAsInactiveOption) (id : MemberId)
    (k : ClusterMember) (t : Table) : SameCommand t (deactivateRow option id k t).2 := by
  cases option with
  | standard => exact updateRow_sameCommand id _ (by intro row; rfl) t
  | deleteMyInactiveRecord => exact deleteRow_sameCommand id _ t
  | markInactiveRecordAsDead => exact updateRow_sameCommand id _ (by intro row; rfl) t

theorem release_sameCommand (deleteEmpty : Bool) (t : Table) :
    SameCommand t (releaseExclusiveness deleteEmpty t).2 := by
  rw [releaseExclusiveness]
  split
  · exact deleteRow_sameCommand _ _ t
  · exact updateRow_sameCommand _ _ (by intro row; rfl) t

theorem markAsInactive_sameCommand (m : Nat) (option : MarkAsInactiveOption) (id : MemberId)
    (k : ClusterMember) (t : Table) (c : Cluster) :
    SameCommand t (markAsInactive m option id k t c).2.2 := by
  have hfirst := deactivateRow_sameCommand option id k t
  simp only [markAsInactive]
  split
  · split
    · split
      · exact hfirst.trans (release_sameCommand _ _)
      · exact SameCommand.refl t
    · exact hfirst
  · exact SameCommand.refl t

/-! ## The accounts of a member -/

/-- Every command that was set for a member has been executed, replaced, or is
    to be read, and each once. -/
def Balanced (s : System) (n : Nat) : Prop :=
  (s.commandsSet n).Perm (s.executed n ++ s.replaced n ++ s.unread n)

/-- The accounts are those since the member has inserted its record. -/
def Accounted (s : System) (n : Nat) : Prop :=
  (s.table.lookup (.member n)).isSome = true → Balanced s n ∧ "" ∉ s.unread n

/-- The accounts of all members that have inserted their records. -/
def Inv (s : System) : Prop :=
  ∀ n c, s.clusters n = some c → c.phase.isInserted = true → Accounted s n

/-- The accounts of one member, and its command, are not touched. -/
theorem Accounted.of_eq (h : Accounted s n) (hset : s'.commandsSet n = s.commandsSet n)
    (hexec : s'.executed n = s.executed n) (hrepl : s'.replaced n = s.replaced n)
    (ht : ∀ row', s'.table.lookup (.member n) = some row' →
      ∃ row, s.table.lookup (.member n) = some row ∧ row'.command = row.command) :
    Accounted s' n := by
  intro hrow'
  obtain ⟨row', hrow'⟩ := Option.isSome_iff_exists.mp hrow'
  obtain ⟨row, hrow, hcommand⟩ := ht row' hrow'
  have hunread : s'.unread n = s.unread n := by
    rw [System.unread, System.unread, hrow', hrow, Option.bind_some, Option.bind_some, hcommand]
  rw [Balanced, hset, hexec, hrepl, hunread]
  exact h (Option.isSome_iff_exists.mpr ⟨row, hrow⟩)

/-- The accounts are not touched. -/
def SameAccounts (s s' : System) : Prop :=
  s'.commandsSet = s.commandsSet ∧ s'.executed = s.executed ∧ s'.replaced = s.replaced

theorem Accounted.of_same (h : Accounted s n) (hsame : SameAccounts s s')
    (ht : SameCommand s.table s'.table) : Accounted s' n :=
  h.of_eq (congrFun hsame.1 n) (congrFun hsame.2.1 n) (congrFun hsame.2.2 n) (ht n)

/-- A step of one member that leaves commands and accounts alone. -/
theorem Inv.step_of (h : Inv s) {o : Option Cluster} (hc : s.clusters m = some c)
    (hclusters : s'.clusters = Function.update s.clusters m o) (hsame : SameAccounts s s')
    (ht : SameCommand s.table s'.table)
    (hphase : ∀ c', o = some c' → c'.phase.isInserted = true → c.phase.isInserted = true) :
    Inv s' := by
  intro n k hk hins
  rw [hclusters] at hk
  by_cases hn : n = m
  · subst hn
    rw [Function.update_self] at hk
    exact (h n c hc (hphase k hk hins)).of_same hsame ht
  · rw [Function.update_of_ne hn] at hk
    exact (h n k hk hins).of_same hsame ht

/-- The same for a member that goes on. -/
theorem Inv.step_some (h : Inv s) (hc : s.clusters m = some c)
    (hclusters : s'.clusters = Function.update s.clusters m (some c')) (hsame : SameAccounts s s')
    (ht : SameCommand s.table s'.table)
    (hphase : c'.phase.isInserted = true → c.phase.isInserted = true) : Inv s' := by
  refine h.step_of hc hclusters hsame ht ?_
  intro k hk
  cases hk
  exact hphase

/-- The same for a member that ends. -/
theorem Inv.step_none (h : Inv s) (hc : s.clusters m = some c)
    (hclusters : s'.clusters = Function.update s.clusters m none) (hsame : SameAccounts s s')
    (ht : SameCommand s.table s'.table) : Inv s' := by
  refine h.step_of hc hclusters hsame ht ?_
  intro k hk
  cases hk

/-! ## Steps -/

theorem Inv.domElement (h : Inv s) {q : Select} (hc : s.clusters m = some c)
    (hp : domElement m q s c = some s') : Inv s' := by
  rw [ClusterStep.domElement] at hp
  split at hp
  · cases hp
    refine h.step_some hc rfl ⟨rfl, rfl, rfl⟩ (SameCommand.refl _) ?_
    rw [(checkSchedulers_sameOwn s.table q c).phase]
    exact fun h => h
  · cases hp

/-- The steps of `subsystem_activate` before the record is inserted. -/
theorem Inv.firstCheck (h : Inv s) {q : Select} (hc : s.clusters m = some c)
    (hp : firstCheck m q s c = some s') : Inv s' := by
  rw [ClusterStep.firstCheck] at hp
  split at hp
  · cases hp
    refine h.step_some hc rfl ⟨rfl, rfl, rfl⟩ (SameCommand.refl _) ?_
    rw [afterFirstCheck_isInserted]
    nofun
  · cases hp

theorem Inv.deleteOwn (h : Inv s) (hc : s.clusters m = some c)
    (hp : deleteOwn m s c = some s') : Inv s' := by
  rw [ClusterStep.deleteOwn] at hp
  split at hp
  · cases hp
    refine h.step_some hc rfl ⟨rfl, rfl, rfl⟩ (markAsInactive_sameCommand m _ _ _ _ _) ?_
    rw [afterOwnDeleted_isInserted]
    nofun
  · cases hp

theorem Inv.createEmpty (h : Inv s) (hc : s.clusters m = some c)
    (hp : createEmpty m s c = some s') : Inv s' := by
  rw [ClusterStep.createEmpty] at hp
  split at hp
  · obtain ⟨t, ht, rfl⟩ := Option.map_eq_some_iff.mp hp
    exact h.step_some hc rfl ⟨rfl, rfl, rfl⟩ (checkEmpty_sameCommand ht) nofun
  · cases hp

/-- A new record begins with empty accounts. -/
theorem Inv.insert (h : Inv s) {now : Nat} (hp : insert m now s c = some s') : Inv s' := by
  rw [ClusterStep.insert] at hp
  split at hp
  · obtain ⟨⟨t, c₁⟩, ht, rfl⟩ := Option.map_eq_some_iff.mp hp
    simp only [insertMemberRecord, Option.map_eq_some_iff] at ht
    obtain ⟨t₁, ht₁, heq⟩ := ht
    cases heq
    obtain ⟨hfree, rfl⟩ := insertRow_some ht₁
    intro n k hk hins hrow
    by_cases hn : n = m
    · subst hn
      simp [Balanced, System.unread, System.commit]
    · -- the accounts of the others
      have hne : MemberId.member n ≠ .member m := by
        intro heq
        exact hn (MemberId.member.inj heq)
      simp only [System.commit, Function.update_of_ne hn] at hk
      refine (h n k hk hins).of_eq ?_ ?_ ?_ ?_ hrow
      · exact Function.update_of_ne hn _ _
      · exact Function.update_of_ne hn _ _
      · exact Function.update_of_ne hn _ _
      · intro row' hrow'
        simp only [System.commit, lookup_insert, if_neg hne] at hrow'
        exact ⟨row', hrow', rfl⟩
  · cases hp

theorem Inv.lastCheck (h : Inv s) {q : Select} (hc : s.clusters m = some c)
    (hp : lastCheck m q s c = some s') : Inv s' := by
  rw [ClusterStep.lastCheck] at hp
  split at hp
  · rename_i hphase
    simp only at hp
    split at hp
    · cases hp
      refine h.step_some hc rfl ⟨rfl, rfl, rfl⟩ (SameCommand.refl _) ?_
      rw [hphase]
      exact fun _ => rfl
    · cases hp
      exact h.step_none hc rfl ⟨rfl, rfl, rfl⟩ (SameCommand.refl _)
  · cases hp

/-- The steps of a member in its operations, but for the commands. -/
theorem Inv.continueOperations (h : Inv s) (hc : s.clusters m = some c)
    (hp : continueOperations m s c = some s') : Inv s' := by
  rw [ClusterStep.continueOperations] at hp
  split at hp
  · cases hp
    refine h.step_some hc rfl ⟨rfl, rfl, rfl⟩ (SameCommand.refl _) ?_
    split <;> exact fun h => h
  · cases hp

theorem Inv.beat (h : Inv s) {now : Nat} (hc : s.clusters m = some c)
    (hp : beat m now s c = some s') : Inv s' := by
  rw [ClusterStep.beat] at hp
  split at hp
  · rename_i hwhen
    cases hp
    exact h.step_some hc rfl ⟨rfl, rfl, rfl⟩ (heartbeat_sameCommand m now s.table c)
      fun _ => isStarted_isInserted hwhen.1
  · cases hp

theorem Inv.checkOwnRecord (h : Inv s) (hc : s.clusters m = some c)
    (hp : checkOwnRecord m s c = some s') : Inv s' := by
  rw [ClusterStep.checkOwnRecord] at hp
  split at hp
  · rename_i hwhen
    cases hp
    exact h.step_of hc rfl ⟨rfl, rfl, rfl⟩ (SameCommand.refl _)
      fun _ _ _ => isStarted_isInserted hwhen
  · cases hp

theorem Inv.tryToBecomeExclusive (h : Inv s) {q : Select} {now : Nat}
    (hc : s.clusters m = some c) (hp : tryToBecomeExclusive m q now s c = some s') : Inv s' := by
  rw [ClusterStep.tryToBecomeExclusive] at hp
  split at hp
  · rename_i hwhen
    cases hp
    refine h.step_some hc rfl ⟨rfl, rfl, rfl⟩ (SameCommand.refl _) ?_
    rw [hwhen.1]
    exact fun _ => rfl
  · cases hp

theorem Inv.checkPrecedence (h : Inv s) {now nowMark : Nat} (hc : s.clusters m = some c)
    (hp : checkPrecedence m now nowMark s c = some s') : Inv s' := by
  rw [ClusterStep.checkPrecedence] at hp
  split at hp
  · rename_i hwhen
    cases hp
    refine h.step_some hc rfl ⟨rfl, rfl, rfl⟩ (SameCommand.refl _) ?_
    rw [hwhen.1]
    exact fun _ => rfl
  · cases hp

theorem Inv.markEmpty (h : Inv s) (hc : s.clusters m = some c)
    (hp : markEmpty m s c = some s') : Inv s' := by
  rw [ClusterStep.markEmpty] at hp
  split at hp
  · rename_i now hphase
    split at hp
    · cases hp
    · obtain ⟨t, ht, rfl⟩ := Option.map_eq_some_iff.mp hp
      refine h.step_some hc rfl ⟨rfl, rfl, rfl⟩ (checkEmpty_sameCommand ht) ?_
      rw [hphase]
      exact fun _ => rfl
  · cases hp

theorem Inv.markCheck (h : Inv s) {q : Select} (hc : s.clusters m = some c)
    (hp : markCheck m q s c = some s') : Inv s' := by
  rw [ClusterStep.markCheck] at hp
  split at hp
  · rename_i now hphase
    split at hp
    · cases hp
    · cases hp
      refine h.step_some hc rfl ⟨rfl, rfl, rfl⟩ (SameCommand.refl _) ?_
      rw [hphase]
      exact fun _ => rfl
  · cases hp

theorem Inv.take (h : Inv s) (hc : s.clusters m = some c) (hp : take m s c = some s') : Inv s' := by
  rw [ClusterStep.take] at hp
  split at hp
  · rename_i now hphase
    split at hp
    · cases hp
    · cases hp
      refine h.step_some hc rfl ⟨rfl, rfl, rfl⟩ (markAsExclusive_sameCommand m now s.table c) ?_
      rw [hphase]
      exact fun _ => rfl
  · cases hp

theorem Inv.giveUp (h : Inv s) (hc : s.clusters m = some c)
    (hp : giveUp m s c = some s') : Inv s' := by
  rw [ClusterStep.giveUp] at hp
  split at hp
  · rename_i hwhen
    cases hp
    exact h.step_some hc rfl ⟨rfl, rfl, rfl⟩ (SameCommand.refl _)
      fun _ => isStarted_isInserted hwhen
  · cases hp

theorem Inv.watchActive (h : Inv s) {q : Select} (hc : s.clusters m = some c)
    (hp : watchActive m q s c = some s') : Inv s' := by
  rw [ClusterStep.watchActive] at hp
  split at hp
  · rename_i hwhen
    cases hp
    refine h.step_some hc rfl ⟨rfl, rfl, rfl⟩ (SameCommand.refl _) ?_
    rw [hwhen.1]
    exact fun _ => rfl
  · cases hp

theorem Inv.deactivate (h : Inv s) {other : MemberId} {now : Nat} (hc : s.clusters m = some c)
    (hp : deactivate m other now s c = some s') : Inv s' := by
  rw [ClusterStep.deactivate] at hp
  split at hp
  · obtain ⟨known, hknown, hp⟩ := Option.bind_eq_some_iff.mp hp
    split at hp
    · simp only at hp
      split at hp
      · cases hp
        exact h.step_some hc rfl ⟨rfl, rfl, rfl⟩ (markAsInactive_sameCommand m _ _ _ _ _)
          fun h => h
      · cases hp
        exact h.step_some hc rfl ⟨rfl, rfl, rfl⟩ (SameCommand.refl _) fun h => h
    · cases hp
  · cases hp

theorem Inv.close (h : Inv s) (hc : s.clusters m = some c) (hp : close m s c = some s') :
    Inv s' := by
  rw [ClusterStep.close] at hp
  split at hp
  · split at hp
    · cases hp
      exact h.step_none hc rfl ⟨rfl, rfl, rfl⟩ (SameCommand.refl _)
    · split at hp
      · cases hp
      · cases hp
        exact h.step_none hc rfl ⟨rfl, rfl, rfl⟩ (markAsInactive_sameCommand m _ _ _ _ _)
  · cases hp

theorem Inv.deleteDead (h : Inv s) {other : MemberId} (hp : deleteDead other s c = some s') :
    Inv s' := by
  rw [ClusterStep.deleteDead] at hp
  split at hp
  · cases hp
    intro n k hk hins
    exact (h n k hk hins).of_same ⟨rfl, rfl, rfl⟩ (deleteRow_sameCommand other _ s.table)
  · cases hp

theorem unread_eq (hrow : s.table.lookup (.member n) = some row) :
    s.unread n = row.command.toList := by
  rw [System.unread, hrow, Option.bind_some]

/-- A command is set: the one before it, if it has not been read, is replaced. -/
theorem Inv.setCommand (h : Inv s) {other : Option Nat} {command : String}
    (hp : setCommand m other command s c = some s') : Inv s' := by
  rw [ClusterStep.setCommand] at hp
  split at hp
  · rename_i hwhen
    cases hp
    intro n k hk hins
    have hold := h n k hk hins
    cases hrow : s.table.lookup (.member n) with
    | none =>
        intro hsome
        simp only [lookup_updateAll, hrow] at hsome
        cases hsome
    | some row =>
        cases hreached : addressed m other (.member n) row with
        | true =>
            intro _
            obtain ⟨hbalanced, -⟩ := hold (by rw [hrow]; rfl)
            have hisReached : s.isReached m other n = true := by
              rw [System.isReached, hrow, Option.any_some, hreached]
            simp only [Balanced, System.unread, lookup_updateAll, hrow, hreached, hisReached,
              if_true, Option.map_some, Option.bind_some, Option.toList_some]
            refine ⟨?_, ?_⟩
            · -- the command before is among the replaced ones
              rw [Balanced, unread_eq hrow] at hbalanced
              simpa only [unread_eq hrow, List.append_assoc] using hbalanced.append_right [command]
            · intro hempty
              exact hwhen.2 (List.mem_singleton.mp hempty).symm
        | false =>
            have hisReached : s.isReached m other n = false := by
              rw [System.isReached, hrow, Option.any_some, hreached]
            refine hold.of_eq ?_ rfl ?_ ?_
            · simp only [hisReached]
              rfl
            · simp only [hisReached]
              rfl
            · intro row' hrow'
              simp only [lookup_updateAll, hrow, Option.map_some, hreached] at hrow'
              cases hrow'
              exact ⟨row, hrow, rfl⟩
  · cases hp

theorem filter_toList {command : Option String} (h : "" ∉ command.toList) :
    (command.filter fun text => decide (text ≠ "")).toList = command.toList := by
  cases command with
  | none => rfl
  | some text =>
      have hne : text ≠ "" := by
        rintro rfl
        exact h (List.mem_singleton_self _)
      rw [Option.filter_some, if_pos (decide_eq_true hne)]

/-- The command is read, executed and cleared. -/
theorem Inv.readCommand (h : Inv s) (hc : s.clusters m = some c)
    (hp : readCommand m s c = some s') : Inv s' := by
  rw [ClusterStep.readCommand] at hp
  split at hp
  · rename_i hwhen
    have hins := isStarted_isInserted hwhen.1
    split at hp
    · cases hp
      exact h.step_some hc rfl ⟨rfl, rfl, rfl⟩ (SameCommand.refl _) fun _ => hins
    · rename_i row hrow
      cases hp
      intro n k hk hk'
      by_cases hn : n = m
      · subst hn
        intro _
        obtain ⟨hbalanced, hnot⟩ := h n c hc hins (by rw [hrow]; rfl)
        rw [unread_eq hrow] at hnot
        rw [Balanced, unread_eq hrow] at hbalanced
        have hlook : (s.table.insert (.member n) { row with command := none }).lookup (.member n)
            = some { row with command := none } := AList.lookup_insert _
        rw [Balanced, unread_eq hlook]
        refine ⟨?_, List.not_mem_nil⟩
        simp only [System.commit, Function.update_self, filter_toList hnot, Option.toList_none,
          List.append_nil]
        refine hbalanced.trans ?_
        rw [List.append_assoc, List.append_assoc]
        exact List.perm_append_comm.append_left _
      · have hne : MemberId.member n ≠ .member m := by
          intro heq
          exact hn (MemberId.member.inj heq)
        simp only [System.commit, Function.update_of_ne hn] at hk
        refine (h n k hk hk').of_eq rfl (Function.update_of_ne hn _ _) rfl ?_
        intro row' hrow'
        simp only [System.commit, lookup_insert, if_neg hne] at hrow'
        exact ⟨row', hrow', rfl⟩
  · cases hp

/-- Every step keeps the accounts. -/
theorem Inv.step (h : Inv s) {op : Op} (hstep : ClusterStep.step s op = some s') : Inv s' := by
  obtain ⟨m, config, now, rfl, -, rfl⟩ | ⟨c, hc, hp⟩ := step_cases hstep
  · intro n k hk hins
    by_cases hn : n = m
    · subst hn
      simp only [System.setCluster, Function.update_self] at hk
      cases hk
      cases hins
    · simp only [System.setCluster, Function.update_of_ne hn] at hk
      exact h n k hk hins
  cases op with
  | start m config now => cases hp
  | crash m =>
      cases hp
      exact h.step_none hc rfl ⟨rfl, rfl, rfl⟩ (SameCommand.refl _)
  | firstCheck m q => exact h.firstCheck hc hp
  | deleteOwn m => exact h.deleteOwn hc hp
  | createEmpty m => exact h.createEmpty hc hp
  | insert m now => exact h.insert hp
  | lastCheck m q => exact h.lastCheck hc hp
  | continueOperations m => exact h.continueOperations hc hp
  | domElement m q => exact h.domElement hc hp
  | beat m now => exact h.beat hc hp
  | checkOwnRecord m => exact h.checkOwnRecord hc hp
  | tryToBecomeExclusive m q now => exact h.tryToBecomeExclusive hc hp
  | checkPrecedence m now nowMark => exact h.checkPrecedence hc hp
  | markEmpty m => exact h.markEmpty hc hp
  | markCheck m q => exact h.markCheck hc hp
  | take m => exact h.take hc hp
  | giveUp m => exact h.giveUp hc hp
  | watchActive m q => exact h.watchActive hc hp
  | deactivate m other now => exact h.deactivate hc hp
  | close m => exact h.close hc hp
  | deleteDead m other => exact h.deleteDead hp
  | setCommand m other command => exact h.setCommand hp
  | readCommand m => exact h.readCommand hc hp
  | setContinue m nonBackup =>
      cases hp
      exact h.step_some hc rfl ⟨rfl, rfl, rfl⟩ (SameCommand.refl _) fun h => h

/-! ## The law of the commands -/

theorem inv_of_reachable (h : Reachable s) : Inv s := by
  refine Reach.invariant ?_ ?_ h
  · rintro s rfl n c hc
    cases hc
  · intro s op s' hinv hstep
    exact hinv.step hstep.2

/-- A heart beat notices a command that has not been read. -/
def BeatNotices (s : System) (n : Nat) (c : Cluster) : Prop :=
  s.unread n ≠ [] → ∀ now, (heartbeatMemberRecord n now s.table c).1 = true →
    (heartbeatMemberRecord n now s.table c).2.2.hasCommand = true

/-- Reading executes the command that has not been read, and nothing else. -/
def ReadExecutes (s : System) (n : Nat) : Prop :=
  ∀ s', step s (.readCommand n) = some s' → s'.unread n = [] ∧
    s'.executed n = s.executed n ++ s.unread n ∧ s'.replaced n = s.replaced n

theorem beatNotices (hrow : s.table.lookup (.member n) = some row) (c : Cluster) :
    BeatNotices s n c := by
  intro hunread now hok
  obtain ⟨row', hrow', -, hbeat⟩ | ⟨-, hbeat⟩ := heartbeat_cases n now s.table c
  · rw [hrow] at hrow'
    cases hrow'
    rw [unread_eq hrow] at hunread
    rw [hbeat]
    cases hcommand : row.command with
    | none =>
        rw [hcommand] at hunread
        exact absurd rfl hunread
    | some text => exact Bool.or_true _
  · rw [hbeat] at hok
    cases hok

theorem readExecutes (hrow : s.table.lookup (.member n) = some row)
    (hnot : "" ∉ s.unread n) : ReadExecutes s n := by
  intro s' hstep
  obtain ⟨m, config, now, hop, -⟩ | ⟨k, hk, hp⟩ := step_cases hstep
  · cases hop
  · simp only [perform, readCommand, hrow] at hp
    split at hp
    · cases hp
      rw [unread_eq hrow] at hnot
      have hlook : (s.table.insert (.member n) { row with command := none }).lookup (.member n)
          = some { row with command := none } := AList.lookup_insert _
      rw [unread_eq hlook, unread_eq hrow, ← filter_toList hnot]
      exact ⟨rfl, Function.update_self .., rfl⟩
    · cases hp

/-- Every command that was set for a member with a record has been executed
    once, has been replaced by a later one before it was read, or is to be read;
    the next heart beat notices it then, and it is executed when it is read. -/
theorem commands_accounted (h : Reachable s) : ∀ n c, s.clusters n = some c →
    c.phase.isInserted = true → (s.table.lookup (.member n)).isSome = true →
    Balanced s n ∧ BeatNotices s n c ∧ ReadExecutes s n := by
  intro n c hc hins hsome
  obtain ⟨row, hrow⟩ := Option.isSome_iff_exists.mp hsome
  obtain ⟨hbalanced, hnot⟩ := inv_of_reachable h n c hc hins hsome
  exact ⟨hbalanced, beatNotices hrow c, readExecutes hrow hnot⟩

/-- Two members, and two commands for the second before its next heart beat. -/
def twoCommands : List Op :=
  [.start 1 primary 100, .firstCheck 1 (selectAt 100 [] true), .createEmpty 1, .insert 1 100,
    .lastCheck 1 (selectAt 100 [.empty, .member 1] true),
    .start 2 primary 100, .firstCheck 2 (selectAt 100 [.empty, .member 1] true), .createEmpty 2,
    .insert 2 100, .lastCheck 2 (selectAt 100 [.empty, .member 1, .member 2] true),
    .setCommand 1 (some 2) "<terminate/>", .setCommand 1 (some 2) "<show_state/>",
    .beat 2 110, .readCommand 2]

/-- Of two commands only the second has been executed. -/
theorem twoCommands_runs : (runAll System.attempt noMembers twoCommands).any (fun s =>
    decide (s.commandsSet 2 = ["<terminate/>", "<show_state/>"] ∧ s.executed 2 = ["<show_state/>"] ∧
      s.replaced 2 = ["<terminate/>"] ∧ s.unread 2 = [] ∧
      (s.table.lookup (.member 2)).isSome = true) &&
    (s.clusters 2).any fun c => c.phase.isInserted) = true := by
  decide +kernel

theorem twoCommands_balanced : ∃ s c, runAll System.attempt noMembers twoCommands = some s ∧
    Balanced s 2 ∧ BeatNotices s 2 c ∧ ReadExecutes s 2 := by
  obtain ⟨s, hrun, hany⟩ := (Option.any_eq_true _ _).mp twoCommands_runs
  rw [Bool.and_eq_true, decide_eq_true_eq] at hany
  obtain ⟨c, hc, hins⟩ := (Option.any_eq_true _ _).mp hany.2
  have hreach : Reachable s := Reach.runAll attempt_step (Reach.start rfl) hrun
  exact ⟨s, c, hrun, commands_accounted hreach 2 c hc hins hany.1.2.2.2.2⟩

/-- Not every command that was set, with success, for a member that beats and
    has nothing left to read, has been executed. -/
theorem command_lost : ¬ ∀ s n c, Reachable s → s.clusters n = some c →
    c.phase.isInserted = true → (s.table.lookup (.member n)).isSome = true → s.unread n = [] →
    (s.commandsSet n).Perm (s.executed n) := by
  intro hall
  obtain ⟨s, hrun, hany⟩ := (Option.any_eq_true _ _).mp twoCommands_runs
  rw [Bool.and_eq_true, decide_eq_true_eq] at hany
  obtain ⟨⟨hset, hexec, -, hunread, hrow⟩, hcluster⟩ := hany
  obtain ⟨c, hc, hins⟩ := (Option.any_eq_true _ _).mp hcluster
  have hreach : Reachable s := Reach.runAll attempt_step (Reach.start rfl) hrun
  have hperm := (hall s 2 c hreach hc hins hrow hunread).length_eq
  rw [hset, hexec] at hperm
  cases hperm

end ClusterCommand
