import SchedulerEngine.HolidayStartsProofs

/-! # The instants of `<at>`

    The instants of a schedule are started one after the other.  An instant on a
    holiday is started again on the days around the holidays; and the starts do
    not go beyond a period that is still running after its begin, because the
    search is repeated from its begin and finds it again. -/

namespace AtInstant

open SchedulerTime SchedulePeriod ScheduleInlay ScheduleSearch LeftmostLeast SuccessiveNext
  HolidayShift HolidayStarts

variable {i : Inlay Day} {t t0 u v x y b n d : Int} {k : Nat}

/-- The begin of a period, on its day or on the day to which it is moved. -/
def BeginsPeriod (i : Inlay Day) (x : Int) : Prop :=
  ∃ n d, ∃ p : DayPeriod, OnDay i n (.period p) ∧ MovedTo i.holidays n d p.1.whenHoliday ∧
    x = d * day + p.1.begin_

/-- Each instant of the foreseen range is started exactly once, and no other start
    is due to an instant. -/
structure InstantsOnce (i : Inlay Day) (t0 : Int) : Prop where
  once : ∀ a ∈ i.atSet.toList, t0 ≤ a.1 → a.1 < foreseen t0 → ∃! k, starts i t0 k = some a.1
  nothingElse : ∀ k x, starts i t0 k = some x → x < foreseen t0 →
    (∃ a ∈ i.atSet.toList, x = a.1) ∨ BeginsPeriod i x

/-- A period begins at `b` that is coming at the time `u`, and still coming after
    its begin. -/
def Sticks (i : Inlay Day) (u b : Int) : Prop := b ∈ Live i u ∧ b ∈ Live i (b + 1)

/-- An instant `a` on a holiday, at the same time of a day `d` at one end of the
    holidays, in reach of the probes. -/
def Echo (i : Inlay Day) (a : AtTime) (x : Int) : Prop :=
  a ∈ i.atSet.toList ∧ 0 ≤ a.1 ∧ a.1 < never ∧ i.holidays.isHoliday (dayNr a.1) = true ∧
  ∃ d, (MovedTo i.holidays (dayNr a.1) d .nextNonHoliday ∨
      MovedTo i.holidays (dayNr a.1) d .previousNonHoliday) ∧
    InReach (dayNr a.1) d ∧ x = d * day + timeOfDay a.1

/-- No period that sticks comes before an instant; and the echo of an instant is an
    instant or the begin of a period itself, or comes after a period that sticks. -/
structure NoEcho (i : Inlay Day) (t0 : Int) : Prop where
  reached : ∀ a ∈ i.atSet.toList, t0 ≤ a.1 → a.1 < foreseen t0 → ∀ b, Sticks i t0 b → a.1 < b
  noEcho : ∀ a x, Echo i a x → t0 ≤ x → x < foreseen t0 →
    (∃ a' ∈ i.atSet.toList, x = a'.1) ∨ BeginsPeriod i x ∨ ∃ b, Sticks i t0 b ∧ b < x

/-- Where the search is repeated it stays in range. -/
def Asked (i : Inlay Day) (t0 u : Int) : Prop := InRange i u ∧ dayNr t0 * day ≤ u

theorem asked_of_ge (hin : InRange i t0) (h1 : day ≤ t0) (hu : dayNr t0 * day ≤ u)
    (hn : u ≤ never) : Asked i t0 u := by
  obtain ⟨h0, hle, hdom⟩ := hin
  have hday := dayNr_eq (t := t0) (by omega) hle
  refine ⟨⟨?_, hn, ?_⟩, hu⟩
  · rw [hday] at hu
    rw [day_eq] at *
    omega
  · refine hdom.imp_left fun hfar => ?_
    rw [hday] at hu
    rw [day_eq] at *
    omega

/-- What is coming has not begun yet, or it sticks. -/
theorem le_or_sticks (hin : InRange i t0) (hu : Asked i t0 u)
    (hx : x ∈ Live i u) : u ≤ x ∨ x < u ∧ x ∈ Live i (x + 1) := by
  by_cases hux : u ≤ x
  · exact Or.inl hux
  · refine Or.inr ⟨by omega, ?_⟩
    have hge := live_ge hx
    have h0 := hu.1.1
    have hday := dayNr_mono (s := dayNr t0 * day) (t := u)
      (by have := (dayNr_le (t := t0) (by have := hin.1; omega) hin.2.1).1
          rw [day_eq]; omega) hu.2 hu.1.2.1
    have hd0 := (dayNr_le (t := t0) (by have := hin.1; omega) hin.2.1)
    rw [(dayNr_mul hd0.1 (le_trans hu.2 hu.1.2.1)).1] at hday
    have hx0 : 0 ≤ x + 1 := by
      rw [day_eq] at *
      omega
    exact live_antitone hx0 (by omega) hu.1.2.1 hx

theorem asked_next (hin : InRange i t0) (h1 : day ≤ t0) (hu : Asked i t0 u)
    (hb : nextStart i u = some b) : Asked i t0 (b + 1) := by
  have hlive := nextStart_live hu.1 hb
  have hge := live_ge hlive
  have hlt := live_lt hlive
  have hd0 := (dayNr_le (t := t0) (by have := hin.1; omega) hin.2.1)
  have hday := dayNr_mono (s := dayNr t0 * day) (t := u) (by rw [day_eq]; omega) hu.2 hu.1.2.1
  rw [(dayNr_mul hd0.1 (le_trans hu.2 hu.1.2.1)).1] at hday
  refine asked_of_ge hin h1 ?_ (by omega)
  rw [day_eq] at *
  omega

theorem starts_live (hin : InRange i t0) (h1 : day ≤ t0) (hx : starts i t0 k = some x) :
    ∃ u, Asked i t0 u ∧ nextStart i u = some x :=
  exists_of_deliver (fun _ _ hq hb => asked_next hin h1 hq hb)
    (asked_of_ge hin h1 (by
      have := (dayNr_timeOfDay (t := t0) (by have := hin.1; omega) hin.2.1)
      omega) hin.2.1) hx

/-- An instant is coming until it is reached. -/
theorem live_of_instant {a : AtTime} (hu : InRange i u) (ha : a ∈ i.atSet.toList)
    (hua : u ≤ a.1) (hlt : a.1 < never) : a.1 ∈ Live i u := by
  have h0 : 0 ≤ u := by
    have := hu.1
    omega
  have hparts := dayNr_timeOfDay (t := a.1) (by omega) a.2
  have hd := dayNr_mono h0 hua a.2
  have hmax : max u (dayNr a.1 * day) < never := by omega
  have htod := timeOfDay_max h0 hu.2.1 hd hmax
  refine ⟨dayNr a.1, dayNr a.1, .instant a, hd, hmax, ⟨⟨ha, by omega, rfl⟩, Or.inl rfl, ?_, ?_,
    ?_, ?_⟩, hparts.1.symm, hlt⟩
  · rw [InReach]
    omega
  · rw [Item.isComing, show has wssNextAnyStart (wssNextAnyStart ||| wssNextSingleStart) = true by
      decide, Bool.true_and]
    exact decide_eq_true (by omega)
  · show dayNr a.1 * day + timeOfDay a.1 < never
    omega
  · rw [Int.sub_self, Int.zero_mul]
    omega

/-- An echo is coming until it is reached. -/
theorem live_of_echo {a : AtTime} (hu : InRange i u) (he : Echo i a x)
    (hux : u ≤ x) (hlt : x < never) : x ∈ Live i u := by
  obtain ⟨ha, ha0, han, hhol, d, hmoved, hreach, rfl⟩ := he
  have h0 : 0 ≤ u := by
    have := hu.1
    omega
  have hparts := dayNr_timeOfDay ha0 a.2
  have hd : dayNr u ≤ d := dayNr_le_of_lt h0 hu.2.1 (by omega)
  have hmax : max u (d * day) < never := by omega
  have htod := timeOfDay_max h0 hu.2.1 hd hmax
  refine ⟨d, dayNr a.1, .instant a, hd, hmax, ⟨⟨ha, ha0, rfl⟩, Or.inr ⟨hhol, hmoved⟩, hreach, ?_,
    ?_, ?_⟩, rfl, hlt⟩
  · rw [Item.isComing, show has wssNextAnyStart (wssNextAnyStart ||| wssNextSingleStart) = true by
      decide, Bool.true_and]
    exact decide_eq_true (by omega)
  · show dayNr a.1 * day + timeOfDay a.1 < never
    omega
  · rw [day_eq] at *
    omega

/-- What is coming is an instant, an echo, or a period. -/
theorem live_cases (hx : x ∈ Live i u) (hu : InRange i u) :
    (∃ a ∈ i.atSet.toList, x = a.1) ∨ u ≤ x ∧ (∃ a, Echo i a x) ∨ BeginsPeriod i x := by
  obtain ⟨d, n, item, hd, hmax, hoff, rfl, hlt⟩ := hx
  have h0 : 0 ≤ u := by
    have := hu.1
    omega
  have htod := timeOfDay_max h0 hu.2.1 hd hmax
  cases item with
  | period p => exact Or.inr (Or.inr ⟨n, d, p, hoff.onDay, hoff.moves, rfl⟩)
  | instant a =>
      obtain ⟨ha, ha0, rfl⟩ := hoff.onDay
      have hparts := dayNr_timeOfDay ha0 a.2
      rcases hoff.moves with rfl | ⟨hhol, hmoved⟩
      · exact Or.inl ⟨a, ha, hparts.1⟩
      · have hbegin : dayNr a.1 * day + timeOfDay a.1 < never := hoff.begin_lt
        have hc := hoff.coming
        rw [Item.isComing, Bool.and_eq_true, decide_eq_true_eq] at hc
        refine Or.inr (Or.inl ⟨?_, a, ha, ha0, by omega, hhol, d, hmoved, hoff.inReach, rfl⟩)
        show u ≤ d * day + timeOfDay a.1
        omega

/-- Only a period is still coming after its begin. -/
theorem beginsPeriod_of_live (h0 : 0 ≤ x) (hx : x ∈ Live i (x + 1)) : BeginsPeriod i x := by
  have hlt := live_lt hx
  obtain ⟨d, n, item, hd, hmax, hoff, hxe, -⟩ := hx
  cases item with
  | period p => exact ⟨n, d, p, hoff.onDay, hoff.moves, hxe⟩
  | instant a =>
      have htod := timeOfDay_max (u := x + 1) (by omega) (by omega) hd hmax
      have hc := hoff.coming
      rw [Item.isComing, Bool.and_eq_true, decide_eq_true_eq] at hc
      have hxe' : x = d * day + timeOfDay a.1 := hxe
      omega

/-! ## Periods that stick -/

/-- A time of asking is not before `t0`, or right after the begin of a period that
    is found again. -/
def Behind (i : Inlay Day) (t0 u : Int) : Prop :=
  Asked i t0 u ∧ (t0 ≤ u ∨ u - 1 ∈ Live i u)

theorem lt_never_of_next (hb : nextStart i u = some b) (hu : InRange i u) : u < never := by
  obtain ⟨d, n, item, hd, hmax, -⟩ := nextStart_live hu hb
  omega

theorem next_le_of_back (hu : InRange i u) (hback : u - 1 ∈ Live i u)
    (hb : nextStart i u = some b) : b ≤ u - 1 := by
  have hlt := lt_never_of_next hb hu
  have hf := (le_foreseen (le_refl u) hu.2.1).2.2 hlt
  obtain ⟨b', hb', hle⟩ := nextStart_le hu hback (by omega)
  rw [hb, Option.some.injEq] at hb'
  omega

theorem Behind.next (hin : InRange i t0) (h1 : day ≤ t0) (hu : Behind i t0 u)
    (hb : nextStart i u = some b) : Behind i t0 (b + 1) := by
  refine ⟨asked_next hin h1 hu.1 hb, ?_⟩
  rw [Int.add_sub_cancel]
  rcases le_or_sticks hin hu.1 (nextStart_live hu.1.1 hb) with hle | ⟨-, hlive⟩
  · rcases hu.2 with htu | hback
    · exact Or.inl (by omega)
    · have := next_le_of_back hu.1.1 hback hb
      omega
  · exact Or.inr hlive

theorem behind_start (hin : InRange i t0) (h1 : day ≤ t0) : Behind i t0 t0 :=
  ⟨asked_of_ge hin h1 (by
    have := (dayNr_timeOfDay (t := t0) (by have := hin.1; omega) hin.2.1)
    omega) hin.2.1, Or.inl (le_refl t0)⟩

/-- No start is told that comes after a period that sticks. -/
theorem starts_le_of_sticks (hin : InRange i t0) (h1 : day ≤ t0) (hs : Sticks i t0 b)
    (hbf : b < foreseen t0) (hx : starts i t0 k = some x) : x ≤ b := by
  have hbn := live_lt hs.1
  -- the search is repeated before the end of that period only
  have hstep : ∀ u y, Behind i t0 u → (u ≤ b + 1 ∨ u = t0) → nextStart i u = some y → y ≤ b := by
    rintro u y ⟨hu, hback⟩ hub hy
    have h0 : 0 ≤ u := by
      have := hu.1.1
      omega
    rcases hback with htu | hback
    · have hlive : b ∈ Live i u := by
        rcases hub with hub | rfl
        · exact live_antitone h0 hub (by omega) hs.2
        · exact hs.1
      obtain ⟨y', hy', hle⟩ := nextStart_le hu.1 hlive
        (lt_of_lt_of_le hbf (le_foreseen htu hu.1.2.1).1)
      rw [hy, Option.some.injEq] at hy'
      omega
    · have hle := next_le_of_back hu.1 hback hy
      rcases hub with hub | rfl
      · omega
      · obtain ⟨y', hy', hle'⟩ := nextStart_le hu.1 hs.1 hbf
        rw [hy, Option.some.injEq] at hy'
        omega
  obtain ⟨u, ⟨hu, hub⟩, hux⟩ := exists_of_deliver
    (Q := fun u => Behind i t0 u ∧ (u ≤ b + 1 ∨ u = t0))
    (fun u y hq hy => ⟨hq.1.next hin h1 hy, Or.inl (by
      have := hstep u y hq.1 hq.2 hy
      omega)⟩) ⟨behind_start hin h1, Or.inr rfl⟩ hx
  exact hstep u x hu hub hux

/-- Without a period that sticks before it, what is coming until it is reached is
    started. -/
theorem exists_start_of_live (hin : InRange i t0) (h1 : day ≤ t0) (ht : t0 ≤ x)
    (hxf : x < foreseen t0) (hlive : ∀ u, InRange i u → u ≤ x → x ∈ Live i u)
    (hfree : ∀ b, Sticks i t0 b → x < b) : ∃ k, starts i t0 k = some x := by
  refine exists_deliver (Q := fun u => Asked i t0 u) (fun _ _ hq hb => asked_next hin h1 hq hb)
    ?_ (behind_start hin h1).1 ht
  intro u hu htu hux
  obtain ⟨b, hb, hbx⟩ := nextStart_le hu.1 (hlive u hu.1 hux)
    (lt_of_lt_of_le hxf (le_foreseen htu hu.1.2.1).1)
  have hbl := nextStart_live hu.1 hb
  rcases le_or_sticks hin hu hbl with hle | ⟨-, hstick⟩
  · exact ⟨b, hb, hle, hbx⟩
  · have := hfree b ⟨live_antitone (by have := hin.1; omega) htu hu.1.2.1 hbl, hstick⟩
    omega

theorem instant_unique (hin : InRange i t0) (h1 : day ≤ t0) (ht : t0 ≤ x)
    (hfree : ∀ b, Sticks i t0 b → x < b) {m : Nat} (hm : starts i t0 m = some x)
    (hk : starts i t0 k = some x) : m = k := by
  refine deliver_unique (Q := fun u => Asked i t0 u) (fun _ _ hq hb => asked_next hin h1 hq hb)
    ?_ (behind_start hin h1).1 hm hk
  intro u b hu hxu hb
  have hbl := nextStart_live hu.1 hb
  rcases le_or_sticks hin hu hbl with hle | ⟨-, hstick⟩
  · omega
  · exact hfree b ⟨live_antitone (by have := hin.1; omega) (by omega) hu.1.2.1 hbl, hstick⟩

/-! ## When the instants start once -/

theorem instantsOnce_of_noEcho (hin : InRange i t0) (h1 : day ≤ t0) (h : NoEcho i t0) :
    InstantsOnce i t0 := by
  have hf := (le_foreseen (le_refl t0) hin.2.1).2.1
  constructor
  · intro a ha ht haf
    have hfree := h.reached a ha ht haf
    obtain ⟨k, hk⟩ := exists_start_of_live hin h1 ht haf
      (fun u hu hua => live_of_instant hu ha hua (by omega)) hfree
    exact ⟨k, hk, fun m hm => instant_unique hin h1 ht hfree hm hk⟩
  · intro k x hx hxf
    obtain ⟨u, ⟨hu, hback⟩, hux⟩ := exists_of_deliver (Q := fun u => Behind i t0 u)
      (fun _ _ hq hb => hq.next hin h1 hb) (behind_start hin h1) hx
    have hxl := nextStart_live hu.1 hux
    rcases live_cases hxl hu.1 with hat | ⟨hle, a, he⟩ | hp
    · exact Or.inl hat
    · rcases hback with htu | hback
      · rcases h.noEcho a x he (by omega) hxf with hat | hp | ⟨b, hs, hlt⟩
        · exact Or.inl hat
        · exact Or.inr hp
        · have := starts_le_of_sticks hin h1 hs (by omega) hx
          omega
      · have := next_le_of_back hu.1 hback hux
        omega
    · exact Or.inr hp

theorem noEcho_of_instantsOnce (hin : InRange i t0) (h1 : day ≤ t0) (h : InstantsOnce i t0) :
    NoEcho i t0 := by
  have hf := (le_foreseen (le_refl t0) hin.2.1).2.1
  have h0 : 0 ≤ t0 := by
    have := hin.1
    omega
  constructor
  · intro a ha ht haf b hs
    by_cases hlt : a.1 < b
    · exact hlt
    · exfalso
      obtain ⟨k, hk, huniq⟩ := h.once a ha ht haf
      have hab := starts_le_of_sticks hin h1 hs (by omega) hk
      have hb : b = a.1 := by omega
      -- the period that begins with the instant is found again right after it
      rw [hb] at hs
      have hnext : starts i t0 (k + 1) = nextStart i (a.1 + 1) := deliver_next hk
      have hin' : InRange i (a.1 + 1) := hin.mono (by omega) (by omega)
      obtain ⟨y, hy, hya⟩ := nextStart_le hin' hs.2
        (lt_of_lt_of_le haf (le_foreseen (t := t0) (by omega) hin'.2.1).1)
      rcases eq_or_lt_of_le hya with rfl | hlt
      · have := huniq (k + 1) (hnext.trans hy)
        omega
      · have hyl := nextStart_live hin' hy
        have hasked : Asked i t0 (a.1 + 1) :=
          ⟨hin', by have := (behind_start hin h1).1.2; omega⟩
        rcases le_or_sticks hin hasked hyl with hle | ⟨-, hstick⟩
        · omega
        · have := starts_le_of_sticks hin h1
            ⟨live_antitone h0 (by omega) hin'.2.1 hyl, hstick⟩ (by omega) hk
          omega
  · intro a x he ht hxf
    by_cases hfree : ∀ b, Sticks i t0 b → x < b
    · obtain ⟨k, hk⟩ := exists_start_of_live hin h1 ht hxf
        (fun u hu hux => live_of_echo hu he hux (by omega)) hfree
      rcases h.nothingElse k x hk hxf with hat | hp
      · exact Or.inl hat
      · exact Or.inr (Or.inl hp)
    · simp only [not_forall, not_lt] at hfree
      obtain ⟨b, hs, hbx⟩ := hfree
      rcases eq_or_lt_of_le hbx with rfl | hlt
      · exact Or.inr (Or.inl (beginsPeriod_of_live (by omega) hs.2))
      · exact Or.inr (Or.inr ⟨b, hs, hlt⟩)

/-- Each instant is started exactly once if and only if it has no echo, and no
    period that sticks comes before it. -/
theorem instantsOnce_iff (hin : InRange i t0) (h1 : day ≤ t0) :
    InstantsOnce i t0 ↔ NoEcho i t0 :=
  ⟨noEcho_of_instantsOnce hin h1, instantsOnce_of_noEcho hin h1⟩

/-! ## An instant on a holiday -/

/-- An `<at>` at noon of the day 101, which is a holiday. -/
def instantOnHoliday : Inlay Day :=
  { datesOnly [] ⟨[101], fun _ => false⟩ with
    atSet := KeySet.ofList _ [⟨101 * day + 43200000, by decide⟩] }

theorem instantOnHoliday_starts :
    starts instantOnHoliday (100 * day) 0 = some (100 * day + 43200000) ∧
    starts instantOnHoliday (100 * day) 1 = some (101 * day + 43200000) ∧
    starts instantOnHoliday (100 * day) 2 = some (102 * day + 43200000) := by decide +kernel

theorem instantOnHoliday_inRange : InRange instantOnHoliday (100 * day) :=
  ⟨by decide, by decide, Or.inl (by decide)⟩

theorem instantOnHoliday_iff :
    InstantsOnce instantOnHoliday (100 * day) ↔ NoEcho instantOnHoliday (100 * day) :=
  instantsOnce_iff instantOnHoliday_inRange (by decide)

/-- The instant is started on the days before and after the holiday, too. -/
theorem instantOnHoliday_echo : ¬InstantsOnce instantOnHoliday (100 * day) := by
  intro h
  rcases h.nothingElse 0 _ instantOnHoliday_starts.1 (by decide) with ⟨a, ha, hx⟩ | ⟨n, d, p, hp, -⟩
  · rw [List.mem_singleton.mp (KeySet.mem_of_mem_ofList ha)] at hx
    exact absurd hx (by decide)
  · obtain ⟨e, he, -⟩ := hp
    have he : e ∈ (datesOnly [] ⟨[101], fun _ => false⟩).daysOf n := he
    obtain ⟨date, hdate, -⟩ := mem_daysOf_datesOnly he
    cases hdate

end AtInstant
