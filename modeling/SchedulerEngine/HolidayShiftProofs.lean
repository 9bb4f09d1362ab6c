import SchedulerEngine.ScheduleSearchProofs
import SchedulerEngine.SuccessiveNextProofs

/-! # Starts and holidays

    A period of a holiday is suppressed, kept, or moved to the first day after
    the holidays or the last one before them.  The search probes the holidays
    around each day, up to `foresee_years` days away; an `<at>` is found by the
    probes of both directions. -/

namespace HolidayShift

open SchedulerTime SchedulePeriod ScheduleInlay ScheduleSearch LeftmostLeast SuccessiveNext

variable {i : Inlay Day} {h : Holidays} {t u x n d : Int} {wh : WhenHoliday} {item : Item}

/-- A period of the holiday `n` with the setting belongs to the day `d`. -/
def MovedFromHoliday (h : Holidays) (n d : Int) : WhenHoliday → Prop
  | .suppress => False
  | .ignoreHoliday => d = n
  | .nextNonHoliday => n < d ∧ h.isHoliday d = false ∧
      ∀ m, n < m → m < d → h.isHoliday m = true
  | .previousNonHoliday => d < n ∧ h.isHoliday d = false ∧
      ∀ m, d < m → m < n → h.isHoliday m = true

/-- A period of the day `n` with the setting belongs to the day `d`. -/
def MovedTo (h : Holidays) (n d : Int) (wh : WhenHoliday) : Prop :=
  if h.isHoliday n then MovedFromHoliday h n d wh else d = n

/-- On which day an item of the day `n` is found.  An `<at>` is found on its own
    day, and by the probes from the days around the holidays. -/
def MovesTo (h : Holidays) (n d : Int) : Item → Prop
  | .period p => MovedTo h n d p.1.whenHoliday
  | .instant _ => d = n ∨ h.isHoliday n = true ∧
      (MovedTo h n d .nextNonHoliday ∨ MovedTo h n d .previousNonHoliday)

/-- The probes reach that far. -/
def InReach (n d : Int) : Prop := n - Inlay.foreseeYears ≤ d ∧ d ≤ n + Inlay.foreseeYears

/-- The item of the day `n` is found for the day `d`, at the time `u` of that day. -/
structure OfferedAt (i : Inlay Day) (u n d : Int) (item : Item) : Prop where
  onDay : OnDay i n item
  moves : MovesTo i.holidays n d item
  inReach : InReach n d
  coming : item.isComing (timeOfDay u) wssNextAnyStart = true
  begin_lt : n * day + item.begin_ < never
  time_lt : u + (n - d) * day < never

theorem isComing_bits (item : Item) (tod : Int) (wh : WhenHoliday) :
    item.isComing tod (wssNextAnyStart ||| wh.bits) = true ↔
      item.isComing tod wssNextAnyStart = true ∧
        ∀ p, item = .period p → wh = .suppress ∨ p.1.whenHoliday = wh := by
  have hplain : Plain wssNextAnyStart := by decide
  cases item with
  | instant a =>
      rw [Item.isComing, Item.isComing, (hplain.has_bits wh).2.2.2.2.2.2.2]
      refine ⟨fun h => ⟨h, ?_⟩, fun h => h.1⟩
      intro p hp
      cases hp
  | period p =>
      rw [Item.isComing, Item.isComing, Period.isComing_bits hplain, Bool.and_eq_true,
        Bool.or_eq_true, decide_eq_true_eq, decide_eq_true_eq]
      constructor
      · rintro ⟨hwh, hc⟩
        refine ⟨hc, ?_⟩
        intro q hq
        cases hq
        exact hwh
      · rintro ⟨hc, hwh⟩
        exact ⟨hwh p rfl, hc⟩

theorem mem_found_shift {w : WithSingleStart} (k : Int) (h0 : 0 ≤ u) (hu : u ≤ never)
    (h0' : 0 ≤ u + k * day) (hu' : u + k * day ≤ never) :
    x ∈ Found i (u + k * day) w ↔ ∃ item, OnDay i (dayNr u + k) item ∧
      item.isComing (timeOfDay u) w = true ∧ x = (dayNr u + k) * day + item.begin_ := by
  obtain ⟨hday, htod⟩ := dayNr_shift k h0 hu h0' hu'
  rw [Found, hday, htod]
  exact Iff.rfl

theorem movedTo_next (hn : h.isHoliday n = true) :
    MovedTo h n d .nextNonHoliday ↔ n < d ∧ h.isHoliday d = false ∧
      ∀ m, n < m → m < d → h.isHoliday m = true := by
  rw [MovedTo, if_pos hn]
  exact Iff.rfl

theorem movedTo_previous (hn : h.isHoliday n = true) :
    MovedTo h n d .previousNonHoliday ↔ d < n ∧ h.isHoliday d = false ∧
      ∀ m, d < m → m < n → h.isHoliday m = true := by
  rw [MovedTo, if_pos hn]
  exact Iff.rfl

theorem movedTo_ignore : MovedTo h n n .ignoreHoliday := by
  rw [MovedTo]
  split
  · exact rfl
  · rfl

theorem movedTo_of_not (hn : h.isHoliday n = false) : MovedTo h n d wh ↔ d = n := by
  rw [MovedTo, if_neg (fun ht => Bool.false_ne_true (hn.symm.trans ht))]

/-- An item moves as its setting says; an `<at>` moves both ways. -/
theorem movesTo_of_bits (hn : h.isHoliday n = true) (hmoved : MovedTo h n d wh)
    (hbits : ∀ p, item = .period p → wh = .suppress ∨ p.1.whenHoliday = wh) :
    MovesTo h n d item := by
  cases item with
  | instant a =>
      cases wh with
      | suppress =>
          rw [MovedTo, if_pos hn] at hmoved
          exact False.elim hmoved
      | ignoreHoliday =>
          rw [MovedTo, if_pos hn] at hmoved
          exact Or.inl hmoved
      | nextNonHoliday => exact Or.inr ⟨hn, Or.inl hmoved⟩
      | previousNonHoliday => exact Or.inr ⟨hn, Or.inr hmoved⟩
  | period p =>
      rcases hbits p rfl with rfl | hwh
      · rw [MovedTo, if_pos hn] at hmoved
        exact False.elim hmoved
      · show MovedTo h n d p.1.whenHoliday
        rw [hwh]
        exact hmoved

/-- The setting by which an item of a holiday moves. -/
theorem bits_of_movesTo (hn : h.isHoliday n = true) (hmoves : MovesTo h n d item) :
    ∃ wh, MovedFromHoliday h n d wh ∧
      ∀ p, item = .period p → wh = .suppress ∨ p.1.whenHoliday = wh := by
  cases item with
  | instant a =>
      rcases hmoves with hd | ⟨-, hmoved | hmoved⟩
      · exact ⟨.ignoreHoliday, hd, fun p hp => by cases hp⟩
      · exact ⟨.nextNonHoliday, (movedTo_next hn).mp hmoved, fun p hp => by cases hp⟩
      · exact ⟨.previousNonHoliday, (movedTo_previous hn).mp hmoved, fun p hp => by cases hp⟩
  | period p =>
      refine ⟨p.1.whenHoliday, ?_, ?_⟩
      · have hmoved : MovedTo h n d p.1.whenHoliday := hmoves
        rwa [MovedTo, if_pos hn] at hmoved
      · intro q hq
        cases hq
        exact Or.inr rfl

theorem movesTo_self (hn : h.isHoliday n = false) (hmoves : MovesTo h n d item) : d = n := by
  cases item with
  | instant a =>
      rcases hmoves with hd | ⟨hhol, -⟩
      · exact hd
      · rw [hn] at hhol
        cases hhol
  | period p => exact (movedTo_of_not hn).mp hmoves

/-- What the search of a day chooses from, item by item. -/
theorem mem_searched (hin : InRange i u) (hu : u < never) (hx : x < never) :
    x ∈ Searched i u wssNextAnyStart ↔
      ∃ n item, OfferedAt i u n (dayNr u) item ∧ x = dayNr u * day + item.begin_ := by
  obtain ⟨h0, hle, hdom⟩ := hin
  have hreach : Inlay.foreseeYears = 20 := rfl
  rw [Searched]
  constructor
  · cases hhol : i.holidays.isHoliday (dayNr u) with
    | true =>
        rw [if_pos rfl]
        rintro ⟨item, hon, hc, rfl⟩
        obtain ⟨hc, hbits⟩ := (isComing_bits item _ .ignoreHoliday).mp hc
        refine ⟨dayNr u, item, ⟨hon, movesTo_of_bits hhol movedTo_ignore hbits, ?_, hc, hx, ?_⟩,
          rfl⟩
        · rw [InReach]
          omega
        · rw [Int.sub_self, Int.zero_mul]
          omega
    | false =>
        rw [if_neg Bool.false_ne_true]
        rintro ((⟨item, hon, hc, rfl⟩ | ⟨k, hk, hk20, hall, y, hy, hyn, rfl⟩) |
          ⟨k, hk, hk20, hall, y, hy, hyn, rfl⟩)
        · refine ⟨dayNr u, item, ⟨hon, ?_, ?_, hc, hx, ?_⟩, rfl⟩
          · cases item with
            | instant a => exact Or.inl rfl
            | period p => exact (movedTo_of_not hhol).mpr rfl
          · rw [InReach]
            omega
          · rw [Int.sub_self, Int.zero_mul]
            omega
        · have hfar : 21 * day ≤ u := by
            refine hdom.resolve_right fun hnone => ?_
            have := hall 1 (le_refl _) hk
            rw [hnone] at this
            cases this
          rw [day_eq] at hfar
          have hneg : u - k * day = u + -k * day := by
            rw [Int.neg_mul]
            omega
          rw [hneg, mem_found_shift (-k) (by omega) hle (by rw [day_eq]; omega)
            (by rw [day_eq]; omega)] at hy
          obtain ⟨item, hon, hc, rfl⟩ := hy
          obtain ⟨hc, hbits⟩ := (isComing_bits item _ .nextNonHoliday).mp hc
          have hn : i.holidays.isHoliday (dayNr u + -k) = true := hall k hk (le_refl k)
          refine ⟨dayNr u + -k, item, ⟨hon, movesTo_of_bits hn ((movedTo_next hn).mpr
            ⟨by omega, hhol, ?_⟩) hbits, ?_, hc, hyn, ?_⟩, ?_⟩
          · intro m hm hm'
            have := hall (dayNr u - m) (by omega) (by omega)
            rwa [Int.sub_sub_self] at this
          · rw [InReach]
            omega
          · rw [day_eq]
            omega
          · rw [day_eq]
            omega
        · have hlt := (hall k hk (le_refl k)).1
          rw [mem_found_shift k (by omega) hle (by rw [day_eq]; omega) (le_of_lt hlt)] at hy
          obtain ⟨item, hon, hc, rfl⟩ := hy
          obtain ⟨hc, hbits⟩ := (isComing_bits item _ .previousNonHoliday).mp hc
          have hn : i.holidays.isHoliday (dayNr u + k) = true := (hall k hk (le_refl k)).2
          refine ⟨dayNr u + k, item, ⟨hon, movesTo_of_bits hn ((movedTo_previous hn).mpr
            ⟨by omega, hhol, ?_⟩) hbits, ?_, hc, hyn, ?_⟩, ?_⟩
          · intro m hm hm'
            have := (hall (m - dayNr u) (by omega) (by omega)).2
            rwa [show dayNr u + (m - dayNr u) = m by omega] at this
          · rw [InReach]
            omega
          · rw [show dayNr u + k - dayNr u = k by omega]
            exact hlt
          · rw [day_eq]
            omega
  · rintro ⟨n, item, ⟨hon, hmoves, hreach', hc, hbegin, htime⟩, rfl⟩
    have hb := item.begin_bounds hon
    obtain ⟨hr1, hr2⟩ := hreach'
    rw [hreach] at hr1 hr2
    cases hn : i.holidays.isHoliday n with
    | false =>
        have hd := movesTo_self hn hmoves
        rw [hd, hn, if_neg Bool.false_ne_true, ← hd]
        rw [← hd] at hon
        exact Or.inl (Or.inl ⟨item, hon, hc, rfl⟩)
    | true =>
        obtain ⟨wh, hmoved, hbits⟩ := bits_of_movesTo hn hmoves
        have hcb := (isComing_bits item _ wh).mpr ⟨hc, hbits⟩
        cases wh with
        | suppress => exact False.elim hmoved
        | ignoreHoliday =>
            have hd : dayNr u = n := hmoved
            rw [hd, hn, if_pos rfl, ← hd]
            rw [← hd] at hon
            exact ⟨item, hon, hcb, rfl⟩
        | nextNonHoliday =>
            obtain ⟨hlt, hd, hbetween⟩ := hmoved
            have hfar : 21 * day ≤ u := by
              refine hdom.resolve_right fun hnone => ?_
              rw [hnone] at hn
              cases hn
            rw [day_eq] at hfar
            rw [hd, if_neg Bool.false_ne_true]
            refine Or.inl (Or.inr ⟨dayNr u - n, by omega, by omega, ?_,
              n * day + item.begin_, ?_, hbegin, by rw [day_eq]; omega⟩)
            · intro j hj hjk
              rcases eq_or_lt_of_le hjk with rfl | hjk
              · rwa [Int.sub_sub_self]
              · exact hbetween _ (by omega) (by omega)
            · have hneg : u - (dayNr u - n) * day = u + (n - dayNr u) * day := by
                rw [day_eq]
                omega
              rw [hneg, mem_found_shift (n - dayNr u) (by omega) hle (by rw [day_eq]; omega)
                (by rw [day_eq]; omega), show dayNr u + (n - dayNr u) = n by omega]
              exact ⟨item, hon, hcb, rfl⟩
        | previousNonHoliday =>
            obtain ⟨hlt, hd, hbetween⟩ := hmoved
            rw [hd, if_neg Bool.false_ne_true]
            refine Or.inr ⟨n - dayNr u, by omega, by omega, ?_,
              n * day + item.begin_, ?_, hbegin, by rw [day_eq]; omega⟩
            · intro j hj hjk
              refine ⟨by rw [day_eq] at *; omega, ?_⟩
              rcases eq_or_lt_of_le hjk with rfl | hjk
              · rwa [show dayNr u + (n - dayNr u) = n by omega]
              · exact hbetween _ (by omega) (by omega)
            · rw [mem_found_shift (n - dayNr u) (by omega) hle (by rw [day_eq]; omega)
                (le_of_lt htime), show dayNr u + (n - dayNr u) = n by omega]
              exact ⟨item, hon, hcb, rfl⟩

/-! ## Successive starts -/

/-- The begin of the period found for `wss_next_any_start`. -/
def nextStart (i : Inlay Day) (t : Int) : Option Int :=
  let p := i.nextLocalPeriod t wssNextAnyStart never
  if p.empty then none else some p.begin_

/-- The starts from `t0` on: the search is repeated from `begin + epsilon`. -/
def starts (i : Inlay Day) (t0 : Int) (n : Nat) : Option Int := deliver (nextStart i) t0 n

/-- The end of the foreseen range. -/
def foreseen (t : Int) : Int := Inlay.limitedBefore t never

/-- The begins of what is coming at the time `u` or on a later day. -/
def Live (i : Inlay Day) (u : Int) : Set Int :=
  {x | ∃ d n item, dayNr u ≤ d ∧ max u (d * day) < never ∧
    OfferedAt i (max u (d * day)) n d item ∧ x = d * day + item.begin_ ∧ x < never}

theorem dayNr_max (h0 : 0 ≤ u) (hu : u ≤ never) (hd : dayNr u ≤ d)
    (hmax : max u (d * day) < never) : dayNr (max u (d * day)) = d := by
  rcases eq_or_lt_of_le hd with rfl | hlt
  · rw [max_today h0 hu]
  · have hmid := max_midnight h0 hu hlt
    have h0d := (dayNr_le h0 hu).1
    rw [hmid] at hmax ⊢
    exact (dayNr_mul (by omega) (by omega)).1

theorem le_foreseen (htu : t ≤ u) (hu : u ≤ never) :
    foreseen t ≤ foreseen u ∧ foreseen u ≤ never ∧ (u < never → u < foreseen u) := by
  have hadd : ∀ v, v < never → add v (Inlay.foreseeYears * 366 * day)
      = min (v + 20 * 366 * day) never := by
    intro v hv
    rw [add_of_lt hv (by decide), setTime]
    rfl
  rw [foreseen, foreseen, Inlay.limitedBefore, Inlay.limitedBefore]
  rcases eq_or_lt_of_le hu with rfl | hu
  · rw [add_never]
    omega
  · rw [hadd t (by omega), hadd u hu, day_eq]
    omega

/-- What is told is coming. -/
theorem nextStart_live {b : Int} (hin : InRange i u) (hb : nextStart i u = some b) :
    b ∈ Live i u := by
  have hleast := nextLocalPeriod_leastOr (w := wssNextAnyStart) never hin
  rw [nextStart] at hb
  split at hb
  · cases hb
  · rename_i he
    cases hb
    have hlt : (i.nextLocalPeriod u wssNextAnyStart never).begin_ < never :=
      lt_of_le_of_ne hleast.le_bound fun h => he (decide_eq_true h)
    obtain ⟨d, hd, hlim, hx⟩ := hleast.mem hlt
    have hmax : max u (d * day) < never :=
      lt_of_lt_of_le hlim (min_le_left _ _)
    have hday := dayNr_max (by have := hin.1; omega) hin.2.1 hd hmax
    obtain ⟨n, item, hoff, hxe⟩ :=
      (mem_searched (hin.mono (le_max_left _ _) (le_of_lt hmax)) hmax hlt).mp hx
    rw [hday] at hoff hxe
    exact ⟨d, n, item, hd, hmax, hoff, hxe, hlt⟩

/-- What is coming in the foreseen range is not passed over. -/
theorem nextStart_le (hin : InRange i u) (hx : x ∈ Live i u) (hxf : x < foreseen u) :
    ∃ b, nextStart i u = some b ∧ b ≤ x := by
  have hleast := nextLocalPeriod_leastOr (w := wssNextAnyStart) never hin
  obtain ⟨d, n, item, hd, hmax, hoff, hxe, hlt⟩ := hx
  have h0 : 0 ≤ u := by
    have := hin.1
    omega
  have hday := dayNr_max h0 hin.2.1 hd hmax
  have hb := item.begin_bounds hoff.onDay
  have hlim : max u (d * day) < foreseen u := by
    have := (le_foreseen (le_refl u) hin.2.1).2.2 (by omega)
    omega
  have hmem : x ∈ Due i wssNextAnyStart (foreseen u) u := by
    refine ⟨d, hd, hlim, ?_⟩
    refine (mem_searched (hin.mono (le_max_left _ _) (le_of_lt hmax)) hmax hlt).mpr ?_
    rw [hday]
    exact ⟨n, item, hoff, hxe⟩
  have hle := hleast.le x hmem
  refine ⟨_, ?_, hle⟩
  rw [nextStart]
  exact if_neg fun he => absurd (of_decide_eq_true he) (by omega)

theorem live_ge (hx : x ∈ Live i u) : dayNr u * day ≤ x := by
  obtain ⟨d, n, item, hd, -, hoff, rfl, -⟩ := hx
  have hb := item.begin_bounds hoff.onDay
  rw [day_eq] at *
  omega

theorem live_lt (hx : x ∈ Live i u) : x < never := by
  obtain ⟨d, n, item, -, -, -, -, hlt⟩ := hx
  exact hlt

theorem isComing_antitone {w : WithSingleStart} {tod tod' : Int} (item : Item) (h0 : 0 ≤ tod)
    (hle : tod ≤ tod') (hn : tod' ≤ never) (hc : item.isComing tod' w = true) :
    item.isComing tod w = true := by
  cases item with
  | instant a =>
      rw [Item.isComing, Bool.and_eq_true, decide_eq_true_eq] at hc ⊢
      exact ⟨hc.1, le_trans hle hc.2⟩
  | period p => exact p.2.isComing_antitone h0 hle hn hc

/-- What is coming at a time is coming from each earlier time of the day on. -/
theorem OfferedAt.antitone {v : Int} (hoff : OfferedAt i v n d item) (h0 : 0 ≤ u) (huv : u ≤ v)
    (hv : v ≤ never) (hday : dayNr u = dayNr v) : OfferedAt i u n d item := by
  have h1 := dayNr_timeOfDay h0 (le_trans huv hv)
  have h2 := dayNr_timeOfDay (le_trans h0 huv) hv
  rw [hday] at h1
  refine ⟨hoff.onDay, hoff.moves, hoff.inReach, ?_, hoff.begin_lt, ?_⟩
  · exact isComing_antitone item h1.2.1 (by omega)
      (le_trans (le_of_lt h2.2.2) (by decide)) hoff.coming
  · have := hoff.time_lt
    omega

theorem live_antitone {v : Int} (h0 : 0 ≤ u) (huv : u ≤ v) (hv : v ≤ never)
    (hx : x ∈ Live i v) : x ∈ Live i u := by
  obtain ⟨d, n, item, hd, hmax, hoff, hxe, hlt⟩ := hx
  have hd' : dayNr u ≤ d := le_trans (dayNr_mono h0 huv hv) hd
  have hmax' : max u (d * day) < never := by omega
  refine ⟨d, n, item, hd', hmax', ?_, hxe, hlt⟩
  refine hoff.antitone (by omega) (by omega) (le_of_lt hmax) ?_
  rw [dayNr_max h0 (le_trans huv hv) hd' hmax', dayNr_max (le_trans h0 huv) hv hd hmax]

theorem dayNr_le_of_lt (h0 : 0 ≤ u) (hu : u ≤ never) (hlt : u < d * day + day) : dayNr u ≤ d := by
  rw [dayNr_eq h0 hu]
  rw [day_eq] at *
  omega

/-- The time of day at which an item is looked for. -/
theorem timeOfDay_max (h0 : 0 ≤ u) (hu : u ≤ never) (hd : dayNr u ≤ d)
    (hmax : max u (d * day) < never) :
    d * day + timeOfDay (max u (d * day)) = max u (d * day) := by
  have h := (dayNr_timeOfDay (t := max u (d * day)) (by omega) (le_of_lt hmax)).1
  rwa [dayNr_max h0 hu hd hmax] at h

end HolidayShift
