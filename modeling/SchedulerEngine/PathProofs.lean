import Mathlib.Algebra.Ring.Int.Defs
import SchedulerEngine.DirectoryCloneProofs

/-! # Paths

    A path leads from a folder some folders up and then down along names.  `Path`
    reduces its text to that, and builds a path from a folder and a tail. -/

namespace PathForm

open DirectoryMerge

/-! ## Where a path leads -/

/-- So many folders up, and then down along the names, the last one first. -/
structure Place where
  ups : Nat
  names : List Text
deriving DecidableEq

namespace Place

def start : Place := ⟨0, []⟩

/-- One component. -/
def step (p : Place) (part : Text) : Place :=
  if part = ['.'] then p
  else if part = ['.', '.'] then
    match p.names with
    | [] => ⟨p.ups + 1, []⟩
    | _ :: before => ⟨p.ups, before⟩
  else ⟨p.ups, part :: p.names⟩

def walk (p : Place) (l : List Text) : Place := l.foldl step p

/-- The shortest way there. -/
def parts (p : Place) : List Text := List.replicate p.ups ['.', '.'] ++ p.names.reverse

/-- The names are components that lead down. -/
def Named (p : Place) : Prop := ∀ name ∈ p.names, name ≠ ['.'] ∧ name ≠ ['.', '.']

end Place

open Place

/-- A component that leads down counts 1, `..` counts -1. -/
def weight (part : Text) : Int :=
  if part = ['.'] then 0 else if part = ['.', '.'] then -1 else 1

/-- How deep the components lead below the begin. -/
def depth (l : List Text) : Int := (l.map weight).sum

/-- Some of the first components lead above the begin. -/
def Climbs (l : List Text) : Prop := ∃ n, depth (l.take n) < 0

/-- The components that are not empty. -/
def components (s : Text) : List Text := (s.splitOn '/').filter (· ≠ [])

variable {p q : Place} {part : Text} {l m : List Text} {a b c r s t : Text} {root slash : Bool}

/-! ## The components one after the other -/

theorem walk_append (p : Place) (l m : List Text) : p.walk (l ++ m) = (p.walk l).walk m :=
  List.foldl_append

theorem walk_cons (p : Place) (part : Text) (l : List Text) :
    p.walk (part :: l) = (p.step part).walk l := rfl

theorem step_dot : p.step ['.'] = p := if_pos rfl

theorem step_name (h1 : part ≠ ['.']) (h2 : part ≠ ['.', '.']) :
    p.step part = ⟨p.ups, part :: p.names⟩ := by
  rw [step, if_neg h1, if_neg h2]

theorem step_up (ups : Nat) : Place.step ⟨ups, []⟩ ['.', '.'] = ⟨ups + 1, []⟩ := rfl

theorem step_drop (ups : Nat) (last : Text) (before : List Text) :
    Place.step ⟨ups, last :: before⟩ ['.', '.'] = ⟨ups, before⟩ := rfl

theorem Place.Named.step (h : p.Named) (part : Text) : (p.step part).Named := by
  rw [Place.step]
  split
  · exact h
  · split
    · split
      · exact fun name hname => by cases hname
      · rename_i last before hp
        intro name hname
        exact h name (hp ▸ List.mem_cons_of_mem _ hname)
    · rename_i h1 h2
      intro name hname
      rcases List.mem_cons.mp hname with rfl | hname
      · exact ⟨h1, h2⟩
      · exact h name hname

theorem Place.Named.walk (h : p.Named) (l : List Text) : (p.walk l).Named := by
  induction l generalizing p with
  | nil => exact h
  | cons part l ih => exact ih (h.step part)

theorem named_start : start.Named := fun name hname => by cases hname

/-- The names that are walked along come from the components. -/
theorem names_subset (l : List Text) : ∀ name ∈ (p.walk l).names, name ∈ p.names ∨ name ∈ l := by
  induction l generalizing p with
  | nil => exact fun name hname => Or.inl hname
  | cons part l ih =>
      intro name hname
      rcases ih name hname with h | h
      · rw [step] at h
        split at h
        · exact Or.inl h
        · split at h
          · split at h
            · cases h
            · rename_i last before hp
              exact Or.inl (hp ▸ List.mem_cons_of_mem _ h)
          · rcases List.mem_cons.mp h with rfl | h
            · exact Or.inr List.mem_cons_self
            · exact Or.inl h
      · exact Or.inr (List.mem_cons_of_mem _ h)

/-- The shortest way to a place leads there from everywhere. -/
theorem walk_parts_step (h : p.Named) (q : Place) (part : Text) :
    q.walk (p.step part).parts = (q.walk p.parts).step part := by
  obtain ⟨ups, names⟩ := p
  by_cases h1 : part = ['.']
  · subst h1
    rw [step_dot, step_dot]
  · by_cases h2 : part = ['.', '.']
    · subst h2
      cases names with
      | nil =>
          show q.walk (Place.parts ⟨ups + 1, []⟩) = _
          rw [parts, parts, List.replicate_succ']
          simp only [List.reverse_nil, List.append_nil]
          rw [walk_append]
          rfl
      | cons last before =>
          obtain ⟨hl1, hl2⟩ := h last List.mem_cons_self
          show q.walk (Place.parts ⟨ups, before⟩) = _
          have hparts : Place.parts ⟨ups, last :: before⟩ = Place.parts ⟨ups, before⟩ ++ [last] := by
            rw [parts, parts, List.reverse_cons, List.append_assoc]
          rw [hparts, walk_append]
          show _ = ((q.walk (Place.parts ⟨ups, before⟩)).step last).step _
          rw [step_name hl1 hl2]
          rfl
    · have hparts : (Place.step ⟨ups, names⟩ part).parts = Place.parts ⟨ups, names⟩ ++ [part] := by
        rw [step_name h1 h2, parts, parts, List.reverse_cons, List.append_assoc]
      rw [hparts, walk_append]
      rfl

theorem walk_parts (h : p.Named) (q : Place) (l : List Text) :
    q.walk (p.walk l).parts = (q.walk p.parts).walk l := by
  induction l generalizing p with
  | nil => rfl
  | cons part l ih => rw [walk_cons, ih (h.step part), walk_parts_step h, walk_cons]

/-- So it can be taken instead. -/
theorem walk_parts_start (q : Place) (l : List Text) : q.walk (start.walk l).parts = q.walk l :=
  walk_parts named_start q l

theorem ups_le_step (p : Place) (part : Text) : p.ups ≤ (p.step part).ups := by
  rw [step]
  split
  · exact Nat.le_refl _
  · split
    · split
      · exact Nat.le_succ _
      · exact Nat.le_refl _
    · exact Nat.le_refl _

theorem ups_le_walk (p : Place) (l : List Text) : p.ups ≤ (p.walk l).ups := by
  induction l generalizing p with
  | nil => exact Nat.le_refl _
  | cons part l ih => exact Nat.le_trans (ups_le_step p part) (ih _)

/-- The way leads up if and only if some of the first components lead above the
    begin. -/
theorem ups_pos_iff (p : Place) (l : List Text) :
    p.ups < (p.walk l).ups ↔ ∃ n, (p.names.length : Int) + depth (l.take n) < 0 := by
  induction l generalizing p with
  | nil =>
      refine iff_of_false (Nat.lt_irrefl _) ?_
      rintro ⟨n, hn⟩
      rw [List.take_nil] at hn
      have hz : depth [] = 0 := rfl
      omega
  | cons part l ih =>
      have hdepth : ∀ n, depth ((part :: l).take (n + 1)) = weight part + depth (l.take n) := by
        intro n
        rw [List.take_succ_cons, depth, List.map_cons, List.sum_cons]
        rfl
      have hzero : depth ((part :: l).take 0) = 0 := rfl
      -- without a climb, the depth is that of the names
      have hsame : ∀ q : Place, (q.names.length : Int) = p.names.length + weight part →
          (q.ups < (q.walk l).ups ↔
            ∃ n, (p.names.length : Int) + depth ((part :: l).take n) < 0) := by
        intro q hlength
        rw [ih]
        constructor
        · rintro ⟨n, hn⟩
          refine ⟨n + 1, ?_⟩
          rw [hdepth]
          omega
        · rintro ⟨n, hn⟩
          cases n with
          | zero =>
              rw [hzero] at hn
              omega
          | succ n =>
              refine ⟨n, ?_⟩
              rw [hdepth] at hn
              omega
      rw [walk_cons]
      obtain ⟨ups, names⟩ := p
      by_cases h1 : part = ['.']
      · subst h1
        rw [step_dot]
        exact hsame _ (Int.add_zero _).symm
      · by_cases h2 : part = ['.', '.']
        · subst h2
          cases names with
          | nil =>
              rw [step_up]
              refine iff_of_true (Nat.lt_of_lt_of_le (Nat.lt_succ_self ups)
                (ups_le_walk ⟨ups + 1, []⟩ l)) ⟨1, ?_⟩
              rw [hdepth, List.take_zero]
              exact Int.negSucc_lt_zero 0
          | cons last before =>
              rw [step_drop]
              refine hsame ⟨ups, before⟩ ?_
              show (before.length : Int) = (last :: before).length + -1
              rw [List.length_cons]
              omega
        · rw [step_name h1 h2]
          refine hsame ⟨ups, part :: names⟩ ?_
          rw [weight, if_neg h1, if_neg h2, List.length_cons]
          show ((names.length + 1 : Nat) : Int) = names.length + 1
          omega

theorem climbs_iff : Climbs l ↔ 0 < (start.walk l).ups := by
  rw [show (0 : Nat) = start.ups from rfl, ups_pos_iff]
  refine exists_congr fun n => ?_
  show _ ↔ (0 : Int) + _ < 0
  rw [Int.zero_add]

/-! ## The loop over the parts -/

/-- The parts before, the last one first. -/
def Place.done (p : Place) : List Text := p.names ++ List.replicate p.ups ['.', '.']

theorem reverse_done (p : Place) : p.done.reverse = p.parts := by
  rw [done, parts, List.reverse_append, List.reverse_replicate]

theorem simplifiedParts_eq (path : Text) (hp : p.Named) (hroot : root = true → p.ups = 0) :
    simplifiedParts root path p.done l
      = if root = true ∧ 0 < (p.walk l).ups then .error .dotDotAboveRoot
        else .ok (p.walk l).parts := by
  induction l generalizing p with
  | nil =>
      have hcond : ¬(root = true ∧ 0 < (p.walk []).ups) := by
        rintro ⟨h, hpos⟩
        have := hroot h
        have hwalk : p.walk [] = p := rfl
        rw [hwalk] at hpos
        omega
      rw [if_neg hcond, simplifiedParts, reverse_done]
      rfl
  | cons part l ih =>
      rw [simplifiedParts.eq_def, walk_cons]
      show (if part = ['.'] then _ else _) = _
      by_cases h1 : part = ['.']
      · rw [if_pos h1, h1, step_dot]
        exact ih hp hroot
      · rw [if_neg h1]
        by_cases h2 : part = ['.', '.']
        · rw [if_pos h2]
          obtain ⟨ups, names⟩ := p
          cases names with
          | nil =>
              cases ups with
              | zero =>
                  show (if root = true then _ else simplifiedParts root path [part] l) = _
                  subst h2
                  rw [step_up]
                  by_cases hr : root = true
                  · have hpos := ups_le_walk ⟨0 + 1, []⟩ l
                    rw [if_pos hr, if_pos ⟨hr, hpos⟩]
                  · rw [if_neg hr]
                    exact ih (p := ⟨1, []⟩) (fun name hname => by cases hname)
                      fun h => absurd h hr
              | succ ups =>
                  have hr : ¬root = true := fun h => absurd (hroot h) (Nat.succ_ne_zero _)
                  subst h2
                  rw [step_up]
                  exact ih (p := ⟨ups + 1 + 1, []⟩) (fun name hname => by cases hname)
                    fun h => absurd h hr
          | cons last before =>
              obtain ⟨hl1, hl2⟩ := hp last List.mem_cons_self
              show (if last = ['.', '.'] then _ else _) = _
              rw [if_neg hl2]
              have hstep : Place.step ⟨ups, last :: before⟩ part = ⟨ups, before⟩ := by
                rw [step, if_neg h1, if_pos h2]
              rw [hstep]
              exact ih (p := ⟨ups, before⟩)
                (fun name hname => hp name (List.mem_cons_of_mem _ hname)) hroot
        · rw [if_neg h2]
          have hstep : p.step part = ⟨p.ups, part :: p.names⟩ := step_name h1 h2
          rw [hstep]
          exact ih (p := ⟨p.ups, part :: p.names⟩) (hstep ▸ hp.step part) hroot

/-! ## Components and texts -/

theorem components_nil : components [] = [] := rfl

theorem components_append_cons (s t : Text) :
    components (s ++ '/' :: t) = components s ++ components t := by
  rw [components, List.splitOn_append_cons_self, List.filter_append]
  rfl

theorem components_cons (s : Text) : components ('/' :: s) = components s :=
  components_append_cons [] s

theorem components_concat (s : Text) : components (s ++ ['/']) = components s := by
  rw [components_append_cons, components_nil, List.append_nil]

theorem components_of_notMem (hs : '/' ∉ s) (hne : s ≠ []) : components s = [s] := by
  rw [components, List.splitOn_eq_singleton hs]
  exact List.filter_cons_of_pos (decide_eq_true hne)

/-- Components are not empty and have no slash. -/
theorem of_mem_components (h : part ∈ components s) : part ≠ [] ∧ '/' ∉ part := by
  obtain ⟨hmem, hne⟩ := List.mem_filter.mp h
  refine ⟨of_decide_eq_true hne, ?_⟩
  clear h hne
  induction s generalizing part with
  | nil =>
      rw [List.splitOn_nil] at hmem
      rw [List.mem_singleton.mp hmem]
      exact List.not_mem_nil
  | cons c s ih =>
      rw [List.splitOn_cons_eq_if_modifyHead] at hmem
      split at hmem
      · rcases List.mem_cons.mp hmem with rfl | hmem
        · exact List.not_mem_nil
        · exact ih hmem
      · rename_i hc
        obtain ⟨first, rest, hfirst⟩ := List.exists_cons_of_ne_nil (List.splitOn_ne_nil '/' s)
        rw [hfirst, List.modifyHead_cons] at hmem
        rcases List.mem_cons.mp hmem with rfl | hmem
        · have := @ih first (hfirst ▸ List.mem_cons_self)
          rw [List.mem_cons, not_or]
          refine ⟨fun heq => hc ?_, this⟩
          rw [heq]
          exact beq_self_eq_true c
        · exact ih (hfirst ▸ List.mem_cons_of_mem _ hmem)

/-- Parts that stand in a text as its components. -/
def Solid (l : List Text) : Prop := ∀ part ∈ l, part ≠ [] ∧ '/' ∉ part

theorem solid_parts (l : List Text) (hl : Solid l) : Solid (start.walk l).parts := by
  intro part hpart
  rcases List.mem_append.mp hpart with h | h
  · rw [List.eq_of_mem_replicate h]
    exact ⟨by decide, by decide⟩
  · rcases names_subset l part (List.mem_reverse.mp h) with h | h
    · cases h
    · exact hl part h

theorem solid_components (s : Text) : Solid (components s) := fun _ h => of_mem_components h

/-- The text of parts, of an absolute path or not, with a slash behind it or not. -/
def text (root : Bool) (l : List Text) (slash : Bool) : Text :=
  (if root = true then ['/'] else []) ++ ['/'].intercalate l ++ if slash = true then ['/'] else []

/-- The text that remains; nothing becomes `.`. -/
def form (root : Bool) (l : List Text) (slash : Bool) : Text :=
  if root = false ∧ l = [] then ['.'] else text root l (slash && !l.isEmpty)

def endsWithSlash (s : Text) : Bool := s.getLast? = some '/'

theorem intercalate_cons_cons (s t : Text) (l : List Text) :
    ['/'].intercalate (s :: t :: l) = s ++ '/' :: ['/'].intercalate (t :: l) := by
  rw [List.intercalate_cons_cons]
  exact List.append_assoc _ _ _

theorem components_intercalate (hl : Solid l) : components (['/'].intercalate l) = l := by
  induction l with
  | nil => rfl
  | cons s l ih =>
      obtain ⟨hs, hslash⟩ := hl s List.mem_cons_self
      cases l with
      | nil =>
          rw [List.intercalate_singleton]
          exact components_of_notMem hslash hs
      | cons t l =>
          rw [intercalate_cons_cons, components_append_cons, components_of_notMem hslash hs,
            ih fun part hpart => hl part (List.mem_cons_of_mem _ hpart)]
          rfl

/-- A text of parts begins and ends with a character of them. -/
theorem intercalate_ends (hl : Solid l) (hne : l ≠ []) :
    ['/'].intercalate l ≠ [] ∧ (['/'].intercalate l).head? ≠ some '/' ∧
      (['/'].intercalate l).getLast? ≠ some '/' := by
  induction l with
  | nil => exact absurd rfl hne
  | cons s l ih =>
      obtain ⟨hs, hslash⟩ := hl s List.mem_cons_self
      have hhead : s.head? ≠ some '/' := fun h => hslash (List.mem_of_mem_head? h)
      cases l with
      | nil =>
          rw [List.intercalate_singleton]
          exact ⟨hs, hhead, fun h => hslash (List.mem_of_mem_getLast? h)⟩
      | cons t l =>
          obtain ⟨h1, -, h3⟩ := ih (fun part hpart => hl part (List.mem_cons_of_mem _ hpart))
            (List.cons_ne_nil _ _)
          rw [intercalate_cons_cons]
          refine ⟨List.append_ne_nil_of_left_ne_nil hs _, ?_, ?_⟩
          · rw [List.head?_append_of_ne_nil _ hs]
            exact hhead
          · rw [List.getLast?_append_of_ne_nil _ (List.cons_ne_nil _ _),
              List.getLast?_cons_of_ne_nil h1]
            exact h3

theorem components_text (hl : Solid l) : components (text root l slash) = l := by
  have hroot : components ((if root = true then ['/'] else []) ++ ['/'].intercalate l) = l := by
    cases root with
    | false => exact components_intercalate hl
    | true => exact (components_cons _).trans (components_intercalate hl)
  cases slash with
  | false =>
      show components (_ ++ []) = l
      rw [List.append_nil]
      exact hroot
  | true => exact (components_concat _).trans hroot

theorem text_ne_nil (hl : Solid l) (h : root = true ∨ l ≠ []) : text root l slash ≠ [] := by
  have hinner : (if root = true then ['/'] else []) ++ ['/'].intercalate l ≠ [] := by
    rcases h with rfl | h
    · exact List.cons_ne_nil _ _
    · exact List.append_ne_nil_of_right_ne_nil _ (intercalate_ends hl h).1
  exact List.append_ne_nil_of_left_ne_nil hinner _

theorem isAbsolutePath_text (hl : Solid l) (h : root = true ∨ l ≠ []) :
    isAbsolutePath (text root l slash) = root := by
  cases root with
  | true => exact decide_eq_true rfl
  | false =>
      have hne := h.resolve_left Bool.false_ne_true
      obtain ⟨h1, h2, -⟩ := intercalate_ends hl hne
      refine decide_eq_false ?_
      show (['/'].intercalate l ++ _).head? ≠ _
      rw [List.head?_append_of_ne_nil _ h1]
      exact h2

theorem endsWithSlash_text (hl : Solid l) (hne : l ≠ []) :
    endsWithSlash (text root l slash) = slash := by
  obtain ⟨h1, -, h3⟩ := intercalate_ends hl hne
  cases slash with
  | true =>
      refine decide_eq_true ?_
      show (_ ++ ['/']).getLast? = _
      rw [List.getLast?_concat]
  | false =>
      refine decide_eq_false ?_
      show (_ ++ []).getLast? ≠ _
      rw [List.append_nil, List.getLast?_append_of_ne_nil _ h1]
      exact h3

theorem form_of_ne_nil (h : root = true ∨ l ≠ []) :
    form root l slash = text root l (slash && !l.isEmpty) := by
  refine if_neg ?_
  rintro ⟨hr, hl⟩
  rcases h with h | h
  · rw [hr] at h
    exact Bool.false_ne_true h
  · exact h hl

/-- The text leads where the parts lead. -/
theorem walk_form (hl : Solid l) (q : Place) : q.walk (components (form root l slash)) = q.walk l := by
  by_cases h : root = true ∨ l ≠ []
  · rw [form_of_ne_nil h, components_text hl]
  · obtain ⟨hr, hne⟩ := not_or.mp h
    obtain rfl := not_not.mp hne
    rw [form, if_pos ⟨Bool.eq_false_iff.mpr hr, rfl⟩]
    rfl

theorem isAbsolutePath_form (hl : Solid l) : isAbsolutePath (form root l slash) = root := by
  by_cases h : root = true ∨ l ≠ []
  · rw [form_of_ne_nil h, isAbsolutePath_text hl h]
  · obtain ⟨hr, hne⟩ := not_or.mp h
    have hr := Bool.eq_false_iff.mpr hr
    rw [form, if_pos ⟨hr, not_not.mp hne⟩, hr]
    rfl

theorem form_ne_nil (hl : Solid l) : form root l slash ≠ [] := by
  by_cases h : root = true ∨ l ≠ []
  · rw [form_of_ne_nil h]
    exact text_ne_nil hl h
  · obtain ⟨hr, hne⟩ := not_or.mp h
    rw [form, if_pos ⟨Bool.eq_false_iff.mpr hr, not_not.mp hne⟩]
    exact List.cons_ne_nil _ _

theorem endsWithSlash_form (hl : Solid l) (hne : l ≠ []) :
    endsWithSlash (form root l slash) = slash := by
  have hempty : l.isEmpty = false := by
    rw [List.isEmpty_eq_false_iff]
    exact hne
  rw [form_of_ne_nil (Or.inr hne), endsWithSlash_text hl hne, hempty]
  exact Bool.and_true slash

/-! ## `simplified_dot_dot_path` -/

/-- Where the text leads. -/
def place (s : Text) : Place := start.walk (components s)

theorem climbs_components : Climbs (components s) ↔ 0 < (place s).ups := climbs_iff

/-- The text that is made of the parts. -/
theorem finish_eq (hl : Solid l) (s : Text) :
    (if (if root = true then ['/'] else []) ++ ['/'].intercalate l = [] then
        (pure ['.'] : Except PathError Text)
      else if l ≠ [] ∧ s.getLast? = some '/' then
        pure ((if root = true then ['/'] else []) ++ ['/'].intercalate l ++ ['/'])
      else pure ((if root = true then ['/'] else []) ++ ['/'].intercalate l))
      = .ok (form root l (endsWithSlash s)) := by
  have hnil : (if root = true then ['/'] else []) ++ ['/'].intercalate l = [] ↔
      ¬(root = true ∨ l ≠ []) := by
    constructor
    · intro h hor
      have : text root l false ≠ [] := text_ne_nil hl hor
      rw [text, h] at this
      exact this rfl
    · intro h
      obtain ⟨hr, hne⟩ := not_or.mp h
      rw [if_neg hr, not_not.mp hne]
      rfl
  by_cases hor : root = true ∨ l ≠ []
  · rw [if_neg fun h => hnil.mp h hor, form_of_ne_nil hor, text]
    by_cases hslash : l ≠ [] ∧ s.getLast? = some '/'
    · have hempty : l.isEmpty = false := List.isEmpty_eq_false_iff.mpr hslash.1
      have hends : endsWithSlash s = true := decide_eq_true hslash.2
      rw [if_pos hslash, hempty, hends]
      rfl
    · have hflag : (endsWithSlash s && !l.isEmpty) = false := by
        rw [Bool.and_eq_false_iff]
        by_cases hne : l = []
        · refine Or.inr ?_
          rw [hne]
          rfl
        · exact Or.inl (decide_eq_false fun h => hslash ⟨hne, h⟩)
      rw [if_neg hslash, hflag, if_neg Bool.false_ne_true, List.append_nil]
      rfl
  · obtain ⟨hr, hne⟩ := not_or.mp hor
    rw [if_pos (hnil.mpr hor), form, if_pos ⟨Bool.eq_false_iff.mpr hr, not_not.mp hne⟩]
    rfl

theorem simplified_eq (hs : s ≠ []) :
    simplifiedDotDotPath s
      = if isAbsolutePath s = true ∧ 0 < (place s).ups then .error .dotDotAboveRoot
        else .ok (form (isAbsolutePath s) (place s).parts (endsWithSlash s)) := by
  by_cases hfast : '.' ∉ s ∧ '/' ∉ s
  · -- the text is a single name
    have habs : isAbsolutePath s = false := by
      refine decide_eq_false fun h => hfast.2 (List.mem_of_mem_head? h)
    have hplace : place s = ⟨0, [s]⟩ := by
      rw [place, components_of_notMem hfast.2 hs, walk_cons, step_name]
      · rfl
      · rintro rfl
        exact hfast.1 List.mem_cons_self
      · rintro rfl
        exact hfast.1 List.mem_cons_self
    have hslash : endsWithSlash s = false :=
      decide_eq_false fun h => hfast.2 (List.mem_of_mem_getLast? h)
    rw [simplifiedDotDotPath, if_pos hfast, habs, hplace, hslash,
      if_neg fun h => Bool.false_ne_true h.1]
    show _ = Except.ok (form false [s] false)
    rw [form_of_ne_nil (Or.inr (List.cons_ne_nil _ _)), text]
    simp
  · have hloop : simplifiedParts (isAbsolutePath s) s [] (components s)
        = if isAbsolutePath s = true ∧ 0 < (place s).ups then .error .dotDotAboveRoot
          else .ok (place s).parts := simplifiedParts_eq s named_start fun _ => rfl
    have hsolid : Solid (place s).parts := solid_parts _ (solid_components s)
    rw [simplifiedDotDotPath, if_neg hfast]
    show (simplifiedParts (isAbsolutePath s) s [] (components s) >>= fun parts => _) = _
    rw [hloop]
    by_cases herror : isAbsolutePath s = true ∧ 0 < (place s).ups
    · rw [if_pos herror, if_pos herror]
      rfl
    · rw [if_neg herror, if_neg herror]
      exact finish_eq hsolid s

/-! ## The normal form -/

/-- Some `..`, none of them in an absolute path, and then names; a slash may stand
    behind them.  A relative path that vanishes is `.`. -/
def Normal (root : Bool) (r : Text) : Prop :=
  root = false ∧ r = ['.'] ∨
  ∃ ups names slash, r = text root (List.replicate ups ['.', '.'] ++ names) slash ∧
    (∀ name ∈ names, name ≠ [] ∧ '/' ∉ name ∧ name ≠ ['.'] ∧ name ≠ ['.', '.']) ∧
    (root = true → ups = 0) ∧
    (slash = true → List.replicate ups ['.', '.'] ++ names ≠ [])

theorem normal_form (s : Text) (hroot : root = true → (place s).ups = 0) :
    Normal root (form root (place s).parts slash) := by
  by_cases h : root = true ∨ (place s).parts ≠ []
  · refine Or.inr ⟨(place s).ups, (place s).names.reverse, _, form_of_ne_nil h, ?_, hroot, ?_⟩
    · intro name hname
      have hname := List.mem_reverse.mp hname
      obtain ⟨h1, h2⟩ := named_start.walk (components s) name hname
      rcases names_subset (components s) name hname with hmem | hmem
      · cases hmem
      · obtain ⟨h3, h4⟩ := of_mem_components hmem
        exact ⟨h3, h4, h1, h2⟩
    · intro hslash
      rw [Bool.and_eq_true, Bool.not_eq_true', List.isEmpty_eq_false_iff] at hslash
      exact hslash.2
  · obtain ⟨hr, hne⟩ := not_or.mp h
    have hr := Bool.eq_false_iff.mpr hr
    rw [form, if_pos ⟨hr, not_not.mp hne⟩]
    exact Or.inl ⟨hr, rfl⟩

theorem place_form (s : Text) : place (form root (place s).parts slash) = place s := by
  have hsolid : Solid (place s).parts := solid_parts _ (solid_components s)
  exact (walk_form hsolid start).trans (walk_parts_start start (components s))

/-- What is simplified stays as it is. -/
theorem simplified_form (s : Text) (h : ¬(root = true ∧ 0 < (place s).ups)) :
    simplifiedDotDotPath (form root (place s).parts slash)
      = .ok (form root (place s).parts slash) := by
  have hsolid : Solid (place s).parts := solid_parts _ (solid_components s)
  rw [simplified_eq (form_ne_nil hsolid), isAbsolutePath_form hsolid, place_form, if_neg h]
  by_cases hne : (place s).parts = []
  · rw [hne, form, form, List.isEmpty_nil, Bool.not_true, Bool.and_false, Bool.and_false]
  · rw [endsWithSlash_form hsolid hne]

/-- A simplified path: what it looks like, where it leads, and that it stays. -/
structure Simplified (s r : Text) : Prop where
  normal : Normal (isAbsolutePath s) r
  absolute : isAbsolutePath r = isAbsolutePath s
  leads : ∀ q : Place, q.walk (components r) = q.walk (components s)
  stays : simplifiedDotDotPath r = .ok r

/-- A path is refused if and only if it is absolute and climbs above the root;
    else it is simplified. -/
theorem simplified_cases (s : Text) :
    (isAbsolutePath s = true ∧ Climbs (components s) ∧
      simplifiedDotDotPath s = .error .dotDotAboveRoot) ∨
    (¬(isAbsolutePath s = true ∧ Climbs (components s)) ∧
      ∃ r, simplifiedDotDotPath s = .ok r ∧ Simplified s r) := by
  rw [climbs_components]
  by_cases hs : s = []
  · subst hs
    refine Or.inr ⟨fun h => Bool.false_ne_true h.1, [], rfl, ?_⟩
    refine ⟨Or.inr ⟨0, [], false, rfl, ?_, fun _ => rfl, fun h => absurd h Bool.false_ne_true⟩,
      rfl, fun _ => rfl, rfl⟩
    exact fun name hname => by cases hname
  · rw [simplified_eq hs]
    by_cases h : isAbsolutePath s = true ∧ 0 < (place s).ups
    · rw [if_pos h]
      exact Or.inl ⟨h.1, h.2, rfl⟩
    · have hsolid : Solid (place s).parts := solid_parts _ (solid_components s)
      rw [if_neg h]
      refine Or.inr ⟨h, _, rfl, normal_form s fun hroot => ?_, isAbsolutePath_form hsolid,
        fun q => ?_, simplified_form s h⟩
      · exact Nat.eq_zero_of_not_pos fun hpos => h ⟨hroot, hpos⟩
      · rw [walk_form hsolid]
        exact walk_parts_start q (components s)

/-! ## Building paths -/

/-- The text of a folder and a tail. -/
def glue (folder tail : Text) : Text :=
  (if folder ≠ [] ∧ folder.getLast? ≠ some '/' then folder ++ ['/'] else folder) ++
    if folder ≠ [] ∧ tail.head? = some '/' then tail.drop 1 else tail

theorem joinedPath_eq (s t : Text) : joinedPath s t = simplifiedDotDotPath (glue s t) := by
  rw [joinedPath]
  by_cases h : s.length + t.length = 0
  · obtain rfl := List.length_eq_zero_iff.mp (Nat.eq_zero_of_add_eq_zero_right h)
    obtain rfl := List.length_eq_zero_iff.mp (Nat.eq_zero_of_add_eq_zero_left h)
    rfl
  · rw [if_neg h]
    rfl

theorem glue_nil (t : Text) : glue [] t = t := rfl

/-- A folder ends with a slash, one that it has or one that is put there. -/
theorem glue_eq (hs : s ≠ []) (ht : isAbsolutePath t = false) :
    ∃ u, glue s t = u ++ '/' :: t ∧ components u = components s ∧
      (u ++ ['/']).head? = s.head? := by
  have htail : ¬(s ≠ [] ∧ t.head? = some '/') := fun h => of_decide_eq_false ht h.2
  rw [glue, if_neg htail]
  by_cases hlast : s.getLast? = some '/'
  · obtain ⟨u, rfl⟩ := List.getLast?_eq_some_iff.mp hlast
    refine ⟨u, ?_, (components_concat u).symm, rfl⟩
    rw [if_neg fun h => h.2 hlast, List.append_assoc]
    rfl
  · refine ⟨s, ?_, rfl, List.head?_append_of_ne_nil s hs⟩
    rw [if_pos ⟨hs, hlast⟩, List.append_assoc]
    rfl

theorem components_glue (s : Text) (ht : isAbsolutePath t = false) :
    components (glue s t) = components s ++ components t := by
  by_cases hs : s = []
  · rw [hs]
    rfl
  · obtain ⟨u, hu, hcomponents, -⟩ := glue_eq hs ht
    rw [hu, components_append_cons, hcomponents]

theorem isAbsolutePath_glue (s : Text) (ht : isAbsolutePath t = false) :
    isAbsolutePath (glue s t) = isAbsolutePath s := by
  by_cases hs : s = []
  · rw [hs]
    exact ht
  · obtain ⟨u, hu, -, hhead⟩ := glue_eq hs ht
    have hfirst : (u ++ '/' :: t).head? = (u ++ ['/']).head? := by
      cases u <;> rfl
    rw [isAbsolutePath, isAbsolutePath, hu, hfirst, hhead]

/-- A folder without a tail ends with a slash. -/
theorem endsWithSlash_glue (s : Text) (ht : isAbsolutePath t = false) :
    endsWithSlash (glue s t) = true ↔ endsWithSlash t = true ∨ t = [] ∧ s ≠ [] := by
  by_cases hs : s = []
  · subst hs
    rw [glue_nil]
    exact ⟨Or.inl, fun h => h.resolve_right fun h => h.2 rfl⟩
  · obtain ⟨u, hu, -⟩ := glue_eq hs ht
    rw [endsWithSlash, hu, List.getLast?_append_of_ne_nil _ (List.cons_ne_nil _ _)]
    by_cases h : t = []
    · subst h
      exact iff_of_true rfl (Or.inr ⟨rfl, hs⟩)
    · rw [List.getLast?_cons_of_ne_nil h]
      exact ⟨Or.inl, fun h' => h'.resolve_right fun h' => h h'.1⟩

theorem glue_ne_nil (h : s ≠ [] ∨ t ≠ []) (ht : isAbsolutePath t = false) : glue s t ≠ [] := by
  by_cases hs : s = []
  · rw [hs]
    exact h.resolve_left fun h => h hs
  · obtain ⟨u, hu, -⟩ := glue_eq hs ht
    rw [hu]
    exact List.append_ne_nil_of_right_ne_nil _ (List.cons_ne_nil _ _)

/-- The path from a folder along components: refused, or a text. -/
def built (s : Text) (l : List Text) (slash : Bool) : Except PathError Text :=
  if isAbsolutePath s = true ∧ 0 < (start.walk (components s ++ l)).ups then
    .error .dotDotAboveRoot
  else .ok (form (isAbsolutePath s) (start.walk (components s ++ l)).parts slash)

/-- A folder and a tail lead along the folder and then along the tail. -/
theorem joined_eq (h : s ≠ [] ∨ t ≠ []) (ht : isAbsolutePath t = false) :
    joinedPath s t = built s (components t) (endsWithSlash (glue s t)) := by
  rw [joinedPath_eq, simplified_eq (glue_ne_nil h ht), isAbsolutePath_glue s ht, place,
    components_glue s ht, built]

/-! ## One tail, or step by step -/

/-- `Path(a, Path(b, c))` -/
def inOneTail (a b c : Text) : Except PathError Text := joinedPath b c >>= joinedPath a

/-- `Path(Path(a, b), c)` -/
def inSteps (a b c : Text) : Except PathError Text :=
  joinedPath a b >>= fun folder => joinedPath folder c

/-- The tail vanishes with its slash, and the folder remains. -/
def Lost (a b c : Text) : Prop :=
  start.walk (components b ++ components c) = start ∧
  (endsWithSlash c = true ∨ c = [] ∧ b ≠ []) ∧
  place a ≠ start ∧ ¬(isAbsolutePath a = true ∧ Climbs (components a))

theorem parts_eq_nil : p.parts = [] ↔ p = start := by
  obtain ⟨ups, names⟩ := p
  constructor
  · intro h
    obtain ⟨hups, hnames⟩ := List.append_eq_nil_iff.mp h
    obtain rfl : ups = 0 := (List.replicate_eq_nil_iff _).mp hups
    obtain rfl : names = [] := List.reverse_eq_nil_iff.mp hnames
    rfl
  · intro h
    rw [h]
    rfl

theorem form_slash (hl : l ≠ []) : form root l true = form root l false ++ ['/'] := by
  have hempty : l.isEmpty = false := List.isEmpty_eq_false_iff.mpr hl
  rw [form_of_ne_nil (Or.inr hl), form_of_ne_nil (Or.inr hl), hempty, text, text]
  show _ ++ ['/'] = (_ ++ []) ++ ['/']
  rw [List.append_nil]

theorem form_nil (root slash : Bool) : form root [] slash = form root [] false := by
  rw [form, form, List.isEmpty_nil, Bool.not_true, Bool.and_false, Bool.and_false]

/-- The slash counts only where a component remains. -/
theorem built_congr {slash' : Bool}
    (h : start.walk (components s ++ l) ≠ start → slash = slash') :
    built s l slash = built s l slash' := by
  by_cases hstart : start.walk (components s ++ l) = start
  · rw [built, built, parts_eq_nil.mpr hstart, form_nil, form_nil _ slash']
  · rw [h hstart]

theorem inOneTail_eq (a : Text) (hb : isAbsolutePath b = false) (hc : isAbsolutePath c = false)
    (h : b ≠ [] ∨ c ≠ []) :
    inOneTail a b c = built a (components b ++ components c)
      (decide (start.walk (components b ++ components c) ≠ start ∧
        (endsWithSlash c = true ∨ c = [] ∧ b ≠ []))) := by
  have hsolid : Solid (start.walk (components b ++ components c)).parts := by
    refine solid_parts _ fun part hpart => ?_
    rcases List.mem_append.mp hpart with hpart | hpart
    · exact of_mem_components hpart
    · exact of_mem_components hpart
  have hfirst : joinedPath b c = .ok (form false (start.walk (components b ++ components c)).parts
      (endsWithSlash (glue b c))) := by
    rw [joined_eq h hc, built, hb, if_neg fun h => Bool.false_ne_true h.1]
  show (joinedPath b c >>= joinedPath a) = _
  rw [hfirst]
  show joinedPath a _ = _
  rw [joined_eq (Or.inr (form_ne_nil hsolid)) (isAbsolutePath_form hsolid)]
  have hwalk : start.walk (components a ++ components (form false
      (start.walk (components b ++ components c)).parts (endsWithSlash (glue b c))))
      = start.walk (components a ++ (components b ++ components c)) := by
    rw [walk_append, walk_form hsolid, walk_parts_start, ← walk_append]
  rw [built, hwalk]
  refine congrArg (built a (components b ++ components c)) ?_
  rw [Bool.eq_iff_iff, decide_eq_true_iff, endsWithSlash_glue a (isAbsolutePath_form hsolid),
    or_iff_left fun h => form_ne_nil hsolid h.1]
  by_cases hstart : start.walk (components b ++ components c) = start
  · refine iff_of_false ?_ fun h => h.1 hstart
    rw [hstart]
    exact Bool.false_ne_true
  · rw [endsWithSlash_form hsolid fun h => hstart (parts_eq_nil.mp h), endsWithSlash_glue b hc]
    exact (and_iff_right hstart).symm

theorem inSteps_eq (a : Text) (hb : isAbsolutePath b = false) (hc : isAbsolutePath c = false)
    (h : a ≠ [] ∨ b ≠ [] ∨ c ≠ []) :
    inSteps a b c = built a (components b ++ components c)
      (decide (endsWithSlash c = true ∨ c = [] ∧ (a ≠ [] ∨ b ≠ []))) := by
  show (joinedPath a b >>= fun folder => joinedPath folder c) = _
  by_cases hab : a ≠ [] ∨ b ≠ []
  · have hsolid : Solid (start.walk (components a ++ components b)).parts := by
      refine solid_parts _ fun part hpart => ?_
      rcases List.mem_append.mp hpart with hpart | hpart
      · exact of_mem_components hpart
      · exact of_mem_components hpart
    rw [joined_eq hab hb, built]
    by_cases herror : isAbsolutePath a = true ∧ 0 < (start.walk (components a ++ components b)).ups
    · have hall : isAbsolutePath a = true ∧
          0 < (start.walk (components a ++ (components b ++ components c))).ups := by
        refine ⟨herror.1, ?_⟩
        rw [← List.append_assoc, walk_append]
        exact Nat.lt_of_lt_of_le herror.2 (ups_le_walk _ _)
      rw [if_pos herror, built, if_pos hall]
      rfl
    · rw [if_neg herror]
      show joinedPath _ c = _
      rw [joined_eq (Or.inl (form_ne_nil hsolid)) hc, built, isAbsolutePath_form hsolid,
        walk_append, walk_form hsolid, walk_parts_start, ← walk_append, List.append_assoc]
      refine congrArg (built a (components b ++ components c)) ?_
      rw [Bool.eq_iff_iff, decide_eq_true_iff, endsWithSlash_glue _ hc]
      refine or_congr_right (and_congr_right fun _ => ?_)
      exact iff_of_true (form_ne_nil hsolid) hab
  · obtain ⟨ha', hb'⟩ := not_or.mp hab
    obtain rfl := not_not.mp ha'
    obtain rfl := not_not.mp hb'
    have hc' : c ≠ [] := (h.resolve_left ha').resolve_left hb'
    show joinedPath [] c = _
    rw [joined_eq (Or.inr hc') hc]
    refine congrArg (built [] (components c)) ?_
    rw [Bool.eq_iff_iff, decide_eq_true_iff, endsWithSlash_glue _ hc]
    refine or_congr_right (and_congr_right fun _ => ?_)
    exact iff_of_false (fun h => h rfl) hab

/-- A tail that is not there is that of the folder. -/
theorem inOneTail_nil (a : Text) : inOneTail a [] [] = inSteps a [] [] := by
  show joinedPath a [] = inSteps a [] []
  by_cases ha : a = []
  · subst ha
    rfl
  · have hslash : endsWithSlash (glue a []) = true :=
      (endsWithSlash_glue a rfl).mpr (Or.inr ⟨rfl, ha⟩)
    rw [inSteps_eq a rfl rfl (Or.inl ha), joined_eq (Or.inl ha) rfl, hslash,
      decide_eq_true (Or.inr ⟨rfl, Or.inl ha⟩)]
    rfl

/-- Both ways lead to the same path, up to the slash of a tail that vanishes. -/
theorem inOneTail_inSteps (a : Text) (hb : isAbsolutePath b = false)
    (hc : isAbsolutePath c = false) :
    (Lost a b c → ∃ r, inOneTail a b c = .ok r ∧ inSteps a b c = .ok (r ++ ['/'])) ∧
    (¬Lost a b c → inOneTail a b c = inSteps a b c) := by
  by_cases hbc : b ≠ [] ∨ c ≠ []
  · have hempty : c = [] → b ≠ [] := fun h => hbc.resolve_right fun h' => h' h
    rw [inOneTail_eq a hb hc hbc, inSteps_eq a hb hc (Or.inr hbc)]
    by_cases hstart : start.walk (components b ++ components c) = start
    · -- the tail vanishes, so that the folder remains
      have hwalk : start.walk (components a ++ (components b ++ components c)) = place a := by
        rw [walk_append, ← walk_parts_start, hstart]
        rfl
      rw [decide_eq_false fun h => h.1 hstart]
      by_cases hslash : endsWithSlash c = true ∨ c = [] ∧ b ≠ []
      · rw [decide_eq_true (hslash.imp_right fun h => ⟨h.1, Or.inr h.2⟩)]
        constructor
        · rintro ⟨-, -, hplace, herror⟩
          rw [climbs_components] at herror
          have hparts : (place a).parts ≠ [] := fun h => hplace (parts_eq_nil.mp h)
          rw [built, built, hwalk, if_neg herror, if_neg herror, form_slash hparts]
          exact ⟨_, rfl, rfl⟩
        · intro hlost
          by_cases herror : isAbsolutePath a = true ∧ Climbs (components a)
          · have herror' := herror
            rw [climbs_components] at herror'
            rw [built, built, hwalk, if_pos herror', if_pos herror']
          · refine built_congr fun hplace => absurd ⟨hstart, hslash, ?_, herror⟩ hlost
            exact hwalk ▸ hplace
      · have hflag : ¬(endsWithSlash c = true ∨ c = [] ∧ (a ≠ [] ∨ b ≠ [])) :=
          fun h => hslash (h.imp_right fun h => ⟨h.1, hempty h.1⟩)
        rw [decide_eq_false hflag]
        exact ⟨fun h => absurd h.2.1 hslash, fun _ => rfl⟩
    · refine ⟨fun h => absurd h.1 hstart, fun _ => ?_⟩
      refine congrArg (built a (components b ++ components c)) (decide_eq_decide.mpr ?_)
      constructor
      · rintro ⟨-, h⟩
        exact h.imp_right fun h => ⟨h.1, Or.inr h.2⟩
      · intro h
        exact ⟨hstart, h.imp_right fun h => ⟨h.1, hempty h.1⟩⟩
  · obtain ⟨hb', hc'⟩ := not_or.mp hbc
    obtain rfl := not_not.mp hb'
    obtain rfl := not_not.mp hc'
    refine ⟨?_, fun _ => inOneTail_nil a⟩
    rintro ⟨-, hslash | hslash, -⟩
    · cases hslash
    · exact absurd rfl hslash.2

/-- A path is refused exactly if it is absolute and climbs above the root, and is
    simplified else; and building it in one step or in several gives the same, except
    for the slash behind a tail that vanishes. -/
theorem path_laws :
    (∀ s : Text,
      (isAbsolutePath s = true ∧ Climbs (components s) ∧
        simplifiedDotDotPath s = .error .dotDotAboveRoot) ∨
      (¬(isAbsolutePath s = true ∧ Climbs (components s)) ∧
        ∃ r, simplifiedDotDotPath s = .ok r ∧ Simplified s r)) ∧
    ∀ a b c : Text, isAbsolutePath b = false → isAbsolutePath c = false →
      (Lost a b c → ∃ r, inOneTail a b c = .ok r ∧ inSteps a b c = .ok (r ++ ['/'])) ∧
      (¬Lost a b c → inOneTail a b c = inSteps a b c) :=
  ⟨simplified_cases, fun a _ _ hb hc => inOneTail_inSteps a hb hc⟩

theorem path_laws_names :
    inOneTail ['/', 'a'] ['b'] ['c'] = inSteps ['/', 'a'] ['b'] ['c'] := by
  refine (path_laws.2 ['/', 'a'] ['b'] ['c'] rfl rfl).2 ?_
  rintro ⟨h, -⟩
  exact absurd h (by decide)

/-- `Path("a", Path("x", "../"))` is `a`, and `Path(Path("a", "x"), "../")` is `a/`. -/
theorem vanishing_tail :
    ¬∀ a b c : Text, isAbsolutePath b = false → isAbsolutePath c = false →
      inOneTail a b c = inSteps a b c := by
  intro h
  exact absurd (h ['a'] ['x'] ['.', '.', '/'] rfl rfl) (by decide)

end PathForm
