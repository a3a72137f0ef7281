import Mathlib.Data.List.DropRight
import Mathlib.Data.List.ReduceOption
import Mathlib.Tactic

/-! Lines of text that are laid out on rows of cells. A cell of a row holds an element or,
next to a wide one, only fills the row. The text of a line is read back either as a whole,
without the fillers and without the blanks at its end, or row by row, with a blank for each
filler and without the blanks at the end of each row. -/

namespace WrappedText

variable {α : Type} (blank : α)

/-- Without the blanks at the end. -/
def trim [DecidableEq α] (s : List α) : List α := s.rdropWhile (· = blank)

def Visible (s : List α) : Prop := ∃ c ∈ s, c ≠ blank

instance [DecidableEq α] (s : List α) : Decidable (Visible blank s) := inferInstanceAs (Decidable (∃ c ∈ s, c ≠ blank))

/-- A row with blanks for its fillers. -/
def pad (row : List (Option α)) : List α := row.map fun c => c.getD blank

/-- The fillers of a row with text after them have text before them. -/
def Placed (row : List (Option α)) : Prop :=
  ∀ a b, row = a ++ none :: b → Visible blank b.reduceOption → Visible blank a.reduceOption

/-- No filler has text after it. -/
def Tight (row : List (Option α)) : Prop := ∀ a b, row = a ++ none :: b → ¬ Visible blank b.reduceOption

/-- The text of all rows. -/
def joined (rows : List (List (Option α))) : List α := rows.flatMap List.reduceOption

/-- The rows read one by one. -/
def byRows [DecidableEq α] (rows : List (List (Option α))) : List α :=
  rows.flatMap fun row => trim blank (pad blank row)

/-- No filler has text after it in its row, and no row that text follows ends in a blank. -/
def Seamless [DecidableEq α] : List (List (Option α)) → Prop
  | [] => True
  | row :: rows =>
    Tight blank row ∧ (Visible blank (joined rows) → trim blank row.reduceOption = row.reduceOption) ∧ Seamless rows

section Visible

variable {blank} {s t : List α} {c : α} {row : List (Option α)}

theorem not_visible_nil : ¬ Visible blank ([] : List α) := fun ⟨_, hc, _⟩ => List.not_mem_nil hc

theorem visible_append : Visible blank (s ++ t) ↔ Visible blank s ∨ Visible blank t := by
  simp only [Visible, List.mem_append, or_and_right, exists_or]

theorem visible_cons : Visible blank (c :: s) ↔ c ≠ blank ∨ Visible blank s := by
  simp only [Visible, List.mem_cons, exists_eq_or_imp]

theorem visible_pad : Visible blank (pad blank row) ↔ Visible blank row.reduceOption := by
  induction row with
  | nil => rfl
  | cons c row ih =>
    change Visible blank (c.getD blank :: pad blank row) ↔ _
    rw [visible_cons, ih]
    cases c with
    | none => simp
    | some c => rw [List.reduceOption_cons_of_some, visible_cons, Option.getD_some]

theorem tight_cons {d : Option α} :
    Tight blank (d :: row) ↔ (d = none → ¬ Visible blank row.reduceOption) ∧ Tight blank row := by
  constructor
  · intro h
    refine ⟨?_, fun a b hrow => h (d :: a) b (by rw [hrow]; rfl)⟩
    rintro rfl
    exact h [] row rfl
  · rintro ⟨hd, hrow⟩ a b hsplit
    cases a with
    | nil =>
      obtain ⟨rfl, rfl⟩ := List.cons.inj hsplit
      exact hd rfl
    | cons e a =>
      obtain ⟨rfl, rfl⟩ := List.cons.inj hsplit
      exact hrow a b rfl

theorem tight_of_blank (h : ¬ Visible blank row.reduceOption) : Tight blank row := by
  rintro a b rfl hb
  apply h
  rw [List.reduceOption_append, List.reduceOption_cons_of_none]
  exact visible_append.mpr (Or.inr hb)

end Visible

variable [DecidableEq α]

section Trim

variable {blank} {s t : List α} {c : α}

@[simp] theorem trim_nil : trim blank ([] : List α) = [] := rfl

theorem trim_eq_nil : trim blank s = [] ↔ ¬ Visible blank s := by
  simp only [trim, Visible, List.rdropWhile_eq_nil_iff, decide_eq_true_eq, not_exists, not_and, not_not]

theorem trim_concat_blank (s : List α) : trim blank (s ++ [blank]) = trim blank s :=
  List.rdropWhile_concat_pos _ _ _ (by simp)

theorem trim_concat (hc : c ≠ blank) (s : List α) : trim blank (s ++ [c]) = s ++ [c] :=
  List.rdropWhile_concat_neg _ _ _ (by simpa using hc)

theorem trim_append_blank (ht : ¬ Visible blank t) (s : List α) : trim blank (s ++ t) = trim blank s := by
  induction t using List.reverseRecOn with
  | nil => rw [List.append_nil]
  | append_singleton t c ih =>
    obtain rfl : c = blank := by
      by_contra hc
      exact ht ⟨c, by simp, hc⟩
    rw [← List.append_assoc, trim_concat_blank]
    exact ih fun ⟨d, hd, hne⟩ => ht ⟨d, List.mem_append_left _ hd, hne⟩

theorem trim_append (ht : Visible blank t) (s : List α) : trim blank (s ++ t) = s ++ trim blank t := by
  induction t using List.reverseRecOn with
  | nil => exact absurd ht not_visible_nil
  | append_singleton t c ih =>
    rw [← List.append_assoc]
    by_cases hc : c = blank
    · subst hc
      rw [trim_concat_blank, trim_concat_blank]
      apply ih
      obtain ⟨d, hd, hne⟩ := ht
      exact ⟨d, by simpa [hne] using hd, hne⟩
    · rw [trim_concat hc, trim_concat hc, List.append_assoc]

theorem visible_trim (h : Visible blank s) : Visible blank (trim blank s) := by
  by_contra hnot
  have hnil : trim blank (trim blank s) = [] := trim_eq_nil.mpr hnot
  rw [trim, trim, List.rdropWhile_idempotent] at hnil
  exact trim_eq_nil.mp hnil h

theorem trim_cons_visible (h : Visible blank s) (c : α) : trim blank (c :: s) = c :: trim blank s :=
  trim_append h [c]

theorem trim_cons_blank (h : ¬ Visible blank s) (c : α) : trim blank (c :: s) = trim blank [c] :=
  trim_append_blank h [c]

/-- The blanks that `trim` takes away. -/
theorem exists_trim (blank : α) (s : List α) : ∃ t, s = trim blank s ++ t ∧ ∀ c ∈ t, c = blank :=
  ⟨s.rtakeWhile (· = blank), List.rdropWhile_append_rtakeWhile.symm, fun c hc => by
    simpa using List.mem_rtakeWhile_imp hc⟩

end Trim

/-! One row. -/

section Row

variable {blank} {row : List (Option α)}

theorem length_trim_le (blank : α) (row : List (Option α)) :
    (trim blank row.reduceOption).length ≤ (trim blank (pad blank row)).length := by
  induction row with
  | nil => exact le_rfl
  | cons c row ih =>
    change _ ≤ (trim blank (c.getD blank :: pad blank row)).length
    by_cases hv : Visible blank row.reduceOption
    · rw [trim_cons_visible (visible_pad.mpr hv)]
      cases c with
      | none =>
        rw [List.reduceOption_cons_of_none, List.length_cons]
        omega
      | some c =>
        rw [List.reduceOption_cons_of_some, trim_cons_visible hv]
        simpa using ih
    · cases c with
      | none => rw [List.reduceOption_cons_of_none, trim_eq_nil.mpr hv]; exact Nat.zero_le _
      | some c =>
        rw [List.reduceOption_cons_of_some, trim_cons_blank hv, trim_cons_blank (mt visible_pad.mp hv)]
        exact le_rfl

/-- A row is read right if and only if no filler has text after it. -/
theorem trim_pad_iff (row : List (Option α)) :
    trim blank (pad blank row) = trim blank row.reduceOption ↔ Tight blank row := by
  induction row with
  | nil => simp [pad, Tight]
  | cons c row ih =>
    rw [tight_cons, ← ih]
    change trim blank (c.getD blank :: pad blank row) = _ ↔ _
    by_cases hv : Visible blank row.reduceOption
    · rw [trim_cons_visible (visible_pad.mpr hv)]
      cases c with
      | none =>
        rw [List.reduceOption_cons_of_none]
        refine iff_of_false (fun h => ?_) fun h => h.1 rfl hv
        have hlength := congrArg List.length h
        have hle := length_trim_le blank row
        rw [List.length_cons] at hlength
        omega
      | some c =>
        rw [List.reduceOption_cons_of_some, trim_cons_visible hv]
        simp
    · have hblank := mt visible_pad.mp hv
      rw [trim_cons_blank hblank, trim_eq_nil.mpr hblank, trim_eq_nil.mpr hv]
      cases c with
      | none =>
        rw [List.reduceOption_cons_of_none, trim_eq_nil.mpr hv]
        exact iff_of_true (trim_concat_blank []) ⟨fun _ => hv, rfl⟩
      | some c =>
        rw [List.reduceOption_cons_of_some, trim_cons_blank hv]
        exact iff_of_true rfl ⟨nofun, rfl⟩

end Row

/-! The blanks at the beginning. -/

section Lead

variable {blank} {s t : List α}

def lead (blank : α) (s : List α) : ℕ := (s.takeWhile (· = blank)).length

theorem lead_cons (c : α) (s : List α) : lead blank (c :: s) = if c = blank then lead blank s + 1 else 0 := by
  unfold lead
  split_ifs with hc <;> simp [hc]

theorem lead_append_blank (hs : ∀ c ∈ s, c = blank) (t : List α) :
    lead blank (s ++ t) = s.length + lead blank t := by
  unfold lead
  rw [List.takeWhile_append_of_pos (by simpa using hs), List.length_append]

theorem lead_append (h : Visible blank s) (t : List α) : lead blank (s ++ t) = lead blank s := by
  induction s with
  | nil => exact absurd h not_visible_nil
  | cons c s ih =>
    rw [List.cons_append, lead_cons, lead_cons]
    by_cases hc : c = blank
    · have hs : Visible blank s := (visible_cons.mp h).resolve_left (not_not.mpr hc)
      rw [if_pos hc, if_pos hc, ih hs]
    · rw [if_neg hc, if_neg hc]

theorem lead_trim (h : Visible blank s) : lead blank (trim blank s) = lead blank s := by
  obtain ⟨t, hs, -⟩ := exists_trim blank s
  conv_rhs => rw [hs]
  rw [lead_append (visible_trim h)]

/-- In front of its first text a row has no filler. -/
theorem lead_pad {row : List (Option α)} (hplaced : Placed blank row) (h : Visible blank row.reduceOption) :
    lead blank (pad blank row) = lead blank row.reduceOption := by
  induction row with
  | nil => rfl
  | cons c row ih =>
    cases c with
    | none => exact absurd (hplaced [] row rfl h) not_visible_nil
    | some c =>
      change lead blank (c :: pad blank row) = _
      rw [List.reduceOption_cons_of_some] at h ⊢
      rw [lead_cons, lead_cons]
      by_cases hc : c = blank
      · have hrow : Visible blank row.reduceOption := (visible_cons.mp h).resolve_left (not_not.mpr hc)
        have hrest : Placed blank row := by
          rintro a b rfl hb
          have ha := hplaced (some c :: a) b rfl hb
          rw [List.reduceOption_cons_of_some, visible_cons] at ha
          exact ha.resolve_left (not_not.mpr hc)
        rw [if_pos hc, if_pos hc, ih hrest hrow]
      · rw [if_neg hc, if_neg hc]

end Lead

/-! All rows of a line. -/

section Rows

variable {blank} {rows : List (List (Option α))}

theorem byRows_eq_nil (rows : List (List (Option α))) : byRows blank rows = [] ↔ ¬ Visible blank (joined rows) := by
  induction rows with
  | nil => exact iff_of_true rfl not_visible_nil
  | cons row rows ih =>
    change trim blank (pad blank row) ++ byRows blank rows = [] ↔ ¬ Visible blank (row.reduceOption ++ joined rows)
    rw [List.append_eq_nil_iff, ih, trim_eq_nil, visible_pad, visible_append, not_or]

theorem seamless_of_blank (h : ¬ Visible blank (joined rows)) : Seamless blank rows := by
  induction rows with
  | nil => trivial
  | cons row rows ih =>
    obtain ⟨hrow, hrows⟩ := not_or.mp (mt visible_append.mpr h)
    exact ⟨tight_of_blank hrow, fun hv => absurd hv hrows, ih hrows⟩

theorem lead_byRows_le (hplaced : ∀ row ∈ rows, Placed blank row) (h : Visible blank (joined rows)) :
    lead blank (byRows blank rows) ≤ lead blank (joined rows) := by
  induction rows with
  | nil => exact absurd h not_visible_nil
  | cons row rows ih =>
    change lead blank (trim blank (pad blank row) ++ byRows blank rows) ≤
      lead blank (row.reduceOption ++ joined rows)
    by_cases hrow : Visible blank row.reduceOption
    · have hpad := visible_pad.mpr hrow
      rw [lead_append (visible_trim hpad), lead_trim hpad, lead_pad (hplaced row List.mem_cons_self) hrow,
        lead_append hrow]
    · have hblank : ∀ c ∈ row.reduceOption, c = blank := by
        intro c hc
        by_contra hne
        exact hrow ⟨c, hc, hne⟩
      rw [trim_eq_nil.mpr (mt visible_pad.mp hrow), List.nil_append, lead_append_blank hblank]
      have hrest := ih (fun r hr => hplaced r (List.mem_cons_of_mem _ hr))
        ((visible_append.mp h).resolve_left hrow)
      omega

/-- Two beginnings of a list that end in text and have the same text are the same. -/
theorem eq_of_same_text {x y s t : List α} (h : x ++ s = y ++ t) (hx : trim blank x = x) (hy : trim blank y = y)
    (hvis : x.filter (· ≠ blank) = y.filter (· ≠ blank)) : x = y := by
  have hshort : ∀ {u v : List α}, u <+: v → trim blank v = v →
      u.filter (· ≠ blank) = v.filter (· ≠ blank) → u = v := by
    rintro u _ ⟨w, rfl⟩ hv hsame
    have hw : ¬ Visible blank w := by
      rintro ⟨c, hc, hne⟩
      rw [List.filter_append, List.self_eq_append_right, List.filter_eq_nil_iff] at hsame
      exact hsame c hc (by simpa using hne)
    rw [trim_append_blank hw] at hv
    have hlength := congrArg List.length hv
    have hle : (trim blank u).length ≤ u.length := (List.rdropWhile_prefix _ _).length_le
    rw [List.length_append] at hlength
    rw [List.length_eq_zero_iff.mp (by omega : w.length = 0), List.append_nil]
  have hxs : x <+: x ++ s := List.prefix_append x s
  have hys : y <+: x ++ s := h ▸ List.prefix_append y t
  obtain hle | hle := List.prefix_or_prefix_of_prefix hxs hys
  · exact hshort hle hy hvis
  · exact (hshort hle hx hvis.symm).symm

theorem filter_trim (s : List α) : (trim blank s).filter (· ≠ blank) = s.filter (· ≠ blank) := by
  obtain ⟨t, hs, ht⟩ := exists_trim blank s
  have hnone : t.filter (· ≠ blank) = [] := by simpa [List.filter_eq_nil_iff] using ht
  conv_rhs => rw [hs, List.filter_append, hnone, List.append_nil]

theorem filter_pad (row : List (Option α)) :
    (pad blank row).filter (· ≠ blank) = row.reduceOption.filter (· ≠ blank) := by
  induction row with
  | nil => rfl
  | cons c row ih =>
    change (c.getD blank :: pad blank row).filter _ = _
    cases c with
    | none => simpa using ih
    | some c => rw [List.reduceOption_cons_of_some, Option.getD_some, List.filter_cons, List.filter_cons, ih]

/-- The rows of a line give its text back if and only if they join without a seam. -/
theorem byRows_eq_iff (hplaced : ∀ row ∈ rows, Placed blank row) :
    byRows blank rows = trim blank (joined rows) ↔ Seamless blank rows := by
  induction rows with
  | nil => simp [byRows, joined, Seamless]
  | cons row rows ih =>
    have hrest := ih fun r hr => hplaced r (List.mem_cons_of_mem _ hr)
    change trim blank (pad blank row) ++ byRows blank rows = trim blank (row.reduceOption ++ joined rows) ↔
      Tight blank row ∧ _ ∧ _
    by_cases hv : Visible blank (joined rows)
    · rw [trim_append hv]
      constructor
      · intro h
        obtain ⟨t, hrow, ht⟩ := exists_trim blank row.reduceOption
        have hsplit : trim blank (pad blank row) ++ byRows blank rows =
            trim blank row.reduceOption ++ (t ++ trim blank (joined rows)) := by
          rw [h, ← List.append_assoc, ← hrow]
        have hsame : trim blank (pad blank row) = trim blank row.reduceOption := by
          refine eq_of_same_text hsplit (List.rdropWhile_idempotent _ _) (List.rdropWhile_idempotent _ _) ?_
          rw [filter_trim, filter_trim, filter_pad]
        have hrows : byRows blank rows = t ++ trim blank (joined rows) := by
          rw [hsame] at hsplit
          exact List.append_cancel_left hsplit
        -- the blanks at the end of the row would have to be at the beginning of the next text
        have hlead := lead_byRows_le (fun r hr => hplaced r (List.mem_cons_of_mem _ hr)) hv
        rw [hrows, lead_append_blank ht, lead_trim hv] at hlead
        have hnil : t = [] := List.length_eq_zero_iff.mp (by omega)
        subst hnil
        rw [List.append_nil] at hrow
        exact ⟨(trim_pad_iff row).mp hsame, fun _ => hrow.symm, hrest.mp hrows⟩
      · rintro ⟨htight, hend, hseamless⟩
        rw [(trim_pad_iff row).mpr htight, hend hv, hrest.mpr hseamless]
    · rw [trim_append_blank hv, (byRows_eq_nil rows).mpr hv, List.append_nil, trim_pad_iff]
      exact ⟨fun h => ⟨h, fun hvis => absurd hvis hv, seamless_of_blank hv⟩, fun h => h.1⟩

end Rows

end WrappedText
