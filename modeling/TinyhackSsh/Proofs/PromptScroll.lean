import TinyhackSsh.Spec.Prompts

/-! Scrolling from prompt to prompt. Upwards, the target for a view at the bottom is taken
at the first prompt too; downwards, a prompt in the active area is a target that the view
cannot reach. -/

namespace Tinyhack.Prompts

section Targets

variable {v : Viewport} {r : ℕ}

/-- The greatest prompt above the view. -/
def Above (v : Viewport) (r : ℕ) : Prop := r ∈ v.prompts ∧ r < v.top ∧ ∀ p ∈ v.prompts, p < v.top → p ≤ r

/-- The least prompt below the first row of the view. -/
def Below (v : Viewport) (r : ℕ) : Prop := r ∈ v.prompts ∧ v.top < r ∧ ∀ p ∈ v.prompts, v.top < p → r ≤ p

theorem top_le_bottom (v : Viewport) : v.top ≤ v.bottom := by
  have h := v.top_le
  unfold Viewport.bottom
  omega

/-- The first of a sorted list with a property is before all others with it. -/
theorem find?_sorted {R : ℕ → ℕ → Prop} {l : List ℕ} {p : ℕ → Bool} (hsorted : l.Pairwise R)
    (h : l.find? p = some r) : r ∈ l ∧ p r = true ∧ ∀ q ∈ l, p q = true → q = r ∨ R r q := by
  obtain ⟨hr, before, after, rfl, hbefore⟩ := List.find?_eq_some_iff_append.mp h
  refine ⟨by simp, hr, ?_⟩
  intro q hq hpq
  obtain hq | hq := List.mem_append.mp hq
  · exact absurd hpq (by simpa using hbefore q hq)
  · refine (List.mem_cons.mp hq).imp_right fun hq => ?_
    exact (List.pairwise_cons.mp (List.pairwise_append.mp hsorted).2.1).1 q hq

theorem above_of_find (h : v.prompts.reverse.find? (· < v.top) = some r) : Above v r := by
  obtain ⟨hmem, hr, hall⟩ := find?_sorted (List.pairwise_reverse.mpr v.sorted) h
  refine ⟨List.mem_reverse.mp hmem, by simpa using hr, ?_⟩
  intro p hp hlt
  obtain rfl | hp := hall p (List.mem_reverse.mpr hp) (by simpa using hlt)
  · exact le_rfl
  · exact Nat.le_of_lt hp

theorem exists_above (h : ∃ p ∈ v.prompts, p < v.top) : ∃ r, Above v r ∧ previousTarget v = some r := by
  obtain ⟨p, hp, hlt⟩ := h
  have hfound : (v.prompts.reverse.find? (· < v.top)).isSome = true :=
    List.find?_isSome.mpr ⟨p, List.mem_reverse.mpr hp, by simpa using hlt⟩
  obtain ⟨r, hr⟩ := Option.isSome_iff_exists.mp hfound
  refine ⟨r, above_of_find hr, ?_⟩
  unfold previousTarget
  rw [hr, Option.some_or]

theorem previousTarget_of_none (h : ∀ p ∈ v.prompts, v.top ≤ p) :
    previousTarget v = if 2 ≤ v.prompts.length then v.prompts[v.prompts.length - 2]?
      else if 0 < v.top then v.prompts[0]? else none := by
  have hnone : v.prompts.reverse.find? (· < v.top) = none := by
    rw [List.find?_eq_none]
    intro p hp
    have hle := h p (List.mem_reverse.mp hp)
    simpa using hle
  unfold previousTarget
  rw [hnone, Option.none_or]

theorem below_of_target (h : nextTarget v = some r) : Below v r := by
  obtain ⟨hmem, hr, hall⟩ := find?_sorted v.sorted h
  refine ⟨hmem, by simpa using hr, ?_⟩
  intro p hp hlt
  obtain rfl | hp := hall p hp (by simpa using hlt)
  · exact le_rfl
  · exact hp.le

theorem nextTarget_eq_none : nextTarget v = none ↔ ∀ p ∈ v.prompts, p ≤ v.top := by
  unfold nextTarget
  rw [List.find?_eq_none]
  simp

theorem scrollTo_none (v : Viewport) : scrollTo v none = (v, false) := rfl

theorem scrollTo_some (v : Viewport) (row : ℕ) : scrollTo v (some row) = (v.scrollToRow row, true) := rfl

theorem prompts_scrollTo (v : Viewport) (target : Option ℕ) :
    (scrollTo v target).1.prompts = v.prompts ∧ (scrollTo v target).1.bottom = v.bottom := by
  cases target with
  | none => exact ⟨rfl, rfl⟩
  | some row => exact ⟨rfl, rfl⟩

/-- Scrolling changes the top only. -/
theorem prompts_iterate (target : Viewport → Option ℕ) (v : Viewport) (n : ℕ) :
    ((fun v => (scrollTo v (target v)).1)^[n] v).prompts = v.prompts ∧
      ((fun v => (scrollTo v (target v)).1)^[n] v).bottom = v.bottom := by
  induction n with
  | zero => exact ⟨rfl, rfl⟩
  | succ n ih =>
    rw [Function.iterate_succ_apply']
    obtain ⟨hprompts, hbottom⟩ := prompts_scrollTo ((fun v => (scrollTo v (target v)).1)^[n] v) (target _)
    exact ⟨hprompts.trans ih.1, hbottom.trans ih.2⟩

end Targets

/-! Upwards. -/

/-- Returning true moves the view to the greatest prompt above it; with none above, false is returned. -/
def PreviousOk (v : Viewport) : Prop :=
  ((nativeScrollToPreviousPrompt v).2 = true → Above v (nativeScrollToPreviousPrompt v).1.top) ∧
  ((∀ p ∈ v.prompts, v.top ≤ p) → (nativeScrollToPreviousPrompt v).2 = false)

/-- The view after so many calls. -/
def previous (v : Viewport) (n : ℕ) : Viewport := (fun v => (nativeScrollToPreviousPrompt v).1)^[n] v

/-- Every one of repeated calls is right, and one returns false. -/
def PreviousRuns (v : Viewport) : Prop :=
  (∀ n, PreviousOk (previous v n)) ∧ ∃ n, (nativeScrollToPreviousPrompt (previous v n)).2 = false

section Previous

variable {v : Viewport}

theorem previous_succ (v : Viewport) (n : ℕ) :
    previous v (n + 1) = (nativeScrollToPreviousPrompt (previous v n)).1 :=
  Function.iterate_succ_apply' _ n v

theorem previous_of_above (h : ∃ p ∈ v.prompts, p < v.top) :
    (nativeScrollToPreviousPrompt v).2 = true ∧ Above v (nativeScrollToPreviousPrompt v).1.top := by
  obtain ⟨r, hr, htarget⟩ := exists_above h
  have hscroll : nativeScrollToPreviousPrompt v = (v.scrollToRow r, true) := by
    unfold nativeScrollToPreviousPrompt
    rw [htarget, scrollTo_some]
  have htop : (v.scrollToRow r).top = r := Nat.min_eq_left (hr.2.1.le.trans (top_le_bottom v))
  rw [hscroll, htop]
  exact ⟨rfl, hr⟩

/-- Where the call gives up. -/
theorem previous_false_iff :
    (nativeScrollToPreviousPrompt v).2 = false ↔ v.prompts = [] ∨ v.prompts.length = 1 ∧ v.top = 0 := by
  by_cases habove : ∃ p ∈ v.prompts, p < v.top
  · obtain ⟨p, hp, hlt⟩ := id habove
    rw [(previous_of_above habove).1]
    refine iff_of_false (by decide) ?_
    rintro (hnil | ⟨-, htop⟩)
    · rw [hnil] at hp
      exact absurd hp List.not_mem_nil
    · omega
  · push Not at habove
    unfold nativeScrollToPreviousPrompt
    rw [previousTarget_of_none habove]
    cases hprompts : v.prompts with
    | nil => simp [scrollTo_none]
    | cons p ps =>
      cases ps with
      | nil =>
        by_cases htop : v.top = 0
        · simp [htop, scrollTo_none]
        · simp [htop, Nat.pos_of_ne_zero htop, scrollTo_some]
      | cons q ps =>
        have hget : (p :: q :: ps)[(p :: q :: ps).length - 2]? =
            some ((p :: q :: ps).get ⟨(p :: q :: ps).length - 2, by simp⟩) := List.getElem?_eq_getElem _
        rw [if_pos (by simp), hget, scrollTo_some]
        simp

theorem previousOk_iff :
    PreviousOk v ↔ v.prompts = [] ∨ (∃ p ∈ v.prompts, p < v.top) ∨ v.prompts.length = 1 ∧ v.top = 0 := by
  constructor
  · intro h
    by_cases habove : ∃ p ∈ v.prompts, p < v.top
    · exact Or.inr (Or.inl habove)
    · push Not at habove
      exact (previous_false_iff.mp (h.2 habove)).imp_right Or.inr
  · intro h
    by_cases habove : ∃ p ∈ v.prompts, p < v.top
    · refine ⟨fun _ => (previous_of_above habove).2, fun hnone => ?_⟩
      obtain ⟨p, hp, hlt⟩ := habove
      exact absurd hlt (hnone p hp).not_gt
    · have hfalse : (nativeScrollToPreviousPrompt v).2 = false := by
        rw [previous_false_iff]
        exact h.imp_right fun h => h.resolve_left habove
      exact ⟨fun htrue => absurd htrue (by simp [hfalse]), fun _ => hfalse⟩

theorem prompts_previous (v : Viewport) (n : ℕ) :
    (previous v n).prompts = v.prompts ∧ (previous v n).bottom = v.bottom := prompts_iterate previousTarget v n

theorem previous_of_false (h : (nativeScrollToPreviousPrompt v).2 = false) (n : ℕ) : previous v n = v := by
  have hsame : (nativeScrollToPreviousPrompt v).1 = v := by
    unfold nativeScrollToPreviousPrompt at h ⊢
    cases htarget : previousTarget v with
    | none => rfl
    | some r =>
      rw [htarget] at h
      exact absurd h (by simp [scrollTo_some])
  induction n with
  | zero => rfl
  | succ n ih => rw [previous_succ, ih, hsame]

/-- A single prompt below row 0 keeps the view away from row 0. -/
theorem top_previous_pos {p : ℕ} (hprompts : v.prompts = [p]) (hp : 0 < p) (htop : 0 < v.top) (n : ℕ) :
    0 < (previous v n).top := by
  induction n with
  | zero => exact htop
  | succ n ih =>
    obtain ⟨hsame, hbottom⟩ := prompts_previous v n
    have htarget : previousTarget (previous v n) = some p := by
      by_cases habove : ∃ q ∈ (previous v n).prompts, q < (previous v n).top
      · obtain ⟨r, hr, htarget⟩ := exists_above habove
        have hmem := hr.1
        rw [hsame, hprompts, List.mem_singleton] at hmem
        rw [htarget, hmem]
      · push Not at habove
        rw [previousTarget_of_none habove, hsame, hprompts]
        simp [ih]
    rw [previous_succ]
    unfold nativeScrollToPreviousPrompt
    rw [htarget, scrollTo_some]
    have hpos : 0 < (previous v n).bottom := by
      rw [hbottom]
      exact htop.trans_le (top_le_bottom v)
    exact lt_min hp hpos

theorem previousRuns_iff :
    PreviousRuns v ↔ v.prompts = [] ∨ v.prompts = [0] ∨ v.prompts.length = 1 ∧ v.top = 0 := by
  constructor
  · rintro ⟨-, n, hfalse⟩
    rw [previous_false_iff, (prompts_previous v n).1] at hfalse
    obtain hnil | ⟨hone, hzero⟩ := hfalse
    · exact Or.inl hnil
    · obtain ⟨p, hprompts⟩ := List.length_eq_one_iff.mp hone
      by_cases hp : p = 0
      · exact Or.inr (Or.inl (by rw [hprompts, hp]))
      · by_cases htop : v.top = 0
        · exact Or.inr (Or.inr ⟨hone, htop⟩)
        · have hpos := top_previous_pos hprompts (Nat.pos_of_ne_zero hp) (Nat.pos_of_ne_zero htop) n
          omega
  · intro h
    have hstop {w : Viewport} (hw : w.prompts = [] ∨ w.prompts.length = 1 ∧ w.top = 0) : PreviousRuns w := by
      have hfalse := previous_false_iff.mpr hw
      refine ⟨fun n => ?_, 0, hfalse⟩
      rw [previous_of_false hfalse n, previousOk_iff]
      exact hw.imp_right Or.inr
    obtain hnil | hzero | hone := h
    · exact hstop (Or.inl hnil)
    · by_cases htop : v.top = 0
      · exact hstop (Or.inr ⟨by rw [hzero]; rfl, htop⟩)
      · -- the first call goes to row 0, the second one stops
        have habove : ∃ p ∈ v.prompts, p < v.top := ⟨0, by simp [hzero], Nat.pos_of_ne_zero htop⟩
        have hfirst := (previous_of_above habove).2
        have hnext : PreviousRuns (nativeScrollToPreviousPrompt v).1 := by
          refine hstop (Or.inr ⟨?_, ?_⟩)
          · rw [show (nativeScrollToPreviousPrompt v).1.prompts = v.prompts from (prompts_scrollTo v _).1, hzero]
            rfl
          · have hmem := hfirst.1
            rw [hzero, List.mem_singleton] at hmem
            exact hmem
        refine ⟨fun n => ?_, ?_⟩
        · cases n with
          | zero => exact previousOk_iff.mpr (Or.inr (Or.inl habove))
          | succ n => exact hnext.1 n
        · obtain ⟨n, hn⟩ := hnext.2
          exact ⟨n + 1, hn⟩
    · exact hstop (Or.inr hone)

end Previous

/-! Downwards. -/

/-- Returning true moves the view towards the least prompt below, as far as it goes, and
really moves it; with none below, false is returned. -/
def NextOk (v : Viewport) : Prop :=
  ((nativeScrollToNextPrompt v).2 = true →
    (∃ r, Below v r ∧ (nativeScrollToNextPrompt v).1.top = min r v.bottom) ∧
      (nativeScrollToNextPrompt v).1.top ≠ v.top) ∧
  ((∀ p ∈ v.prompts, p ≤ v.top) → (nativeScrollToNextPrompt v).2 = false)

def next (v : Viewport) (n : ℕ) : Viewport := (fun v => (nativeScrollToNextPrompt v).1)^[n] v

def NextRuns (v : Viewport) : Prop :=
  (∀ n, NextOk (next v n)) ∧ ∃ n, (nativeScrollToNextPrompt (next v n)).2 = false

section Next

variable {v : Viewport}

theorem next_false_iff : (nativeScrollToNextPrompt v).2 = false ↔ ∀ p ∈ v.prompts, p ≤ v.top := by
  rw [← nextTarget_eq_none]
  unfold nativeScrollToNextPrompt
  cases nextTarget v with
  | none => simp [scrollTo_none]
  | some r => simp [scrollTo_some]

theorem next_true (h : (nativeScrollToNextPrompt v).2 = true) :
    ∃ r, Below v r ∧ (nativeScrollToNextPrompt v).1.top = min r v.bottom := by
  unfold nativeScrollToNextPrompt at h ⊢
  cases htarget : nextTarget v with
  | none =>
    rw [htarget] at h
    exact absurd h (by simp [scrollTo_none])
  | some r => exact ⟨r, below_of_target htarget, rfl⟩

theorem nextOk_iff : NextOk v ↔ (∀ p ∈ v.prompts, p ≤ v.top) ∨ v.top < v.bottom := by
  constructor
  · intro h
    by_cases hnone : ∀ p ∈ v.prompts, p ≤ v.top
    · exact Or.inl hnone
    · right
      have htrue : (nativeScrollToNextPrompt v).2 = true := by
        rw [← Bool.not_eq_false, next_false_iff]
        exact hnone
      obtain ⟨⟨r, hr, htop⟩, hne⟩ := h.1 htrue
      have hlt := hr.2.1
      have hle := top_le_bottom v
      omega
  · intro h
    refine ⟨fun htrue => ?_, next_false_iff.mpr⟩
    obtain ⟨r, hr, htop⟩ := next_true htrue
    refine ⟨⟨r, hr, htop⟩, ?_⟩
    obtain hnone | hlt := h
    · rw [next_false_iff.mpr hnone] at htrue
      exact absurd htrue (by decide)
    · have hbelow := hr.2.1
      omega

theorem prompts_next (v : Viewport) (n : ℕ) : (next v n).prompts = v.prompts ∧ (next v n).bottom = v.bottom :=
  prompts_iterate nextTarget v n

/-- The view goes down with each call, so a call returns false in the end. -/
theorem exists_next_false (h : ∀ p ∈ v.prompts, p ≤ v.bottom) :
    ∃ n, (nativeScrollToNextPrompt (next v n)).2 = false := by
  induction hd : v.bottom - v.top using Nat.strong_induction_on generalizing v with
  | _ d ih =>
    cases hcall : (nativeScrollToNextPrompt v).2 with
    | false => exact ⟨0, hcall⟩
    | true =>
      obtain ⟨r, hr, htop⟩ := next_true hcall
      obtain ⟨hprompts, hbottom⟩ := prompts_scrollTo v (nextTarget v)
      have hle := h r hr.1
      have hlt := hr.2.1
      obtain ⟨n, hn⟩ := ih ((nativeScrollToNextPrompt v).1.bottom - (nativeScrollToNextPrompt v).1.top)
        (by rw [htop, show (nativeScrollToNextPrompt v).1.bottom = v.bottom from hbottom]; omega)
        (v := (nativeScrollToNextPrompt v).1)
        (by
          rw [show (nativeScrollToNextPrompt v).1.bottom = v.bottom from hbottom,
            show (nativeScrollToNextPrompt v).1.prompts = v.prompts from hprompts]
          exact h) rfl
      exact ⟨n + 1, hn⟩

theorem nextRuns_iff : NextRuns v ↔ ∀ p ∈ v.prompts, p ≤ v.bottom := by
  constructor
  · rintro ⟨-, n, hfalse⟩ p hp
    obtain ⟨hprompts, hbottom⟩ := prompts_next v n
    rw [next_false_iff, hprompts] at hfalse
    have hle := (hfalse p hp).trans (top_le_bottom _)
    rwa [hbottom] at hle
  · intro h
    refine ⟨fun n => ?_, exists_next_false h⟩
    obtain ⟨hprompts, hbottom⟩ := prompts_next v n
    rw [nextOk_iff, hprompts]
    by_cases hnone : ∀ p ∈ v.prompts, p ≤ (next v n).top
    · exact Or.inl hnone
    · push Not at hnone
      obtain ⟨p, hp, hlt⟩ := hnone
      right
      rw [hbottom]
      exact hlt.trans_le (h p hp)

end Next

/-- A call and repeated calls, upwards and downwards: where they do what they should. -/
theorem prompt_scrolling_iff (v : Viewport) :
    (PreviousOk v ↔ v.prompts = [] ∨ (∃ p ∈ v.prompts, p < v.top) ∨ v.prompts.length = 1 ∧ v.top = 0) ∧
    (PreviousRuns v ↔ v.prompts = [] ∨ v.prompts = [0] ∨ v.prompts.length = 1 ∧ v.top = 0) ∧
    (NextOk v ↔ (∀ p ∈ v.prompts, p ≤ v.top) ∨ v.top < v.bottom) ∧
    (NextRuns v ↔ ∀ p ∈ v.prompts, p ≤ v.bottom) :=
  ⟨previousOk_iff, previousRuns_iff, nextOk_iff, nextRuns_iff⟩

/-- Three prompts on 100 rows, of which 10 are shown. -/
def sampleViewport (top : ℕ) (h : top + 10 ≤ 100) : Viewport :=
  ⟨[3, 40, 95], top, 10, 100, by decide, by decide, h⟩

/-- At the first prompt a call goes down to the second one and returns true, and at the
bottom a call for the next prompt returns true and stays. -/
theorem prompt_scrolling_wrong :
    ((nativeScrollToPreviousPrompt (sampleViewport 3 (by decide))).1.top = 40 ∧
      (nativeScrollToPreviousPrompt (sampleViewport 3 (by decide))).2 = true) ∧
    (nativeScrollToNextPrompt (sampleViewport 90 (by decide))).1.top = 90 ∧
      (nativeScrollToNextPrompt (sampleViewport 90 (by decide))).2 = true := by
  decide

end Tinyhack.Prompts
