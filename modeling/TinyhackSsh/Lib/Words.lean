import Mathlib.Data.List.TakeWhile

/-! The words of a text: the maximal runs of elements that are not separators. -/

namespace Words

variable {α : Type*} (sep : α → Bool)

/-- A word that has been read to its end; there are no empty words. -/
def flush (word : List α) : List (List α) := if word.isEmpty then [] else [word]

/-- The words of the text that follows `word`, a word not yet read to its end. -/
def scan (word : List α) : List α → List (List α)
  | [] => flush word
  | c :: cs => if sep c then flush word ++ scan [] cs else scan (word ++ [c]) cs

def words (s : List α) : List (List α) := scan sep [] s

variable {sep} {s t w : List α} {c : α}

theorem scan_append_sep (hc : sep c = true) : scan sep w (s ++ c :: t) = scan sep w s ++ words sep t := by
  induction s generalizing w with
  | nil => simp [scan, hc, words]
  | cons d s ih =>
    simp only [List.cons_append, scan]
    split_ifs
    · rw [ih, List.append_assoc]
    · exact ih

/-- A separator ends a word. -/
theorem words_append_sep (hc : sep c = true) : words sep (s ++ c :: t) = words sep s ++ words sep t :=
  scan_append_sep hc

theorem scan_of_none (h : ∀ d ∈ s, sep d = false) : scan sep w s = flush (w ++ s) := by
  induction s generalizing w with
  | nil => simp [scan]
  | cons d s ih =>
    rw [scan, h d List.mem_cons_self, if_neg Bool.false_ne_true, ih fun x hx => h x (List.mem_cons_of_mem d hx)]
    simp

/-- A text without separators is one word. -/
theorem words_of_none (hs : s ≠ []) (h : ∀ d ∈ s, sep d = false) : words sep s = [s] := by
  rw [words, scan_of_none h, flush, List.nil_append, if_neg (by simpa using hs)]

theorem mem_flush {word : List α} (h : word ∈ flush w) : word = w ∧ w ≠ [] := by
  unfold flush at h
  split_ifs at h with hw
  · cases h
  · exact ⟨List.mem_singleton.mp h, fun he => hw (by simp [he])⟩

theorem mem_scan {word : List α} (hw : ∀ d ∈ w, sep d = false) (h : word ∈ scan sep w s) :
    word ≠ [] ∧ ∀ d ∈ word, sep d = false := by
  induction s generalizing w with
  | nil =>
    obtain ⟨rfl, hne⟩ := mem_flush h
    exact ⟨hne, hw⟩
  | cons c s ih =>
    rw [scan] at h
    split_ifs at h with hc
    · rcases List.mem_append.mp h with h | h
      · obtain ⟨rfl, hne⟩ := mem_flush h
        exact ⟨hne, hw⟩
      · exact ih (by simp) h
    · refine ih ?_ h
      intro d hd
      rcases List.mem_append.mp hd with hd | hd
      · exact hw d hd
      · rw [List.mem_singleton.mp hd]
        exact Bool.eq_false_iff.mpr hc

/-- Words are not empty and hold no separator. -/
theorem mem_words {word : List α} (h : word ∈ words sep s) : word ≠ [] ∧ ∀ d ∈ word, sep d = false :=
  mem_scan (by simp) h

theorem scan_of_ne_nil (hw : w ≠ []) : ∃ rest others, scan sep w s = (w ++ rest) :: others := by
  induction s generalizing w with
  | nil => exact ⟨[], [], by simp [scan, flush, hw]⟩
  | cons d s ih =>
    rw [scan]
    split_ifs
    · exact ⟨[], scan sep [] s, by simp [flush, hw]⟩
    · obtain ⟨rest, others, h⟩ := ih (w := w ++ [d]) (by simp)
      exact ⟨d :: rest, others, by rw [h, List.append_assoc]; rfl⟩

/-- A text that begins with a word begins the first of its words. -/
theorem words_cons (hc : sep c = false) : ∃ rest others, words sep (c :: s) = (c :: rest) :: others := by
  have hscan : words sep (c :: s) = scan sep [c] s := by simp [words, scan, hc]
  rw [hscan]
  exact scan_of_ne_nil (List.cons_ne_nil c [])

theorem scan_concat (hc : sep c = false) : ∃ init last, scan sep w (s ++ [c]) = init ++ [last ++ [c]] := by
  induction s generalizing w with
  | nil => exact ⟨[], w, by simp [scan, hc, flush]⟩
  | cons d s ih =>
    simp only [List.cons_append, scan]
    split_ifs
    · obtain ⟨init, last, h⟩ := ih (w := [])
      exact ⟨flush w ++ init, last, by rw [h, List.append_assoc]⟩
    · exact ih

/-- A text that ends in a word ends the last of its words. -/
theorem words_concat (hc : sep c = false) : ∃ init last, words sep (s ++ [c]) = init ++ [last ++ [c]] :=
  scan_concat hc

theorem words_cons_sep (hc : sep c = true) : words sep (c :: s) = words sep s := words_append_sep (s := []) hc

/-- Leading separators do not count. -/
theorem words_dropWhile (s : List α) : words sep (s.dropWhile sep) = words sep s := by
  induction s with
  | nil => rfl
  | cons c s ih =>
    by_cases hc : sep c = true
    · rw [List.dropWhile_cons_of_pos hc, ih, words_cons_sep hc]
    · rw [List.dropWhile_cons_of_neg hc]

/-- The first word of a text that begins with one. -/
theorem words_eq_cons (hc : sep c = false) :
    words sep (c :: s) = (c :: s).takeWhile (fun c => !sep c) :: words sep ((c :: s).dropWhile fun c => !sep c) := by
  have hne : (c :: s).takeWhile (fun c => !sep c) ≠ [] := by simp [hc]
  have hword : ∀ d ∈ (c :: s).takeWhile (fun c => !sep c), sep d = false := fun d hd => by
    simpa using List.mem_takeWhile_imp hd
  have hrest := List.head?_dropWhile_not (fun c => !sep c) (c :: s)
  have hsplit := List.takeWhile_append_dropWhile (p := fun c => !sep c) (l := c :: s)
  generalize (c :: s).takeWhile (fun c => !sep c) = first at hne hword hsplit ⊢
  generalize (c :: s).dropWhile (fun c => !sep c) = rest at hrest hsplit ⊢
  rw [← hsplit]
  cases rest with
  | nil => rw [List.append_nil, words_of_none hne hword]; rfl
  | cons d rest =>
    have hd : sep d = true := by simpa using hrest
    rw [words_append_sep hd, words_of_none hne hword, words_cons_sep hd]
    rfl

end Words
