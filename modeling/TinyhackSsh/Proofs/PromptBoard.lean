import TinyhackSsh.Proofs.BiometricGate

/-! The board of the prompts: what a prompt's life depends on, and what the steps
around it do. A request's prompt is in one place at a time, on its way or in one
activity; once its call has returned it is settled, and it stays so. -/

namespace Tinyhack.Biometric

/-- The call has not posted the launch. -/
def Call.early : Call → Bool
  | .put _ | .post _ => true
  | _ => false

def Call.leaving : Call → Bool
  | .remove _ _ => true
  | _ => false

structure Board where
  requests : ℤ
  call : Caller → Call
  coming : ℤ → ℕ
  activity : ℕ → Activity
  activities : ℕ
  registered : ℤ → Option ℕ
  creating : Option ℕ
  finishPosts : List ℕ
  finished : ℕ → Bool
  answered : ℤ → Prop
  returned : List ℤ

namespace Board

/-- What a step does to the board. -/
inductive Step (b : Board) : Board → Prop
  | rest (answered : ℤ → Prop) (ha : ∀ x, answered x → b.answered x) : Step b { b with answered := answered }
  | draw (c : Caller) (h : b.call c = .idle) : Step b { b with
      requests := b.requests + 1
      call := Function.update b.call c (.put (b.requests + 1)) }
  | advance (c : Caller) (next : Call) (hid : next.id = (b.call c).id)
      (he : next.early = true → (b.call c).early = true) (hl : next.leaving = false) : Step b { b with
      call := Function.update b.call c next }
  | post (c : Caller) (id : ℤ) (h : b.call c = .post id) : Step b { b with
      coming := Function.update b.coming id (b.coming id + 1)
      call := Function.update b.call c (.waiting id) }
  | answer (c : Caller) (id : ℤ) (ok : Bool) (h : b.call c = .waiting id) (ha : b.answered id) : Step b { b with
      call := Function.update b.call c (.remove id ok) }
  | dismiss (c : Caller) (id : ℤ) (h : b.call c = .dismiss id) (hc : b.coming id = 0)
      (hn : ∀ n, b.creating = some n → b.activity n ≠ .created id true) : Step b { b with
      finishPosts := b.finishPosts ++ (b.registered id).toList
      call := Function.update b.call c (.remove id false) }
  | returns (c : Caller) (id : ℤ) (ok : Bool) (h : b.call c = .remove id ok) : Step b { b with
      call := Function.update b.call c .idle
      returned := b.returned ++ [id] }
  /-- a launch fails, or a started activity never comes -/
  | lost (id : ℤ) (answered : ℤ → Prop) (h : 0 < b.coming id) (ha : ∀ x, answered x → b.answered x ∨ x = id) :
      Step b { b with coming := Function.update b.coming id (b.coming id - 1), answered := answered }
  | refuse (id : ℤ) (answered : ℤ → Prop) (h : 0 < b.coming id) (hc : b.creating = none)
      (ha : ∀ x, answered x → b.answered x ∨ x = id) : Step b { b with
      coming := Function.update b.coming id (b.coming id - 1)
      activity := Function.update b.activity b.activities (.created id false)
      activities := b.activities + 1
      finished := Function.update b.finished b.activities true
      answered := answered }
  | create (id : ℤ) (h : 0 < b.coming id) (hc : b.creating = none) : Step b { b with
      coming := Function.update b.coming id (b.coming id - 1)
      activity := Function.update b.activity b.activities (.created id true)
      activities := b.activities + 1
      registered := Function.update b.registered id (some b.activities)
      creating := some b.activities
      finished := Function.update b.finished b.activities false }
  | authenticate : Step b { b with creating := none }
  | promptEnds (n : ℕ) (id : ℤ) (answered : ℤ → Prop) (h : b.activity n = .created id true) (hc : b.creating = none)
      (ha : ∀ x, answered x → b.answered x ∨ x = id) : Step b { b with
      finished := Function.update b.finished n true
      answered := answered }
  | destroy (n : ℕ) (id : ℤ) (p : Bool) (registered : ℤ → Option ℕ) (h : b.activity n = .created id p)
      (hc : b.creating = none) (hr : ∀ x, x ≠ id → registered x = b.registered x) : Step b { b with
      activity := Function.update b.activity n .destroyed
      registered := registered }
  | recreate (n : ℕ) (id : ℤ) (p : Bool) (registered : ℤ → Option ℕ) (h : b.activity n = .created id p)
      (hc : b.creating = none) (hf : b.finished n = false) (hn : n ∉ b.finishPosts)
      (hr : ∀ x, x ≠ id → registered x = b.registered x) : Step b { b with
      coming := Function.update b.coming id (b.coming id + 1)
      activity := Function.update b.activity n .destroyed
      registered := registered }
  | finish (n : ℕ) (hc : b.creating = none) (h : n ∈ b.finishPosts) : Step b { b with
      finishPosts := b.finishPosts.erase n
      finished := Function.update b.finished n true }

end Board

/-! On the board: calls. -/

/-- A call has its id to itself until it returns. -/
structure Calls (requests : ℤ) (call : Caller → Call) (returned : List ℤ) : Prop where
  drawn : ∀ c id, (call c).id = some id → id ≤ requests
  apart : ∀ c c' id, (call c).id = some id → (call c').id = some id → c = c'
  gone : ∀ id ∈ returned, id ≤ requests ∧ ∀ c, (call c).id ≠ some id

section Calls

variable {requests : ℤ} {call : Caller → Call} {returned : List ℤ}

theorem id_update {c c' : Caller} {next : Call} (hid : next.id = (call c).id) :
    (Function.update call c next c').id = (call c').id := by
  rcases eq_or_ne c' c with rfl | hne
  · rw [Function.update_self, hid]
  · rw [Function.update_of_ne hne]

theorem Calls.advance (h : Calls requests call returned) {c : Caller} {next : Call} (hid : next.id = (call c).id) :
    Calls requests (Function.update call c next) returned where
  drawn c' id := by
    rw [id_update hid]
    exact h.drawn c' id
  apart c' c'' id := by
    rw [id_update hid, id_update hid]
    exact h.apart c' c'' id
  gone id hmem := ⟨(h.gone id hmem).1, fun c' => by rw [id_update hid]; exact (h.gone id hmem).2 c'⟩

theorem Calls.draw (h : Calls requests call returned) (c : Caller) :
    Calls (requests + 1) (Function.update call c (.put (requests + 1))) returned := by
  -- the new id is above all that others hold
  have hother : ∀ c' id, (Function.update call c (.put (requests + 1)) c').id = some id →
      (c' = c ∧ id = requests + 1) ∨ (c' ≠ c ∧ (call c').id = some id ∧ id ≤ requests) := by
    intro c' id hc'
    rcases eq_or_ne c' c with rfl | hne
    · rw [Function.update_self] at hc'
      exact Or.inl ⟨rfl, (Option.some.inj hc').symm⟩
    · rw [Function.update_of_ne hne] at hc'
      exact Or.inr ⟨hne, hc', h.drawn c' id hc'⟩
  constructor
  · intro c' id hc'
    rcases hother c' id hc' with ⟨-, hid⟩ | ⟨-, -, hid⟩ <;> omega
  · intro c' c'' id hc' hc''
    rcases hother c' id hc' with ⟨rfl, hid⟩ | ⟨-, hold, hid⟩ <;>
      rcases hother c'' id hc'' with ⟨rfl, hid'⟩ | ⟨-, hold', hid'⟩
    · rfl
    · omega
    · omega
    · exact h.apart c' c'' id hold hold'
  · intro id hmem
    obtain ⟨hle, hnone⟩ := h.gone id hmem
    refine ⟨by omega, fun c' hc' => ?_⟩
    rcases hother c' id hc' with ⟨-, hid⟩ | ⟨-, hold, -⟩
    · omega
    · exact hnone c' hold

theorem Calls.returns (h : Calls requests call returned) {c : Caller} {id : ℤ} (hc : (call c).id = some id) :
    Calls requests (Function.update call c .idle) (returned ++ [id]) := by
  have hother : ∀ c' x, (Function.update call c .idle c').id = some x → c' ≠ c ∧ (call c').id = some x := by
    intro c' x hc'
    rcases eq_or_ne c' c with rfl | hne
    · simp [Call.id] at hc'
    · rw [Function.update_of_ne hne] at hc'
      exact ⟨hne, hc'⟩
  constructor
  · intro c' x hc'
    exact h.drawn c' x (hother c' x hc').2
  · intro c' c'' x hc' hc''
    exact h.apart c' c'' x (hother c' x hc').2 (hother c'' x hc'').2
  · intro x hmem
    rcases List.mem_append.mp hmem with hmem | hmem
    · obtain ⟨hle, hnone⟩ := h.gone x hmem
      exact ⟨hle, fun c' hc' => hnone c' (hother c' x hc').2⟩
    · obtain rfl := List.mem_singleton.mp hmem
      refine ⟨h.drawn c x hc, fun c' hc' => ?_⟩
      obtain ⟨hne, hold⟩ := hother c' x hc'
      exact hne (h.apart c' c x hold hc)

theorem Board.Step.calls {b b' : Board} (hs : b.Step b') (h : Calls b.requests b.call b.returned) :
    Calls b'.requests b'.call b'.returned := by
  cases hs with
  | draw c _ => exact h.draw c
  | advance c next hid _ _ => exact h.advance hid
  | post c id hc => exact h.advance (by rw [hc]; rfl)
  | answer c id ok hc _ => exact h.advance (by rw [hc]; rfl)
  | dismiss c id hc _ _ => exact h.advance (by rw [hc]; rfl)
  | returns c id ok hc => exact h.returns (by rw [hc]; rfl)
  | _ => exact h

end Calls

/-! On the board: where a prompt is. -/

/-- A prompt is in one place: it is on its way once, or it is in one activity. -/
structure Placed (coming : ℤ → ℕ) (activity : ℕ → Activity) (activities : ℕ) : Prop where
  once : ∀ id, coming id ≤ 1
  lone : ∀ id n p, 0 < coming id → activity n ≠ .created id p
  single : ∀ id n n' p p', activity n = .created id p → activity n' = .created id p' → n = n'
  fresh : ∀ n, activities ≤ n → activity n = .absent

section Placed

variable {coming : ℤ → ℕ} {activity : ℕ → Activity} {activities : ℕ}

theorem Placed.lost (h : Placed coming activity activities) (id : ℤ) :
    Placed (Function.update coming id (coming id - 1)) activity activities := by
  have hle : ∀ x, Function.update coming id (coming id - 1) x ≤ coming x := by
    intro x
    rcases eq_or_ne x id with rfl | hne
    · rw [Function.update_self]
      omega
    · rw [Function.update_of_ne hne]
  exact ⟨fun x => (hle x).trans (h.once x), fun x n p hx => h.lone x n p (hx.trans_le (hle x)), h.single, h.fresh⟩

theorem Placed.post (h : Placed coming activity activities) {id : ℤ} (hzero : coming id = 0)
    (hnone : ∀ n p, activity n ≠ .created id p) :
    Placed (Function.update coming id (coming id + 1)) activity activities where
  once x := by
    rcases eq_or_ne x id with rfl | hne
    · rw [Function.update_self, hzero]
    · rw [Function.update_of_ne hne]
      exact h.once x
  lone x n p hx := by
    rcases eq_or_ne x id with rfl | hne
    · exact hnone n p
    · rw [Function.update_of_ne hne] at hx
      exact h.lone x n p hx
  single := h.single
  fresh := h.fresh

theorem created_of_update {n n' : ℕ} {x y : ℤ} {p q : Bool}
    (h : Function.update activity n (.created y q) n' = .created x p) :
    (n' = n ∧ x = y ∧ p = q) ∨ (n' ≠ n ∧ activity n' = .created x p) := by
  rcases eq_or_ne n' n with rfl | hne
  · rw [Function.update_self] at h
    obtain ⟨rfl, rfl⟩ := Activity.created.inj h
    exact Or.inl ⟨rfl, rfl, rfl⟩
  · rw [Function.update_of_ne hne] at h
    exact Or.inr ⟨hne, h⟩

theorem created_of_destroy {n n' : ℕ} {x : ℤ} {p : Bool}
    (h : Function.update activity n .destroyed n' = .created x p) : n' ≠ n ∧ activity n' = .created x p := by
  rcases eq_or_ne n' n with rfl | hne
  · rw [Function.update_self] at h
    cases h
  · rw [Function.update_of_ne hne] at h
    exact ⟨hne, h⟩

theorem Placed.create (h : Placed coming activity activities) {id : ℤ} (hpos : 0 < coming id) (q : Bool) :
    Placed (Function.update coming id (coming id - 1)) (Function.update activity activities (.created id q))
      (activities + 1) where
  once := (h.lost id).once
  lone x n p hx hn := by
    rcases created_of_update hn with ⟨-, rfl, -⟩ | ⟨-, hold⟩
    · have := h.once x
      rw [Function.update_self] at hx
      omega
    · exact (h.lost id).lone x n p hx hold
  single x n n' p p' hn hn' := by
    rcases created_of_update hn with ⟨rfl, rfl, -⟩ | ⟨-, hold⟩ <;>
      rcases created_of_update hn' with ⟨rfl, rfl', -⟩ | ⟨-, hold'⟩
    · rfl
    · exact absurd hold' (h.lone x n' p' hpos)
    · subst rfl'
      exact absurd hold (h.lone x n p hpos)
    · exact h.single x n n' p p' hold hold'
  fresh n hn := by
    rw [Function.update_of_ne (by omega)]
    exact h.fresh n (by omega)

theorem Placed.destroy (h : Placed coming activity activities) {n : ℕ} {id : ℤ} {p : Bool}
    (hact : activity n = .created id p) : Placed coming (Function.update activity n .destroyed) activities where
  once := h.once
  lone x n' p' hx hn' := h.lone x n' p' hx (created_of_destroy hn').2
  single x n' n'' p' p'' hn' hn'' :=
    h.single x n' n'' p' p'' (created_of_destroy hn').2 (created_of_destroy hn'').2
  fresh n' hn' := by
    have hne : n' ≠ n := by
      rintro rfl
      rw [h.fresh n' hn'] at hact
      cases hact
    rw [Function.update_of_ne hne]
    exact h.fresh n' hn'

theorem Placed.ne_next (h : Placed coming activity activities) {n : ℕ} {id : ℤ} {p : Bool}
    (hact : activity n = .created id p) : n ≠ activities := by
  rintro rfl
  rw [h.fresh n le_rfl] at hact
  cases hact

/-- The activity goes and its prompt is on its way again. -/
theorem Placed.recreate (h : Placed coming activity activities) {n : ℕ} {id : ℤ} {p : Bool}
    (hact : activity n = .created id p) : Placed (Function.update coming id (coming id + 1))
      (Function.update activity n .destroyed) activities := by
  have hzero : coming id = 0 := by
    by_contra hpos
    exact h.lone id n p (Nat.pos_of_ne_zero hpos) hact
  refine (h.destroy hact).post hzero fun n' p' hn' => ?_
  obtain ⟨hne, hold⟩ := created_of_destroy hn'
  exact hne (h.single id n' n p' p hold hact)

end Placed

namespace Board

/-- Something was done for `id` outside its call. -/
def Touched (b : Board) (id : ℤ) : Prop :=
  0 < b.coming id ∨ (∃ n p, b.activity n = .created id p) ∨ b.answered id

/-- The launch of `id` was posted. -/
def Launched (b : Board) (id : ℤ) : Prop :=
  id ≤ b.requests ∧ ∀ c, (b.call c).id = some id → (b.call c).early = false

variable {b b' : Board}

theorem early_update {call : Caller → Call} {c : Caller} {next : Call} {id : ℤ}
    (hnext : next.id = some id → next.early = false) (h : ∀ c, (call c).id = some id → (call c).early = false)
    (c' : Caller) (hc' : (Function.update call c next c').id = some id) :
    (Function.update call c next c').early = false := by
  rcases eq_or_ne c' c with rfl | hne
  · rw [Function.update_self] at hc' ⊢
    exact hnext hc'
  · rw [Function.update_of_ne hne] at hc' ⊢
    exact h c' hc'

theorem Step.launched (hs : b.Step b') {id : ℤ} (h : b.Launched id) : b'.Launched id := by
  obtain ⟨hle, hearly⟩ := h
  cases hs with
  | draw c _ =>
    refine ⟨by dsimp only; omega, early_update (fun hid => ?_) hearly⟩
    have := Option.some.inj hid
    omega
  | advance c next hid he _ =>
    refine ⟨hle, early_update (fun hnext => ?_) hearly⟩
    rw [hid] at hnext
    have hc := hearly c hnext
    by_contra hne
    rw [he (by simpa using hne)] at hc
    cases hc
  | post | answer | dismiss | returns => exact ⟨hle, early_update (fun _ => rfl) hearly⟩
  | _ => exact ⟨hle, hearly⟩

/-- Only the posting of a launch touches an id for the first time. -/
theorem Step.touched_of (hs : b.Step b') {id : ℤ} (h : b'.Touched id) :
    b.Touched id ∨ ∃ c, b.call c = .post id ∧ b'.requests = b.requests ∧
      b'.call = Function.update b.call c (.waiting id) := by
  have hsub : ∀ x, 0 < Function.update b.coming x (b.coming x - 1) id → 0 < b.coming id := by
    intro x hx
    rcases eq_or_ne id x with rfl | hne
    · rw [Function.update_self] at hx
      omega
    · rwa [Function.update_of_ne hne] at hx
  cases hs with
  | rest answered ha => exact Or.inl (h.imp_right (Or.imp_right (ha id)))
  | post c x hc =>
    rcases eq_or_ne id x with rfl | hne
    · exact Or.inr ⟨c, hc, rfl, rfl⟩
    · refine Or.inl (h.imp_left fun hx => ?_)
      dsimp only at hx
      rwa [Function.update_of_ne hne] at hx
  | lost x answered hpos ha =>
    rcases h with h | h | h
    · exact Or.inl (Or.inl (hsub x h))
    · exact Or.inl (Or.inr (Or.inl h))
    · rcases ha id h with h | rfl
      · exact Or.inl (Or.inr (Or.inr h))
      · exact Or.inl (Or.inl hpos)
  | refuse x answered hpos _ ha =>
    rcases h with h | ⟨n, p, h⟩ | h
    · exact Or.inl (Or.inl (hsub x h))
    · rcases created_of_update h with ⟨-, rfl, -⟩ | ⟨-, h⟩
      · exact Or.inl (Or.inl hpos)
      · exact Or.inl (Or.inr (Or.inl ⟨n, p, h⟩))
    · rcases ha id h with h | rfl
      · exact Or.inl (Or.inr (Or.inr h))
      · exact Or.inl (Or.inl hpos)
  | create x hpos _ =>
    rcases h with h | ⟨n, p, h⟩ | h
    · exact Or.inl (Or.inl (hsub x h))
    · rcases created_of_update h with ⟨-, rfl, -⟩ | ⟨-, h⟩
      · exact Or.inl (Or.inl hpos)
      · exact Or.inl (Or.inr (Or.inl ⟨n, p, h⟩))
    · exact Or.inl (Or.inr (Or.inr h))
  | promptEnds n x answered hact _ ha =>
    rcases h with h | h | h
    · exact Or.inl (Or.inl h)
    · exact Or.inl (Or.inr (Or.inl h))
    · rcases ha id h with h | rfl
      · exact Or.inl (Or.inr (Or.inr h))
      · exact Or.inl (Or.inr (Or.inl ⟨n, true, hact⟩))
  | destroy n x p registered hact _ _ =>
    refine Or.inl (h.imp_right (Or.imp_left ?_))
    rintro ⟨n', p', h⟩
    exact ⟨n', p', (created_of_destroy h).2⟩
  | recreate n x p registered hact _ _ _ _ =>
    rcases h with h | ⟨n', p', h⟩ | h
    · rcases eq_or_ne id x with rfl | hne
      · exact Or.inl (Or.inr (Or.inl ⟨n, p, hact⟩))
      · dsimp only at h
        rw [Function.update_of_ne hne] at h
        exact Or.inl (Or.inl h)
    · exact Or.inl (Or.inr (Or.inl ⟨n', p', (created_of_destroy h).2⟩))
    · exact Or.inl (Or.inr (Or.inr h))
  | _ => exact Or.inl h

/-! On the board: what is known of a prompt from outside. -/

structure Inv (b : Board) : Prop where
  calls : Calls b.requests b.call b.returned
  placed : Placed b.coming b.activity b.activities
  launched : ∀ id, b.Touched id → b.Launched id
  registered : ∀ n id, b.activity n = .created id true → b.registered id = some n
  refused : ∀ n id, b.activity n = .created id false → b.finished n = true
  answered : ∀ id, b.answered id → b.coming id = 0 ∧ ∀ n p, b.activity n = .created id p → b.finished n = true
  creating : ∀ n, b.creating = some n → b.finished n = false ∧ ∃ id, b.activity n = .created id true

/-- Nothing was done for the id of a call that has not posted yet. -/
theorem Inv.post_untouched (h : b.Inv) {c : Caller} {id : ℤ} (hc : b.call c = .post id) : ¬ b.Touched id := by
  intro ht
  have hearly := (h.launched id ht).2 c (by rw [hc]; rfl)
  rw [hc] at hearly
  cases hearly

theorem Inv.step_placed (h : b.Inv) (hs : b.Step b') : Placed b'.coming b'.activity b'.activities := by
  cases hs with
  | post c id hc =>
    have hnot := h.post_untouched hc
    refine h.placed.post (Nat.eq_zero_of_not_pos fun hpos => hnot (Or.inl hpos)) fun n p hn => ?_
    exact hnot (Or.inr (Or.inl ⟨n, p, hn⟩))
  | lost id _ _ _ => exact h.placed.lost id
  | refuse id _ hpos _ _ => exact h.placed.create hpos false
  | create id hpos _ => exact h.placed.create hpos true
  | destroy n id p _ hact _ _ => exact h.placed.destroy hact
  | recreate n id p _ hact _ _ _ _ => exact h.placed.recreate hact
  | _ => exact h.placed

theorem Inv.step_launched (h : b.Inv) (hs : b.Step b') (id : ℤ) (ht : b'.Touched id) : b'.Launched id := by
  rcases hs.touched_of ht with ht | ⟨c, hc, hreq, hcall⟩
  · exact hs.launched (h.launched id ht)
  · have hid : (b.call c).id = some id := by rw [hc]; rfl
    refine ⟨hreq ▸ h.calls.drawn c id hid, fun c' hc' => ?_⟩
    rw [hcall] at hc' ⊢
    rw [id_update (by rw [hc]; rfl)] at hc'
    rw [h.calls.apart c' c id hc' hid, Function.update_self]
    rfl

theorem Inv.step_registered (h : b.Inv) (hs : b.Step b') (n : ℕ) (id : ℤ) (hn : b'.activity n = .created id true) :
    b'.registered id = some n := by
  -- an activity's place in the map changes with the activity of the same id only
  have hother : ∀ m x p (registered : ℤ → Option ℕ), b.activity m = .created x p →
      (∀ y, y ≠ x → registered y = b.registered y) → Function.update b.activity m .destroyed n = .created id true →
      registered id = some n := by
    intro m x p registered hm hr hn
    obtain ⟨hne, hold⟩ := created_of_destroy hn
    rw [hr id fun heq => hne (h.placed.single id n m true p hold (heq ▸ hm)), h.registered n id hold]
  cases hs with
  | refuse x _ _ _ _ =>
    rcases created_of_update hn with ⟨-, -, hp⟩ | ⟨-, hold⟩
    · cases hp
    · exact h.registered n id hold
  | create x hpos _ =>
    rcases created_of_update hn with ⟨rfl, rfl, -⟩ | ⟨-, hold⟩
    · exact Function.update_self ..
    · have hne : id ≠ x := by
        rintro rfl
        exact h.placed.lone id n true hpos hold
      dsimp only
      rw [Function.update_of_ne hne, h.registered n id hold]
  | destroy m x p registered hact _ hr => exact hother m x p registered hact hr hn
  | recreate m x p registered hact _ _ _ hr => exact hother m x p registered hact hr hn
  | _ => exact h.registered n id hn

/-- No activity takes back that it was told to finish. -/
theorem Inv.step_finished (h : b.Inv) (hs : b.Step b') {n : ℕ} {id : ℤ} {p : Bool} (hn : b.activity n = .created id p)
    (hf : b.finished n = true) : b'.finished n = true := by
  cases hs with
  | refuse | create => exact (Function.update_of_ne (h.placed.ne_next hn) _ _).trans hf
  | promptEnds m | finish m =>
    rcases eq_or_ne n m with rfl | hne
    · exact Function.update_self ..
    · exact (Function.update_of_ne hne _ _).trans hf
  | _ => exact hf

/-- An activity of the new board is an old one, or the one that was created now. -/
theorem Step.activity_of (hs : b.Step b') {n : ℕ} {id : ℤ} {p : Bool} (hn : b'.activity n = .created id p) :
    b.activity n = .created id p ∨ (0 < b.coming id ∧ n = b.activities ∧ b'.finished n = !p) := by
  cases hs with
  | refuse x _ hpos _ _ =>
    rcases created_of_update hn with ⟨rfl, rfl, rfl⟩ | ⟨-, hold⟩
    · exact Or.inr ⟨hpos, rfl, Function.update_self ..⟩
    · exact Or.inl hold
  | create x hpos _ =>
    rcases created_of_update hn with ⟨rfl, rfl, rfl⟩ | ⟨-, hold⟩
    · exact Or.inr ⟨hpos, rfl, Function.update_self ..⟩
    · exact Or.inl hold
  | destroy | recreate => exact Or.inl (created_of_destroy hn).2
  | _ => exact Or.inl hn

theorem Inv.step_refused (h : b.Inv) (hs : b.Step b') (n : ℕ) (id : ℤ) (hn : b'.activity n = .created id false) :
    b'.finished n = true := by
  rcases hs.activity_of hn with hold | ⟨-, -, hf⟩
  · exact h.step_finished hs hold (h.refused n id hold)
  · exact hf

/-- `finish()` was called, or is about to be. -/
def Told (b : Board) (n : ℕ) : Prop := b.finished n = true ∨ n ∈ b.finishPosts

theorem Inv.step_told (h : b.Inv) (hs : b.Step b') {n : ℕ} {id : ℤ} {p : Bool} (hn : b.activity n = .created id p)
    (ht : b.Told n) : b'.Told n := by
  rcases ht with hf | hmem
  · exact Or.inl (h.step_finished hs hn hf)
  · cases hs with
    | dismiss c x _ _ _ => exact Or.inr (List.mem_append_left _ hmem)
    | finish m _ _ =>
      rcases eq_or_ne n m with rfl | hne
      · exact Or.inl (Function.update_self ..)
      · exact Or.inr ((List.mem_erase_of_ne hne).mpr hmem)
    | _ => exact Or.inr hmem

/-- With every activity of `id` told to finish, only its own call brings a new launch. -/
theorem Step.not_coming (hs : b.Step b') {id : ℤ} (hpost : ∀ c, b.call c ≠ .post id) (hc : b.coming id = 0)
    (htold : ∀ n p, b.activity n = .created id p → b.Told n) : b'.coming id = 0 := by
  have hsub : ∀ x, Function.update b.coming x (b.coming x - 1) id = 0 := by
    intro x
    rcases eq_or_ne id x with rfl | hne
    · rw [Function.update_self, hc]
    · rw [Function.update_of_ne hne, hc]
  cases hs with
  | post c x hcall =>
    have hne : id ≠ x := fun heq => hpost c (heq ▸ hcall)
    exact (Function.update_of_ne hne _ _).trans hc
  | lost x | refuse x | create x => exact hsub x
  | recreate n x p _ hact _ hf hn _ =>
    have hne : id ≠ x := by
      rintro rfl
      rcases htold n p hact with hfin | hmem
      · rw [hf] at hfin
        cases hfin
      · exact hn hmem
    exact (Function.update_of_ne hne _ _).trans hc
  | _ => exact hc

/-- With nothing on its way, the activities of `id` are old ones. -/
theorem Step.activity_old (hs : b.Step b') {n : ℕ} {id : ℤ} {p : Bool} (hc : b.coming id = 0)
    (hn : b'.activity n = .created id p) : b.activity n = .created id p := by
  rcases hs.activity_of hn with hold | ⟨hpos, -⟩
  · exact hold
  · omega

/-- No prompt for `id` is on its way, and its activity has finished. -/
def Over (b : Board) (id : ℤ) : Prop :=
  b.coming id = 0 ∧ ∀ n p, b.activity n = .created id p → b.finished n = true

theorem Inv.step_over (h : b.Inv) (hs : b.Step b') {id : ℤ} (hpost : ∀ c, b.call c ≠ .post id) (ho : b.Over id) :
    b'.Over id := by
  refine ⟨hs.not_coming hpost ho.1 fun n p hn => Or.inl (ho.2 n p hn), fun n p hn => ?_⟩
  have hold := hs.activity_old ho.1 hn
  exact h.step_finished hs hold (ho.2 n p hold)

/-- Who answers has used up the launch. -/
theorem Inv.step_answered (h : b.Inv) (hs : b.Step b') (id : ℤ) (ha : b'.answered id) : b'.Over id := by
  -- what was answered before
  have hold : b.answered id → b'.Over id := fun ha =>
    h.step_over hs (fun c hc => h.post_untouched hc (Or.inr (Or.inr ha))) (h.answered id ha)
  -- a launch is used up
  have hused : 0 < b.coming id → Function.update b.coming id (b.coming id - 1) id = 0 := by
    intro hpos
    have := h.placed.once id
    rw [Function.update_self]
    omega
  cases hs with
  | rest answered hmono => exact hold (hmono id ha)
  | lost x answered hpos hnew =>
    rcases hnew id ha with ha | rfl
    · exact hold ha
    · exact ⟨hused hpos, fun n p hn => absurd hn (h.placed.lone id n p hpos)⟩
  | refuse x answered hpos hcr hnew =>
    rcases hnew id ha with ha | rfl
    · exact hold ha
    · refine ⟨hused hpos, fun n p hn => ?_⟩
      rcases created_of_update hn with ⟨rfl, -, -⟩ | ⟨-, hn⟩
      · exact Function.update_self ..
      · exact absurd hn (h.placed.lone id n p hpos)
  | promptEnds m x answered hact _ hnew =>
    rcases hnew id ha with ha | rfl
    · exact hold ha
    · refine ⟨Nat.eq_zero_of_not_pos fun hpos => h.placed.lone id m true hpos hact, fun n p hn => ?_⟩
      obtain rfl := h.placed.single id n m p true hn hact
      exact Function.update_self ..
  | _ => exact hold ha

theorem Inv.step_creating (h : b.Inv) (hs : b.Step b') (n : ℕ) (hn : b'.creating = some n) :
    b'.finished n = false ∧ ∃ id, b'.activity n = .created id true := by
  cases hs with
  | create id _ _ =>
    obtain rfl := Option.some.inj hn
    exact ⟨Function.update_self .., id, Function.update_self ..⟩
  | authenticate => cases hn
  | refuse _ _ _ hcr _ | promptEnds _ _ _ _ hcr _ | destroy _ _ _ _ _ hcr _ | recreate _ _ _ _ _ hcr _ _ _
  | finish _ hcr _ => exact absurd (hcr.symm.trans hn) nofun
  | _ => exact h.creating n hn

theorem Inv.step (h : b.Inv) (hs : b.Step b') : b'.Inv where
  calls := hs.calls h.calls
  placed := h.step_placed hs
  launched := h.step_launched hs
  registered := h.step_registered hs
  refused := h.step_refused hs
  answered := h.step_answered hs
  creating := h.step_creating hs

/-! On the board: after the return. -/

/-- The call for `id` has its value, or has returned. -/
def Leaving (b : Board) (id : ℤ) : Prop :=
  id ∈ b.returned ∨ ∃ c, (b.call c).id = some id ∧ (b.call c).leaving = true

/-- No prompt for `id` is on its way, and its activity is past `onCreate` and told to finish. -/
def Settled (b : Board) (id : ℤ) : Prop :=
  b.coming id = 0 ∧ ∀ n p, b.activity n = .created id p → b.creating ≠ some n ∧ b.Told n

theorem Over.settled (h : b.Inv) {id : ℤ} (ho : b.Over id) : b.Settled id := by
  refine ⟨ho.1, fun n p hn => ⟨fun hcr => ?_, Or.inl (ho.2 n p hn)⟩⟩
  have hf := (h.creating n hcr).1
  rw [ho.2 n p hn] at hf
  cases hf

theorem Inv.step_settled (h : b.Inv) (hs : b.Step b') {id : ℤ} (hpost : ∀ c, b.call c ≠ .post id)
    (hset : b.Settled id) : b'.Settled id := by
  refine ⟨hs.not_coming hpost hset.1 fun n p hn => (hset.2 n p hn).2, fun n p hn => ?_⟩
  have hold := hs.activity_old hset.1 hn
  obtain ⟨hcr, htold⟩ := hset.2 n p hold
  refine ⟨?_, h.step_told hs hold htold⟩
  cases hs with
  | create x _ _ =>
    intro heq
    exact h.placed.ne_next hold (Option.some.inj heq).symm
  | authenticate => exact nofun
  | _ => exact hcr

/-- A dismissal with nothing on its way reaches the activity. -/
theorem Inv.settled_dismiss (h : b.Inv) {c : Caller} {id : ℤ} (hc : b.coming id = 0)
    (hn : ∀ n, b.creating = some n → b.activity n ≠ .created id true) :
    Settled { b with
      finishPosts := b.finishPosts ++ (b.registered id).toList
      call := Function.update b.call c (.remove id false) } id := by
  refine ⟨hc, fun n p hact => ?_⟩
  cases p with
  | true =>
    refine ⟨fun hcr => hn n hcr hact, Or.inr (List.mem_append_right _ ?_)⟩
    rw [h.registered n id hact]
    exact List.mem_singleton_self n
  | false =>
    refine ⟨fun hcr => ?_, Or.inl (h.refused n id hact)⟩
    have hf := (h.creating n hcr).1
    rw [h.refused n id hact] at hf
    cases hf

theorem leaving_update {call : Caller → Call} {c : Caller} {next : Call} {id : ℤ}
    (h : ∃ c', (Function.update call c next c').id = some id ∧ (Function.update call c next c').leaving = true) :
    (next.id = some id ∧ next.leaving = true) ∨ ∃ c', (call c').id = some id ∧ (call c').leaving = true := by
  obtain ⟨c', hid, hl⟩ := h
  rcases eq_or_ne c' c with rfl | hne
  · rw [Function.update_self] at hid hl
    exact Or.inl ⟨hid, hl⟩
  · rw [Function.update_of_ne hne] at hid hl
    exact Or.inr ⟨c', hid, hl⟩

theorem Inv.leaving_posted (h : b.Inv) {id : ℤ} (hl : b.Leaving id) (c : Caller) : b.call c ≠ .post id := by
  intro hc
  have hid : (b.call c).id = some id := by rw [hc]; rfl
  rcases hl with hmem | ⟨c', hid', hl⟩
  · exact (h.calls.gone id hmem).2 c hid
  · rw [h.calls.apart c' c id hid' hid, hc] at hl
    cases hl

/-- A call leaves with an answer, or after a dismissal. -/
theorem Inv.step_leaving (h : b.Inv) (hset : ∀ id, b.Leaving id → b.Settled id) (hs : b.Step b') (id : ℤ)
    (hl : b'.Leaving id) : b'.Settled id := by
  have hold : b.Leaving id → b'.Settled id := fun hl => h.step_settled hs (h.leaving_posted hl) (hset id hl)
  have hheld : (∃ c, (b.call c).id = some id ∧ (b.call c).leaving = true) → b'.Settled id := fun hl => hold (Or.inr hl)
  cases hs with
  | draw c _ =>
    rcases hl with hmem | hl
    · exact hold (Or.inl hmem)
    · exact (leaving_update hl).elim (fun hnew => absurd hnew.2 nofun) hheld
  | advance c next _ _ hnot =>
    rcases hl with hmem | hl
    · exact hold (Or.inl hmem)
    · exact (leaving_update hl).elim (fun hnew => absurd (hnot.symm.trans hnew.2) nofun) hheld
  | post c x _ =>
    rcases hl with hmem | hl
    · exact hold (Or.inl hmem)
    · exact (leaving_update hl).elim (fun hnew => absurd hnew.2 nofun) hheld
  | answer c x ok hc ha =>
    rcases hl with hmem | hl
    · exact hold (Or.inl hmem)
    · rcases leaving_update hl with ⟨hid, -⟩ | hl
      · obtain rfl := Option.some.inj hid
        exact Over.settled h (h.answered x ha)
      · exact hheld hl
  | dismiss c x hc hzero hn =>
    rcases hl with hmem | hl
    · exact hold (Or.inl hmem)
    · rcases leaving_update hl with ⟨hid, -⟩ | hl
      · obtain rfl := Option.some.inj hid
        exact h.settled_dismiss hzero hn
      · exact hheld hl
  | returns c x ok hc =>
    rcases hl with hmem | hl
    · rcases List.mem_append.mp hmem with hmem | hmem
      · exact hold (Or.inl hmem)
      · obtain rfl := List.mem_singleton.mp hmem
        exact hheld ⟨c, by rw [hc]; rfl, by rw [hc]; rfl⟩
    · exact (leaving_update hl).elim (fun hnew => absurd hnew.2 nofun) hheld
  | _ => exact hold hl

/-- What holds of the board in every run whose dismissals come in time. -/
structure Safe (b : Board) : Prop where
  inv : b.Inv
  settled : ∀ id, b.Leaving id → b.Settled id

theorem Safe.step (h : b.Safe) (hs : b.Step b') : b'.Safe := ⟨h.inv.step hs, h.inv.step_leaving h.settled hs⟩

/-- Returned ids stay returned. -/
theorem Step.returned (hs : b.Step b') {id : ℤ} (h : id ∈ b.returned) : id ∈ b'.returned := by
  cases hs with
  | returns => exact List.mem_append_left _ h
  | _ => exact h

/-- An activity stays until it is destroyed. -/
theorem Inv.step_activity (h : b.Inv) (hs : b.Step b') {n : ℕ} {id : ℤ} {p : Bool} (hn : b.activity n = .created id p) :
    b'.activity n = .created id p ∨ b'.activity n = .destroyed := by
  cases hs with
  | refuse | create => exact Or.inl ((Function.update_of_ne (h.placed.ne_next hn) _ _).trans hn)
  | destroy m | recreate m =>
    rcases eq_or_ne n m with rfl | hnm
    · exact Or.inr (Function.update_self ..)
    · exact Or.inl ((Function.update_of_ne hnm _ _).trans hn)
  | _ => exact Or.inl hn

end Board

end Tinyhack.Biometric
