import TinyhackSsh.Spec.SessionPointer

/-! No native call on a deleted session, when the two calls made outside the
monitor are over by then. `Covered` says of the code an activation has left that
it calls native functions only inside the monitor and after a test of the pointer,
`nativeGetScreenState` and `nativeWaitChild` apart. The pointer leaves
`sessionPtr` once, inside the monitor, for the activation that then deletes. -/

namespace Tinyhack.Pointer

open Runs

/-- Code to be run at a monitor depth; `tested` is that `sessionPtr` has been found
non-zero since the monitor was entered. -/
inductive Covered : ℕ → Bool → List Instr → Prop
  | nil {tested : Bool} : Covered 0 tested []
  | enter {d : ℕ} {tested : Bool} {code : List Instr} :
      Covered (d + 1) tested code → Covered d tested (.monitorEnter :: code)
  | leave {tested : Bool} {code : List Instr} : Covered 0 false code → Covered 1 tested (.monitorExit :: code)
  | exit {d : ℕ} {tested : Bool} {code : List Instr} :
      Covered (d + 1) tested code → Covered (d + 2) tested (.monitorExit :: code)
  | testClosed {d skip : ℕ} {tested : Bool} {code : List Instr} :
      Covered d tested code → Covered d tested (code.drop skip) → Covered d tested (.testClosed skip :: code)
  | testPtr {d skip : ℕ} {tested : Bool} {code : List Instr} :
      Covered d (decide (0 < d)) code → Covered d tested (code.drop skip) →
        Covered d tested (.testPtr skip :: code)
  | branch {d skip : ℕ} {tested : Bool} {code : List Instr} :
      Covered d tested code → Covered d tested (code.drop skip) → Covered d tested (.branch skip :: code)
  | native {d : ℕ} {tested : Bool} {f : NativeFn} {code : List Instr} :
      f ≠ .close → (tested = true ∨ f.unguarded) → Covered d tested code → Covered d tested (.native f :: code)
  | compareAndSet {d skip : ℕ} {tested : Bool} {code : List Instr} :
      Covered d tested code → Covered d tested (code.drop skip) → Covered d tested (.compareAndSet skip :: code)
  | takePtr {d : ℕ} {tested : Bool} {code : List Instr} :
      Covered (d + 1) false code → Covered (d + 1) tested (.takePtr :: code)
  | nativeClose {d : ℕ} {tested : Bool} {code : List Instr} :
      Covered d tested code → Covered d tested (.nativeClose :: code)

theorem Covered.test {d : ℕ} {code : List Instr} (h : Covered d false code) : Covered d true code := by
  generalize htested : false = tested at h
  induction h with
  | nil => exact .nil
  | enter _ ih => exact .enter (ih htested)
  | leave h _ => exact .leave h
  | exit _ ih => exact .exit (ih htested)
  | testClosed _ _ ih₁ ih₂ => exact .testClosed (ih₁ htested) (ih₂ htested)
  | testPtr h _ _ ih => exact .testPtr h (ih htested)
  | branch _ _ ih₁ ih₂ => exact .branch (ih₁ htested) (ih₂ htested)
  | native hf _ _ ih => exact .native hf (.inl rfl) (ih htested)
  | compareAndSet _ _ ih₁ ih₂ => exact .compareAndSet (ih₁ htested) (ih₂ htested)
  | takePtr h _ => exact .takePtr h
  | nativeClose _ ih => exact .nativeClose (ih htested)

section
variable {d skip : ℕ} {tested : Bool} {f : NativeFn} {code : List Instr}

theorem Covered.of_enter (h : Covered d tested (.monitorEnter :: code)) : Covered (d + 1) tested code := by
  cases h; assumption

theorem Covered.of_exit (h : Covered (d + 1) tested (.monitorExit :: code)) :
    Covered d (tested && decide (0 < d)) code := by
  cases h with
  | leave h => simpa using h
  | exit h => simpa using h

theorem Covered.of_testClosed (h : Covered d tested (.testClosed skip :: code)) :
    Covered d tested code ∧ Covered d tested (code.drop skip) := by
  cases h; exact ⟨‹_›, ‹_›⟩

theorem Covered.of_testPtr (h : Covered d tested (.testPtr skip :: code)) :
    Covered d (decide (0 < d)) code ∧ Covered d tested (code.drop skip) := by
  cases h; exact ⟨‹_›, ‹_›⟩

theorem Covered.of_branch (h : Covered d tested (.branch skip :: code)) :
    Covered d tested code ∧ Covered d tested (code.drop skip) := by
  cases h; exact ⟨‹_›, ‹_›⟩

theorem Covered.of_native (h : Covered d tested (.native f :: code)) :
    f ≠ .close ∧ (tested = true ∨ f.unguarded) ∧ Covered d tested code := by
  cases h; exact ⟨‹_›, ‹_›, ‹_›⟩

theorem Covered.of_compareAndSet (h : Covered d tested (.compareAndSet skip :: code)) :
    Covered d tested code ∧ Covered d tested (code.drop skip) := by
  cases h; exact ⟨‹_›, ‹_›⟩

theorem Covered.of_takePtr (h : Covered d tested (.takePtr :: code)) : 0 < d ∧ Covered d false code := by
  cases h; exact ⟨Nat.succ_pos _, ‹_›⟩

theorem Covered.of_nativeClose (h : Covered d tested (.nativeClose :: code)) : Covered d tested code := by
  cases h; assumption

end

/-- A piece of code that leaves the monitor as it found it. -/
def Block (d : ℕ) (tested : Bool) (body : List Instr) : Prop :=
  ∀ rest, Covered d tested rest → Covered d tested (body ++ rest)

variable {d : ℕ} {tested : Bool} {body body' : List Instr} {f : NativeFn}

theorem Block.nil : Block d tested [] := fun _ h => h

theorem Block.append (h : Block d tested body) (h' : Block d tested body') : Block d tested (body ++ body') := by
  intro rest hrest
  rw [List.append_assoc]
  exact h _ (h' _ hrest)

theorem Block.native (hf : f ≠ .close) (h : tested = true ∨ f.unguarded) (hb : Block d tested body) :
    Block d tested (.native f :: body) :=
  fun _ hrest => .native hf h (hb _ hrest)

theorem Block.provided (h : Block d tested body) : Block d tested (provided body) := by
  intro rest hrest
  refine .branch (h _ hrest) ?_
  simpa using hrest

theorem Block.guarded (h : Block (d + 1) true body) : Block (d + 1) false (guarded body) := by
  intro rest hrest
  refine .testClosed (.testPtr ?_ ?_) ?_
  · simpa using h _ hrest.test
  · simpa using hrest
  · simpa using hrest

theorem Block.synchronized (h : Block (d + 1) false body) : Block d false (synchronized body) := by
  intro rest hrest
  simp only [Pointer.synchronized, List.cons_append, List.append_assoc, List.nil_append]
  refine .enter (h _ ?_)
  cases d with
  | zero => exact .leave hrest
  | succ d => exact .exit hrest

theorem block_callOne (hf : f ≠ .close) : Block d false (callOne f) :=
  (Block.nil.native hf (.inl rfl)).guarded.synchronized

theorem block_callSome (hf : f ≠ .close) : Block d false (callSome f) :=
  (Block.nil.native hf (.inl rfl)).provided.guarded.synchronized

theorem block_replicate (hf : f ≠ .close) (n : ℕ) : Block d true (List.replicate n (.native f)) := by
  induction n with
  | zero => exact .nil
  | succ n ih => exact ih.native hf (.inl rfl)

theorem Block.covered (h : Block 0 false body) : Covered 0 false body := by
  simpa using h [] .nil

theorem covered_getScreenState : Covered 0 false (guarded [.native .getScreenState]) :=
  .testClosed (.testPtr (.native (by decide) (.inr (.inl rfl)) .nil) .nil) .nil

theorem covered_watcher : Covered 0 false watcher :=
  .testPtr (.native (by decide) (.inr (.inr rfl)) .nil) .nil

theorem covered_method (m : Method) : Covered 0 false m.code := by
  cases m
  case write | writePaste | resize | feedVt => exact (block_callSome (by decide)).covered
  case writeString => exact (block_callSome (by decide)).provided.covered
  case sendMouseClick =>
    exact ((Block.nil.native (by decide) (.inl rfl)).native (by decide) (.inl rfl)).guarded.synchronized.covered
  case sendMouseWheel lines => exact (block_replicate (by decide) lines).guarded.synchronized.covered
  case getScreenState | isAlternateScreenActive | isMouseTrackingEnabled => exact covered_getScreenState
  case copySelection | getScreenText =>
    exact ((block_callOne (by decide)).append (block_callOne (by decide)).provided).synchronized.covered
  case getHtml | getVt => exact (block_callOne (by decide)).synchronized.covered
  case close => exact .compareAndSet (.enter (.takePtr (.leave (.nativeClose .nil)))) .nil
  all_goals exact (block_callOne (by decide)).covered

/-- How often the activation has entered the monitor. -/
def State.depth (s : State) (t : ℕ) : ℕ :=
  match s.monitor with
  | some (owner, depth) => if owner = t then depth else 0
  | none => 0

/-- It has taken the pointer and is going to delete the session. -/
def Activation.Holds (a : Activation) : Prop :=
  a.ptr ≠ 0 ∨ ∃ call ∈ a.native, call.fn = .close ∧ call.todo ≠ []

structure Sound (s : State) (t : ℕ) (a : Activation) : Prop where
  covered : ∃ tested, Covered (s.depth t) tested a.code ∧
    (tested = true → 0 < s.depth t ∧ s.sessionPtr ≠ 0) ∧
    ∀ call ∈ a.native, tested = true ∨ call.fn.unguarded ∨ call.fn = .close
  todo : ∀ call ∈ a.native, call.todo <:+ call.fn.body ∨ call.todo = [.unlock]
  moved : ∀ call ∈ a.native, call.fn = .close → a.ptr = 0
  holds : a.Holds → s.sessionPtr = 0 ∧ s.freed = false
  lingers : a.Lingers → s.freed = false

structure Inv (s : State) : Prop where
  sound : ∀ t a, s.activations[t]? = some a → Sound s t a
  unique : ∀ (t : ℕ) (a : Activation) (u : ℕ) (b : Activation), s.activations[t]? = some a →
    s.activations[u]? = some b → a.Holds → b.Holds → t = u
  freed : s.freed = true → s.sessionPtr = 0
  idle : ∀ t, s.activations.length ≤ t → s.depth t = 0

variable {s s' : State} {t u : ℕ} {a a' b : Activation} {choice : Bool} {rest : List Instr}
  {todo : List Access}

theorem Sound.congr (h : Sound s u b) (hd : s'.depth u = s.depth u) (hp : s'.sessionPtr = s.sessionPtr)
    (hf : s'.freed = s.freed) : Sound s' u b := by
  obtain ⟨tested, hcov, htested, hcall⟩ := h.covered
  refine ⟨⟨tested, hd ▸ hcov, ?_, hcall⟩, h.todo, h.moved, ?_, ?_⟩
  · rw [hd, hp]
    exact htested
  · rw [hp, hf]
    exact h.holds
  · rw [hf]
    exact h.lingers

/-- One activation takes a step; the others only have to stay sound. -/
theorem Inv.step (h : Inv s) (ht : s.activations[t]? = some a)
    (hset : s'.activations = s.activations.set t a') (hself : Sound s' t a')
    (hothers : ∀ u b, u ≠ t → s.activations[u]? = some b → Sound s u b → Sound s' u b)
    (hdepth : ∀ u, u ≠ t → s'.depth u = s.depth u) (hholds : a'.Holds → a.Holds ∨ s.sessionPtr ≠ 0)
    (hfreed : s'.freed = true → s'.sessionPtr = 0) : Inv s' := by
  have hlt : t < s.activations.length := (List.getElem?_eq_some_iff.mp ht).1
  have hget : ∀ u b, s'.activations[u]? = some b → u = t ∧ b = a' ∨ u ≠ t ∧ s.activations[u]? = some b := by
    intro u b hu
    rw [hset, List.getElem?_set] at hu
    split_ifs at hu with heq
    · exact Or.inl ⟨heq.symm, (Option.some.inj hu).symm⟩
    · exact Or.inr ⟨fun heq' => heq heq'.symm, hu⟩
  -- a new holder had the pointer before, or it was still in `sessionPtr` and there was none
  have hsole : a'.Holds → ∀ u b, u ≠ t → s.activations[u]? = some b → ¬b.Holds := by
    intro ha' u b hne hu hb
    rcases hholds ha' with ha | hptr
    · exact hne (h.unique u b t a hu ht hb ha)
    · exact hptr ((h.sound u b hu).holds hb).1
  refine ⟨fun u b hu => ?_, fun u b v c hu hv hb hc => ?_, hfreed, fun u hu => ?_⟩
  · rcases hget u b hu with ⟨rfl, rfl⟩ | ⟨hne, hu⟩
    · exact hself
    · exact hothers u b hne hu (h.sound u b hu)
  · rcases hget u b hu with ⟨rfl, rfl⟩ | ⟨hne, hu⟩ <;> rcases hget v c hv with ⟨rfl, rfl⟩ | ⟨hne', hv⟩
    · rfl
    · exact absurd hc (hsole hb v c hne' hv)
    · exact absurd hb (hsole hc u b hne hu)
    · exact h.unique u b v c hu hv hb hc
  · rw [hset, List.length_set] at hu
    rw [hdepth u (by omega)]
    exact h.idle u hu

/-- The Java code moves on, no native call being active. -/
theorem Sound.code (h : Sound s t a) (hn : a.native = none) (hp : s'.sessionPtr = s.sessionPtr)
    (hf : s'.freed = s.freed)
    (hcov : ∃ tested, Covered (s'.depth t) tested rest ∧ (tested = true → 0 < s'.depth t ∧ s'.sessionPtr ≠ 0)) :
    Sound s' t { a with code := rest } := by
  obtain ⟨tested, hcov, htested⟩ := hcov
  refine ⟨⟨tested, hcov, htested, by simp [hn]⟩, by simp [hn], by simp [hn], ?_, ?_⟩
  · rw [hp, hf]
    exact h.holds
  · rw [hf]
    exact h.lingers

/-- A native call goes on with part of what it had to do, or returns. -/
theorem Sound.native (h : Sound s t a) (hn : a.native = some ⟨f, todo⟩) {next : Option NativeCall}
    (hnext : ∀ call ∈ next, call.fn = f ∧ call.todo <:+ todo ∨ f = .close ∧ call = ⟨f, [.unlock]⟩)
    (htodo : next ≠ none → todo ≠ []) (hd : s'.depth t = s.depth t)
    (hp : s'.sessionPtr = s.sessionPtr) (hf : s'.freed = s.freed) :
    Sound s' t { a with native := next } ∧ ({ a with native := next }.Holds → a.Holds) := by
  obtain ⟨tested, hcov, htested, hcall⟩ := h.covered
  have hfn : ∀ call ∈ next, call.fn = f := by
    intro call hc
    rcases hnext call hc with ⟨hfn, -⟩ | ⟨-, rfl⟩
    · exact hfn
    · rfl
  have hholds : { a with native := next }.Holds → a.Holds := by
    rintro (hptr | ⟨call, hc, hclose, -⟩)
    · exact Or.inl hptr
    · refine Or.inr ⟨_, hn, (hfn call hc).symm.trans hclose, htodo ?_⟩
      exact Option.ne_none_iff_exists'.mpr ⟨call, hc⟩
  refine ⟨⟨⟨tested, hd ▸ hcov, ?_, ?_⟩, ?_, ?_, ?_, ?_⟩, hholds⟩
  · rw [hd, hp]
    exact htested
  · intro call hc
    rw [hfn call hc]
    exact hcall _ hn
  · intro call hc
    rcases hnext call hc with ⟨hfn, hsuf⟩ | ⟨-, rfl⟩
    · rcases h.todo _ hn with hbody | hunlock
      · exact Or.inl (hfn ▸ hsuf.trans hbody)
      · dsimp only at hunlock
        rw [hunlock, List.suffix_cons_iff, List.suffix_nil] at hsuf
        rcases hsuf with hsuf | hsuf
        · exact Or.inr hsuf
        · exact Or.inl (hsuf ▸ List.nil_suffix)
    · exact Or.inr rfl
  · intro call hc hclose
    exact h.moved _ hn ((hfn call hc).symm.trans hclose)
  · intro hh
    rw [hp, hf]
    exact h.holds (hholds hh)
  · rintro ⟨call, hc, hun, hpend⟩
    rw [hf]
    rcases hnext call hc with ⟨hfn, hsuf⟩ | ⟨rfl, rfl⟩
    · refine h.lingers ⟨_, hn, hfn ▸ hun, ?_⟩
      intro hnone
      refine hpend ?_
      obtain rfl := Option.mem_def.mp hc
      simp only [Activation.pending, hn] at hnone ⊢
      exact List.suffix_nil.mp (hnone ▸ hsuf.filter _)
    · rcases hun with hun | hun <;> cases hun

theorem depth_of_monitor {owner n : ℕ} (h : s.monitor = some (owner, n)) (t : ℕ) :
    s.depth t = if owner = t then n else 0 := by
  simp [State.depth, h]

theorem depth_of_free (h : s.monitor = none) (t : ℕ) : s.depth t = 0 := by
  simp [State.depth, h]

/-- The monitor has one owner. -/
theorem depth_other (ht : 0 < s.depth t) (hne : u ≠ t) : s.depth u = 0 := by
  unfold State.depth at ht ⊢
  cases hm : s.monitor with
  | none => rfl
  | some p =>
    obtain ⟨owner, n⟩ := p
    simp only [hm] at ht ⊢
    split_ifs at ht with howner
    · exact if_neg fun h => hne (h.symm.trans howner)
    · omega

theorem closing_of_shut (h : .shut ∈ f.body ∨ .delete ∈ f.body) : f = .close := by
  cases f <;> simp [NativeFn.body] at h ⊢

/-- A step of a native function that does not delete. -/
theorem Inv.access (h : Inv s) (ht : s.activations[t]? = some a) (hn : a.native = some ⟨f, todo⟩)
    {next : Option NativeCall}
    (hnext : ∀ call ∈ next, call.fn = f ∧ call.todo <:+ todo ∨ f = .close ∧ call = ⟨f, [.unlock]⟩)
    (htodo : next ≠ none → todo ≠ []) (hset : s'.activations = s.activations.set t { a with native := next })
    (hm : s'.monitor = s.monitor) (hp : s'.sessionPtr = s.sessionPtr) (hf : s'.freed = s.freed) : Inv s' := by
  have hd : ∀ u, s'.depth u = s.depth u := fun u => by simp only [State.depth, hm]
  obtain ⟨hself, hholds⟩ := (h.sound t a ht).native hn hnext htodo (hd t) hp hf
  refine h.step ht hset hself (fun u b _ _ hb => hb.congr (hd u) hp hf) (fun u _ => hd u)
    (fun hh => Or.inl (hholds hh)) ?_
  rw [hf, hp]
  exact h.freed

theorem Inv.delete (h : Inv s) (ht : s.activations[t]? = some a) (hn : a.native = some ⟨f, .delete :: todo⟩)
    (hset : s'.activations = s.activations.set t { a with native := some ⟨f, todo⟩ })
    (hm : s'.monitor = s.monitor) (hp : s'.sessionPtr = s.sessionPtr)
    (halone : ∀ b ∈ s.activations, ¬b.Lingers) : Inv s' := by
  have hsound := h.sound t a ht
  have hbody : .delete :: todo <:+ f.body := by
    rcases hsound.todo _ hn with hbody | hunlock
    · exact hbody
    · cases hunlock
  obtain rfl := closing_of_shut (Or.inr (hbody.subset List.mem_cons_self))
  obtain rfl : todo = [] := by simpa [NativeFn.body, List.suffix_cons_iff] using hbody
  have hholds : a.Holds := Or.inr ⟨_, hn, rfl, by simp⟩
  have hzero : s.sessionPtr = 0 := (hsound.holds hholds).1
  have hd : ∀ u, s'.depth u = s.depth u := fun u => by simp only [State.depth, hm]
  have hnot : ¬{ a with native := some ⟨.close, []⟩ }.Holds := by
    rintro (hptr | ⟨call, hc, -, hne⟩)
    · exact hptr (hsound.moved _ hn rfl)
    · obtain rfl := Option.mem_some_iff.mp hc
      exact hne rfl
  obtain ⟨tested, hcov, htested, hcall⟩ := hsound.covered
  refine h.step ht hset ⟨⟨tested, hd t ▸ hcov, ?_, ?_⟩, ?_, ?_, fun hh => absurd hh hnot, ?_⟩ ?_
    (fun u _ => hd u) (fun hh => absurd hh hnot) fun _ => hp.trans hzero
  · rw [hd, hp]
    exact htested
  · intro call hc
    obtain rfl := Option.mem_some_iff.mp hc
    exact Or.inr (Or.inr rfl)
  · intro call hc
    obtain rfl := Option.mem_some_iff.mp hc
    exact Or.inl List.nil_suffix
  · intro call _ _
    exact hsound.moved _ hn rfl
  · rintro ⟨call, hc, hun, -⟩
    obtain rfl := Option.mem_some_iff.mp hc
    rcases hun with hun | hun <;> cases hun
  · intro u b hne hu hb
    obtain ⟨tested, hcov, htested, hcall⟩ := hb.covered
    refine ⟨⟨tested, hd u ▸ hcov, ?_, hcall⟩, hb.todo, hb.moved, ?_, ?_⟩
    · rw [hd, hp]
      exact htested
    · exact fun hh => absurd (h.unique u b t a hu ht hh hholds) hne
    · exact fun hl => absurd hl (halone b (List.mem_of_getElem? hu))

theorem accessStep_inv {x : Access} (h : Inv s) (ht : s.activations[t]? = some a)
    (hn : a.native = some ⟨f, x :: todo⟩) (halone : x = .delete → ∀ b ∈ s.activations, ¬b.Lingers)
    (hs : s.accessStep t a f choice todo x = some s') : Inv s' := by
  have hgo : ∀ call ∈ some (NativeCall.mk f todo),
      call.fn = f ∧ call.todo <:+ x :: todo ∨ f = .close ∧ call = ⟨f, [.unlock]⟩ := by
    rintro call ⟨⟩
    exact Or.inl ⟨rfl, List.suffix_cons _ _⟩
  have hne : some (NativeCall.mk f todo) ≠ none → x :: todo ≠ [] := fun _ => List.cons_ne_nil _ _
  cases x with
  | check =>
    cases hs
    split_ifs
    · exact h.access ht hn (by simp) (by simp) rfl rfl rfl rfl
    · exact h.access ht hn hgo hne rfl rfl rfl rfl
  | test =>
    cases hs
    split_ifs
    · exact h.access ht hn hgo hne rfl rfl rfl rfl
    · exact h.access ht hn (by simp) (by simp) rfl rfl rfl rfl
  | lock =>
    simp only [State.accessStep] at hs
    split_ifs at hs
    cases hs
    exact h.access ht hn hgo hne rfl rfl rfl rfl
  | access | waitpid | unlock =>
    cases hs
    exact h.access ht hn hgo hne rfl rfl rfl rfl
  | shut =>
    simp only [State.accessStep] at hs
    split_ifs at hs
    · cases hs
      refine h.access ht hn ?_ (by simp) rfl rfl rfl rfl
      rintro call ⟨⟩
      rcases (h.sound t a ht).todo _ hn with hbody | hunlock
      · exact Or.inr ⟨closing_of_shut (Or.inl (hbody.subset List.mem_cons_self)), rfl⟩
      · cases hunlock
    · cases hs
      exact h.access ht hn hgo hne rfl rfl rfl rfl
  | delete =>
    cases hs
    exact h.delete ht hn rfl rfl rfl (halone rfl)

/-- A step of the Java code that leaves the pointer alone. -/
theorem Inv.code (h : Inv s) (ht : s.activations[t]? = some a) (hn : a.native = none)
    (hset : s'.activations = s.activations.set t { a with code := rest })
    (hdepth : ∀ u, u ≠ t → s'.depth u = s.depth u) (hp : s'.sessionPtr = s.sessionPtr)
    (hf : s'.freed = s.freed)
    (hcov : ∃ tested, Covered (s'.depth t) tested rest ∧ (tested = true → 0 < s'.depth t ∧ s'.sessionPtr ≠ 0)) :
    Inv s' := by
  refine h.step ht hset ((h.sound t a ht).code hn hp hf hcov) (fun u b hne _ hb => hb.congr (hdepth u hne) hp hf)
    hdepth Or.inl ?_
  rw [hf, hp]
  exact h.freed

theorem monitorEnter_inv (h : Inv s) (ht : s.activations[t]? = some a) (hn : a.native = none)
    (hc : a.code = .monitorEnter :: rest) (hs : s.instrStep t a choice rest .monitorEnter = some s') : Inv s' := by
  obtain ⟨tested, hcov, htested, -⟩ := (h.sound t a ht).covered
  have hcov' := (hc ▸ hcov).of_enter
  simp only [State.instrStep] at hs
  -- entered for the first time, or once more by its owner
  obtain ⟨hother, rfl⟩ : (∀ u, u ≠ t → s.depth u = 0) ∧
      s' = { s.put t { a with code := rest } with monitor := some (t, s.depth t + 1) } := by
    cases hm : s.monitor with
    | none =>
      rw [hm] at hs
      cases hs
      exact ⟨fun u _ => depth_of_free hm u, by rw [depth_of_free hm]⟩
    | some p =>
      obtain ⟨owner, n⟩ := p
      simp only [hm] at hs
      split_ifs at hs with howner
      subst howner
      cases hs
      refine ⟨fun u hne => ?_, ?_⟩
      · rw [depth_of_monitor hm, if_neg hne.symm]
      · rw [depth_of_monitor hm, if_pos rfl]
  refine h.code ht hn rfl (fun u hne => ?_) rfl rfl ⟨tested, ?_, fun hte => ⟨?_, (htested hte).2⟩⟩
  · rw [hother u hne, depth_of_monitor rfl, if_neg hne.symm]
  · rwa [depth_of_monitor rfl, if_pos rfl]
  · rw [depth_of_monitor rfl, if_pos rfl]
    exact Nat.succ_pos _

theorem monitorExit_inv (h : Inv s) (ht : s.activations[t]? = some a) (hn : a.native = none)
    (hc : a.code = .monitorExit :: rest) (hs : s.instrStep t a choice rest .monitorExit = some s') : Inv s' := by
  obtain ⟨tested, hcov, htested, -⟩ := (h.sound t a ht).covered
  rw [hc] at hcov
  simp only [State.instrStep] at hs
  split at hs
  next owner n hm =>
    obtain rfl : owner = t := by
      by_contra hne
      rw [if_neg hne] at hs
      cases hs
    rw [if_pos rfl] at hs
    have hdepth : s.depth owner = n + 1 := by rw [depth_of_monitor hm, if_pos rfl]
    have hdepth' : ∀ u, s'.depth u = if owner = u then n else 0 := by
      intro u
      cases hs
      by_cases hzero : n = 0 <;> simp [State.depth, hzero]
    rw [hdepth] at hcov
    refine h.code ht hn (by cases hs; rfl) (fun u hne => ?_) (by cases hs; rfl) (by cases hs; rfl)
      ⟨tested && decide (0 < n), ?_, fun hte => ?_⟩
    · rw [hdepth', depth_of_monitor hm, if_neg hne.symm, if_neg hne.symm]
    · rw [hdepth', if_pos rfl]
      exact hcov.of_exit
    · obtain ⟨hte, hpos⟩ := Bool.and_eq_true_iff.mp hte
      rw [hdepth', if_pos rfl]
      refine ⟨of_decide_eq_true hpos, ?_⟩
      cases hs
      exact (htested hte).2
  next => cases hs

theorem mem_enterNative {p : ℕ} {call : NativeCall} (h : call ∈ enterNative f p) :
    call = ⟨f, f.body⟩ ∧ p ≠ 0 := by
  simp only [enterNative] at h
  split_ifs at h with hzero
  · cases h
  · exact ⟨(Option.mem_some_iff.mp h).symm, hzero⟩

theorem Inv.not_freed (h : Inv s) (hptr : s.sessionPtr ≠ 0) : s.freed = false := by
  by_contra hfreed
  exact hptr (h.freed (by simpa using hfreed))

theorem takePtr_inv (h : Inv s) (ht : s.activations[t]? = some a) (hn : a.native = none)
    (hc : a.code = .takePtr :: rest) (hs : s.instrStep t a choice rest .takePtr = some s') : Inv s' := by
  obtain ⟨tested, hcov, -, -⟩ := (h.sound t a ht).covered
  obtain ⟨hin, hcov⟩ := (hc ▸ hcov).of_takePtr
  cases hs
  have hholds : { a with code := rest, ptr := s.sessionPtr }.Holds → s.sessionPtr ≠ 0 := by
    rintro (hptr | ⟨call, hcall, -⟩)
    · exact hptr
    · simp [hn] at hcall
  refine h.step ht rfl ⟨⟨false, hcov, by simp, by simp [hn]⟩, by simp [hn], by simp [hn], ?_, ?_⟩ ?_
    (fun _ _ => rfl) (fun hh => Or.inr (hholds hh)) fun _ => rfl
  · exact fun hh => ⟨rfl, h.not_freed (hholds hh)⟩
  · rintro ⟨call, hcall, -⟩
    simp [hn] at hcall
  · -- nobody else is inside the monitor
    intro u b hne _ hb
    have hother : s.depth u = 0 := depth_other hin hne
    obtain ⟨tested, hcov, htested, hcall⟩ := hb.covered
    refine ⟨⟨tested, hcov, fun hte => ?_, hcall⟩, hb.todo, hb.moved, fun hh => ⟨rfl, (hb.holds hh).2⟩, hb.lingers⟩
    exact absurd (htested hte).1 (by omega)

theorem native_inv (h : Inv s) (ht : s.activations[t]? = some a) (hc : a.code = .native f :: rest)
    (hs : s.instrStep t a choice rest (.native f) = some s') : Inv s' := by
  have hsound := h.sound t a ht
  obtain ⟨tested, hcov, htested, -⟩ := hsound.covered
  obtain ⟨hclose, hguard, hcov⟩ := (hc ▸ hcov).of_native
  cases hs
  have hfn : ∀ call ∈ enterNative f s.sessionPtr, call.fn ≠ .close := by
    intro call hmem
    rw [(mem_enterNative hmem).1]
    exact hclose
  have hholds : { a with code := rest, native := enterNative f s.sessionPtr }.Holds → a.Holds := by
    rintro (hptr | ⟨call, hmem, hcl, -⟩)
    · exact Or.inl hptr
    · exact absurd hcl (hfn call hmem)
  refine h.step ht rfl ⟨⟨tested, hcov, htested, fun call hmem => ?_⟩, fun call hmem => ?_, ?_,
    fun hh => hsound.holds (hholds hh), ?_⟩ (fun u b _ _ hb => hb.congr rfl rfl rfl) (fun _ _ => rfl)
    (fun hh => Or.inl (hholds hh)) h.freed
  · rw [(mem_enterNative hmem).1]
    exact hguard.imp_right Or.inl
  · rw [(mem_enterNative hmem).1]
    exact Or.inl (List.suffix_refl _)
  · exact fun call hmem hcl => absurd hcl (hfn call hmem)
  · rintro ⟨call, hmem, -⟩
    exact h.not_freed (mem_enterNative hmem).2

theorem nativeClose_inv (h : Inv s) (ht : s.activations[t]? = some a)
    (hc : a.code = .nativeClose :: rest) (hs : s.instrStep t a choice rest .nativeClose = some s') : Inv s' := by
  have hsound := h.sound t a ht
  obtain ⟨tested, hcov, htested, -⟩ := hsound.covered
  have hcov' := (hc ▸ hcov).of_nativeClose
  cases hs
  have hholds : { a with code := rest, native := enterNative .close a.ptr, ptr := 0 }.Holds → a.Holds := by
    rintro (hptr | ⟨call, hmem, -⟩)
    · exact absurd rfl hptr
    · exact Or.inl (mem_enterNative hmem).2
  refine h.step ht rfl ⟨⟨tested, hcov', htested, fun call hmem => ?_⟩, fun call hmem => ?_, fun _ _ _ => rfl,
    fun hh => hsound.holds (hholds hh), ?_⟩ (fun u b _ _ hb => hb.congr rfl rfl rfl) (fun _ _ => rfl)
    (fun hh => Or.inl (hholds hh)) h.freed
  · rw [(mem_enterNative hmem).1]
    exact Or.inr (Or.inr rfl)
  · rw [(mem_enterNative hmem).1]
    exact Or.inl (List.suffix_refl _)
  · rintro ⟨call, hmem, hun, -⟩
    rw [(mem_enterNative hmem).1] at hun
    rcases hun with hun | hun <;> cases hun

theorem instrStep_inv {i : Instr} (h : Inv s) (ht : s.activations[t]? = some a) (hn : a.native = none)
    (hc : a.code = i :: rest) (hs : s.instrStep t a choice rest i = some s') : Inv s' := by
  obtain ⟨tested, hcov, htested, -⟩ := (h.sound t a ht).covered
  rw [hc] at hcov
  cases i with
  | monitorEnter => exact monitorEnter_inv h ht hn hc hs
  | monitorExit => exact monitorExit_inv h ht hn hc hs
  | takePtr => exact takePtr_inv h ht hn hc hs
  | native f => exact native_inv h ht hc hs
  | nativeClose => exact nativeClose_inv h ht hc hs
  | testClosed skip =>
    cases hs
    refine h.code ht hn rfl (fun _ _ => rfl) rfl rfl ⟨tested, ?_, htested⟩
    split_ifs
    · exact hcov.of_testClosed.2
    · exact hcov.of_testClosed.1
  | testPtr skip =>
    cases hs
    refine h.code ht hn rfl (fun _ _ => rfl) rfl rfl ?_
    split_ifs with hzero
    · exact ⟨tested, hcov.of_testPtr.2, htested⟩
    · exact ⟨_, hcov.of_testPtr.1, fun hte => ⟨of_decide_eq_true hte, hzero⟩⟩
  | branch skip =>
    cases hs
    refine h.code ht hn rfl (fun _ _ => rfl) rfl rfl ⟨tested, ?_, htested⟩
    split_ifs
    · exact hcov.of_branch.1
    · exact hcov.of_branch.2
  | compareAndSet skip =>
    simp only [State.instrStep] at hs
    split_ifs at hs
    · cases hs
      exact h.code ht hn rfl (fun _ _ => rfl) rfl rfl ⟨tested, hcov.of_compareAndSet.2, htested⟩
    · cases hs
      exact h.code ht hn rfl (fun _ _ => rfl) rfl rfl ⟨tested, hcov.of_compareAndSet.1, htested⟩

theorem step_inv {act : Action} (h : Inv s) (halone : DeletesAlone s act) (hs : step s act = some s') : Inv s' := by
  cases act with
  | call m =>
    cases hs
    -- the new activation is outside the monitor and holds nothing
    have hnew : ¬(Activation.start m.code).Holds := by simp [Activation.Holds, Activation.start]
    have hget : ∀ u b, (s.activations ++ [Activation.start m.code])[u]? = some b →
        s.activations[u]? = some b ∨ u = s.activations.length ∧ b = .start m.code := by
      intro u b hu
      rcases lt_or_ge u s.activations.length with hlt | hge
      · rw [List.getElem?_append_left hlt] at hu
        exact Or.inl hu
      · rw [List.getElem?_append_right hge, List.getElem?_singleton] at hu
        split_ifs at hu with hzero
        exact Or.inr ⟨by omega, (Option.some.inj hu).symm⟩
    refine ⟨fun u b hu => ?_, fun u b v c hu hv hb hc => ?_, h.freed, fun u hu => ?_⟩
    · rcases hget u b hu with hu | ⟨rfl, rfl⟩
      · exact (h.sound u b hu).congr rfl rfl rfl
      · refine ⟨⟨false, ?_, by simp, by simp [Activation.start]⟩, by simp [Activation.start],
          by simp [Activation.start], fun hh => absurd hh hnew, ?_⟩
        · exact (h.idle _ le_rfl : s.depth _ = 0) ▸ covered_method m
        · simp [Activation.Lingers, Activation.start]
    · rcases hget u b hu with hu | ⟨-, rfl⟩
      · rcases hget v c hv with hv | ⟨-, rfl⟩
        · exact h.unique u b v c hu hv hb hc
        · exact absurd hc hnew
      · exact absurd hb hnew
    · refine h.idle u (le_trans ?_ hu)
      simp
  | run t choice =>
    simp only [step, Option.bind_eq_bind, Option.bind_eq_some_iff] at hs
    obtain ⟨a, ht, hs⟩ := hs
    split at hs
    next _ fn x todo hn =>
      refine accessStep_inv h ht hn (fun hx => halone ?_) hs
      simp [Deletes, State.nextAccess, ht, hn, hx]
    next _ fn hn =>
      cases hs
      exact h.access ht hn (by simp) (by simp) rfl rfl rfl rfl
    next i code hn hc => exact instrStep_inv h ht hn hc hs
    next => cases hs

theorem init_inv (ptr : ℕ) : Inv (init ptr) := by
  have hget : ∀ (t : ℕ) (a : Activation), (init ptr).activations[t]? = some a → a = .start watcher := by
    intro t a ht
    have hmem := List.mem_of_getElem? ht
    simp only [init] at hmem
    split_ifs at hmem
    · simp at hmem
    · simpa using hmem
  have hnot : ¬(Activation.start watcher).Holds := by simp [Activation.Holds, Activation.start]
  refine ⟨fun t a ht => ?_, fun t a u b ht _ ha _ => ?_, by simp [init], fun _ _ => rfl⟩
  · obtain rfl := hget t a ht
    refine ⟨⟨false, covered_watcher, by simp, by simp [Activation.start]⟩, by simp [Activation.start],
      by simp [Activation.start], fun hh => absurd hh hnot, fun _ => rfl⟩
  · exact absurd (hget t a ht ▸ ha) hnot

/-- A native function reads the session it was given only while it exists. -/
theorem Inv.not_freed_of_dereferences {act : Action} (h : Inv s) (hd : Dereferences s act) : s.freed = false := by
  obtain ⟨x, hx, hderef⟩ := hd
  cases act with
  | call m => simp [State.nextAccess] at hx
  | run t choice =>
    simp only [State.nextAccess, Option.bind_eq_bind, Option.mem_def, Option.bind_eq_some_iff] at hx
    obtain ⟨a, ht, call, hn, hhead⟩ := hx
    have hmem : x ∈ call.todo := List.mem_of_mem_head? hhead
    have hsound := h.sound t a ht
    obtain ⟨tested, -, htested, hcall⟩ := hsound.covered
    rcases hcall call hn with hte | hun | hclose
    · exact h.not_freed (htested hte).2
    · refine hsound.lingers ⟨call, hn, hun, ?_⟩
      simp only [Activation.pending, hn]
      exact List.ne_nil_of_mem (List.mem_filter.mpr ⟨hmem, hderef⟩)
    · exact (hsound.holds (Or.inr ⟨call, hn, hclose, List.ne_nil_of_mem hmem⟩)).2

/-- In every run in which `nativeClose` deletes the session only while no
`nativeGetScreenState` or `nativeWaitChild` is still going to read it, no step
dereferences the session after it has been deleted. -/
theorem no_use_after_close (ptr : ℕ) {acts : List Action} {act : Action}
    (hrun : Run (init ptr) step DeletesAlone acts s) (hderef : Dereferences s act) : s.freed = false :=
  (hrun.inv Inv (init_inv ptr) fun _ _ _ => step_inv).not_freed_of_dereferences hderef

/-- `write` is in its native call while `close` waits for the monitor. -/
theorem no_use_after_close_write :
    ∃ acts s, Run (init 1) step DeletesAlone acts s ∧ s.isClosed = true ∧
      Dereferences s (.run 1 true) ∧ s.freed = false := by
  have hrun : ∃ s, Run (init 1) step DeletesAlone
      ([Action.call .write, .call .close] ++ List.replicate 5 (Action.run 1 true) ++ [Action.run 2 true]) s ∧
      s.isClosed = true ∧ Dereferences s (.run 1 true) := exists_run_of_exec (by decide)
  obtain ⟨s, hrun, hclosed, hderef⟩ := hrun
  exact ⟨_, s, hrun, hclosed, hderef, no_use_after_close 1 hrun hderef⟩

/-- `getScreenState` has read the pointer when `close` runs from start to end. -/
theorem screen_state_after_close :
    ∃ acts s s', Run (init 1) step anyStep acts s ∧ step s (.run 1 true) = some s' ∧
      s.freed = true ∧ Dereferences s (.run 1 true) := by
  have hrun : ∃ s s', Run (init 1) step anyStep
      ([Action.call .getScreenState, .call .close] ++ List.replicate 3 (Action.run 1 true) ++
        List.replicate 10 (Action.run 2 true)) s ∧ step s (.run 1 true) = some s' ∧
      s.freed = true ∧ Dereferences s (.run 1 true) := exists_step_of_exec (by decide)
  obtain ⟨s, s', h⟩ := hrun
  exact ⟨_, s, s', h⟩

end Tinyhack.Pointer
