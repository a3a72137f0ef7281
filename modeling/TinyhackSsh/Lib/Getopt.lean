import Mathlib.Data.List.Basic

/-! Reading a command line in the manner of `getopt`, one word at a time. Options of one
character may share a word; an option's argument is the rest of its word or the next
word; `--` ends the options. One operand may stand between options, for a program that
calls `getopt` again after it; the second ends them. -/

namespace Getopt

inductive Kind
  | flag
  | takesArgument
  | unknown
  deriving DecidableEq

/-- What the options do to a value of type `σ`. -/
structure Reader (σ : Type*) where
  kind : Char → Kind
  onFlag : Char → σ → σ
  onArgument : Char → List Char → σ → σ

inductive Mode
  | options
  /-- the next word is the argument of this option -/
  | argument (c : Char)
  /-- what follows is not read as options -/
  | stopped
  /-- an unknown option was met -/
  | failed
  deriving DecidableEq

structure State (σ : Type*) where
  mode : Mode
  /-- an operand has been read -/
  operand : Bool
  value : σ

variable {σ τ : Type*}

/-- The characters of one word after its dash. -/
def Reader.cluster (r : Reader σ) (s : State σ) : List Char → State σ
  | [] => s
  | c :: cs =>
    match r.kind c with
    | .flag => r.cluster { s with value := r.onFlag c s.value } cs
    | .takesArgument =>
      if cs.isEmpty then { s with mode := .argument c } else { s with value := r.onArgument c cs s.value }
    | .unknown => { s with mode := .failed }

/-- A word where an option may stand. -/
def Reader.option (r : Reader σ) (s : State σ) (w : List Char) : State σ :=
  if w = ['-', '-'] then { s with mode := .stopped }
  else if w.head? = some '-' ∧ w ≠ ['-'] then r.cluster s w.tail
  else if s.operand then { s with mode := .stopped }
  else { s with operand := true }

def Reader.read (r : Reader σ) (s : State σ) (w : List Char) : State σ :=
  match s.mode with
  | .options => r.option s w
  | .argument c => { s with mode := .options, value := r.onArgument c w s.value }
  | .stopped => s
  | .failed => s

def Reader.run (r : Reader σ) (s : State σ) (ws : List (List Char)) : State σ := ws.foldl r.read s

def start (v : σ) : State σ := ⟨.options, false, v⟩

/-- The value read, unless an option was unknown or lacked its argument. -/
def State.result (s : State σ) : Option σ :=
  match s.mode with
  | .options => some s.value
  | .stopped => some s.value
  | .argument _ => none
  | .failed => none

section Run

variable {r : Reader σ} {s : State σ} {c : Char} {w : List Char} {ws ws' : List (List Char)}

theorem run_append : r.run s (ws ++ ws') = r.run (r.run s ws) ws' := List.foldl_append

/-- An option and the word with its argument. -/
theorem run_argument (hs : s.mode = .options) (hc : r.kind c = .takesArgument) (hne : c ≠ '-') :
    r.run s (['-', c] :: w :: ws) = r.run { s with value := r.onArgument c w s.value } ws := by
  have hread : r.read s ['-', c] = { s with mode := .argument c } := by
    simp [Reader.read, hs, Reader.option, Reader.cluster, hc, hne]
  change r.run (r.read (r.read s ['-', c]) w) ws = _
  rw [hread]
  simp [Reader.read, hs]

/-- Once the options have ended, or an option was unknown, nothing changes. -/
theorem run_of_done (hs : s.mode = .stopped ∨ s.mode = .failed) : r.run s ws = s := by
  induction ws with
  | nil => rfl
  | cons w ws ih =>
    have hread : r.read s w = s := by rcases hs with hs | hs <;> simp [Reader.read, hs]
    change r.run (r.read s w) ws = s
    rw [hread, ih]

theorem cluster_pending {cs : List Char} (hs : s.mode = .options) (h : (r.cluster s cs).mode = .argument c) :
    r.kind c = .takesArgument ∧ cs.getLast? = some c := by
  induction cs generalizing s with
  | nil =>
    rw [Reader.cluster, hs] at h
    cases h
  | cons d cs ih =>
    rw [Reader.cluster] at h
    cases hd : r.kind d with
    | flag =>
      rw [hd] at h
      obtain ⟨hk, hlast⟩ := ih (s := { s with value := r.onFlag d s.value }) hs h
      cases cs with
      | nil => cases hlast
      | cons e cs => exact ⟨hk, by rw [List.getLast?_cons_cons, hlast]⟩
    | takesArgument =>
      rw [hd] at h
      cases cs with
      | nil =>
        obtain rfl := Mode.argument.inj h
        exact ⟨hd, rfl⟩
      | cons e cs =>
        have h' : s.mode = .argument c := h
        rw [hs] at h'
        cases h'
    | unknown =>
      rw [hd] at h
      cases h

/-- Only an option that ends its word can wait for the next one. -/
theorem read_pending (h : (r.read s w).mode = .argument c) : r.kind c = .takesArgument ∧ w.getLast? = some c := by
  cases hs : s.mode with
  | options =>
    simp only [Reader.read, hs, Reader.option] at h
    split_ifs at h with h1 h2 h3
    · obtain ⟨hk, hlast⟩ := cluster_pending hs h
      cases w with
      | nil => cases hlast
      | cons d w =>
        cases w with
        | nil => cases hlast
        | cons e w => exact ⟨hk, by rw [List.getLast?_cons_cons]; exact hlast⟩
  | argument d =>
    simp only [Reader.read, hs] at h
    cases h
  | stopped =>
    simp only [Reader.read, hs] at h
    cases h
  | failed =>
    simp only [Reader.read, hs] at h
    cases h

end Run

/-! Two readers that read the same options. -/

section Simulation

variable {r : Reader σ} {q : Reader τ} {R : σ → τ → Prop} {s : State σ} {t : State τ}

/-- The same place in the command line, and related values. -/
structure Related (R : σ → τ → Prop) (s : State σ) (t : State τ) : Prop where
  mode : s.mode = t.mode
  operand : s.operand = t.operand
  value : R s.value t.value

/-- The readers know the same options, which keep values related. -/
structure Simulates (R : σ → τ → Prop) (r : Reader σ) (q : Reader τ) : Prop where
  kind : ∀ c, r.kind c = q.kind c
  onFlag : ∀ c a b, R a b → R (r.onFlag c a) (q.onFlag c b)
  onArgument : ∀ c w a b, R a b → R (r.onArgument c w a) (q.onArgument c w b)

theorem cluster_related (hr : Simulates R r q) {cs : List Char} (h : Related R s t) :
    Related R (r.cluster s cs) (q.cluster t cs) := by
  induction cs generalizing s t with
  | nil => exact h
  | cons c cs ih =>
    simp only [Reader.cluster, hr.kind c]
    cases q.kind c with
    | flag => exact ih ⟨h.mode, h.operand, hr.onFlag c _ _ h.value⟩
    | takesArgument =>
      dsimp only
      split_ifs
      · exact ⟨rfl, h.operand, h.value⟩
      · exact ⟨h.mode, h.operand, hr.onArgument c cs _ _ h.value⟩
    | unknown => exact ⟨rfl, h.operand, h.value⟩

theorem read_related (hr : Simulates R r q) {w : List Char} (h : Related R s t) :
    Related R (r.read s w) (q.read t w) := by
  obtain ⟨mode, operand, a⟩ := s
  obtain ⟨_, _, b⟩ := t
  obtain ⟨rfl, rfl, hab⟩ := h
  cases mode with
  | options =>
    simp only [Reader.read, Reader.option]
    split_ifs
    · exact ⟨rfl, rfl, hab⟩
    · exact cluster_related hr ⟨rfl, rfl, hab⟩
    · exact ⟨rfl, rfl, hab⟩
    · exact ⟨rfl, rfl, hab⟩
  | argument c => exact ⟨rfl, rfl, hr.onArgument c w a b hab⟩
  | stopped => exact ⟨rfl, rfl, hab⟩
  | failed => exact ⟨rfl, rfl, hab⟩

/-- Related states stay related over a whole command line. -/
theorem run_related (hr : Simulates R r q) {ws : List (List Char)} (h : Related R s t) :
    Related R (r.run s ws) (q.run t ws) := by
  induction ws generalizing s t with
  | nil => exact h
  | cons w ws ih => exact ih (read_related hr h)

/-- Two readers at once. -/
def Reader.prod (r : Reader σ) (q : Reader τ) : Reader (σ × τ) where
  kind := r.kind
  onFlag c v := (r.onFlag c v.1, q.onFlag c v.2)
  onArgument c w v := (r.onArgument c w v.1, q.onArgument c w v.2)

theorem prod_fst : Simulates (fun v a => v.1 = a) (r.prod q) r where
  kind _ := rfl
  onFlag c _ _ h := congrArg (r.onFlag c) h
  onArgument c w _ _ h := congrArg (r.onArgument c w) h

theorem prod_snd (hkind : ∀ c, r.kind c = q.kind c) : Simulates (fun v b => v.2 = b) (r.prod q) q where
  kind := hkind
  onFlag c _ _ h := congrArg (q.onFlag c) h
  onArgument c w _ _ h := congrArg (q.onArgument c w) h

/-- A reader whose values are a function of another one's. -/
theorem result_map {g : σ → τ} (hr : Simulates (fun a b => g a = b) r q) (v : σ) (ws : List (List Char)) :
    (q.run (start (g v)) ws).result = (r.run (start v) ws).result.map g := by
  have h : Related (fun a b => g a = b) (r.run (start v) ws) (q.run (start (g v)) ws) :=
    run_related hr ⟨rfl, rfl, rfl⟩
  unfold State.result
  rw [h.mode, ← h.value]
  cases (q.run (start (g v)) ws).mode <;> rfl

end Simulation

end Getopt
