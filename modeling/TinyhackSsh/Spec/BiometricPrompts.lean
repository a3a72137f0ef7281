import TinyhackSsh.Spec.BiometricGate

/-! The prompts behind the gate, as Android runs them: only an intent that
`awaitBiometricAuth` has started creates a `BiometricAuthActivity` (the manifest
does not export it), an activity that is not finished may be re-created for a new
configuration, a dismissal posts `finish()` to the main looper, and `onCreate`
registers the activity before it calls `authenticate`. -/

namespace Tinyhack.Biometric

open Agent Wire

structure Prompts where
  gate : System
  /-- the ids of the activities that are started and not created yet -/
  starting : List ℤ
  /-- the activity whose `onCreate` has registered it and not called `authenticate` yet -/
  creating : Option ℕ
  /-- the posted calls of `finish()` -/
  finishPosts : List ℕ
  /-- `finish()` was called -/
  finished : ℕ → Bool
  /-- the ids whose `awaitBiometricAuth` has returned -/
  returned : List ℤ

def Prompts.init (counters : JString → ℤ) : Prompts where
  gate := System.init counters
  starting := []
  creating := none
  finishPosts := []
  finished := fun _ => false
  returned := []

inductive PromptAction
  | gate (a : Action)
  /-- an activity that was started never comes -/
  | dropped (id : ℤ)
  | authenticate
  /-- the runnable of `dismissPendingPrompt` -/
  | finish (n : ℕ)
  /-- the activity goes, to come again with the same intent -/
  | recreate (n : ℕ)
  deriving DecidableEq

/-- What the main looper does, one after the other. -/
def Action.onLooper : Action → Bool
  | .launch _ _ | .onCreate _ _ | .promptEnds _ _ | .onDestroy _ => true
  | _ => false

/-- The activity that the next step of the call asks to finish. -/
def Prompts.dismisses (s : Prompts) (c : Caller) : Option ℕ :=
  match s.gate.call c with
  | .dismiss id => s.gate.activePrompts id
  | _ => none

/-- The id for which the next step of the call returns. -/
def Prompts.returns (s : Prompts) (c : Caller) : Option ℤ :=
  match s.gate.call c with
  | .remove id _ => some id
  | _ => none

def Prompts.gateStep (prov : Provider) (s : Prompts) (a : Action) : Option Prompts :=
  match a with
  | .launch id started => (Biometric.gateStep prov s.gate a).map fun gate => { s with
      gate := gate
      starting := s.starting ++ if started then [id] else [] }
  | .onCreate requestId enrolled =>
    if requestId ∈ s.starting then
      let prompting := decide (0 ≤ requestId) && enrolled
      some { s with
        gate := onCreate s.gate requestId enrolled
        starting := s.starting.erase requestId
        creating := if prompting then some s.gate.activities else none
        finished := Function.update s.finished s.gate.activities !prompting }
    else none
  -- the callback runs to its end on the looper, so nothing of the looper sees it without `finish()`
  | .promptEnds n _ => (Biometric.gateStep prov s.gate a).map fun gate => { s with
      gate := gate
      finished := Function.update s.finished n true }
  | .callStep c => (Biometric.gateStep prov s.gate a).map fun gate => { s with
      gate := gate
      finishPosts := s.finishPosts ++ (s.dismisses c).toList
      returned := s.returned ++ (s.returns c).toList }
  | a => (Biometric.gateStep prov s.gate a).map fun gate => { s with gate := gate }

/-- `finish()`, run by the looper. -/
def Prompts.finish (s : Prompts) (n : ℕ) : Option Prompts :=
  if s.creating = none ∧ n ∈ s.finishPosts then
    some { s with
      finishPosts := s.finishPosts.erase n
      finished := Function.update s.finished n true }
  else none

/-- `onDestroy` for a new configuration; the intent is kept. -/
def Prompts.recreate (s : Prompts) (n : ℕ) : Option Prompts :=
  match s.gate.activity n with
  | .created requestId _ =>
    if s.creating = none ∧ s.finished n = false then
      (onDestroy s.gate n).map fun gate => { s with gate := gate, starting := s.starting ++ [requestId] }
    else none
  | _ => none

def promptStep (prov : Provider) (s : Prompts) : PromptAction → Option Prompts
  | .gate a => if s.creating.isSome && a.onLooper then none else s.gateStep prov a
  | .dropped id => if id ∈ s.starting then some { s with starting := s.starting.erase id } else none
  | .authenticate => if s.creating.isSome then some { s with creating := none } else none
  | .finish n => s.finish n
  | .recreate n => s.recreate n

/-- The prompt of activity `n` is shown, for request `id`. -/
def Prompts.Shows (s : Prompts) (n : ℕ) (id : ℤ) : Prop :=
  s.gate.activity n = .created id true ∧ s.creating ≠ some n

instance (s : Prompts) (n : ℕ) (id : ℤ) : Decidable (s.Shows n id) := inferInstanceAs (Decidable (_ ∧ _))

/-- The activity was told to finish, or is gone. -/
def Prompts.Closed (s : Prompts) (n : ℕ) : Prop := s.finished n = true ∨ s.gate.activity n = .destroyed

instance (s : Prompts) (n : ℕ) : Decidable (s.Closed n) := inferInstanceAs (Decidable (_ ∨ _))

end Tinyhack.Biometric
