import TinyhackSsh.Lib.Runs

/-! Who uses the pointer of a `TerminalSession`: its methods, the watcher thread
and `close`, down to the accesses the native functions make to the
`NativeSession`. A method is the list of its steps that touch shared state; every
call of a method is an activation of its own, so one thread's calls are activations
that follow each other. `pty_read_loop` is joined by `nativeClose` and left out. -/

namespace Tinyhack.Pointer

/-- What a native function does to the session it is given, one step each. -/
inductive Access
  /-- `if (session->is_closed.load()) return` -/
  | check
  /-- read another field and return, or go on -/
  | test
  | lock
  /-- any other read or write of the session's fields -/
  | access
  | unlock
  | waitpid
  /-- `nativeClose`: test and set `is_closed` -/
  | shut
  | delete
  deriving DecidableEq

/-- `waitpid` has its argument by value. -/
def Access.derefs : Access → Bool
  | .waitpid => false
  | _ => true

inductive NativeFn
  | writePty
  | writeKey
  | writePaste
  | resize
  | scroll
  | sendMouseEvent
  | feedVt
  | getScreenState
  | setSelection
  | clearSelection
  | hasSelection
  | getSelectionText
  | selectWord
  | getSelectionViewport
  | getHyperlinkUri
  | isSyncOutputActive
  | scrollToPreviousPrompt
  | scrollToNextPrompt
  | getLastCommandOutput
  | getPromptRows
  | updateRender
  | formatTerminal
  | waitChild
  | close
  deriving DecidableEq

def NativeFn.body : NativeFn → List Access
  | .writePty => [.check, .test, .access]
  | .resize => [.check, .lock, .access, .unlock]
  -- `child_pid` is read for the test and for the argument
  | .waitChild => [.test, .access, .waitpid]
  | .close => [.lock, .shut, .access, .unlock, .delete]
  | _ => [.check, .test, .lock, .access, .unlock]

/-- A step of a Java method; a test that fails skips the given number of steps. -/
inductive Instr
  | monitorEnter
  | monitorExit
  /-- `isClosed.get()` -/
  | testClosed (skip : ℕ)
  /-- `sessionPtr == 0` -/
  | testPtr (skip : ℕ)
  /-- a test of the arguments or of a result, either way -/
  | branch (skip : ℕ)
  /-- read `sessionPtr` and call the function with it -/
  | native (f : NativeFn)
  /-- `isClosed.compareAndSet(false, true)` -/
  | compareAndSet (skip : ℕ)
  /-- `ptr = sessionPtr; sessionPtr = 0` -/
  | takePtr
  /-- `if (ptr != 0) NativeBridge.nativeClose(ptr)` -/
  | nativeClose
  deriving DecidableEq

/-- `if (isClosed.get() || sessionPtr == 0) return` before `body`. -/
def guarded (body : List Instr) : List Instr :=
  .testClosed (body.length + 1) :: .testPtr body.length :: body

def provided (body : List Instr) : List Instr := .branch body.length :: body

def synchronized (body : List Instr) : List Instr := .monitorEnter :: (body ++ [.monitorExit])

/-- The methods of `TerminalSession` that reach a native function. -/
inductive Method
  | write
  | writeString
  | writeKey
  | writePaste
  | resize
  | scroll
  | scrollToRow
  | sendMouseEvent
  | sendMouseClick
  | sendMouseWheel (lines : ℕ)
  | feedVt
  | getScreenState
  | isAlternateScreenActive
  | isMouseTrackingEnabled
  | setSelection
  | clearSelection
  | hasSelection
  | getSelectionText
  | selectWord
  | getSelectionViewport
  | getHyperlinkUri
  | isSyncOutputActive
  | scrollToPreviousPrompt
  | scrollToNextPrompt
  | getLastCommandOutput
  | getPromptRows
  | copySelection
  | updateRenderFrame
  | format
  | getScreenText
  | getHtml
  | getVt
  | close
  deriving DecidableEq

/-- The common shape: one native call, guarded, in a synchronized method. -/
def callOne (f : NativeFn) : List Instr := synchronized (guarded [.native f])

/-- The same with a test of the arguments before the call. -/
def callSome (f : NativeFn) : List Instr := synchronized (guarded (provided [.native f]))

def Method.code : Method → List Instr
  | .write => callSome .writePty
  | .writeString => provided (callSome .writePty)
  | .writeKey => callOne .writeKey
  | .writePaste => callSome .writePaste
  | .resize => callSome .resize
  | .scroll | .scrollToRow => callOne .scroll
  | .sendMouseEvent => callOne .sendMouseEvent
  | .sendMouseClick => synchronized (guarded [.native .sendMouseEvent, .native .sendMouseEvent])
  | .sendMouseWheel lines => synchronized (guarded (List.replicate lines (.native .sendMouseEvent)))
  | .feedVt => callSome .feedVt
  -- not synchronized
  | .getScreenState | .isAlternateScreenActive | .isMouseTrackingEnabled =>
    guarded [.native .getScreenState]
  | .setSelection => callOne .setSelection
  | .clearSelection => callOne .clearSelection
  | .hasSelection => callOne .hasSelection
  | .getSelectionText => callOne .getSelectionText
  | .selectWord => callOne .selectWord
  | .getSelectionViewport => callOne .getSelectionViewport
  | .getHyperlinkUri => callOne .getHyperlinkUri
  | .isSyncOutputActive => callOne .isSyncOutputActive
  | .scrollToPreviousPrompt => callOne .scrollToPreviousPrompt
  | .scrollToNextPrompt => callOne .scrollToNextPrompt
  | .getLastCommandOutput => callOne .getLastCommandOutput
  | .getPromptRows => callOne .getPromptRows
  | .copySelection => synchronized (callOne .getSelectionText ++ provided (callOne .clearSelection))
  | .updateRenderFrame => callOne .updateRender
  | .format => callOne .formatTerminal
  | .getScreenText => synchronized (callOne .formatTerminal ++ provided (callOne .updateRender))
  | .getHtml | .getVt => synchronized (callOne .formatTerminal)
  -- `nativeClose` is called after the monitor is left
  | .close => [.compareAndSet 4, .monitorEnter, .takePtr, .monitorExit, .nativeClose]

/-- `startWatcherThread`. -/
def watcher : List Instr := [.testPtr 1, .native .waitChild]

/-- A native function that is running on the session. -/
structure NativeCall where
  fn : NativeFn
  todo : List Access
  deriving DecidableEq

structure Activation where
  code : List Instr
  native : Option NativeCall
  /-- the local variable of `close` -/
  ptr : ℕ
  deriving DecidableEq

def Activation.start (code : List Instr) : Activation := ⟨code, none, 0⟩

structure State where
  sessionPtr : ℕ
  isClosed : Bool
  /-- the activation inside `synchronized` and how often it entered -/
  monitor : Option (ℕ × ℕ)
  sessionMutex : Option ℕ
  /-- `session->is_closed` -/
  nativeClosed : Bool
  freed : Bool
  activations : List Activation
  deriving DecidableEq

/-- The constructor, with what `nativeCreateSession` returned. -/
def init (ptr : ℕ) : State where
  sessionPtr := ptr
  isClosed := false
  monitor := none
  sessionMutex := none
  nativeClosed := false
  freed := false
  activations := if ptr = 0 then [] else [.start watcher]

inductive Action
  | call (m : Method)
  /-- the next step of an activation; `choice` is how a branch goes -/
  | run (t : ℕ) (choice : Bool)
  deriving DecidableEq

/-- Every native function returns at once when it is given 0. -/
def enterNative (f : NativeFn) (ptr : ℕ) : Option NativeCall :=
  if ptr = 0 then none else some ⟨f, f.body⟩

namespace State

def put (s : State) (t : ℕ) (a : Activation) : State := { s with activations := s.activations.set t a }

/-- The next access of a running native function. -/
def accessStep (s : State) (t : ℕ) (a : Activation) (fn : NativeFn) (choice : Bool) (todo : List Access) :
    Access → Option State
  | .check => some (s.put t { a with native := if s.nativeClosed then none else some ⟨fn, todo⟩ })
  | .test => some (s.put t { a with native := if choice then some ⟨fn, todo⟩ else none })
  | .lock =>
    if s.sessionMutex = none then
      some { s.put t { a with native := some ⟨fn, todo⟩ } with sessionMutex := some t }
    else none
  | .access | .waitpid => some (s.put t { a with native := some ⟨fn, todo⟩ })
  | .unlock => some { s.put t { a with native := some ⟨fn, todo⟩ } with sessionMutex := none }
  | .shut =>
    if s.nativeClosed then some (s.put t { a with native := some ⟨fn, [.unlock]⟩ })
    else some { s.put t { a with native := some ⟨fn, todo⟩ } with nativeClosed := true }
  | .delete => some { s.put t { a with native := some ⟨fn, todo⟩ } with freed := true }

/-- The next step of the Java code, `code` being what follows it. -/
def instrStep (s : State) (t : ℕ) (a : Activation) (choice : Bool) (code : List Instr) :
    Instr → Option State
  | .monitorEnter =>
    match s.monitor with
    | none => some { s.put t { a with code := code } with monitor := some (t, 1) }
    | some (owner, depth) =>
      if owner = t then some { s.put t { a with code := code } with monitor := some (t, depth + 1) } else none
  | .monitorExit =>
    match s.monitor with
    | some (owner, depth + 1) =>
      if owner = t then
        some { s.put t { a with code := code } with monitor := if depth = 0 then none else some (t, depth) }
      else none
    | _ => none
  | .testClosed skip => some (s.put t { a with code := if s.isClosed then code.drop skip else code })
  | .testPtr skip => some (s.put t { a with code := if s.sessionPtr = 0 then code.drop skip else code })
  | .branch skip => some (s.put t { a with code := if choice then code else code.drop skip })
  | .native f => some (s.put t { a with code := code, native := enterNative f s.sessionPtr })
  | .compareAndSet skip =>
    if s.isClosed then some (s.put t { a with code := code.drop skip })
    else some { s.put t { a with code := code } with isClosed := true }
  | .takePtr => some { s.put t { a with code := code, ptr := s.sessionPtr } with sessionPtr := 0 }
  | .nativeClose => some (s.put t { a with code := code, native := enterNative .close a.ptr, ptr := 0 })

end State

def step (s : State) : Action → Option State
  | .call m => some { s with activations := s.activations ++ [.start m.code] }
  | .run t choice => do
    let a ← s.activations[t]?
    match a.native, a.code with
    | some ⟨fn, todo :: rest⟩, _ => s.accessStep t a fn choice rest todo
    | some ⟨_, []⟩, _ => some (s.put t { a with native := none })
    | none, i :: code => s.instrStep t a choice code i
    | none, [] => none

/-- The accesses of `session` that the activation's native call has still to make. -/
def Activation.pending (a : Activation) : List Access :=
  match a.native with
  | some call => call.todo.filter Access.derefs
  | none => []

/-- The access of the native session that the step makes. -/
def State.nextAccess (s : State) : Action → Option Access
  | .call _ => none
  | .run t _ => do
    let a ← s.activations[t]?
    let call ← a.native
    call.todo.head?

def Dereferences (s : State) (a : Action) : Prop := ∃ x ∈ s.nextAccess a, x.derefs = true

/-- The step is the `delete session` of `nativeClose`. -/
def Deletes (s : State) (a : Action) : Prop := s.nextAccess a = some .delete

instance (s : State) (a : Action) : Decidable (Dereferences s a) :=
  inferInstanceAs (Decidable (∃ x ∈ s.nextAccess a, _))

instance (s : State) (a : Action) : Decidable (Deletes s a) := inferInstanceAs (Decidable (_ = _))

/-- The two functions called outside the monitor. -/
def NativeFn.unguarded (f : NativeFn) : Prop := f = .getScreenState ∨ f = .waitChild

instance (f : NativeFn) : Decidable f.unguarded := inferInstanceAs (Decidable (_ ∨ _))

/-- Inside `nativeGetScreenState` or `nativeWaitChild`, with the session still to be read. -/
def Activation.Lingers (a : Activation) : Prop :=
  ∃ call ∈ a.native, call.fn.unguarded ∧ a.pending ≠ []

instance (a : Activation) : Decidable a.Lingers := inferInstanceAs (Decidable (∃ call ∈ a.native, _))

/-- `nativeClose` deletes the session only when no unguarded call is still going to use it. -/
def DeletesAlone (s : State) (a : Action) : Prop := Deletes s a → ∀ b ∈ s.activations, ¬b.Lingers

instance (s : State) (a : Action) : Decidable (DeletesAlone s a) := inferInstanceAs (Decidable (_ → _))

end Tinyhack.Pointer
