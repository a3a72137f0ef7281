import TinyhackSsh.Spec.MoshTransport

/-! `UserStream` of mosh: the keystrokes and resizes of the user, the object that the client
synchronizes with the server. -/

namespace Tinyhack.Network

/-- `UserEvent`. -/
inductive UserEvent
  | userByte (c : UInt8)
  | resize (width height : Int32)
  deriving DecidableEq

/-- `ClientBuffers::Instruction` with its two extensions. -/
structure UserInstruction where
  keystroke : Option Bytes
  resize : Option (Int32 × Int32)
  deriving DecidableEq

/-- Protobuf's `SerializeAsString` and `ParseFromString` for `ClientBuffers::UserMessage`. -/
structure UserFormat where
  serialize : List UserInstruction → Bytes
  parse : Bytes → Option (List UserInstruction)
  parse_serialize : ∀ message, parse (serialize message) = some message
  serialize_eq_nil : ∀ {message}, serialize message = [] ↔ message = []

/-- The deque `actions`. -/
structure UserStream (format : UserFormat) where
  actions : List UserEvent
  deriving DecidableEq

namespace UserStream

variable {format : UserFormat}

def pushBack (s : UserStream format) (event : UserEvent) : UserStream format := ⟨s.actions ++ [event]⟩

/-- The actions after those of `existing`, which must be the first ones: the loop of `subtract` and
the first one of `diff_from`. -/
def after : (existing actions : List UserEvent) → Option (List UserEvent)
  | [], actions => some actions
  | _ :: _, [] => none
  | i :: existing, action :: actions => if i = action then after existing actions else none

/-- The instruction for one action; a keystroke goes to the last instruction if that is one. -/
def addEvent (output : List UserInstruction) : UserEvent → List UserInstruction
  | .userByte c =>
    match output.getLast?.bind UserInstruction.keystroke with
    | some keys => output.dropLast ++
        [⟨some (keys ++ [c]), output.getLast?.bind UserInstruction.resize⟩]
    | none => output ++ [⟨some [c], none⟩]
  | .resize width height => output ++ [⟨none, some (width, height)⟩]

/-- The actions of one instruction in `apply_string`. -/
def events (inst : UserInstruction) : List UserEvent :=
  match inst.keystroke with
  | some keys => keys.map .userByte
  | none => (inst.resize.map fun size => UserEvent.resize size.1 size.2).toList

instance : SyncState (UserStream format) where
  same s t := s.actions = t.actions
  diffFrom s existing := (after existing.actions s.actions).map fun rest =>
    format.serialize (rest.foldl addEvent [])
  applyString s diff := (format.parse diff).map fun input => ⟨s.actions ++ input.flatMap events⟩
  subtract s prefx := (after prefx.actions s.actions).map mk
  subtractSelf _ := ⟨[]⟩

end UserStream

end Tinyhack.Network
