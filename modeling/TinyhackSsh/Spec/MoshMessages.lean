import TinyhackSsh.Lib.Protobuf
import TinyhackSsh.Spec.UserStream

/-! The messages of `transportinstruction.proto` and `userinput.proto` on the wire. -/

namespace Tinyhack.Network

open Protobuf

namespace Instruction

def fields (inst : Instruction) : List Field :=
  [⟨1, .varint inst.protocolVersion⟩, ⟨2, .varint inst.oldNum⟩, ⟨3, .varint inst.newNum⟩, ⟨4, .varint inst.ackNum⟩,
    ⟨5, .varint inst.throwawayNum⟩, ⟨6, .bytes inst.diff⟩, ⟨7, .bytes inst.chaff⟩]

/-- A field that is missing has its default value. -/
def ofFields (fields : List Field) : Instruction where
  protocolVersion := (varintAt fields 1).getD 0
  oldNum := (varintAt fields 2).getD 0
  newNum := (varintAt fields 3).getD 0
  ackNum := (varintAt fields 4).getD 0
  throwawayNum := (varintAt fields 5).getD 0
  diff := (bytesAt fields 6).getD []
  chaff := (bytesAt fields 7).getD []

def serializeAsString (inst : Instruction) : Bytes := put inst.fields

def parseFromString (bytes : Bytes) : Option Instruction := (get bytes).map ofFields

end Instruction

/-- The varint of an `int32`: a negative number is extended to 64 bits. -/
def ofInt32 (n : Int32) : ℕ := (n.toInt % 2 ^ 64).toNat

/-- The low 32 bits. -/
def toInt32 (n : ℕ) : Int32 := Int32.ofInt n

namespace UserInstruction

/-- `Keystroke`. -/
def putKeystroke (keys : Bytes) : Bytes := put [⟨4, .bytes keys⟩]

def getKeystroke (bytes : Bytes) : Option Bytes := (get bytes).map fun fields => (bytesAt fields 4).getD []

/-- `ResizeMessage`. -/
def putResize (size : Int32 × Int32) : Bytes := put [⟨5, .varint (ofInt32 size.1)⟩, ⟨6, .varint (ofInt32 size.2)⟩]

def getResize (bytes : Bytes) : Option (Int32 × Int32) := (get bytes).map fun fields =>
  (toInt32 ((varintAt fields 5).getD 0), toInt32 ((varintAt fields 6).getD 0))

/-- The extensions that are set. -/
def fields (inst : UserInstruction) : List Field :=
  (inst.keystroke.map fun keys => ⟨2, .bytes (putKeystroke keys)⟩).toList ++
    (inst.resize.map fun size => ⟨3, .bytes (putResize size)⟩).toList

def ofFields (fields : List Field) : Option UserInstruction :=
  ((bytesAt fields 2).mapM getKeystroke).bind fun keystroke =>
    ((bytesAt fields 3).mapM getResize).map fun resize => ⟨keystroke, resize⟩

end UserInstruction

namespace UserStream

/-- `UserMessage`. -/
def serializeAsString (message : List UserInstruction) : Bytes :=
  put (message.map fun inst => ⟨1, .bytes (put inst.fields)⟩)

def parseFromString (bytes : Bytes) : Option (List UserInstruction) := (get bytes).bind fun fields =>
  (bytesAll fields 1).mapM fun inst => (get inst).bind UserInstruction.ofFields

end UserStream

end Tinyhack.Network
