import TinyhackSsh.Lib.Slots
import TinyhackSsh.Spec.Wire

/-! `Fragment`, `Fragmenter` and `FragmentAssembly` of mosh: an instruction is serialized,
compressed and cut into datagrams, and put together again on the other side. A failed
assertion is `none`; the process aborts. -/

namespace Tinyhack.Network

open Wire

/-- `uint64_t(-1)`. -/
def MAX64 : ℕ := 2 ^ 64 - 1

/-- `TransportBuffers::Instruction`. -/
structure Instruction where
  protocolVersion : ℕ
  oldNum : ℕ
  newNum : ℕ
  ackNum : ℕ
  throwawayNum : ℕ
  diff : Bytes
  chaff : Bytes
  deriving DecidableEq

/-- The buffer of the compressor. -/
def BUFFER_SIZE : ℕ := 2048 * 2048

/-- Protobuf's `SerializeAsString` and `ParseFromString` for instructions, zlib's `compress` and
`uncompress`, which fail if the result does not fit in the buffer. -/
structure Codec where
  serialize : Instruction → Bytes
  parse : Bytes → Option Instruction
  compress : Bytes → Option Bytes
  uncompress : Bytes → Option Bytes
  parse_serialize : ∀ inst, parse (serialize inst) = some inst
  compress_ne : ∀ {x y}, compress x = some y → y ≠ []
  compress_le : ∀ {x y}, compress x = some y → y.length ≤ BUFFER_SIZE
  uncompress_compress : ∀ {x y}, compress x = some y →
    uncompress y = if x.length ≤ BUFFER_SIZE then some x else none

structure Fragment where
  id : ℕ
  fragmentNum : ℕ
  final : Bool
  contents : Bytes
  deriving DecidableEq

def FRAG_HEADER_LEN : ℕ := 10

namespace Fragment

def tostring (f : Fragment) : Option Bytes :=
  if f.fragmentNum &&& 0x8000 = 0 then
    some (beBytes 8 f.id ++ beBytes 2 (f.final.toNat <<< 15 ||| f.fragmentNum : ℕ) ++ f.contents)
  else none

/-- `Fragment(const std::string&)`. -/
def ofString (x : Bytes) : Option Fragment :=
  if x.length < FRAG_HEADER_LEN then none
  else
    let combined := beNat ((x.drop 8).take 2)
    some {
      id := beNat (x.take 8)
      fragmentNum := combined &&& 0x7FFF
      final := (combined &&& 0x8000) >>> 15 ≠ 0
      contents := x.drop FRAG_HEADER_LEN }

end Fragment

structure Fragmenter where
  nextInstructionId : ℕ
  lastInstruction : Instruction
  lastMTU : ℕ

namespace Fragmenter

def new : Fragmenter := ⟨0, ⟨0, MAX64, MAX64, 0, 0, [], []⟩, MAX64⟩

/-- The loop of `make_fragments`, from fragment `num`; the payload is enough fuel. -/
def split (id MTU : ℕ) : (fuel num : ℕ) → Bytes → List Fragment
  | 0, _, _ => []
  | fuel + 1, num, payload =>
    if payload.isEmpty then []
    else if MTU < payload.length then
      ⟨id, num, false, payload.take MTU⟩ :: split id MTU fuel ((num + 1) % 2 ^ 16) (payload.drop MTU)
    else [⟨id, num, true, payload⟩]

/-- An instruction that differs from the last one in what is compared gets a new id. -/
def instructionId (f : Fragmenter) (inst : Instruction) (MTU : ℕ) : ℕ :=
  if inst.oldNum ≠ f.lastInstruction.oldNum ∨ inst.newNum ≠ f.lastInstruction.newNum ∨
      inst.ackNum ≠ f.lastInstruction.ackNum ∨ inst.throwawayNum ≠ f.lastInstruction.throwawayNum ∨
      inst.chaff ≠ f.lastInstruction.chaff ∨ inst.protocolVersion ≠ f.lastInstruction.protocolVersion ∨
      f.lastMTU ≠ MTU then (f.nextInstructionId + 1) % 2 ^ 64
  else f.nextInstructionId

/-- The fragments, `some none` if the compressor throws. -/
def makeFragments (codec : Codec) (f : Fragmenter) (inst : Instruction) (MTU : ℕ) :
    Option (Fragmenter × Option (List Fragment)) :=
  let MTU := MTU - FRAG_HEADER_LEN
  let id := f.instructionId inst MTU
  if inst.oldNum = f.lastInstruction.oldNum ∧ inst.newNum = f.lastInstruction.newNum ∧
      inst.diff ≠ f.lastInstruction.diff then none
  else some (⟨id, inst, MTU⟩, (codec.compress (codec.serialize inst)).map fun payload =>
    split id MTU payload.length 0 payload)

end Fragmenter

structure FragmentAssembly where
  fragments : List (Option Fragment)
  currentId : ℕ
  fragmentsArrived : ℤ
  fragmentsTotal : ℤ

namespace FragmentAssembly

def new : FragmentAssembly := ⟨[], MAX64, 0, -1⟩

/-- The fragment at its place, of a new packet or of the current one. -/
def store (a : FragmentAssembly) (frag : Fragment) : Option FragmentAssembly :=
  if a.currentId ≠ frag.id then
    some ⟨Slots.put [] frag.fragmentNum frag, frag.id, 1, -1⟩
  else
    match (a.fragments[frag.fragmentNum]?).join with
    | some present => if present = frag then some a else none
    | none => some { a with
        fragments := Slots.put a.fragments frag.fragmentNum frag
        fragmentsArrived := a.fragmentsArrived + 1 }

/-- The last fragment tells how many there are. -/
def close (a : FragmentAssembly) (frag : Fragment) : Option FragmentAssembly :=
  if frag.final then
    if a.fragments.length ≤ frag.fragmentNum + 1 then some { a with
      fragmentsTotal := frag.fragmentNum + 1
      fragments := Slots.grow a.fragments (frag.fragmentNum + 1) }
    else none
  else some a

/-- Whether the packet is complete. -/
def addFragment (a : FragmentAssembly) (frag : Fragment) : Option (Bool × FragmentAssembly) :=
  ((a.store frag).bind fun a => a.close frag).bind fun a =>
    if a.fragmentsTotal ≠ -1 ∧ ¬ a.fragmentsArrived ≤ a.fragmentsTotal then none
    else some (a.fragmentsArrived = a.fragmentsTotal, a)

/-- The contents one after the other; all fragments must have arrived. -/
def encoded (a : FragmentAssembly) : Option Bytes :=
  if a.fragmentsArrived = a.fragmentsTotal ∧ (a.fragments.take a.fragmentsTotal.toNat).all Option.isSome then
    some ((a.fragments.take a.fragmentsTotal.toNat).flatMap fun f => (f.map Fragment.contents).getD [])
  else none

/-- The instruction, `some none` if the decompressor throws. -/
def getAssembly (codec : Codec) (a : FragmentAssembly) : Option (FragmentAssembly × Option Instruction) :=
  a.encoded.bind fun encoded =>
    match codec.uncompress encoded with
    | none => some (a, none)
    | some serialized => (codec.parse serialized).map fun inst => (⟨[], a.currentId, 0, -1⟩, some inst)

end FragmentAssembly

end Tinyhack.Network
