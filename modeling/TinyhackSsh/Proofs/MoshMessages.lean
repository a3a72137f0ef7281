import TinyhackSsh.Spec.MoshMessages

/-! The messages are read back as they were written, so that the protocol runs over their
wire format. -/

namespace Tinyhack.Network

open Protobuf

theorem Instruction.parseFromString_serializeAsString (inst : Instruction) :
    parseFromString inst.serializeAsString = some inst := by
  rw [parseFromString, serializeAsString, get_put]
  rfl

theorem toInt32_ofInt32 (n : Int32) : toInt32 (ofInt32 n) = n := by
  have hnonneg : 0 ≤ n.toInt % 2 ^ 64 := Int.emod_nonneg _ (by decide)
  rw [toInt32, ofInt32, Int.toNat_of_nonneg hnonneg]
  apply Int32.toInt_inj.mp
  rw [Int32.toInt_ofInt]
  have hlow := n.le_toInt
  have hhigh := n.toInt_lt
  simp only [Int.bmod, show (Int32.size : ℤ) = 2 ^ 32 from rfl]
  split_ifs <;> omega

namespace UserInstruction

theorem getKeystroke_putKeystroke (keys : Bytes) : getKeystroke (putKeystroke keys) = some keys := by
  rw [getKeystroke, putKeystroke, get_put]
  rfl

theorem getResize_putResize (size : Int32 × Int32) : getResize (putResize size) = some size := by
  rw [getResize, putResize, get_put]
  show some (toInt32 (ofInt32 size.1), toInt32 (ofInt32 size.2)) = some size
  rw [toInt32_ofInt32, toInt32_ofInt32]

theorem bytesAt_fields (inst : UserInstruction) : bytesAt inst.fields 2 = inst.keystroke.map putKeystroke ∧
    bytesAt inst.fields 3 = inst.resize.map putResize := by
  obtain ⟨_ | keys, _ | size⟩ := inst <;> simp [fields, bytesAt, bytesAll]

/-- A field that is optional. -/
theorem mapM_map {α β : Type} {f : β → Option α} {g : α → β} (h : ∀ x, f (g x) = some x) (o : Option α) :
    (o.map g).mapM f = some o := by
  cases o with
  | none => rfl
  | some x =>
    rw [Option.map_some, Option.mapM_some, h]
    rfl

theorem ofFields_fields (inst : UserInstruction) : ofFields inst.fields = some inst := by
  obtain ⟨hkeystroke, hresize⟩ := bytesAt_fields inst
  rw [ofFields, hkeystroke, hresize, mapM_map getKeystroke_putKeystroke, mapM_map getResize_putResize]
  rfl

end UserInstruction

namespace UserStream

theorem bytesAll_message (message : List UserInstruction) :
    bytesAll (message.map fun inst => ⟨1, .bytes (put inst.fields)⟩) 1 = message.map fun inst => put inst.fields := by
  induction message with
  | nil => rfl
  | cons inst message ih => exact congrArg (_ :: ·) ih

theorem parseFromString_serializeAsString (message : List UserInstruction) :
    parseFromString (serializeAsString message) = some message := by
  rw [parseFromString, serializeAsString, get_put, Option.bind_some, bytesAll_message]
  induction message with
  | nil => rfl
  | cons inst message ih =>
    rw [List.map_cons, List.mapM_cons, get_put, Option.bind_some, UserInstruction.ofFields_fields, ih]
    rfl

theorem serializeAsString_eq_nil {message : List UserInstruction} : serializeAsString message = [] ↔ message = [] := by
  rw [serializeAsString, put_eq_nil, List.map_eq_nil_iff]

/-- The format of `userinput.proto`. -/
def protobuf : UserFormat where
  serialize := serializeAsString
  parse := parseFromString
  parse_serialize := parseFromString_serializeAsString
  serialize_eq_nil := serializeAsString_eq_nil

end UserStream

/-- The instructions in their wire format, and a compressor that only stores. -/
def Codec.stored : Codec where
  serialize := Instruction.serializeAsString
  parse := Instruction.parseFromString
  compress x := if x.length < BUFFER_SIZE then some (0 :: x) else none
  uncompress y := if y.length ≤ BUFFER_SIZE then y.tail? else none
  parse_serialize := Instruction.parseFromString_serializeAsString
  compress_ne h := by
    obtain ⟨-, heq⟩ := Option.ite_none_right_eq_some.mp h
    obtain rfl := Option.some.inj heq
    exact List.cons_ne_nil _ _
  compress_le h := by
    obtain ⟨hlt, heq⟩ := Option.ite_none_right_eq_some.mp h
    obtain rfl := Option.some.inj heq
    exact hlt
  uncompress_compress h := by
    obtain ⟨hlt, heq⟩ := Option.ite_none_right_eq_some.mp h
    obtain rfl := Option.some.inj heq
    rw [if_pos hlt.le, if_pos (show (0 :: _ : Bytes).length ≤ BUFFER_SIZE from hlt)]
    rfl

end Tinyhack.Network
