import Mathlib.Tactic

/-! The wire format of protocol buffers: a message is a sequence of numbered fields, each a
varint or a string of bytes. Read back, a written message gives its fields. -/

namespace Protobuf

/-- Seven bits a byte, the lowest first; `fuel` bytes before the last are enough. -/
def varintFrom : (fuel n : ℕ) → List UInt8
  | 0, n => [UInt8.ofNat n]
  | fuel + 1, n =>
    if n < 128 then [UInt8.ofNat n] else UInt8.ofNat (n % 128 + 128) :: varintFrom fuel (n / 128)

def putVarint (n : ℕ) : List UInt8 := varintFrom n n

/-- The number at the start, and the bytes after it. -/
def getVarint : List UInt8 → Option (ℕ × List UInt8)
  | [] => none
  | b :: bytes =>
    if b < 128 then some (b.toNat, bytes)
    else (getVarint bytes).map fun got => (b.toNat - 128 + 128 * got.1, got.2)

inductive Value
  | varint (n : ℕ)
  | bytes (bytes : List UInt8)

structure Field where
  number : ℕ
  value : Value

def putField (f : Field) : List UInt8 :=
  match f.value with
  | .varint n => putVarint (f.number * 8) ++ putVarint n
  | .bytes bytes => putVarint (f.number * 8 + 2) ++ putVarint bytes.length ++ bytes

/-- The wire types of other values are refused. -/
def getField (bytes : List UInt8) : Option (Field × List UInt8) :=
  (getVarint bytes).bind fun tag => (getVarint tag.2).bind fun got =>
    if tag.1 % 8 = 0 then some (⟨tag.1 / 8, .varint got.1⟩, got.2)
    else if tag.1 % 8 = 2 ∧ got.1 ≤ got.2.length then
      some (⟨tag.1 / 8, .bytes (got.2.take got.1)⟩, got.2.drop got.1)
    else none

def put (fields : List Field) : List UInt8 := fields.flatMap putField

def getFrom : (fuel : ℕ) → List UInt8 → Option (List Field)
  | _, [] => some []
  | 0, _ => none
  | fuel + 1, bytes => (getField bytes).bind fun got => (getFrom fuel got.2).map fun fields => got.1 :: fields

def get (bytes : List UInt8) : Option (List Field) := getFrom bytes.length bytes

/-- Of a field that stands several times, the last one counts. -/
def varintAt (fields : List Field) (number : ℕ) : Option ℕ :=
  (fields.filterMap fun f => match f.value with
    | .varint n => if f.number = number then some n else none
    | .bytes _ => none).getLast?

/-- All values of a repeated field. -/
def bytesAll (fields : List Field) (number : ℕ) : List (List UInt8) :=
  fields.filterMap fun f => match f.value with
    | .varint _ => none
    | .bytes bytes => if f.number = number then some bytes else none

def bytesAt (fields : List Field) (number : ℕ) : Option (List UInt8) := (bytesAll fields number).getLast?

theorem ofNat_lt {n : ℕ} (h : n < 128) : UInt8.ofNat n < 128 := by
  rw [UInt8.lt_iff_toNat_lt, UInt8.toNat_ofNat', Nat.mod_eq_of_lt (by omega)]
  exact h

theorem not_ofNat_lt {n : ℕ} (h : 128 ≤ n) (h' : n < 256) : ¬ UInt8.ofNat n < 128 := by
  rw [UInt8.lt_iff_toNat_lt, UInt8.toNat_ofNat', Nat.mod_eq_of_lt (by omega)]
  exact Nat.not_lt.mpr h

theorem getVarint_varintFrom {fuel n : ℕ} (h : n ≤ fuel) (bytes : List UInt8) :
    getVarint (varintFrom fuel n ++ bytes) = some (n, bytes) := by
  induction fuel generalizing n with
  | zero =>
    obtain rfl := Nat.le_zero.mp h
    rfl
  | succ fuel ih =>
    unfold varintFrom
    split_ifs with hn
    · simp only [List.cons_append, List.nil_append, getVarint, if_pos (ofNat_lt hn), UInt8.toNat_ofNat']
      rw [Nat.mod_eq_of_lt (by omega)]
    · have hhigh : ¬ UInt8.ofNat (n % 128 + 128) < 128 := not_ofNat_lt (by omega) (by omega)
      simp only [List.cons_append, getVarint, if_neg hhigh, ih (show n / 128 ≤ fuel by omega), Option.map_some,
        UInt8.toNat_ofNat', Option.some.injEq, Prod.mk.injEq, and_true]
      omega

@[simp] theorem getVarint_putVarint (n : ℕ) (bytes : List UInt8) :
    getVarint (putVarint n ++ bytes) = some (n, bytes) := getVarint_varintFrom le_rfl bytes

theorem putVarint_ne_nil (n : ℕ) : putVarint n ≠ [] := by
  unfold putVarint varintFrom
  split
  · exact List.cons_ne_nil _ _
  · split_ifs <;> exact List.cons_ne_nil _ _

theorem getField_putField (f : Field) (bytes : List UInt8) : getField (putField f ++ bytes) = some (f, bytes) := by
  obtain ⟨number, n | content⟩ := f
  · simp [putField, getField, List.append_assoc]
  · have htag : (number * 8 + 2) % 8 = 2 := by omega
    have hnumber : (number * 8 + 2) / 8 = number := by omega
    simp [putField, getField, List.append_assoc, htag, hnumber]

theorem putField_ne_nil (f : Field) : putField f ≠ [] := by
  unfold putField
  split <;> simp [putVarint_ne_nil]

theorem getFrom_put {fuel : ℕ} {fields : List Field} (h : fields.length ≤ fuel) :
    getFrom fuel (put fields) = some fields := by
  induction fields generalizing fuel with
  | nil => cases fuel <;> rfl
  | cons f fields ih =>
    obtain _ | fuel := fuel
    · exact absurd h (by simp)
    · have hcons : put (f :: fields) = putField f ++ put fields := rfl
      obtain ⟨b, bytes, hf⟩ := List.exists_cons_of_ne_nil (putField_ne_nil f)
      have hstep : getFrom (fuel + 1) (putField f ++ put fields) =
          (getField (putField f ++ put fields)).bind fun got =>
            (getFrom fuel got.2).map fun fields => got.1 :: fields := by
        rw [hf]
        rfl
      rw [hcons, hstep, getField_putField, Option.bind_some, ih (Nat.le_of_succ_le_succ h), Option.map_some]

theorem length_le_put (fields : List Field) : fields.length ≤ (put fields).length := by
  induction fields with
  | nil => exact le_rfl
  | cons f fields ih =>
    have hpos := List.length_pos_iff.mpr (putField_ne_nil f)
    simp only [put, List.flatMap_cons, List.length_append, List.length_cons] at ih ⊢
    omega

@[simp] theorem get_put (fields : List Field) : get (put fields) = some fields := getFrom_put (length_le_put fields)

theorem put_eq_nil {fields : List Field} : put fields = [] ↔ fields = [] := by
  constructor
  · intro h
    have hlen := length_le_put fields
    rw [h, List.length_nil] at hlen
    exact List.length_eq_zero_iff.mp (Nat.le_zero.mp hlen)
  · rintro rfl
    rfl

end Protobuf
