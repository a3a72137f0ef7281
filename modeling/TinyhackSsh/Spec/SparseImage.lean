import Mathlib.Data.UInt
import TinyhackSsh.Lib.SparseFile
import TinyhackSsh.Lib.DrivenLoop
import TinyhackSsh.Spec.Wire

/-! `uml-sparse-image`: standard input copied to a new file with holes for zero
blocks. A step is one call of `read` or `write`, with what the program does up
to the next one; the other calls succeed. -/

namespace Tinyhack.SparseImage

def LLONG_MAX : ℕ := 2 ^ 63 - 1

/-- `sizeof(block)`. -/
def BLOCK : ℕ := 65536

/-! `strtoll(text, &end, 10)`. -/

def isSpace (c : Char) : Bool := c = ' ' || ('\t' ≤ c && c ≤ '\r')

def digit (c : Char) : ℕ := c.toNat - '0'.toNat

def digitsValue (digits : JString) : ℕ := digits.foldl (fun value c => value * 10 + digit c) 0

structure Parsed where
  value : ℤ
  /-- `ERANGE` -/
  errno : Bool
  /-- what `end` points to -/
  rest : JString
  deriving DecidableEq

def strtoll (text : JString) : Parsed :=
  let body := text.dropWhile isSpace
  let (negative, body) := match body with
    | '-' :: rest => (true, rest)
    | '+' :: rest => (false, rest)
    | _ => (false, body)
  let digits := body.takeWhile Char.isDigit
  if digits = [] then ⟨0, false, text⟩
  else
    let value : ℤ := if negative then -digitsValue digits else digitsValue digits
    let rest := body.dropWhile Char.isDigit
    if value > LLONG_MAX then ⟨LLONG_MAX, true, rest⟩
    else if value < -LLONG_MAX - 1 then ⟨-LLONG_MAX - 1, true, rest⟩
    else ⟨value, false, rest⟩

/-- The disk size in bytes, unless `argv[2]` is invalid. -/
def requestedSize (text : JString) : Option ℕ :=
  let p := strtoll text
  if p.errno ∨ text = [] ∨ p.rest ≠ [] ∨ p.value ≤ 0 then none else some p.value.toNat

inductive Pc
  /-- the inner loop, with the bytes of the block so far -/
  | reading (block : Bytes)
  | writing (block : Bytes) (written : ℕ)
  | exited (status : ℕ)
  deriving DecidableEq

structure State where
  pc : Pc
  /-- what is left of standard input -/
  input : Bytes
  requested : ℕ
  total : ℕ
  /-- the file at `argv[1]` -/
  file : Option Bytes
  /-- the file offset of `fd` -/
  offset : ℕ
  deriving DecidableEq

namespace State

def exit (s : State) (status : ℕ) : State := { s with pc := .exited status }

/-- After the loop over the blocks. -/
def finish (s : State) : State :=
  if s.total = 0 then s.exit 1
  else { s with file := s.file.map (SparseFile.truncate · s.requested) }.exit 0

/-- `if (used < sizeof(block)) break`. -/
def nextBlock (s : State) (used : ℕ) : State :=
  if used < BLOCK then s.finish else { s with pc := .reading [] }

/-- After the inner loop, with `used` bytes in the block. -/
def blockRead (s : State) (block : Bytes) : State :=
  if block = [] then s.finish
  else if block.length > s.requested - s.total then s.exit 1
  else
    let s := { s with total := s.total + block.length }
    if block.all (· = 0) then { s with offset := s.offset + block.length }.nextBlock block.length
    else { s with pc := .writing block 0 }

end State

/-- One call; `none` is `EINTR`, and `some k` transfers at most `k + 1` bytes. -/
def step (s : State) : Option ℕ → State
  | none => s
  | some k =>
    match s.pc with
    | .reading block =>
      let n := min (k + 1) (BLOCK - block.length)
      let got := s.input.take n
      let s := { s with input := s.input.drop n }
      if got = [] then s.blockRead block
      else if (block ++ got).length < BLOCK then { s with pc := .reading (block ++ got) }
      else s.blockRead (block ++ got)
    | .writing block written =>
      let data := (block.drop written).take (k + 1)
      let s := { s with
        file := s.file.map (SparseFile.writeAt · s.offset data)
        offset := s.offset + data.length }
      if written + data.length < block.length then { s with pc := .writing block (written + data.length) }
      else s.nextBlock block.length
    | .exited _ => s

/-- `main` up to the first `read`. -/
def start (output : Option Bytes) (size : JString) (input : Bytes) : State :=
  match requestedSize size with
  | none => ⟨.exited 2, input, 0, 0, output, 0⟩
  | some requested =>
    if output = none then ⟨.reading [], input, requested, 0, some [], 0⟩
    else ⟨.exited 1, input, requested, 0, output, 0⟩

/-- The state after `n` calls with these outcomes. -/
def run (o : PosixWrite.Outcomes) (output : Option Bytes) (size : JString) (input : Bytes) (n : ℕ) : State :=
  PosixWrite.drive step o (start output size input) n

end Tinyhack.SparseImage
