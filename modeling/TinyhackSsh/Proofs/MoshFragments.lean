import TinyhackSsh.Lib.TopBit
import TinyhackSsh.Proofs.Wire
import TinyhackSsh.Spec.MoshFragments

/-! The fragments of an instruction in any order, with repetitions and with those of other
instructions between them: what the assembly makes of them is an instruction that was cut. -/

namespace Tinyhack.Network

open Wire

/-! The header of a fragment. -/

section Header

theorem beNat_beBytes_of_lt {k n : ℕ} (h : n < 256 ^ k) : beNat (beBytes k n) = n := by
  have hmod := beNat_beBytes k n
  rw [Int.emod_eq_of_lt (Int.natCast_nonneg n) (by exact_mod_cast h)] at hmod
  exact_mod_cast hmod

/-- A fragment is read as it was written. -/
theorem ofString_tostring {f : Fragment} (hid : f.id < 2 ^ 64) (hnum : f.fragmentNum < 2 ^ 15) :
    ∃ d, f.tostring = some d ∧ Fragment.ofString d = some f := by
  refine ⟨_, if_pos (TopBit.and_two_pow_eq_zero hnum), ?_⟩
  have hcombined : f.final.toNat <<< 15 ||| f.fragmentNum < 256 ^ 2 := TopBit.or_lt hnum f.final
  have hid' : beNat (beBytes 8 f.id) = f.id := beNat_beBytes_of_lt (by simpa using hid)
  have hlow : (f.final.toNat <<< 15 ||| f.fragmentNum) &&& 0x7FFF = f.fragmentNum := TopBit.low hnum f.final
  have hhigh : (f.final.toNat <<< 15 ||| f.fragmentNum) &&& 0x8000 = f.final.toNat * 2 ^ 15 :=
    TopBit.high hnum f.final
  unfold Fragment.ofString
  rw [if_neg (by simp [FRAG_HEADER_LEN]; omega), List.append_assoc, List.take_left' (length_beBytes 8 _),
    List.drop_left' (length_beBytes 8 _), List.take_left' (length_beBytes 2 _), hid',
    beNat_beBytes_of_lt hcombined, ← List.append_assoc,
    List.drop_left' (by simp [FRAG_HEADER_LEN])]
  simp only [hlow, hhigh]
  cases f with
  | mk id num final contents => cases final <;> simp

end Header

section Datagrams

variable {fragments : List Fragment} {datagrams : List Bytes}

theorem exists_mapM_tostring (h : ∀ f ∈ fragments, ∃ d, f.tostring = some d) :
    ∃ datagrams, fragments.mapM Fragment.tostring = some datagrams := by
  induction fragments with
  | nil => exact ⟨[], rfl⟩
  | cons f fragments ih =>
    obtain ⟨⟨d, hd⟩, hrest⟩ := List.forall_mem_cons.mp h
    obtain ⟨datagrams, hmapM⟩ := ih hrest
    exact ⟨d :: datagrams, by simp [hd, hmapM]⟩

theorem mapM_tostring_spec (h : fragments.mapM Fragment.tostring = some datagrams) :
    datagrams.length = fragments.length ∧ ∀ (k : ℕ) (d : Bytes), datagrams[k]? = some d →
      ∃ f, fragments[k]? = some f ∧ f.tostring = some d := by
  induction fragments generalizing datagrams with
  | nil =>
    obtain rfl := Option.some.inj h
    exact ⟨rfl, fun k d hd => by cases hd⟩
  | cons f fragments ih =>
    simp only [List.mapM_cons, Option.pure_def, Option.bind_eq_bind, Option.bind_eq_some_iff, Option.some.injEq] at h
    obtain ⟨d', hd', rest, hrest, rfl⟩ := h
    obtain ⟨hlen, hget⟩ := ih hrest
    refine ⟨congrArg (· + 1) hlen, fun k d hd => ?_⟩
    cases k with
    | zero =>
      obtain rfl := Option.some.inj hd
      exact ⟨f, rfl, hd'⟩
    | succ k => exact hget k d hd

theorem mem_mapM_tostring {d : Bytes} (h : fragments.mapM Fragment.tostring = some datagrams) (hd : d ∈ datagrams) :
    ∃ f ∈ fragments, f.tostring = some d := by
  obtain ⟨k, hk⟩ := List.mem_iff_getElem?.mp hd
  obtain ⟨f, hf, htostring⟩ := (mapM_tostring_spec h).2 k d hk
  exact ⟨f, List.mem_of_getElem? hf, htostring⟩

end Datagrams

/-! The cut of a payload. -/

section Split

variable {id MTU fuel num i : ℕ} {payload : Bytes} {f : Fragment}

theorem getElem?_split (hfit : num * MTU + payload.length ≤ 2 ^ 15 * MTU) (hfuel : payload.length ≤ fuel)
    (hMTU : 0 < MTU) (hf : (Fragmenter.split id MTU fuel num payload)[i]? = some f) :
    f.id = id ∧ f.fragmentNum = num + i ∧ num + i < 2 ^ 15 ∧
      (f.final = true ↔ i + 1 = (Fragmenter.split id MTU fuel num payload).length) := by
  induction fuel generalizing num payload i with
  | zero => cases hf
  | succ fuel ih =>
    rw [Fragmenter.split] at hf ⊢
    split_ifs at hf ⊢ with hempty hlong
    · cases hf
    · have hnum : num + 1 < 2 ^ 15 := by
        by_contra hge
        have := Nat.mul_le_mul_right MTU (not_lt.mp hge)
        rw [add_mul, one_mul] at this
        omega
      cases i with
      | zero =>
        cases hf
        refine ⟨rfl, rfl, by omega, ?_⟩
        -- there is a rest, so the first fragment is not the last
        have hrest : Fragmenter.split id MTU fuel ((num + 1) % 2 ^ 16) (payload.drop MTU) ≠ [] := by
          cases fuel with
          | zero => omega
          | succ fuel =>
            rw [Fragmenter.split, if_neg (by simp; omega)]
            split_ifs <;> exact List.cons_ne_nil _ _
        simpa using hrest
      | succ i =>
        rw [List.getElem?_cons_succ] at hf
        rw [Nat.mod_eq_of_lt (by omega)] at hf ⊢
        have hfit' : (num + 1) * MTU + (payload.drop MTU).length ≤ 2 ^ 15 * MTU := by
          rw [add_mul, one_mul, List.length_drop]
          omega
        obtain ⟨hid, hfnum, hlt, hfinal⟩ := ih hfit' (by rw [List.length_drop]; omega) hf
        refine ⟨hid, by omega, by omega, hfinal.trans ?_⟩
        rw [List.length_cons]
        omega
    · cases i with
      | zero =>
        cases hf
        have hpos : 0 < payload.length := List.length_pos_iff.mpr (by simpa using hempty)
        have hnum : num < 2 ^ 15 := by
          by_contra hge
          have := Nat.mul_le_mul_right MTU (not_lt.mp hge)
          omega
        exact ⟨rfl, rfl, hnum, by simp⟩
      | succ i => cases hf

theorem contents_split (hfuel : payload.length ≤ fuel) (hMTU : 0 < MTU) :
    (Fragmenter.split id MTU fuel num payload).flatMap Fragment.contents = payload := by
  induction fuel generalizing num payload with
  | zero => exact (List.length_eq_zero_iff.mp (by omega)).symm
  | succ fuel ih =>
    rw [Fragmenter.split]
    split_ifs with hempty hlong
    · exact (List.isEmpty_iff.mp hempty).symm
    · rw [List.flatMap_cons, ih (by rw [List.length_drop]; omega), List.take_append_drop]
    · simp

end Split

/-! Packets: the instructions that were cut. -/

structure Parcel where
  id : ℕ
  MTU : ℕ
  inst : Instruction
  payload : Bytes

namespace Parcel

def fragments (p : Parcel) : List Fragment := Fragmenter.split p.id p.MTU p.payload.length 0 p.payload

structure Ok (codec : Codec) (p : Parcel) : Prop where
  id_lt : p.id < 2 ^ 64
  le_MTU : 128 ≤ p.MTU
  payload : codec.compress (codec.serialize p.inst) = some p.payload

variable {codec : Codec} {p : Parcel} {i : ℕ} {f : Fragment}

namespace Ok

theorem fragment (h : p.Ok codec) (hf : p.fragments[i]? = some f) :
    f.id = p.id ∧ f.fragmentNum = i ∧ i < 2 ^ 15 ∧ (f.final = true ↔ i + 1 = p.fragments.length) := by
  have hlen : p.payload.length ≤ 2048 * 2048 := codec.compress_le h.payload
  have hMTU := h.le_MTU
  have hsplit := getElem?_split (by omega) le_rfl (by omega) hf
  simpa [fragments] using hsplit

theorem contents (h : p.Ok codec) : p.fragments.flatMap Fragment.contents = p.payload :=
  contents_split le_rfl (lt_of_lt_of_le (by norm_num) h.le_MTU)

theorem fragments_ne (h : p.Ok codec) : p.fragments ≠ [] := by
  intro hnil
  have hcontents := h.contents
  rw [hnil] at hcontents
  exact codec.compress_ne h.payload hcontents.symm

theorem mem_fragment (h : p.Ok codec) (hf : f ∈ p.fragments) :
    f.id = p.id ∧ p.fragments[f.fragmentNum]? = some f ∧
      (f.final = true ↔ f.fragmentNum + 1 = p.fragments.length) := by
  obtain ⟨i, hi⟩ := List.mem_iff_getElem?.mp hf
  obtain ⟨hid, hnum, -, hfinal⟩ := h.fragment hi
  rw [hnum]
  exact ⟨hid, hi, hfinal⟩

/-- Every fragment has its datagram. -/
theorem tostring (h : p.Ok codec) (hf : f ∈ p.fragments) :
    ∃ d, f.tostring = some d ∧ Fragment.ofString d = some f := by
  obtain ⟨i, hi⟩ := List.mem_iff_getElem?.mp hf
  obtain ⟨hid, hnum, hlt, -⟩ := h.fragment hi
  exact ofString_tostring (hid ▸ h.id_lt) (hnum ▸ hlt)

end Ok

/-- `d` is a datagram of the packet. -/
def Datagram (p : Parcel) (d : Bytes) : Prop := ∃ f ∈ p.fragments, Fragment.ofString d = some f

end Parcel

/-! The assembly. -/

section Assembly

variable {codec : Codec} {p : Parcel} {P : List Parcel} {a : FragmentAssembly} {f : Fragment}

/-- The assembly holds fragments of `p` only, and has counted them. -/
structure Held (p : Parcel) (a : FragmentAssembly) : Prop where
  slots : Slots.Of p.fragments a.fragments
  arrived : a.fragmentsArrived = Slots.filled a.fragments
  total : a.fragmentsTotal = -1 ∨ a.fragmentsTotal = p.fragments.length

/-- A fragment of another packet starts anew. -/
theorem store_other (h : a.currentId ≠ f.id) : a.store f = FragmentAssembly.store ⟨[], f.id, 0, -1⟩ f := by
  simp [FragmentAssembly.store, h]

theorem Held.empty {id : ℕ} : Held p ⟨[], id, 0, -1⟩ := ⟨Slots.Of.nil, rfl, .inl rfl⟩

/-- `f` was put to the fragments of `p`; those that were there stay. -/
structure Added (p : Parcel) (f : Fragment) (a a' : FragmentAssembly) : Prop where
  held : Held p a'
  id : a'.currentId = p.id
  slot : a'.fragments[f.fragmentNum]? = some (some f)
  kept : a.currentId = p.id → ∀ (i : ℕ) (g : Fragment), a.fragments[i]? = some (some g) →
    a'.fragments[i]? = some (some g)

theorem Held.store (hok : p.Ok codec) (h : Held p a) (hid : a.currentId = p.id) (hf : f ∈ p.fragments) :
    ∃ a', a.store f = some a' ∧ Added p f a a' := by
  obtain ⟨hfid, hget, -⟩ := hok.mem_fragment hf
  unfold FragmentAssembly.store
  rw [if_neg (by rw [hid, hfid]; exact not_not.mpr rfl)]
  cases hslot : (a.fragments[f.fragmentNum]?).join with
  | some present =>
    -- a fragment that arrives again is the same
    have hpresent := h.slots.piece _ _ (Option.join_eq_some_iff.mp hslot)
    obtain rfl : f = present := Option.some.inj (hget.symm.trans hpresent)
    exact ⟨a, if_pos rfl, h, hid, Option.join_eq_some_iff.mp hslot, fun _ _ _ hg => hg⟩
  | none =>
    refine ⟨_, rfl, ⟨h.slots.put hget, ?_, h.total⟩, hid, Slots.getElem?_put_self, fun _ i g hg => ?_⟩
    · simp only [Slots.filled_put hslot, h.arrived]
      push_cast
      rfl
    · exact Slots.getElem?_put_of_some hslot hg

theorem Added.close {a₁ : FragmentAssembly} (hok : p.Ok codec) (h : Added p f a a₁) (hf : f ∈ p.fragments) :
    ∃ a', a₁.close f = some a' ∧ Added p f a a' ∧ (f.final = true → a'.fragmentsTotal = p.fragments.length) := by
  obtain ⟨-, -, hfinal⟩ := hok.mem_fragment hf
  unfold FragmentAssembly.close
  split_ifs with hlast hfits
  · have hnum := hfinal.mp hlast
    have htotal : ((f.fragmentNum : ℤ) + 1) = p.fragments.length := by
      rw [← hnum]
      push_cast
      rfl
    refine ⟨_, rfl, ⟨⟨?_, ?_, .inr htotal⟩, h.id, ?_, fun hid i g hg => ?_⟩, fun _ => htotal⟩
    · simp only [hnum]
      exact h.held.slots.grow le_rfl
    · simp only [Slots.filled_grow]
      exact h.held.arrived
    · exact Slots.getElem?_grow_of_some h.slot
    · exact Slots.getElem?_grow_of_some (h.kept hid i g hg)
  · exact absurd (hfinal.mp hlast ▸ h.held.slots.length_le) hfits
  · exact ⟨a₁, rfl, h, fun hlast' => absurd hlast' hlast⟩

/-- No assertion of `add_fragment` fails. -/
theorem Held.addFragment (hok : p.Ok codec) (h : Held p a) (hid : a.currentId = p.id) (hf : f ∈ p.fragments) :
    ∃ a', a.addFragment f = some (decide (a'.fragmentsArrived = a'.fragmentsTotal), a') ∧ Added p f a a' ∧
      (f.final = true → a'.fragmentsTotal = p.fragments.length) := by
  obtain ⟨a₁, hstore, h₁⟩ := h.store hok hid hf
  obtain ⟨a₂, hclose, h₂, htotal⟩ := h₁.close hok hf
  refine ⟨a₂, ?_, h₂, htotal⟩
  have hle : a₂.fragmentsArrived ≤ p.fragments.length := by
    rw [h₂.held.arrived]
    exact_mod_cast Slots.filled_le.trans h₂.held.slots.length_le
  unfold FragmentAssembly.addFragment
  rw [hstore, Option.bind_some, hclose, Option.bind_some, if_neg]
  rintro ⟨htotal, hmore⟩
  exact hmore (h₂.held.total.resolve_left htotal ▸ hle)

/-- A complete packet gives its instruction, or nothing if it is too long for the buffer. -/
theorem Held.getAssembly (hok : p.Ok codec) (h : Held p a) (hall : a.fragmentsArrived = a.fragmentsTotal) :
    a.getAssembly codec = some (if (codec.serialize p.inst).length ≤ BUFFER_SIZE
      then (⟨[], a.currentId, 0, -1⟩, some p.inst) else (a, none)) := by
  have htotal : a.fragmentsTotal = p.fragments.length := by
    refine h.total.resolve_left fun hneg => ?_
    have := h.arrived
    omega
  have hslots : a.fragments = p.fragments.map some := by
    apply h.slots.complete
    have := h.arrived
    omega
  have hencoded : a.encoded = some p.payload := by
    have htake : a.fragments.take a.fragmentsTotal.toNat = p.fragments.map some := by
      rw [htotal, hslots, Int.toNat_natCast]
      exact List.take_of_length_le (by simp)
    rw [FragmentAssembly.encoded, htake, if_pos ⟨hall, by simp⟩, List.flatMap_map, ← hok.contents]
    rfl
  rw [FragmentAssembly.getAssembly, hencoded, Option.bind_some, codec.uncompress_compress hok.payload]
  split_ifs
  · simp only [codec.parse_serialize, Option.map_some]
  · rfl

/-- Packets that were cut, each with its own id. -/
structure Ledger (codec : Codec) (P : List Parcel) : Prop where
  ok : ∀ p ∈ P, p.Ok codec
  inj : ∀ p ∈ P, ∀ q ∈ P, p.id = q.id → p = q

/-- The assembly holds fragments of one packet, or none. -/
def Assembling (P : List Parcel) (a : FragmentAssembly) : Prop :=
  (∃ p ∈ P, a.currentId = p.id ∧ Held p a) ∨ ∀ p, Held p a

theorem Assembling.new : Assembling P .new := .inr fun _ => Held.empty

theorem Assembling.mono {Q : List Parcel} (h : Assembling P a) (hsub : P ⊆ Q) : Assembling Q a := by
  rcases h with ⟨p, hp, h⟩ | h
  · exact .inl ⟨p, hsub hp, h⟩
  · exact .inr h

/-- A fragment arrives, of the packet that is being assembled or of another one. -/
theorem Assembling.addFragment (hP : Ledger codec P) (h : Assembling P a) (hp : p ∈ P) (hf : f ∈ p.fragments) :
    ∃ a', a.addFragment f = some (decide (a'.fragmentsArrived = a'.fragmentsTotal), a') ∧ Added p f a a' ∧
      (f.final = true → a'.fragmentsTotal = p.fragments.length) := by
  have hok := hP.ok p hp
  have hfid := (hok.mem_fragment hf).1
  by_cases hid : a.currentId = p.id
  · have hheld : Held p a := by
      rcases h with ⟨q, hq, hqid, hheld⟩ | hheld
      · rwa [hP.inj p hp q hq (hid.symm.trans hqid)]
      · exact hheld p
    exact hheld.addFragment hok hid hf
  · obtain ⟨a', hstart, hadded, htotal⟩ := Held.addFragment (a := ⟨[], f.id, 0, -1⟩) hok Held.empty hfid hf
    refine ⟨a', ?_, ⟨hadded.held, hadded.id, hadded.slot, fun hid' => absurd hid' hid⟩, htotal⟩
    unfold FragmentAssembly.addFragment at hstart ⊢
    rwa [store_other (hfid.symm ▸ hid)]

/-! The fragmenter gives a packet its id. -/

/-- The packets cut so far; the last one may be cut again. -/
structure Ledgered (codec : Codec) (P : List Parcel) (fr : Fragmenter) : Prop where
  ledger : Ledger codec P
  id_le : ∀ p ∈ P, p.id ≤ fr.nextInstructionId
  last : ∀ p ∈ P, p.id = fr.nextInstructionId → p.inst = fr.lastInstruction ∧ p.MTU = fr.lastMTU

/-- `inst` was cut, and some of its datagrams were sent, or all. -/
def Emits (codec : Codec) (fr : Fragmenter) (inst : Instruction) (fr' : Fragmenter) (all : Prop)
    (datagrams : List Bytes) : Prop :=
  ∃ MTU made, 138 ≤ MTU ∧ fr.makeFragments codec inst MTU = some (fr', made) ∧
    (∀ d ∈ datagrams, ∃ fragments, made = some fragments ∧ ∃ f ∈ fragments, f.tostring = some d) ∧
    (all → ∀ fragments ∈ made, fragments.mapM Fragment.tostring = some datagrams)

variable {fr fr' : Fragmenter} {inst : Instruction} {MTU : ℕ} {made : Option (List Fragment)}

/-- The assertion of `make_fragments`: the same numbers mean the same diff. -/
theorem makeFragments_eq_some (h : fr.makeFragments codec inst MTU = some (fr', made)) :
    (inst.oldNum = fr.lastInstruction.oldNum → inst.newNum = fr.lastInstruction.newNum →
      inst.diff = fr.lastInstruction.diff) ∧
    fr' = ⟨fr.instructionId inst (MTU - FRAG_HEADER_LEN), inst, MTU - FRAG_HEADER_LEN⟩ ∧
    made = (codec.compress (codec.serialize inst)).map fun payload =>
      Parcel.fragments ⟨fr.instructionId inst (MTU - FRAG_HEADER_LEN), MTU - FRAG_HEADER_LEN, inst, payload⟩ := by
  unfold Fragmenter.makeFragments at h
  simp only at h
  split_ifs at h with hdiffers
  obtain ⟨rfl, rfl⟩ := Prod.mk.inj (Option.some.inj h)
  refine ⟨fun hold hnew => ?_, rfl, rfl⟩
  by_contra hne
  exact hdiffers ⟨hold, hnew, hne⟩

theorem instructionId_lt (h : fr.nextInstructionId < 2 ^ 64) : fr.instructionId inst MTU < 2 ^ 64 := by
  unfold Fragmenter.instructionId
  split_ifs
  · exact Nat.mod_lt _ (by norm_num)
  · exact h

/-- An id is given again to the instruction it was given to only. -/
theorem instructionId_cases (MTU : ℕ) (hroom : fr.nextInstructionId + 1 < 2 ^ 64)
    (hdiff : inst.oldNum = fr.lastInstruction.oldNum → inst.newNum = fr.lastInstruction.newNum →
      inst.diff = fr.lastInstruction.diff) :
    fr.instructionId inst MTU = fr.nextInstructionId + 1 ∨
      fr.instructionId inst MTU = fr.nextInstructionId ∧ inst = fr.lastInstruction ∧ MTU = fr.lastMTU := by
  unfold Fragmenter.instructionId
  split_ifs with hdiffers
  · exact .inl (Nat.mod_eq_of_lt hroom)
  · push Not at hdiffers
    obtain ⟨hold, hnew, hack, hthrow, hchaff, hversion, hMTU⟩ := hdiffers
    have hd := hdiff hold hnew
    refine .inr ⟨rfl, ?_, hMTU.symm⟩
    cases inst
    cases hlast : fr.lastInstruction
    simp_all

namespace Ledgered

theorem new : Ledgered codec [] .new where
  ledger := ⟨by simp, by simp⟩
  id_le := by simp
  last := by simp

/-- A packet with the id that is given now was cut from the same instruction. -/
theorem again (h : Ledgered codec P fr)
    (hid : fr.instructionId inst MTU = fr.nextInstructionId + 1 ∨
      fr.instructionId inst MTU = fr.nextInstructionId ∧ inst = fr.lastInstruction ∧ MTU = fr.lastMTU) :
    ∀ q ∈ P, q.id = fr.instructionId inst MTU → q.inst = inst ∧ q.MTU = MTU := by
  intro q hq hqid
  have hle := h.id_le q hq
  rcases hid with hnew | ⟨hold, rfl, rfl⟩
  · omega
  · exact h.last q hq (hqid.trans hold)

/-- The fragmenter took `inst`; `p` was cut from it. -/
theorem cut (h : Ledgered codec P fr) (hok : p.Ok codec) (hle : fr.nextInstructionId ≤ p.id)
    (hagain : ∀ q ∈ P, q.id = p.id → q.inst = p.inst ∧ q.MTU = p.MTU) :
    Ledgered codec (p :: P) ⟨p.id, p.inst, p.MTU⟩ := by
  have hunique : ∀ q ∈ P, q.id = p.id → q = p := by
    intro q hq hqid
    obtain ⟨hinst, hqMTU⟩ := hagain q hq hqid
    have hpayload := (h.ledger.ok q hq).payload
    rw [hinst, hok.payload] at hpayload
    cases p
    cases q
    simp_all
  refine ⟨⟨List.forall_mem_cons.mpr ⟨hok, h.ledger.ok⟩, ?_⟩,
    List.forall_mem_cons.mpr ⟨le_rfl, fun q hq => (h.id_le q hq).trans hle⟩,
    List.forall_mem_cons.mpr ⟨fun _ => ⟨rfl, rfl⟩, hagain⟩⟩
  intro q hq r hr hqr
  rcases List.mem_cons.mp hq with rfl | hqP
  · rcases List.mem_cons.mp hr with rfl | hrP
    · rfl
    · exact (hunique r hrP hqr.symm).symm
  · rcases List.mem_cons.mp hr with rfl | hrP
    · exact hunique q hqP hqr
    · exact h.ledger.inj q hqP r hrP hqr

theorem emits {datagrams : List Bytes} {all : Prop} (h : Ledgered codec P fr)
    (hroom : fr.nextInstructionId + 1 < 2 ^ 64) (hemits : Emits codec fr inst fr' all datagrams) :
    ∃ P', P ⊆ P' ∧ Ledgered codec P' fr' ∧ (∀ d ∈ datagrams, ∃ p ∈ P', p.Datagram d) ∧
      (∀ p ∈ P', p ∈ P ∨ p.inst = inst) ∧ (all → (codec.compress (codec.serialize inst)).isSome →
        ∃ p ∈ P', p.inst = inst ∧ p.fragments.mapM Fragment.tostring = some datagrams) := by
  obtain ⟨MTU, made, hMTU, hmade, hsent, hall⟩ := hemits
  obtain ⟨hdiff, rfl, rfl⟩ := makeFragments_eq_some hmade
  set m := MTU - FRAG_HEADER_LEN with hm
  have hid := instructionId_cases m hroom hdiff
  have hid_le : fr.nextInstructionId ≤ fr.instructionId inst m := by omega
  cases hcompress : codec.compress (codec.serialize inst) with
  | none =>
    refine ⟨P, fun p hp => hp, ⟨h.ledger, fun q hq => (h.id_le q hq).trans hid_le, h.again hid⟩, ?_,
      fun p hp => .inl hp, fun _ hsome => by cases hsome⟩
    intro d hd
    obtain ⟨fragments, hsome, -⟩ := hsent d hd
    rw [hcompress] at hsome
    cases hsome
  | some payload =>
    have hok : Parcel.Ok codec ⟨fr.instructionId inst m, m, inst, payload⟩ := by
      refine ⟨?_, ?_, hcompress⟩
      · rcases hid with hnew | ⟨hold, -⟩ <;> simp only <;> omega
      · simp only [hm, FRAG_HEADER_LEN]
        omega
    refine ⟨_, List.subset_cons_self _ _, h.cut hok hid_le (h.again hid), ?_, ?_, fun hall' _ => ?_⟩
    · intro d hd
      obtain ⟨fragments, hsome, f, hf, htostring⟩ := hsent d hd
      rw [hcompress, Option.map_some] at hsome
      obtain rfl := Option.some.inj hsome
      obtain ⟨d', hd', hof⟩ := hok.tostring hf
      obtain rfl := Option.some.inj (htostring.symm.trans hd')
      exact ⟨_, List.mem_cons_self, f, hf, hof⟩
    · intro q hq
      rcases List.mem_cons.mp hq with rfl | hq
      · exact .inr rfl
      · exact .inl hq
    · exact ⟨_, List.mem_cons_self, rfl, hall hall' _ (by rw [hcompress]; rfl)⟩

end Ledgered

end Assembly

end Tinyhack.Network
