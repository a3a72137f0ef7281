import TinyhackSsh.Spec.NativeInput
import TinyhackSsh.Proofs.Launch

/-! The bytes that a program gets for a string from Java: its UTF-8 if and only if the
string stays in the basic plane, as an argument, in the environment and as typed text. -/

namespace Tinyhack.Native

open Input Wire ModifiedUtf8

/-- No character needs two UTF-16 units. -/
def Basic (s : JString) : Prop := ∀ c ∈ s, c.toNat < 0x10000

instance (s : JString) : Decidable (Basic s) := List.decidableBAll (fun c : Char => c.toNat < 0x10000) s

section Strings

variable {s : JString}

/-- Modified UTF-8 has no zero byte, so nothing is cut. -/
theorem getStringUTFChars_eq (s : JString) : getStringUTFChars s = encode (utf16 s) := by
  unfold getStringUTFChars cString
  rw [List.takeWhile_eq_self_iff]
  intro b hb
  obtain ⟨u, -, hu⟩ := List.mem_flatMap.mp hb
  have hne : b ≠ 0 := by
    rintro rfl
    exact zero_notMem_unitBytes u hu
  simpa using hne

theorem getStringUTFChars_append (s t : JString) :
    getStringUTFChars (s ++ t) = getStringUTFChars s ++ getStringUTFChars t := by
  simp [getStringUTFChars_eq, encode, utf16]

theorem getStringUTFChars_of_basic (hnul : '\x00' ∉ s) (h : Basic s) : getStringUTFChars s = encodeUtf8 s := by
  rw [getStringUTFChars_eq]
  refine encode_utf16 fun c hc => ?_
  have hpos : c.toNat ≠ 0 := by
    intro hzero
    obtain rfl : c = '\x00' := Char.toNat_inj.mp hzero
    exact hnul hc
  simpa [plain] using ⟨Nat.pos_of_ne_zero hpos, h c hc⟩

theorem basic_of_getStringUTFChars (h : getStringUTFChars s = encodeUtf8 s) : Basic s := by
  intro c hc
  rw [getStringUTFChars_eq] at h
  have hplain := encode_utf16_eq_iff.mp h c hc
  simp only [plain, Bool.and_eq_true, decide_eq_true_eq] at hplain
  exact hplain.2

theorem getStringUTFChars_eq_utf8 (hnul : '\x00' ∉ s) : getStringUTFChars s = encodeUtf8 s ↔ Basic s :=
  ⟨basic_of_getStringUTFChars, getStringUTFChars_of_basic hnul⟩

theorem eq_mem_getStringUTFChars (h : '=' ∈ s) : 0x3d ∈ getStringUTFChars s := by
  obtain ⟨before, after, rfl⟩ := List.append_of_mem h
  have hsign : getStringUTFChars ['='] = [0x3d] := by decide
  rw [← List.singleton_append, getStringUTFChars_append, getStringUTFChars_append, hsign]
  simp

end Strings

/-! The environment. -/

/-- The string of a name. -/
def getenv (environ : List Bytes) (name : Bytes) : Option Bytes := environ.find? fun e => nameOf e = name

section Environment

variable {environ : List Bytes} {entry name : Bytes}

theorem nameOf_of_notMem (h : 0x3d ∉ entry) : nameOf entry = entry := by
  unfold nameOf
  rw [List.takeWhile_eq_self_iff]
  intro b hb
  have hne : b ≠ 0x3d := by
    rintro rfl
    exact h hb
  simpa using hne

theorem getenv_putenv_self (h : 0x3d ∈ entry) : getenv (putenv environ entry) (nameOf entry) = some entry := by
  unfold putenv getenv
  rw [if_neg (not_not.mpr h)]
  split_ifs with hany
  · have hname : ((fun e : Bytes => decide (nameOf e = nameOf entry)) ∘ fun e =>
        if nameOf e = nameOf entry then entry else e) = fun e => decide (nameOf e = nameOf entry) := by
      funext e
      by_cases he : nameOf e = nameOf entry <;> simp [he]
    rw [List.find?_map, hname]
    obtain ⟨e, he⟩ := Option.isSome_iff_exists.mp ((List.find?_isSome).mpr (List.any_eq_true.mp hany))
    have hsame : nameOf e = nameOf entry := by simpa using List.find?_some he
    rw [he, Option.map_some, if_pos hsame]
  · rw [List.find?_append]
    have hnone : environ.find? (fun e => decide (nameOf e = nameOf entry)) = none := by
      rw [List.find?_eq_none]
      intro e he
      exact fun hsame => hany (List.any_eq_true.mpr ⟨e, he, hsame⟩)
    rw [hnone]
    simp

theorem getenv_putenv_other (h : nameOf entry ≠ name) : getenv (putenv environ entry) name = getenv environ name := by
  unfold putenv getenv
  split_ifs with hsign hany
  · rw [List.find?_map]
    have hname : ((fun e : Bytes => decide (nameOf e = name)) ∘ fun e =>
        if nameOf e = nameOf entry then entry else e) = fun e => decide (nameOf e = name) := by
      funext e
      by_cases he : nameOf e = nameOf entry <;> simp [he]
    rw [hname]
    cases hfind : environ.find? fun e => decide (nameOf e = name) with
    | none => rfl
    | some e =>
      have hsame : nameOf e = name := by simpa using List.find?_some hfind
      rw [Option.map_some, if_neg fun he => h (he.symm.trans hsame)]
  · rw [List.find?_append]
    simp [h]
  · rw [List.find?_filter]
    congr 1
    funext e
    by_cases he : nameOf e = name
    · have hne : nameOf e ≠ entry := by
        rw [he, ← nameOf_of_notMem hsign]
        exact h.symm
      simp [he, he ▸ hne]
    · simp [he]

/-- Strings of other names leave a variable alone. -/
theorem getenv_foldl_other (entries : List Bytes) (environ : List Bytes) (h : ∀ e ∈ entries, nameOf e ≠ name) :
    getenv (entries.foldl putenv environ) name = getenv environ name := by
  induction entries generalizing environ with
  | nil => rfl
  | cons e entries ih =>
    rw [List.foldl_cons, ih _ fun e' he' => h e' (List.mem_cons_of_mem e he'),
      getenv_putenv_other (h e List.mem_cons_self)]

end Environment

section Paths

variable {s : JString}

theorem argument_bytes (app : Launch.App) {session : Launch.TerminalSession} {before after : List JString}
    (h : session.arguments = some (before ++ s :: after)) :
    (nativeCreateSession app session).argv[before.length]? = some (getStringUTFChars s) := by
  have hargv : (nativeCreateSession app session).argv = (before ++ s :: after).map getStringUTFChars := by
    change argvList session = _
    unfold argvList
    rw [h]
    simp
  rw [hargv]
  simp

/-- The string of a variable is the last one of its name. -/
theorem environment_bytes {app : Launch.App} {session : Launch.TerminalSession} {before after : List JString}
    (h : session.envp = some (before ++ s :: after)) (hsign : '=' ∈ s)
    (hlast : ∀ e ∈ (envpList app session).drop (before.length + 1), nameOf e ≠ nameOf (getStringUTFChars s)) :
    getenv (nativeCreateSession app session).environ (nameOf (getStringUTFChars s)) = some (getStringUTFChars s) := by
  have hsplit : envpList app session = before.map getStringUTFChars ++ getStringUTFChars s ::
      (envpList app session).drop (before.length + 1) := by
    unfold envpList Launch.envpList
    rw [h]
    simp [List.drop_append]
  change getenv ((envpList app session).foldl putenv []) _ = _
  rw [hsplit, List.foldl_append, List.foldl_cons, getenv_foldl_other _ _ hlast]
  exact getenv_putenv_self (eq_mem_getStringUTFChars hsign)

/-- Text typed without CTRL and ALT, on a key that has text. -/
def Typed (ghosttyKey mods : ℕ) : Prop :=
  mods &&& MODS_CTRL = 0 ∧ mods &&& MODS_ALT = 0 ∧ ¬ (ghosttyKey = GHOSTTY_KEY_BACKSPACE ∧ mods = 0)

/-- The encoder, where it makes something of the event, passes its text on. -/
def PassesText (lib : Library) (event : GhosttyKeyEvent) : Prop :=
  ∀ encode ∈ lib.keyEncoder, ∀ out ∈ encode event, out ≠ [] → out = event.utf8

theorem flatten_textWrites (utf8 : Bytes) : (textWrites utf8).flatten = utf8 := by
  cases utf8 <;> simp [textWrites]

theorem flatten_encodedWrites {lib : Library} {event : GhosttyKeyEvent} (h : PassesText lib event) :
    (encodedWrites lib event).flatten = event.utf8 := by
  unfold encodedWrites
  cases hout : lib.keyEncoder.bind fun encode => encode event with
  | none => exact flatten_textWrites _
  | some out =>
    obtain ⟨encode, hencode, hevent⟩ := Option.bind_eq_some_iff.mp hout
    dsimp only
    split_ifs with hfits
    · simpa using h encode hencode out hevent hfits.1
    · exact flatten_textWrites _

theorem directWrites_unmodified {mods : ℕ} (hctrl : mods &&& MODS_CTRL = 0) (halt : mods &&& MODS_ALT = 0)
    (utf8 : Bytes) : directWrites mods utf8 = none := by
  unfold directWrites
  split
  · simp [hctrl, halt]
  · rfl

theorem typed_bytes {lib : Library} {ghosttyKey mods : ℕ} (hkey : Typed ghosttyKey mods)
    (hlib : PassesText lib ⟨ghosttyKey, mods, getStringUTFChars s⟩) :
    (keyWrites lib ghosttyKey mods (some s)).flatten = getStringUTFChars s := by
  obtain ⟨hctrl, halt, hback⟩ := hkey
  unfold keyWrites
  dsimp only
  rw [if_neg hback, directWrites_unmodified hctrl halt]
  exact flatten_encodedWrites hlib

/-- On each of the three ways to a program, a string arrives as its UTF-8 if and only if
it stays in the basic plane. -/
theorem program_reads_utf8_iff_basic (s : JString) (hnul : '\x00' ∉ s) :
    (∀ app (session : Launch.TerminalSession) before after, session.arguments = some (before ++ s :: after) →
      ((nativeCreateSession app session).argv[before.length]? = some (encodeUtf8 s) ↔ Basic s)) ∧
    (∀ app (session : Launch.TerminalSession) before after, session.envp = some (before ++ s :: after) → '=' ∈ s →
      (∀ e ∈ (envpList app session).drop (before.length + 1), nameOf e ≠ nameOf (getStringUTFChars s)) →
      (getenv (nativeCreateSession app session).environ (nameOf (getStringUTFChars s)) = some (encodeUtf8 s) ↔
        Basic s)) ∧
    (∀ lib ghosttyKey mods, Typed ghosttyKey mods → PassesText lib ⟨ghosttyKey, mods, getStringUTFChars s⟩ →
      ((keyWrites lib ghosttyKey mods (some s)).flatten = encodeUtf8 s ↔ Basic s)) := by
  have hiff := getStringUTFChars_eq_utf8 hnul
  refine ⟨?_, ?_, ?_⟩
  · intro app session before after h
    rw [argument_bytes app h, Option.some.injEq]
    exact hiff
  · intro app session before after h hsign hlast
    rw [environment_bytes h hsign hlast, Option.some.injEq]
    exact hiff
  · intro lib ghosttyKey mods hkey hlib
    rw [typed_bytes hkey hlib]
    exact hiff

/-- An encoder that passes on every text. -/
def passingLibrary : Library where
  keyEncoder := some fun event => some event.utf8
  pasteEncode data _ := data
  length_pasteEncode _ _ := Nat.le_add_right _ _

/-- `sh` with one argument and one variable. -/
def sampleSession (s : String) : Launch.TerminalSession :=
  ⟨"/system/bin/sh".toList, "/".toList, some ["sh".toList, s.toList], some [s.toList], none, none, false, false, false⟩

theorem program_reads_utf8_basic :
    (nativeCreateSession Launch.sampleApp (sampleSession "A=é")).argv[1]? = some (encodeUtf8 "A=é".toList) ∧
    getenv (nativeCreateSession Launch.sampleApp (sampleSession "A=é")).environ
      (nameOf (getStringUTFChars "A=é".toList)) = some (encodeUtf8 "A=é".toList) ∧
    (keyWrites passingLibrary GHOSTTY_KEY_A MODS_SHIFT (some "A=é".toList)).flatten = encodeUtf8 "A=é".toList :=
  have h := program_reads_utf8_iff_basic "A=é".toList (by decide)
  ⟨(h.1 Launch.sampleApp (sampleSession "A=é") ["sh".toList] [] rfl).mpr (by decide),
    (h.2.1 Launch.sampleApp (sampleSession "A=é") [] [] rfl (by decide) (by decide)).mpr (by decide),
    (h.2.2 passingLibrary GHOSTTY_KEY_A MODS_SHIFT ⟨rfl, rfl, by decide⟩
      (by rintro _ ⟨⟩ _ ⟨⟩ _; rfl)).mpr (by decide)⟩

/-- A character outside the basic plane arrives as two surrogates of three bytes each. -/
theorem program_reads_surrogates :
    (nativeCreateSession Launch.sampleApp (sampleSession "A=😀")).argv[1]? =
      some [0x41, 0x3d, 0xed, 0xa0, 0xbd, 0xed, 0xb8, 0x80] ∧
    getenv (nativeCreateSession Launch.sampleApp (sampleSession "A=😀")).environ [0x41] =
      some [0x41, 0x3d, 0xed, 0xa0, 0xbd, 0xed, 0xb8, 0x80] ∧
    (keyWrites passingLibrary GHOSTTY_KEY_UNIDENTIFIED 0 (some "A=😀".toList)).flatten =
      [0x41, 0x3d, 0xed, 0xa0, 0xbd, 0xed, 0xb8, 0x80] ∧
    encodeUtf8 "A=😀".toList = [0x41, 0x3d, 0xf0, 0x9f, 0x98, 0x80] := by
  decide

end Paths

end Tinyhack.Native
