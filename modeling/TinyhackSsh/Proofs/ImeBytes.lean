import TinyhackSsh.Proofs.NativeText

/-! The two ways of committed text with sticky modifiers: `sendText` maps the whole text,
and the input connection presses a key for each character. -/

namespace Tinyhack.Native

open Input Wire Sessions ModifiedUtf8

/-- The bytes for an entry of text or of a key. The text goes through
`TerminalSession.write(String)`. -/
def typedEntry (lib : Library) : Entry → Bytes
  | .press _ => []
  | .esc _ => [0x1b]
  | .output _ (.text s) => encodeUtf8 s
  | .output _ (.key ghosttyKey mods text) => (keyWrites lib ghosttyKey mods text).flatten
  | .output _ (.bytes data) => data
  -- neither way leads here
  | .output _ (.paste _) => []
  | .output _ .mouse => []

def typedBytes (lib : Library) (v : View) : Bytes := v.history.flatMap (typedEntry lib)

def withReturns (text : JString) : JString := text.map fun c => if c = '\n' then '\r' else c

/-- `nativeWriteKey` writes the character itself, without the encoder. -/
def Direct (v : View) (c : Char) : Prop :=
  (directWrites (mods false v.isCtrlActive v.isAltActive false) (getStringUTFChars [c])).isSome = true

instance (v : View) (c : Char) : Decidable (Direct v c) := inferInstanceAs (Decidable (_ = true))

def Unmodified (v : View) : Prop := v.isCtrlActive = false ∧ v.isAltActive = false

/-- With CTRL one character at most, with ALT alone no newline, and no pending ESC. -/
def SameWay (v : View) (text : JString) : Prop :=
  Unmodified v ∨ text = [] ∨
    v.isEscActive = false ∧ if v.isCtrlActive then text.length = 1 else '\n' ∉ text

/-! Characters of one byte. -/

def byte (c : Char) : UInt8 := UInt8.ofNat c.toNat

/-- The byte of a character with CTRL. -/
def controlByte (c : Char) : UInt8 := (controlCode (byte c)).getD (byte c)

def Ascii (c : Char) : Prop := 0 < c.toNat ∧ c.toNat < 0x80

section Ascii

variable {c : Char}

theorem utf8_ascii (h : c.toNat < 0x80) : String.utf8EncodeChar c = [byte c] := by
  have hval : c.val.toNat = c.toNat := rfl
  rw [String.utf8EncodeChar, hval, if_pos (by omega)]
  rfl

theorem plain_of_ascii (h : Ascii c) : plain c = true := by
  have hlt := h.2
  simp only [plain, Bool.and_eq_true, decide_eq_true_eq]
  exact ⟨h.1, by omega⟩

theorem getStringUTFChars_ascii (h : Ascii c) : getStringUTFChars [c] = [byte c] := by
  rw [getStringUTFChars_eq, encode_utf16 (by simpa using plain_of_ascii h)]
  simpa using utf8_ascii h.2

theorem ascii_of_length (h : (getStringUTFChars [c]).length = 1) : Ascii c := by
  have hunits : (encode (units c)).length = 1 := by
    rw [getStringUTFChars_eq] at h
    simpa [utf16] using h
  have hle := length_units_le c
  constructor
  · apply Nat.pos_of_ne_zero
    intro hzero
    obtain rfl : c = '\x00' := Char.toNat_inj.mp hzero
    exact absurd hunits (by decide)
  · by_contra hlong
    have hval : c.val.toNat = c.toNat := rfl
    rw [String.utf8EncodeChar, hval, if_neg (by omega)] at hle
    split_ifs at hle
    all_goals
      simp only [List.length_cons, List.length_nil] at hle
      omega

/-- The two tables of control codes agree. -/
theorem controlCharOf_ascii (h : c.toNat < 0x80) : controlCharOf c = (controlCode (byte c)).map UInt8.toNat := by
  have hall : ∀ n < 0x80, controlCharOf (Char.ofNat n) = (controlCode (byte (Char.ofNat n))).map UInt8.toNat := by
    decide
  simpa using hall c.toNat h

/-- A control code is one byte of UTF-8, and another one than that of its character. -/
theorem controlCode_spec {b n : UInt8} (h : controlCode b = some n) :
    n ≠ b ∧ String.utf8EncodeChar (Char.ofNat n.toNat) = [n] := by
  have hall : ∀ i < 256, (controlCode (UInt8.ofNat i)).all fun n =>
      decide (n ≠ UInt8.ofNat i ∧ String.utf8EncodeChar (Char.ofNat n.toNat) = [n]) := by
    set_option maxRecDepth 1000 in decide
  have hb := hall b.toNat b.toNat_lt
  rw [UInt8.ofNat_toNat, h, Option.all_some] at hb
  exact of_decide_eq_true hb

end Ascii

/-! `nativeWriteKey` of a character. -/

section Keys

variable {v : View} {c : Char}

theorem ascii_of_direct (h : Direct v c) : Ascii c := by
  apply ascii_of_length
  unfold Direct directWrites at h
  split at h
  · rename_i b hb
    rw [hb]
    rfl
  · exact absurd h (by simp)

theorem controlCode_of_direct (h : Direct v c) (hctrl : v.isCtrlActive = true) :
    ∃ n, controlCode (byte c) = some n := by
  have hascii := ascii_of_direct h
  unfold Direct at h
  rw [getStringUTFChars_ascii hascii, hctrl] at h
  cases hcode : controlCode (byte c) with
  | some n => exact ⟨n, rfl⟩
  | none =>
    cases halt : v.isAltActive <;>
      simp [directWrites, halt, hcode, mods, MODS_CTRL, MODS_ALT] at h

/-- A sticky modifier with a character: ESC for ALT, and the control code for CTRL. -/
theorem directWrites_eq (h : Direct v c) :
    directWrites (mods false v.isCtrlActive v.isAltActive false) (getStringUTFChars [c]) =
      some ((if v.isAltActive then [[0x1b]] else []) ++
        [[if v.isCtrlActive then controlByte c else byte c]]) := by
  have hascii := ascii_of_direct h
  have hcode := controlCode_of_direct h
  unfold Direct at h
  rw [getStringUTFChars_ascii hascii] at h ⊢
  cases hctrl : v.isCtrlActive with
  | true =>
    obtain ⟨n, hn⟩ := hcode hctrl
    cases halt : v.isAltActive <;>
      simp [directWrites, hn, controlByte, mods, MODS_CTRL, MODS_ALT]
  | false =>
    cases halt : v.isAltActive with
    | true => simp [directWrites, mods, MODS_CTRL, MODS_ALT]
    | false => simp [directWrites, hctrl, halt, mods, MODS_CTRL, MODS_ALT] at h

theorem keyOfChar_le (c : Char) : keyOfChar c ≤ 45 := by
  have hval : ∀ d : Char, c ≤ d → c.toNat ≤ d.toNat := fun d hd => hd
  unfold keyOfChar GHOSTTY_KEY_A GHOSTTY_KEY_DIGIT_0 GHOSTTY_KEY_UNIDENTIFIED
  split_ifs with hlower hupper hdigit
  · have hle := hval _ hlower.2
    simp only [Char.reduceToNat] at hle ⊢
    omega
  · have hle := hval _ hupper.2
    simp only [Char.reduceToNat] at hle ⊢
    omega
  · have hle := hval _ hdigit.2
    simp only [Char.reduceToNat] at hle ⊢
    omega
  · omega

theorem flatten_keyWrites_direct (lib : Library) (h : Direct v c) :
    (keyWrites lib (keyOfChar c) (mods false v.isCtrlActive v.isAltActive false) (some [c])).flatten =
      (if v.isAltActive then [0x1b] else []) ++ [if v.isCtrlActive then controlByte c else byte c] := by
  have hkey := keyOfChar_le c
  unfold keyWrites
  dsimp only
  rw [if_neg (by unfold GHOSTTY_KEY_BACKSPACE; omega), Option.map_some, Option.getD_some, directWrites_eq h,
    Option.getD_some]
  cases v.isAltActive <;> rfl

theorem flatten_keyWrites_plain {lib : Library} (h : Ascii c)
    (hlib : PassesText lib ⟨keyOfChar c, 0, getStringUTFChars [c]⟩) :
    (keyWrites lib (keyOfChar c) 0 (some [c])).flatten = [byte c] := by
  have hkey := keyOfChar_le c
  rw [typed_bytes ⟨rfl, rfl, by unfold GHOSTTY_KEY_BACKSPACE; omega⟩ hlib, getStringUTFChars_ascii h]

end Keys

/-! The input connection. -/

section Commit

variable {v : View} {s : SessionRef}

/-- What the view looks like between two characters. -/
def Idle (v : View) (s : SessionRef) : Prop :=
  v.session = some s ∧ v.isCtrlActive = false ∧ v.isAltActive = false ∧ v.isEscActive = false

theorem commitChar_eq (hs : v.session = some s) (c : Char) :
    commitChar v c = writeAfterEsc { v with isCtrlActive := false, isAltActive := false } (some [c])
      (.key (keyOfChar c) (mods false v.isCtrlActive v.isAltActive false) (some [c])) := by
  have hkey := keyOfChar_le c
  unfold commitChar sendSpecialKey
  dsimp only
  rw [if_neg (by simp [hs]), if_neg (by unfold GHOSTTY_KEY_ESCAPE; omega)]
  congr 2
  cases v.isCtrlActive <;> cases v.isAltActive <;> rfl

theorem commitChar_settled (hs : v.session = some s) (hesc : v.isEscActive = false) (c : Char) :
    Idle (commitChar v c) s ∧ (commitChar v c).history = v.history ++
      [Entry.output s (.key (keyOfChar c) (mods false v.isCtrlActive v.isAltActive false) (some [c]))] := by
  rw [commitChar_eq hs]
  simp [writeAfterEsc, View.resetModifiers, View.write, View.record, Idle, hs, hesc]

/-- A pending ESC takes the character as text, and the modifiers are gone. -/
theorem commitChar_pending (hs : v.session = some s) (hesc : v.isEscActive = true) (c : Char) :
    Idle (commitChar v c) s ∧ (commitChar v c).history = v.history ++ [Entry.esc s, .output s (.text [c])] := by
  have htext : nonEmpty (some [c]) = some [c] := rfl
  rw [commitChar_eq hs]
  simp [writeAfterEsc, htext, View.resetModifiers, View.cancelEsc, View.writeEsc, View.record, Idle, hs, hesc]

theorem history_foldl_commitChar (text : JString) (h : Idle v s) :
    (text.foldl commitChar v).history =
      v.history ++ text.map fun c => Entry.output s (.key (keyOfChar c) 0 (some [c])) := by
  induction text generalizing v with
  | nil => simp
  | cons c text ih =>
    obtain ⟨hs, hctrl, halt, hesc⟩ := h
    obtain ⟨hidle, hhistory⟩ := commitChar_settled hs hesc c
    rw [List.foldl_cons, ih hidle, hhistory, hctrl, halt, List.append_assoc]
    rfl

variable {lib : Library}

theorem typed_rest {text : JString} (hascii : ∀ c ∈ text, Ascii c)
    (hlib : ∀ c, PassesText lib ⟨keyOfChar c, 0, getStringUTFChars [c]⟩) :
    (text.map fun c => Entry.output s (.key (keyOfChar c) 0 (some [c]))).flatMap (typedEntry lib) = text.map byte := by
  induction text with
  | nil => rfl
  | cons c text ih =>
    rw [List.map_cons, List.flatMap_cons, ih fun d hd => hascii d (List.mem_cons_of_mem c hd)]
    simp only [typedEntry]
    rw [flatten_keyWrites_plain (hascii c List.mem_cons_self) (hlib c)]
    rfl

/-- The first character has the modifiers, the others have none. -/
theorem typed_commit_settled {c : Char} {text : JString} (hs : v.session = some s) (hesc : v.isEscActive = false)
    (hdirect : ∀ d ∈ c :: text, Direct v d)
    (hlib : ∀ c, PassesText lib ⟨keyOfChar c, 0, getStringUTFChars [c]⟩) :
    typedBytes lib ((c :: text).foldl commitChar v) = typedBytes lib v ++
      ((if v.isAltActive then [0x1b] else []) ++
        (if v.isCtrlActive then controlByte c else byte c) :: text.map byte) := by
  obtain ⟨hidle, hhistory⟩ := commitChar_settled hs hesc c
  unfold typedBytes
  rw [List.foldl_cons, history_foldl_commitChar text hidle, hhistory, List.flatMap_append, List.flatMap_append,
    typed_rest (fun d hd => ascii_of_direct (hdirect d (List.mem_cons_of_mem c hd))) hlib, List.flatMap_singleton,
    typedEntry, flatten_keyWrites_direct lib (hdirect c List.mem_cons_self)]
  simp

theorem typed_commit_pending {c : Char} {text : JString} (hs : v.session = some s) (hesc : v.isEscActive = true)
    (hdirect : ∀ d ∈ c :: text, Direct v d)
    (hlib : ∀ c, PassesText lib ⟨keyOfChar c, 0, getStringUTFChars [c]⟩) :
    typedBytes lib ((c :: text).foldl commitChar v) = typedBytes lib v ++ (0x1b :: byte c :: text.map byte) := by
  obtain ⟨hidle, hhistory⟩ := commitChar_pending hs hesc c
  have hc : typedEntry lib (.output s (.text [c])) = [byte c] := by
    simpa [typedEntry, encodeUtf8] using utf8_ascii (ascii_of_direct (hdirect c List.mem_cons_self)).2
  unfold typedBytes
  rw [List.foldl_cons, history_foldl_commitChar text hidle, hhistory, List.flatMap_append, List.flatMap_append,
    typed_rest (fun d hd => ascii_of_direct (hdirect d (List.mem_cons_of_mem c hd))) hlib, List.flatMap_cons,
    List.flatMap_singleton, hc]
  simp [typedEntry]

end Commit

/-! `sendText`. -/

section Send

variable {v : View} {s : SessionRef} {lib : Library}

theorem encodeUtf8_map {text : JString} {f : Char → Char} {g : Char → UInt8}
    (h : ∀ c ∈ text, String.utf8EncodeChar (f c) = [g c]) : encodeUtf8 (text.map f) = text.map g := by
  induction text with
  | nil => rfl
  | cons c text ih =>
    change String.utf8EncodeChar (f c) ++ encodeUtf8 (text.map f) = _
    rw [h c List.mem_cons_self, ih fun d hd => h d (List.mem_cons_of_mem c hd)]
    rfl

theorem encodeUtf8_applyModifiers {text : JString} (hascii : ∀ c ∈ text, c.toNat < 0x80) (ctrl alt : Bool) :
    encodeUtf8 (applyModifiers text ctrl alt) =
      (if alt then [0x1b] else []) ++ text.map fun c => if ctrl then controlByte c else byte c := by
  have hmap : encodeUtf8 (text.map fun ch => if ctrl then ((controlCharOf ch).map Char.ofNat).getD ch else ch) =
      text.map fun c => if ctrl then controlByte c else byte c := by
    refine encodeUtf8_map fun c hc => ?_
    cases ctrl with
    | false => simpa using utf8_ascii (hascii c hc)
    | true =>
      simp only [if_true]
      rw [controlCharOf_ascii (hascii c hc), controlByte]
      cases hcode : controlCode (byte c) with
      | none => simpa using utf8_ascii (hascii c hc)
      | some n => exact (controlCode_spec hcode).2
  unfold applyModifiers
  rw [← hmap]
  cases alt with
  | false => rfl
  | true => rfl

theorem typed_sendText {text : JString} (hs : v.session = some s) (hne : text ≠ [])
    (hascii : ∀ c ∈ text, c.toNat < 0x80) :
    typedBytes lib (sendText v text) = typedBytes lib v ++
      ((if v.isEscActive then [0x1b] else []) ++ ((if v.isAltActive then [0x1b] else []) ++
        text.map fun c => if v.isCtrlActive then controlByte c else byte c)) := by
  have hempty : (v.session.isNone || text.isEmpty) = false := by simp [hs, hne]
  unfold sendText
  rw [hempty]
  simp only [Bool.false_eq_true, if_false]
  rw [← encodeUtf8_applyModifiers hascii]
  cases hesc : v.isEscActive with
  | true =>
    simp [View.resetModifiers, View.cancelEsc, View.writeEsc, View.record, hs, hesc, typedBytes, typedEntry]
  | false => simp [View.resetModifiers, View.write, View.record, hs, hesc, typedBytes, typedEntry]

end Send

/-! Together. -/

section Same

variable {v : View} {text : JString}

/-- CTRL turns no newline into a control code, so none is in the text. -/
theorem withReturns_of_ctrl (hdirect : ∀ c ∈ text, Direct v c) (hctrl : v.isCtrlActive = true) :
    withReturns text = text := by
  unfold withReturns
  conv_rhs => rw [← List.map_id text]
  refine List.map_congr_left fun c hc => ?_
  rw [if_neg]
  · rfl
  · rintro rfl
    obtain ⟨n, hn⟩ := controlCode_of_direct (hdirect _ hc) hctrl
    have hnone : controlCode (byte '\n') = none := by decide
    exact absurd (hnone.symm.trans hn) (Option.some_ne_none n).symm

theorem ascii_withReturns (hdirect : ∀ c ∈ text, Direct v c) : ∀ c ∈ withReturns text, c.toNat < 0x80 := by
  intro c hc
  obtain ⟨d, hd, rfl⟩ := List.mem_map.mp hc
  split_ifs
  · decide
  · exact (ascii_of_direct (hdirect d hd)).2

theorem controlByte_ne {c : Char} (h : Direct v c) (hctrl : v.isCtrlActive = true) : controlByte c ≠ byte c := by
  obtain ⟨n, hn⟩ := controlCode_of_direct h hctrl
  rw [controlByte, hn]
  exact (controlCode_spec hn).1

theorem map_byte_withReturns (text : JString) :
    (withReturns text).map byte = text.map byte ↔ '\n' ∉ text := by
  unfold withReturns
  rw [List.map_map, List.map_inj_left]
  constructor
  · intro h hmem
    exact absurd (h '\n' hmem) (by decide)
  · intro h c hc
    have hne : c ≠ '\n' := by
      rintro rfl
      exact h hc
    simp [hne]

/-- Text committed with sticky modifiers, in the two ways. -/
theorem same_modified {lib : Library} {s : SessionRef} {c : Char} (hs : v.session = some s) (hmod : ¬ Unmodified v)
    (hdirect : ∀ d ∈ c :: text, Direct v d)
    (hlib : ∀ c, PassesText lib ⟨keyOfChar c, 0, getStringUTFChars [c]⟩) :
    typedBytes lib ((c :: text).foldl commitChar v) = typedBytes lib (sendText v (withReturns (c :: text))) ↔
      v.isEscActive = false ∧ if v.isCtrlActive then (c :: text).length = 1 else '\n' ∉ c :: text := by
  rw [typed_sendText hs (by simp [withReturns]) (ascii_withReturns hdirect)]
  cases hesc : v.isEscActive with
  | true =>
    rw [typed_commit_pending hs hesc hdirect hlib, List.append_cancel_left_eq]
    simp only [reduceCtorEq, false_and, iff_false, if_true, List.singleton_append, List.cons.injEq, true_and]
    intro heq
    cases halt : v.isAltActive with
    | true =>
      -- one ESC too few
      have hlength := congrArg List.length heq
      simp [halt, withReturns] at hlength
    | false =>
      cases hctrl : v.isCtrlActive with
      | false => exact hmod ⟨hctrl, halt⟩
      | true =>
        rw [withReturns_of_ctrl hdirect hctrl, halt, hctrl] at heq
        simp only [Bool.false_eq_true, if_false, if_true, List.nil_append, List.map_cons, List.cons.injEq] at heq
        exact controlByte_ne (hdirect c List.mem_cons_self) hctrl heq.1.symm
  | false =>
    rw [typed_commit_settled hs hesc hdirect hlib, List.append_cancel_left_eq]
    simp only [Bool.false_eq_true, if_false, List.nil_append, List.append_cancel_left_eq, true_and]
    cases hctrl : v.isCtrlActive with
    | true =>
      rw [withReturns_of_ctrl hdirect hctrl]
      simp only [if_true, List.map_cons, List.cons.injEq, true_and, List.length_cons, Nat.add_eq_right,
        List.length_eq_zero_iff]
      constructor
      · intro heq
        cases text with
        | nil => rfl
        | cons d text =>
          simp only [List.map_cons, List.cons.injEq] at heq
          exact absurd heq.1.symm (controlByte_ne (hdirect d (by simp)) hctrl)
      · rintro rfl
        rfl
    | false =>
      simp only [Bool.false_eq_true, if_false]
      rw [← List.map_cons, eq_comm, map_byte_withReturns]

/-- A view with a session and sticky modifiers. -/
def stickyView (esc ctrl alt : Bool) : View := ⟨some 0, esc, esc, ctrl, alt, [], []⟩

end Same

end Tinyhack.Native
