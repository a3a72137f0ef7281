import TinyhackSsh.Proofs.OutputText

/-! Bytes of the library as Java strings. They are UTF-8 at best and are passed on as they
are, so that a string arrives if and only if its UTF-8 is also its modified UTF-8. -/

namespace Tinyhack.Native

open Wire ModifiedUtf8 Prompts

/-- The bytes are UTF-8, and the string made from them is the one they denote. -/
def Converted (bytes : Bytes) : Prop := ∃ s, encodeUtf8 s = bytes ∧ newStringUTF bytes = some (utf16 s)

/-- The bytes are UTF-8, with no NUL and nothing beyond the basic plane. -/
def PlainText (bytes : Bytes) : Prop := ∃ s, encodeUtf8 s = bytes ∧ ∀ c ∈ s, plain c = true

/-- What the library gives a call site to pass on. For the last command this is the
formatted selection, which is asked for if there are rows of output and none shows a text. -/
def libraryBytes (t : TerminalData) : CallSite → Option Bytes
  | .title => some t.title
  | .clipboard => t.contents.head?
  | .formatted => t.formatted
  | .selection => t.selection
  | .hyperlink => t.hyperlink
  | .lastCommandOutput =>
    if outputRows t.screen ≠ [] ∧ ¬ Shows (outputRows t.screen) then some (t.format (outputRows t.screen)) else none

theorem converted_iff (bytes : Bytes) : Converted bytes ↔ PlainText bytes := by
  constructor
  · rintro ⟨s, rfl, hstring⟩
    refine ⟨s, rfl, plain_of_length ?_⟩
    -- what was read is no longer than what was given
    have hread : encode (utf16 s) = cString (encodeUtf8 s) := encode_of_decode hstring
    rw [hread]
    exact (List.takeWhile_prefix _).length_le
  · rintro ⟨s, rfl, hplain⟩
    exact ⟨s, rfl, newStringUTF_encodeUtf8 hplain⟩

theorem plainText_nil : PlainText [] := ⟨[], rfl, fun _ hc => absurd hc List.not_mem_nil⟩

theorem forall_getD_iff (text : Option Bytes) :
    (∀ b ∈ some (text.getD []), Converted b) ↔ ∀ b ∈ text, PlainText b := by
  cases text with
  | none => simpa [converted_iff] using plainText_nil
  | some text => simp [converted_iff]

theorem forall_filter_iff (uri : Option Bytes) :
    (∀ b ∈ uri.filter (fun url => url ≠ []), Converted b) ↔ ∀ b ∈ uri, PlainText b := by
  cases uri with
  | none => simp
  | some url =>
    by_cases hurl : url = []
    · simpa [hurl] using plainText_nil
    · simp [hurl, converted_iff]

theorem lastCommandOutput_iff (t : TerminalData) :
    (∀ b ∈ passed t .lastCommandOutput, Converted b) ↔ ∀ b ∈ libraryBytes t .lastCommandOutput, PlainText b := by
  simp only [passed, libraryBytes, nativeGetLastCommandOutput_eq, collectedText_eq_nil,
    and_comm (a := outputRows t.screen ≠ [])]
  by_cases hfallback : ¬ Shows (outputRows t.screen) ∧ outputRows t.screen ≠ []
  · rw [if_pos hfallback, if_pos hfallback]
    simp [converted_iff]
  · rw [if_neg hfallback, if_neg hfallback]
    have hcollected : PlainText (encodeUtf8 (collectedText (outputRows t.screen))) :=
      ⟨_, rfl, collectedText_basic _⟩
    simpa [converted_iff] using hcollected

/-- At each call site the string arrives if and only if the library gave plain text. -/
theorem java_string_converted_iff (t : TerminalData) (site : CallSite) :
    (∀ b ∈ passed t site, Converted b) ↔ ∀ b ∈ libraryBytes t site, PlainText b := by
  cases site with
  | title => simp [passed, libraryBytes, onTitleChanged, converted_iff]
  | clipboard => simp [passed, libraryBytes, onClipboardWrite, converted_iff]
  | formatted => exact forall_getD_iff t.formatted
  | selection => exact forall_getD_iff t.selection
  | hyperlink => exact forall_filter_iff t.hyperlink
  | lastCommandOutput => exact lastCommandOutput_iff t

/-- A title with a character beyond the basic plane, and a NUL in the clipboard. -/
def sampleData : TerminalData where
  title := encodeUtf8 ['😀']
  contents := [encodeUtf8 ['a', '\x00', 'b']]
  formatted := none
  selection := none
  hyperlink := none
  screen := ⟨false, []⟩
  format := fun _ => []

/-- The title is not modified UTF-8, and the clipboard text is cut at the NUL. -/
theorem java_string_not_converted :
    (passed sampleData .title = some [0xF0, 0x9F, 0x98, 0x80] ∧ newStringUTF [0xF0, 0x9F, 0x98, 0x80] = none) ∧
    passed sampleData .clipboard = some [0x61, 0, 0x62] ∧ newStringUTF [0x61, 0, 0x62] = some (utf16 ['a']) := by
  decide

end Tinyhack.Native
