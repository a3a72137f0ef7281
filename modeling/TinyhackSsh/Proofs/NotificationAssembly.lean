import TinyhackSsh.Proofs.Utf8
import TinyhackSsh.Spec.NotificationText

/-! Adding the chunks of a transaction one by one gives what the transaction means
as a whole. The decoder keeps up to three characters between chunks: its state
stands for the bytes decoded so far and a stream that begins with them. -/

namespace Tinyhack.Notify

open Wire

theorem text_eq_some_iff {bytes : Bytes} {value : JString} : text bytes = some value ↔ encodeUtf8 value = bytes := by
  unfold text
  dsimp only
  constructor
  · intro h
    split_ifs at h with henc
    rwa [← Option.some.inj h]
  · rintro rfl
    rw [decodeUtf8_encodeUtf8, if_pos rfl]

/-! Streams. -/

section Equations

variable (chars : JString) (data : Bytes) (segment : Segment) (rest : List Segment)

theorem joinSegments_encoded : joinSegments (.encoded chars :: rest) =
    match joinSegments rest with
    | .encoded more :: tail => .encoded (chars ++ more) :: tail
    | tail => .encoded chars :: tail := rfl

theorem joinSegments_plain : joinSegments (.plain data :: rest) = .plain data :: joinSegments rest := rfl

theorem decodeSegments_encoded : decodeSegments (.encoded chars :: segment :: rest) =
    (decodeQuartets chars).bind fun data => (decodeSegments (segment :: rest)).map fun more => data ++ more := rfl

theorem decodeSegments_plain : decodeSegments (.plain data :: rest) =
    if isPlain data then (decodeSegments rest).map fun more => data ++ more else none := rfl

theorem decodeQuartets_nil : decodeQuartets [] = some [] := rfl

theorem decodeQuartets_quartet (a b c d : Char) : decodeQuartets (a :: b :: c :: d :: chars) =
    if isQuartet [a, b, c, d] then
      (Base64.decode [a, b, c, d]).bind fun data => (decodeQuartets chars).map fun more => data ++ more
    else none := rfl

theorem decodeStream_nil : decodeStream [] = some [] := rfl

end Equations

/-- A remainder of one to three characters is no complete stream. -/
theorem decodeQuartets_remainder {quartet : JString} (hne : quartet ≠ []) (hlen : quartet.length < 4) :
    decodeQuartets quartet = none := by
  match quartet with
  | [] => exact absurd rfl hne
  | [_] | [_, _] | [_, _, _] => rfl
  | _ :: _ :: _ :: _ :: _ => simp at hlen; omega

theorem decodeStream_remainder {quartet : JString} (hne : quartet ≠ []) (hlen : quartet.length < 4) :
    decodeStream quartet = if isRemainder quartet then Base64.decode quartet else none := by
  match quartet with
  | [] => exact absurd rfl hne
  | [_] | [_, _] | [_, _, _] => rfl
  | _ :: _ :: _ :: _ :: _ => simp at hlen; omega

/-- A stream that begins with `chars`, and what follows it. -/
def decodeLead (chars : JString) (tail : List Segment) : Option Bytes := decodeSegments (.encoded chars :: tail)

theorem decodeLead_quartet (a b c d : Char) (chars : JString) (tail : List Segment) :
    decodeLead (a :: b :: c :: d :: chars) tail =
      if isQuartet [a, b, c, d] then
        (Base64.decode [a, b, c, d]).bind fun data => (decodeLead chars tail).map fun more => data ++ more
      else none := by
  cases tail with
  | nil => rfl
  | cons segment tail =>
    simp only [decodeLead, decodeSegments_encoded, decodeQuartets_quartet]
    split_ifs
    · cases Base64.decode [a, b, c, d] with
      | none => rfl
      | some data =>
        cases decodeQuartets chars with
        | none => rfl
        | some bytes =>
          cases decodeSegments (segment :: tail) <;> simp
    · rfl

theorem isQuartet_bad {group : JString} {x : Char} (hx : x ∈ group) (halpha : x ∉ Base64.alphabet) (heq : x ≠ '=') :
    isQuartet group = false := by
  match group with
  | [a, b, c, d] =>
    have hcases : x = a ∨ x = b ∨ x = c ∨ x = d := by simpa using hx
    obtain rfl | rfl | rfl | rfl := hcases <;> simp [isQuartet, halpha, heq]
  | [] | [_] | [_, _] | [_, _, _] | _ :: _ :: _ :: _ :: _ :: _ => rfl

/-- A foreign character among the first four. -/
theorem decodeLead_bad {chars : JString} {x : Char} (hx : x ∈ chars.take 4) (halpha : x ∉ Base64.alphabet)
    (heq : x ≠ '=') (tail : List Segment) : decodeLead chars tail = none := by
  have hshort : chars.length < 4 → decodeLead chars tail = none := by
    intro hlen
    have hmem : x ∈ chars := List.mem_of_mem_take hx
    have hrem : isRemainder chars = false := by
      have hall : (chars.all fun c => c ∈ Base64.alphabet) = false := by
        simpa using ⟨x, hmem, halpha⟩
      simp [isRemainder, hall]
    cases tail with
    | nil => exact (decodeStream_remainder (List.ne_nil_of_mem hmem) hlen).trans (if_neg (by simp [hrem]))
    | cons segment tail =>
      rw [decodeLead, decodeSegments_encoded, decodeQuartets_remainder (List.ne_nil_of_mem hmem) hlen]
      rfl
  match chars with
  | [] | [_] | [_, _] | [_, _, _] => exact hshort (by simp)
  | a :: b :: c :: d :: rest =>
    rw [decodeLead_quartet, isQuartet_bad (by simpa using hx) halpha heq]
    rfl

/-- What is decoded of the segments when `quartet` is left of the stream before them. -/
def decodeAfter (quartet : JString) (segments : List Segment) : Option Bytes :=
  decodeSegments (joinSegments (.encoded quartet :: segments))

/-- The stream goes on in the segments, or ends. -/
theorem decodeAfter_eq (segments : List Segment) :
    ∃ chars tail, ∀ quartet, decodeAfter quartet segments = decodeLead (quartet ++ chars) tail := by
  unfold decodeAfter
  simp only [joinSegments_encoded]
  cases joinSegments segments with
  | nil => exact ⟨[], [], fun quartet => by simp [decodeLead]⟩
  | cons first tail =>
    cases first with
    | plain data => exact ⟨[], .plain data :: tail, fun quartet => by simp [decodeLead]⟩
    | encoded more => exact ⟨more, tail, fun quartet => by simp [decodeLead]⟩

theorem decodeAfter_nil (segments : List Segment) :
    decodeAfter [] segments = decodeSegments (joinSegments segments) := by
  unfold decodeAfter
  simp only [joinSegments_encoded]
  cases joinSegments segments with
  | nil => rfl
  | cons first tail =>
    cases first with
    | plain data =>
      simp only [decodeSegments_encoded, decodeSegments_plain, decodeQuartets_nil, Option.bind_some]
      cases decodeSegments tail <;> simp
    | encoded more => rfl

theorem decodeAfter_encoded (quartet chars : JString) (segments : List Segment) :
    decodeAfter quartet (.encoded chars :: segments) = decodeAfter (quartet ++ chars) segments := by
  obtain ⟨more, tail, h⟩ := decodeAfter_eq segments
  have hjoin : ∀ front, joinSegments (.encoded front :: .encoded chars :: segments) =
      joinSegments (.encoded (front ++ chars) :: segments) := by
    intro front
    simp only [joinSegments_encoded]
    cases joinSegments segments with
    | nil => rfl
    | cons first rest => cases first <;> simp
  rw [decodeAfter, hjoin, decodeAfter]

theorem decodeAfter_plain (quartet : JString) (data : Bytes) (segments : List Segment) :
    decodeAfter quartet (.plain data :: segments) =
      (decodeQuartets quartet).bind fun bytes => if isPlain data then
        (decodeAfter [] segments).map fun more => bytes ++ (data ++ more) else none := by
  rw [decodeAfter_nil]
  simp only [decodeAfter, joinSegments_encoded, joinSegments_plain, decodeSegments_encoded, decodeSegments_plain]
  cases decodeQuartets quartet with
  | none => rfl
  | some bytes =>
    simp only [Option.bind_some]
    split_ifs
    · simp [Option.map_map, Function.comp_def]
    · rfl

/-! A part while chunks come in. -/

/-- What the part will hold in the end. -/
def TextPart.value (part : TextPart) (segments : List Segment) : Option Bytes :=
  (decodeAfter part.quartet segments).map fun more => part.bytes ++ more

/-- There is no result, or it is too large. -/
def Hopeless (result : Option Bytes) : Prop := ∀ bytes, result = some bytes → bytes.length > MAX_TEXT_BYTES

theorem hopeless_none : Hopeless none := fun _ h => by cases h

theorem hopeless_map {front : Bytes} (h : front.length > MAX_TEXT_BYTES) (result : Option Bytes) :
    Hopeless (result.map fun more => front ++ more) := by
  intro bytes hb
  obtain ⟨more, -, rfl⟩ := Option.map_eq_some_iff.mp hb
  rw [List.length_append]
  omega

section Append

variable {part part' : TextPart} {data : Bytes}

theorem TextPart.append_eq_some (h : part.append data = some part') :
    part' = { part with bytes := part.bytes ++ data } := by
  unfold append at h
  split_ifs at h
  exact (Option.some.inj h).symm

theorem TextPart.append_eq_none (h : part.append data = none) : (part.bytes ++ data).length > MAX_TEXT_BYTES := by
  unfold append at h
  split_ifs at h with hlen
  simpa using hlen

end Append

theorem TextPart.value_group (part : TextPart) {a b c d : Char} (hq : part.quartet = [a, b, c]) (chars : JString)
    (segments : List Segment) :
    part.value (.encoded (d :: chars) :: segments) =
      if isQuartet [a, b, c, d] then
        (Base64.decode [a, b, c, d]).bind fun data =>
          (decodeAfter chars segments).map fun more => part.bytes ++ data ++ more
      else none := by
  obtain ⟨rest, tail, h⟩ := decodeAfter_eq segments
  have hchars : [a, b, c] ++ d :: chars ++ rest = a :: b :: c :: d :: (chars ++ rest) := rfl
  rw [value, decodeAfter_encoded, hq, h, h, hchars, decodeLead_quartet]
  split_ifs
  · cases Base64.decode [a, b, c, d] with
    | none => rfl
    | some data => simp [Option.map_map, Function.comp_def]
  · rfl

section Encoded

variable {part part' : TextPart} {b : UInt8} {data : Bytes}

theorem TextPart.encodedByte_eq_some (hq : part.quartet.length < 4) (h : part.encodedByte b = some part') :
    part'.quartet.length < 4 ∧ ∀ chars segments,
      part.value (.encoded (asciiChar b :: chars) :: segments) = part'.value (.encoded chars :: segments) := by
  unfold encodedByte at h
  dsimp only at h
  split_ifs at h with hbad hfull hgroup
  · obtain ⟨data, hdata, happ⟩ := Option.bind_eq_some_iff.mp h
    obtain rfl := append_eq_some happ
    refine ⟨by simp, fun chars segments => ?_⟩
    obtain ⟨x, y, z, hxyz⟩ : ∃ x y z, part.quartet = [x, y, z] := List.length_eq_three.mp (by simpa using hfull)
    rw [hxyz] at hgroup hdata
    rw [part.value_group hxyz, if_pos (by simpa using hgroup)]
    change ((Base64.decode ([x, y, z] ++ [asciiChar b])).bind _) = _
    rw [hdata, value, decodeAfter_encoded]
    rfl
  · obtain rfl := Option.some.inj h
    refine ⟨?_, fun chars segments => ?_⟩
    · simp only [List.length_append, List.length_cons, List.length_nil] at hfull ⊢
      omega
    · rw [value, value, decodeAfter_encoded, decodeAfter_encoded, List.append_assoc, List.singleton_append]

theorem TextPart.encodedByte_eq_none (hq : part.quartet.length < 4) (h : part.encodedByte b = none) (chars : JString)
    (segments : List Segment) : Hopeless (part.value (.encoded (asciiChar b :: chars) :: segments)) := by
  unfold encodedByte at h
  dsimp only at h
  split_ifs at h with hbad hfull hgroup
  · obtain ⟨rest, tail, hafter⟩ := decodeAfter_eq segments
    have hmem : asciiChar b ∈ (part.quartet ++ asciiChar b :: (chars ++ rest)).take 4 := by
      rw [List.take_append, List.mem_append, show 4 - part.quartet.length = (3 - part.quartet.length) + 1 by omega,
        List.take_succ_cons]
      exact .inr List.mem_cons_self
    rw [value, decodeAfter_encoded, hafter, List.append_assoc, List.cons_append, decodeLead_bad hmem hbad.1 hbad.2]
    exact hopeless_none
  · obtain ⟨x, y, z, hxyz⟩ : ∃ x y z, part.quartet = [x, y, z] := List.length_eq_three.mp (by simpa using hfull)
    rw [hxyz] at hgroup
    rw [part.value_group hxyz, if_neg (by simpa using hgroup)]
    exact hopeless_none
  · obtain ⟨x, y, z, hxyz⟩ : ∃ x y z, part.quartet = [x, y, z] := List.length_eq_three.mp (by simpa using hfull)
    rw [hxyz] at hgroup h
    rw [part.value_group hxyz, if_pos (by simpa using hgroup)]
    change Hopeless ((Base64.decode ([x, y, z] ++ [asciiChar b])).bind _)
    cases hdata : Base64.decode ([x, y, z] ++ [asciiChar b]) with
    | none => exact hopeless_none
    | some data =>
      rw [hdata] at h
      exact hopeless_map (append_eq_none h) _

theorem TextPart.encoded_eq_some (hq : part.quartet.length < 4) (h : part.encoded data = some part') :
    part'.quartet.length < 4 ∧ ∀ segments,
      part.value (.encoded (data.map asciiChar) :: segments) = part'.value segments := by
  induction data generalizing part with
  | nil =>
    obtain rfl := Option.some.inj h
    refine ⟨hq, fun segments => ?_⟩
    rw [value, value, decodeAfter_encoded, List.map_nil, List.append_nil]
  | cons b data ih =>
    rw [encoded, List.foldlM_cons] at h
    obtain ⟨next, hnext, h⟩ := Option.bind_eq_some_iff.mp h
    obtain ⟨hq', hvalue⟩ := encodedByte_eq_some hq hnext
    obtain ⟨hq'', hvalue'⟩ := ih hq' h
    exact ⟨hq'', fun segments => (hvalue _ segments).trans (hvalue' segments)⟩

theorem TextPart.encoded_eq_none (hq : part.quartet.length < 4) (h : part.encoded data = none)
    (segments : List Segment) : Hopeless (part.value (.encoded (data.map asciiChar) :: segments)) := by
  induction data generalizing part with
  | nil => cases h
  | cons b data ih =>
    rw [encoded, List.foldlM_cons] at h
    cases hnext : part.encodedByte b with
    | none => exact encodedByte_eq_none hq hnext _ segments
    | some next =>
      rw [hnext] at h
      obtain ⟨hq', hvalue⟩ := encodedByte_eq_some hq hnext
      rw [List.map_cons, hvalue]
      exact ih hq' h

theorem TextPart.plain_eq_some (h : part.plain data = some part') :
    part'.quartet.length < 4 ∧ ∀ segments, part.value (.plain data :: segments) = part'.value segments := by
  unfold plain at h
  split_ifs at h with hempty hplain
  obtain rfl := append_eq_some h
  have hq : part.quartet = [] := by simpa using hempty
  refine ⟨by simp [hq], fun segments => ?_⟩
  rw [value, value, hq, decodeAfter_plain, decodeQuartets_nil, Option.bind_some, if_pos (by simpa using hplain)]
  simp [Option.map_map, Function.comp_def]

theorem TextPart.plain_eq_none (hq : part.quartet.length < 4) (h : part.plain data = none) (segments : List Segment) :
    Hopeless (part.value (.plain data :: segments)) := by
  unfold plain at h
  rw [value, decodeAfter_plain]
  split_ifs at h with hempty hplain
  · rw [decodeQuartets_remainder (by simpa using hempty) hq]
    exact hopeless_none
  · cases decodeQuartets part.quartet with
    | none => exact hopeless_none
    | some bytes =>
      rw [Option.bind_some, if_neg (by simpa using hplain)]
      exact hopeless_none
  · have hnil : part.quartet = [] := by simpa using hempty
    rw [hnil, decodeQuartets_nil, Option.bind_some, if_pos (by simpa using hplain)]
    have hlen := hopeless_map (append_eq_none h) (decodeAfter [] segments)
    simpa [Option.map_map, Function.comp_def] using hlen

theorem TextPart.finish_eq_some (hq : part.quartet.length < 4) (h : part.finish = some part') :
    part.value [] = some part'.bytes := by
  unfold finish at h
  change (decodeStream part.quartet).map _ = _
  split_ifs at h with hempty hrem
  · obtain rfl := Option.some.inj h
    have hnil : part.quartet = [] := by simpa using hempty
    simp [hnil, decodeStream_nil]
  · obtain ⟨data, hdata, happ⟩ := Option.bind_eq_some_iff.mp h
    obtain rfl := append_eq_some happ
    rw [decodeStream_remainder (by simpa using hempty) hq, if_pos (by simpa using hrem), hdata]
    rfl

theorem TextPart.finish_eq_none (hq : part.quartet.length < 4) (h : part.finish = none) : Hopeless (part.value []) := by
  unfold finish at h
  change Hopeless ((decodeStream part.quartet).map _)
  split_ifs at h with hempty hrem
  · rw [decodeStream_remainder (by simpa using hempty) hq, if_neg (by simpa using hrem)]
    exact hopeless_none
  · rw [decodeStream_remainder (by simpa using hempty) hq, if_pos (by simpa using hrem)]
    cases hdata : Base64.decode part.quartet with
    | none => exact hopeless_none
    | some data =>
      rw [hdata] at h
      have hlen := append_eq_none h
      intro bytes hbytes
      obtain rfl := Option.some.inj hbytes
      exact hlen

end Encoded

theorem TextPart.length_le_of_value {part : TextPart} {segments : List Segment} {bytes : Bytes}
    (h : part.value segments = some bytes) : part.bytes.length ≤ bytes.length := by
  obtain ⟨more, -, rfl⟩ := Option.map_eq_some_iff.mp h
  simp

theorem TextPart.feed_eq_some {part part' : TextPart} {c : Chunk} (hq : part.quartet.length < 4)
    (h : part.feed c = some part') :
    part'.quartet.length < 4 ∧ ∀ segments, part.value (c.segment :: segments) = part'.value segments := by
  unfold feed at h
  unfold Chunk.segment
  split_ifs at h ⊢
  · exact encoded_eq_some hq h
  · exact plain_eq_some h

theorem TextPart.feed_eq_none {part : TextPart} {c : Chunk} (hq : part.quartet.length < 4) (h : part.feed c = none)
    (segments : List Segment) : Hopeless (part.value (c.segment :: segments)) := by
  unfold feed at h
  unfold Chunk.segment
  split_ifs at h ⊢
  · exact encoded_eq_none hq h segments
  · exact plain_eq_none hq h segments

/-! The assembly. -/

def textsOf (title body : Option Bytes) : Option (JString × JString) :=
  title.bind fun title => body.bind fun body => texts title body

theorem textsOf_hopeless_title {title : Option Bytes} (h : Hopeless title) (body : Option Bytes) :
    textsOf title body = none := by
  cases title with
  | none => rfl
  | some title =>
    cases body with
    | none => rfl
    | some body =>
      have hlen := h title rfl
      exact if_pos (by omega)

theorem textsOf_hopeless_body (title : Option Bytes) {body : Option Bytes} (h : Hopeless body) :
    textsOf title body = none := by
  cases title with
  | none => rfl
  | some title =>
    cases body with
    | none => rfl
    | some body =>
      have hlen := h body rfl
      exact if_pos (by omega)

namespace Assembly

/-- The remainders are incomplete quartets. -/
def Tidy (a : Assembly) : Prop := ∀ isBody, (a.part isBody).quartet.length < 4

/-- What is made of the chunks that are still to come. -/
def batch (a : Assembly) (chunks : List Chunk) : Option (JString × JString) :=
  if chunks.any Chunk.hasBadSound then none
  else textsOf ((a.part false).value (partSegments false chunks)) ((a.part true).value (partSegments true chunks))

theorem batch_new (session : ℕ) (id : Option JString) (now : ℕ) (chunks : List Chunk) :
    (Assembly.new session id now).batch chunks = assemble chunks := by
  have hvalue : ∀ segments, TextPart.value ⟨[], []⟩ segments = decodeSegments (joinSegments segments) := by
    intro segments
    rw [TextPart.value, decodeAfter_nil]
    simp
  unfold batch assemble
  split_ifs
  · rfl
  · change textsOf (TextPart.value ⟨[], []⟩ _) (TextPart.value ⟨[], []⟩ _) = _
    rw [hvalue, hvalue]
    rfl

theorem options_eq (a : Assembly) (c : Chunk) :
    (c.hasBadSound = true ∧ a.options c.options = none) ∨
    (c.hasBadSound = false ∧ ∃ a', a.options c.options = some a' ∧ a'.title = a.title ∧ a'.body = a.body ∧
      a'.session = a.session ∧ a'.id = a.id ∧ a'.created = a.created ∧ a'.failed = a.failed) := by
  unfold Chunk.hasBadSound options
  cases c.options.lookup 's' with
  | none => exact .inr ⟨rfl, _, rfl, rfl, rfl, rfl, rfl, rfl, rfl⟩
  | some encoded =>
    cases hsound : soundOf encoded with
    | none => exact .inl ⟨by simp [hsound], by simp [hsound]⟩
    | some sound =>
      dsimp only
      rw [hsound]
      exact .inr ⟨by simp [hsound], _, rfl, rfl, rfl, rfl, rfl, rfl, rfl⟩

theorem part_setPart (a : Assembly) (isBody isBody' : Bool) (part : TextPart) :
    (a.setPart isBody part).part isBody' = if isBody' = isBody then part else a.part isBody' := by
  cases isBody <;> cases isBody' <;> rfl

theorem add_eq (a : Assembly) (c : Chunk) :
    a.add c = (a.options c.options).bind fun a => ((a.part c.isBody).feed c).bind fun part =>
      let a := a.setPart c.isBody part
      if a.title.bytes.length + a.body.bytes.length > MAX_TEXT_BYTES then none else some a := rfl

theorem partSegments_cons (isBody : Bool) (c : Chunk) (chunks : List Chunk) :
    partSegments isBody (c :: chunks) =
      if c.isBody = isBody then c.segment :: partSegments isBody chunks else partSegments isBody chunks := by
  unfold partSegments
  rw [List.filter_cons]
  by_cases h : c.isBody = isBody <;> simp [h]

/-- The parts after a chunk. -/
theorem values_setPart {a : Assembly} {c : Chunk} {part : TextPart} (htidy : a.Tidy)
    (h : (a.part c.isBody).feed c = some part) :
    (a.setPart c.isBody part).Tidy ∧ ∀ isBody chunks,
      (a.part isBody).value (partSegments isBody (c :: chunks)) =
        ((a.setPart c.isBody part).part isBody).value (partSegments isBody chunks) := by
  obtain ⟨hq, hvalue⟩ := TextPart.feed_eq_some (htidy _) h
  refine ⟨fun isBody => ?_, fun isBody chunks => ?_⟩
  · rw [part_setPart]
    split_ifs
    · exact hq
    · exact htidy isBody
  · rw [part_setPart, partSegments_cons]
    by_cases hb : isBody = c.isBody
    · subst hb
      rw [if_pos rfl, if_pos rfl, hvalue]
    · rw [if_neg (Ne.symm hb), if_neg hb]

theorem batch_congr {a a' : Assembly} (htitle : a'.title = a.title) (hbody : a'.body = a.body) (chunks : List Chunk) :
    a'.batch chunks = a.batch chunks := by
  unfold batch part
  rw [htitle, hbody]

/-- A chunk changes texts and options only. -/
theorem add_fields {a a' : Assembly} {c : Chunk} (h : a.add c = some a') :
    a'.session = a.session ∧ a'.id = a.id ∧ a'.created = a.created ∧ a'.failed = a.failed := by
  rw [add_eq] at h
  obtain ⟨a₁, hopt, h⟩ := Option.bind_eq_some_iff.mp h
  obtain ⟨fed, -, h⟩ := Option.bind_eq_some_iff.mp h
  dsimp only at h
  split_ifs at h
  obtain rfl := Option.some.inj h
  obtain ⟨-, hnone⟩ | ⟨-, a₂, hopt', -, -, hrest⟩ := a.options_eq c
  · rw [hopt] at hnone
    cases hnone
  obtain rfl : a₁ = a₂ := Option.some.inj (hopt.symm.trans hopt')
  cases c.isBody <;> exact hrest

/-- What a chunk does to the texts of an assembly that takes it. -/
theorem add_eq_some {a a' : Assembly} {c : Chunk} (htidy : a.Tidy) (h : a.add c = some a') :
    a'.Tidy ∧ ∀ chunks, a.batch (c :: chunks) = a'.batch chunks := by
  rw [add_eq] at h
  obtain ⟨a₁, hopt, h⟩ := Option.bind_eq_some_iff.mp h
  obtain ⟨fed, hfeed, h⟩ := Option.bind_eq_some_iff.mp h
  dsimp only at h
  split_ifs at h
  obtain rfl := Option.some.inj h
  obtain ⟨-, hnone⟩ | ⟨hsound, a₂, hopt', htitle, hbody, -⟩ := a.options_eq c
  · rw [hopt] at hnone
    cases hnone
  obtain rfl : a₁ = a₂ := Option.some.inj (hopt.symm.trans hopt')
  have hparts : ∀ isBody, a₁.part isBody = a.part isBody := fun isBody => by simp [part, htitle, hbody]
  have htidy₁ : a₁.Tidy := fun isBody => by
    rw [hparts]
    exact htidy isBody
  obtain ⟨htidy', hvalues⟩ := values_setPart htidy₁ hfeed
  refine ⟨htidy', fun chunks => ?_⟩
  rw [← batch_congr htitle hbody, batch, batch, List.any_cons, hsound, Bool.false_or, hvalues, hvalues]

theorem add_eq_none {a : Assembly} {c : Chunk} (htidy : a.Tidy) (h : a.add c = none) (chunks : List Chunk) :
    a.batch (c :: chunks) = none := by
  obtain ⟨hbad, -⟩ | ⟨hsound, a₁, hopt, htitle, hbody, -⟩ := a.options_eq c
  · rw [batch, List.any_cons, hbad, Bool.true_or, if_pos rfl]
  have hparts : ∀ isBody, a₁.part isBody = a.part isBody := fun isBody => by simp [part, htitle, hbody]
  have htidy₁ : a₁.Tidy := fun isBody => by
    rw [hparts]
    exact htidy isBody
  rw [← batch_congr htitle hbody, batch]
  split_ifs
  · rfl
  rw [add_eq, hopt, Option.bind_some] at h
  cases hfeed : (a₁.part c.isBody).feed c with
  | none =>
    have hhopeless := TextPart.feed_eq_none (htidy₁ _) hfeed (partSegments c.isBody chunks)
    rw [partSegments_cons, partSegments_cons]
    cases hc : c.isBody <;> rw [hc] at hhopeless
    · exact textsOf_hopeless_title hhopeless _
    · exact textsOf_hopeless_body _ hhopeless
  | some part =>
    -- the two parts together are too large already
    rw [hfeed, Option.bind_some] at h
    dsimp only at h
    split_ifs at h with hlarge
    obtain ⟨-, hvalues⟩ := values_setPart htidy₁ hfeed
    rw [hvalues, hvalues]
    cases ht : ((a₁.setPart c.isBody part).part false).value (partSegments false chunks) with
    | none => rfl
    | some title =>
      cases hb : ((a₁.setPart c.isBody part).part true).value (partSegments true chunks) with
      | none => rfl
      | some body =>
        have hlent := TextPart.length_le_of_value ht
        have hlenb := TextPart.length_le_of_value hb
        change (a₁.setPart c.isBody part).title.bytes.length ≤ _ at hlent
        change (a₁.setPart c.isBody part).body.bytes.length ≤ _ at hlenb
        exact if_pos (by omega)

theorem batch_nil {a : Assembly} (htidy : a.Tidy) : a.batch [] = a.complete := by
  change textsOf (a.title.value []) (a.body.value []) = _
  unfold complete
  cases ht : a.title.finish with
  | none => exact textsOf_hopeless_title (TextPart.finish_eq_none (htidy false) ht) _
  | some title =>
    cases hb : a.body.finish with
    | none => exact textsOf_hopeless_body _ (TextPart.finish_eq_none (htidy true) hb)
    | some body =>
      have htitle := TextPart.finish_eq_some (htidy false) ht
      have hbody := TextPart.finish_eq_some (htidy true) hb
      change a.title.value [] = _ at htitle
      change a.body.value [] = _ at hbody
      rw [htitle, hbody]
      rfl

/-- The assembly after a chunk, as `pending` keeps it. -/
def receive (a : Assembly) (c : Chunk) : Assembly :=
  if a.failed then a else (a.add c).getD { a with failed := true }

/-- What is handed to `show` when no more chunks come. -/
def outcome (a : Assembly) : Option (JString × JString) := if a.failed then none else a.complete

theorem receive_session (a : Assembly) (c : Chunk) : (a.receive c).session = a.session := by
  unfold receive
  split_ifs
  · rfl
  cases hadd : a.add c with
  | none => rfl
  | some a' => exact (add_fields hadd).1

theorem receive_failed {a : Assembly} (h : a.failed = true) (chunks : List Chunk) : chunks.foldl receive a = a := by
  induction chunks with
  | nil => rfl
  | cons c chunks ih => rw [List.foldl_cons, receive, if_pos h, ih]

theorem outcome_foldl {a : Assembly} (htidy : a.Tidy) (hok : a.failed = false) (chunks : List Chunk) :
    (chunks.foldl receive a).outcome = a.batch chunks := by
  induction chunks generalizing a with
  | nil => rw [List.foldl_nil, outcome, hok, batch_nil htidy]; rfl
  | cons c chunks ih =>
    rw [List.foldl_cons, receive, hok]
    cases hadd : a.add c with
    | none =>
      rw [add_eq_none htidy hadd]
      dsimp only [Bool.false_eq_true, ↓reduceIte, Option.getD_none]
      rw [receive_failed rfl]
      rfl
    | some a' =>
      obtain ⟨htidy', hbatch⟩ := add_eq_some htidy hadd
      obtain ⟨-, -, -, hfailed⟩ := add_fields hadd
      rw [hbatch]
      exact ih htidy' (hfailed.trans hok)

/-- Chunk by chunk or as a whole: the same texts, or none. -/
theorem outcome_eq_assemble (session : ℕ) (id : Option JString) (now : ℕ) (chunks : List Chunk) :
    (chunks.foldl receive (Assembly.new session id now)).outcome = assemble chunks := by
  rw [outcome_foldl (fun isBody => by cases isBody <;> exact Nat.zero_lt_succ 3) rfl, batch_new]

end Assembly

end Tinyhack.Notify
