import Mathlib.Data.List.TakeWhile
import TinyhackSsh.Spec.SecurityKeyFiles
import TinyhackSsh.Proofs.KeyFiles
import TinyhackSsh.Proofs.SecurityKeySignature
import TinyhackSsh.Proofs.Utf8
import TinyhackSsh.Proofs.Wire

/-! The files of a security key read back: the metadata, the public line and the blob in it. -/

namespace Tinyhack.KeyFiles

open Wire
open Launch (trim trimOrEmpty isSpace)

/-! The blob. -/

section Blob

theorem beBytes_add (m k : ℕ) (n : ℤ) : beBytes (m + k) n = beBytes m (n / 256 ^ k) ++ beBytes k n := by
  induction k generalizing n with
  | zero => simp [beBytes]
  | succ k ih =>
    rw [← Nat.add_assoc, beBytes, ih, beBytes, List.append_assoc, Int.ediv_ediv_of_nonneg (by norm_num), pow_succ']

theorem beBytes_zero (k : ℕ) : beBytes k 0 = List.replicate k 0 := by
  induction k with
  | zero => rfl
  | succ k ih =>
    rw [beBytes, Int.zero_ediv, ih, List.replicate_succ']
    rfl

/-- Neither a sign byte nor missing leading bytes change the 32 bytes of a coordinate. -/
theorem copyUnsigned32_toByteArray {x : ℤ} (h0 : 0 ≤ x) (h : x < 2 ^ 256) :
    copyUnsigned32 (toByteArray x) = beBytes 32 x := by
  have hbits : bitLength x ≤ 256 := bitLength_le (by omega) h
  have hspec := (bitLength_spec x).2
  unfold toByteArray copyUnsigned32
  generalize hk : bitLength x / 8 + 1 = k
  rw [length_beBytes]
  by_cases hle : k ≤ 32
  · have hlt : x < 256 ^ k := by
      calc x < 2 ^ bitLength x := hspec
        _ ≤ 2 ^ (8 * k) := pow_le_pow_right₀ (by norm_num) (by omega)
        _ = 256 ^ k := by rw [pow_mul]; norm_num
    have hsplit : beBytes 32 x = beBytes (32 - k) (x / 256 ^ k) ++ beBytes k x := by
      rw [← beBytes_add, Nat.sub_add_cancel hle]
    rw [hsplit, Int.ediv_eq_zero_of_lt h0 hlt, beBytes_zero, Nat.sub_eq_zero_of_le hle, List.drop_zero]
  · obtain rfl : k = 33 := by omega
    have hsplit : beBytes 33 x = beBytes 1 (x / 256 ^ 32) ++ beBytes 32 x := beBytes_add 1 32 x
    rw [hsplit, Nat.sub_eq_zero_of_le (by omega : 32 ≤ 33), List.replicate_zero, List.nil_append,
      show 33 - 32 = 1 from rfl, List.drop_left' (length_beBytes 1 _)]

theorem length_point (x y : ℤ) : (0x04 :: beBytes 32 x ++ beBytes 32 y).length = 65 := by
  rw [List.length_append, List.length_cons, length_beBytes, length_beBytes]

theorem parseSkPublicKey_writeString {a b c d : Bytes} (ha : a.length < 2 ^ 32) (hb : b.length < 2 ^ 32)
    (hc : c.length < 2 ^ 32) (hd : d.length < 2 ^ 32) :
    parseSkPublicKey (writeString a ++ writeString b ++ writeString c ++ writeString d) = some ⟨a, b, c, d⟩ := by
  have hlast : SecurityKey.getString (writeString d) = some (d, []) := by
    have h := SecurityKey.getString_writeString hd []
    rwa [List.append_nil] at h
  unfold parseSkPublicKey
  rw [List.append_assoc, List.append_assoc, SecurityKey.getString_writeString ha, Option.bind_eq_bind, Option.bind_some]
  dsimp only
  rw [SecurityKey.getString_writeString hb, Option.bind_some]
  dsimp only
  rw [SecurityKey.getString_writeString hc, Option.bind_some]
  dsimp only
  rw [hlast, Option.bind_some]
  rfl

theorem parseSkPublicKey_blob {x y : ℤ} (hx0 : 0 ≤ x) (hx : x < 2 ^ 256) (hy0 : 0 ≤ y) (hy : y < 2 ^ 256) :
    parseSkPublicKey (buildSkPublicBlob x y SK_APPLICATION) =
      some ⟨encodeUtf8 Agent.SK_ECDSA_TYPE, encodeUtf8 "nistp256".toList, 0x04 :: beBytes 32 x ++ beBytes 32 y,
        encodeUtf8 SK_APPLICATION⟩ := by
  have hpoint : (0x04 :: beBytes 32 x ++ beBytes 32 y).length < 2 ^ 32 := by
    rw [length_point]
    norm_num
  rw [buildSkPublicBlob, copyUnsigned32_toByteArray hx0 hx, copyUnsigned32_toByteArray hy0 hy]
  exact parseSkPublicKey_writeString (by decide) (by decide) hpoint (by decide)

end Blob

/-! The alphabet of the encoded blob. -/

section Alphabet

theorem digit_encode (bs : Bytes) : ∀ c ∈ Base64.encode bs, Base64.digit c ≠ .skip := by
  have hchar : ∀ d < 64, Base64.digit (Base64.char d) ≠ .skip := fun d hd => by
    rw [Base64.digit_char hd]
    exact Base64.Digit.noConfusion
  have hpad : Base64.digit '=' ≠ .skip := by decide
  induction bs using Base64.encode.induct with
  | case1 => exact fun c hc => absurd hc List.not_mem_nil
  | case2 a =>
    have ha := a.toNat_lt
    simp only [Base64.encode, List.forall_mem_cons]
    exact ⟨hchar _ (by omega), hchar _ (by omega), hpad, hpad, fun c hc => absurd hc List.not_mem_nil⟩
  | case3 a b =>
    have ha := a.toNat_lt
    have hb := b.toNat_lt
    simp only [Base64.encode, List.forall_mem_cons]
    exact ⟨hchar _ (by omega), hchar _ (by omega), hchar _ (by omega), hpad, fun c hc => absurd hc List.not_mem_nil⟩
  | case4 a b c rest ih =>
    have ha := a.toNat_lt
    have hb := b.toNat_lt
    have hc := c.toNat_lt
    simp only [Base64.encode, List.forall_mem_cons]
    exact ⟨hchar _ (by omega), hchar _ (by omega), hchar _ (by omega), hchar _ (by omega), ih⟩

theorem decodeBase64_encode (bs : Bytes) : decodeBase64 (Base64.encode bs) = some bs := by
  have hvalid : isBase64 (Base64.encode bs) = true := by
    simp only [isBase64, Base64.decode_encode, Option.isSome_some, Bool.and_true, List.all_eq_true, decide_eq_true_eq]
    exact digit_encode bs
  rw [decodeBase64, if_pos hvalid, Base64.decode_encode]

/-- White space and line breaks are not in the alphabet. -/
theorem isSpace_of_digit {c : Char} (h : Base64.digit c ≠ .skip) : isSpace c = false := by
  rw [← Bool.not_eq_true]
  intro hspace
  simp only [isSpace, Bool.or_eq_true, decide_eq_true_eq] at hspace
  rcases hspace with ((((rfl | rfl) | rfl) | rfl) | rfl) | rfl <;> exact absurd h (by decide)

end Alphabet

/-! Lines. -/

section Lines

/-- A text whose last line is ended, without carriage returns, is read as it is. -/
theorem readLines_append (s line : JString) (h : '\r' ∉ s) :
    readLines line (s ++ ['\n']) = line ++ s ++ ['\n'] := by
  induction s generalizing line with
  | nil => simp [readLines]
  | cons c s ih =>
    have hc : c ≠ '\r' := fun heq => h (heq ▸ List.mem_cons_self)
    have hs : '\r' ∉ s := fun hmem => h (List.mem_cons_of_mem _ hmem)
    rw [List.cons_append, readLines]
    · by_cases hbreak : c = '\n'
      · rw [if_pos (.inl hbreak), ih _ hs, hbreak]
        simp
      · rw [if_neg (by simp [hbreak, hc]), ih _ hs]
        simp
    · exact fun _ heq => absurd heq hc

theorem readFile_eq {dir : Dir} {name : JString} {s : JString} (h : dir name = some (.file (encodeUtf8 (s ++ ['\n']))))
    (hs : '\r' ∉ s) : readFile dir name = s ++ ['\n'] := by
  rw [readFile, h]
  dsimp only
  rw [decodeUtf8_encodeUtf8, readLines_append s [] hs, List.nil_append]

end Lines

section Trim

/-- Neither end is a character that `trim` removes. -/
structure Trimmed (s : JString) : Prop where
  head : ∀ c, s.head? = some c → ¬ c ≤ ' '
  last : ∀ hne : s ≠ [], ¬ s.getLast hne ≤ ' '

theorem head?_of_prefix {α : Type} {l m : List α} {a : α} (h : l <+: m) (hl : l.head? = some a) : m.head? = some a := by
  obtain ⟨t, rfl⟩ := h
  cases l with
  | nil => cases hl
  | cons b l => exact hl

theorem trimmed_of_head {s : JString} {a : Char} (hhead : s.head? = some a) (ha : ¬ a ≤ ' ')
    (hlast : ∀ hne : s ≠ [], ¬ s.getLast hne ≤ ' ') : Trimmed s :=
  ⟨fun _ hc => Option.some.inj (hhead.symm.trans hc) ▸ ha, hlast⟩

theorem trimmed_trim (s : JString) : Trimmed (trim s) := by
  refine ⟨fun c hc => ?_, fun hne => ?_⟩
  · have hhead := head?_of_prefix (List.rdropWhile_prefix _ _) hc
    have hnot := List.head?_dropWhile_not (fun c : Char => decide (c ≤ ' ')) s
    rw [hhead] at hnot
    simpa using hnot
  · have hnot := List.rdropWhile_last_not (fun c : Char => decide (c ≤ ' ')) _ hne
    exact fun hle => hnot (decide_eq_true hle)

/-- Trimmed text comes back from its line. -/
theorem trim_append_newline {s : JString} (h : Trimmed s) (hne : s ≠ []) : trim (s ++ ['\n']) = s := by
  obtain ⟨c, cs, rfl⟩ := List.exists_cons_of_ne_nil hne
  have hhead : (c :: cs ++ ['\n']).dropWhile (fun c : Char => decide (c ≤ ' ')) = c :: cs ++ ['\n'] := by
    rw [List.cons_append, List.dropWhile_cons_of_neg]
    simpa using h.head c rfl
  rw [trim, hhead, List.rdropWhile_concat_pos _ _ _ (by decide), List.rdropWhile_eq_self_iff]
  intro hl
  simpa using h.last hl

theorem isSpace_le {c : Char} (h : isSpace c = true) : c ≤ ' ' := by
  simp only [isSpace, Bool.or_eq_true, decide_eq_true_eq] at h
  rcases h with ((((rfl | rfl) | rfl) | rfl) | rfl) | rfl <;> decide

theorem Trimmed.append {s t : JString} (hs : Trimmed s) (hne : s ≠ []) (ht : Trimmed t) (htne : t ≠ []) (m : JString) :
    Trimmed (s ++ m ++ t) := by
  refine ⟨fun c hc => hs.head c ?_, fun h => ?_⟩
  · obtain ⟨d, ds, rfl⟩ := List.exists_cons_of_ne_nil hne
    exact hc
  · rw [List.getLast_append_of_ne_nil h htne]
    exact ht.last htne

end Trim

section Split

/-- Two words, and a rest that does not begin with white space. -/
theorem splitThree_eq {first second rest : JString} (hfirst : ∀ c ∈ first, isSpace c = false)
    (hsecond : ∀ c ∈ second, isSpace c = false) (hne : second ≠ [])
    (hrest : ∀ c, rest.head? = some c → isSpace c = false) :
    splitThree (first ++ ' ' :: second ++ ' ' :: rest) = [first, second, rest] := by
  have hspace : isSpace ' ' = true := by decide
  have htake : ∀ word tail : JString, (∀ c ∈ word, isSpace c = false) →
      (word ++ ' ' :: tail).takeWhile (fun c => !isSpace c) = word := fun word tail hword => by
    rw [List.takeWhile_append_of_pos (by simpa using hword), List.takeWhile_cons_of_neg (by simp [hspace]),
      List.append_nil]
  have hdrop : ∀ word tail : JString, (∀ c ∈ word, isSpace c = false) →
      (word ++ ' ' :: tail).dropWhile (fun c => !isSpace c) = ' ' :: tail := fun word tail hword => by
    rw [List.dropWhile_append_of_pos (by simpa using hword), List.dropWhile_cons_of_neg (by simp [hspace])]
  have hskip : ∀ tail : JString, (∀ c, tail.head? = some c → isSpace c = false) →
      (' ' :: tail).dropWhile isSpace = tail := fun tail htail => by
    rw [List.dropWhile_cons_of_pos hspace]
    cases tail with
    | nil => rfl
    | cons c tail => rw [List.dropWhile_cons_of_neg (by simp [htail c rfl])]
  have hsecond_head : ∀ c, (second ++ ' ' :: rest).head? = some c → isSpace c = false := by
    obtain ⟨d, ds, rfl⟩ := List.exists_cons_of_ne_nil hne
    intro c hc
    obtain rfl : d = c := by simpa using hc
    exact hsecond d List.mem_cons_self
  simp only [splitThree, List.append_assoc, List.cons_append]
  rw [htake first _ hfirst, hdrop first _ hfirst, if_neg (List.cons_ne_nil _ _), hskip _ hsecond_head,
    htake second _ hsecond, hdrop second _ hsecond, if_neg (List.cons_ne_nil _ _), hskip _ hrest]

end Split

/-! The two files. -/

section Files

variable {dir : Dir} {name : JString} {comment : Option JString} {io : GenerateIo} {x y : ℤ}

theorem keyComment_ne (comment : Option JString) : keyComment comment ≠ [] := by
  unfold keyComment
  split_ifs with h
  · decide
  · simpa using h

theorem trimmed_keyComment (comment : Option JString) : Trimmed (keyComment comment) := by
  unfold keyComment
  split_ifs with h
  · exact trimmed_of_head (a := 'g') rfl (by decide) (by decide)
  · exact trimmed_trim _

theorem mem_keyComment {c : Char} (h : c ∈ keyComment comment) :
    c ∈ "ghostty-sk@android".toList ∨ c ∈ comment.getD [] := by
  unfold keyComment at h
  split_ifs at h
  · exact .inl h
  · exact .inr ((List.dropWhile_sublist _).subset ((List.rdropWhile_prefix _ _).subset h))

theorem write_written {content : Bytes} {w : Write} (h : (write dir name content w).2 = true) :
    (write dir name content w).1 name = some (.file content) := by
  obtain ⟨hdirectory, rfl⟩ := write_done.mp h
  rw [write, if_neg hdirectory]
  exact Function.update_self _ _ _

/-- What a successful `generateSecurityKeyPair` leaves. -/
theorem generateSecurityKeyPair_files (hpoint : io.point = some (x, y))
    (h : (generateSecurityKeyPair dir name comment io).2 = true) :
    isSafeKeyName name = true ∧
    (generateSecurityKeyPair dir name comment io).1 name = some (.file (encodeUtf8 (metadata name))) ∧
    (generateSecurityKeyPair dir name comment io).1 (pubName name) =
      some (.file (encodeUtf8 (publicLine x y comment))) := by
  unfold generateSecurityKeyPair at h ⊢
  rw [hpoint] at h ⊢
  dsimp only at h ⊢
  split_ifs at h ⊢ with hname hexists hmeta hpub
  · exact absurd h Bool.false_ne_true
  · exact absurd h Bool.false_ne_true
  · simp only [Bool.not_eq_true', Bool.not_eq_false, Bool.or_eq_true, not_or] at hname hmeta hpub
    refine ⟨hname, ?_, write_written hpub.1⟩
    rw [write_other (pubName_ne name).symm]
    exact write_written hmeta

theorem safe_char {c : Char} (hname : isSafeKeyName name = true) (hc : c ∈ name) :
    isLineBreak c = false ∧ c ≠ '\r' := by
  have hsafe : (isAlphanumeric c || c = '.' || c = '_' || c = '+' || c = '-') = true := by
    cases name with
    | nil => exact absurd hc List.not_mem_nil
    | cons d ds =>
      simp only [isSafeKeyName, Bool.and_eq_true, List.all_eq_true] at hname
      rcases List.mem_cons.mp hc with rfl | hmem
      · simp [hname.1.2]
      · exact hname.2 c hmem
  refine ⟨?_, ?_⟩
  · rw [← Bool.not_eq_true]
    intro hbreak
    simp only [isLineBreak, Bool.or_eq_true, decide_eq_true_eq] at hbreak
    rcases hbreak with ((((rfl | rfl) | rfl) | rfl) | rfl) | rfl <;> exact absurd hsafe (by decide)
  · rintro rfl
    exact absurd hsafe (by decide)

theorem eq_false_of_any {p : Char → Bool} {s : JString} (h : s.any p = false) : ∀ c ∈ s, p c = false := by
  intro c hc
  simpa using List.any_eq_false.mp h c hc

/-- The three lines of the metadata. -/
theorem splitOnP_metadata (hname : isSafeKeyName name = true) :
    (metadata name).splitOnP isLineBreak = [SK_MARKER, SK_ALIAS_PREFIX ++ name, SK_APPLICATION, []] := by
  have halias : ∀ c ∈ SK_ALIAS_PREFIX ++ name, isLineBreak c = false := by
    intro c hc
    rcases List.mem_append.mp hc with hc | hc
    · exact eq_false_of_any (by decide) c hc
    · exact (safe_char hname hc).1
  have hmarker : ∀ c ∈ SK_MARKER, isLineBreak c = false := eq_false_of_any (by decide)
  have happlication : ∀ c ∈ SK_APPLICATION, isLineBreak c = false := eq_false_of_any (by decide)
  have hbreak : isLineBreak '\n' = true := by decide
  have hshape : metadata name =
      SK_MARKER ++ '\n' :: ((SK_ALIAS_PREFIX ++ name) ++ '\n' :: (SK_APPLICATION ++ ['\n'])) := by
    simp [metadata]
  rw [hshape, List.splitOnP_append_cons_of_forall_mem hmarker _ hbreak,
    List.splitOnP_append_cons_of_forall_mem halias _ hbreak,
    List.splitOnP_append_cons_of_forall_mem happlication _ hbreak, List.splitOnP_nil]

theorem readFile_metadata (hfile : dir name = some (.file (encodeUtf8 (metadata name))))
    (hname : isSafeKeyName name = true) :
    readFile dir name = metadata name := by
  refine readFile_eq (s := SK_MARKER ++ '\n' :: SK_ALIAS_PREFIX ++ name ++ '\n' :: SK_APPLICATION) hfile ?_
  intro hmem
  rcases List.mem_append.mp hmem with hmem | hmem
  · rcases List.mem_append.mp hmem with hmem | hmem
    · exact absurd hmem (by decide)
    · exact (safe_char hname hmem).2 rfl
  · exact absurd hmem (by decide)

/-- The text of the public line. -/
def lineText (x y : ℤ) (comment : Option JString) : JString :=
  Agent.SK_ECDSA_TYPE ++ ' ' :: Base64.encode (buildSkPublicBlob x y SK_APPLICATION) ++ ' ' :: keyComment comment

theorem isSpace_encode (bs : Bytes) : ∀ c ∈ Base64.encode bs, isSpace c = false :=
  fun c hc => isSpace_of_digit (digit_encode bs c hc)

theorem readFile_public (hfile : dir (pubName name) = some (.file (encodeUtf8 (publicLine x y comment))))
    (hcomment : ∀ c ∈ comment.getD [], c ≠ '\n' ∧ c ≠ '\r') :
    readFile dir (pubName name) = lineText x y comment ++ ['\n'] := by
  refine readFile_eq hfile ?_
  intro hmem
  rcases List.mem_append.mp hmem with hmem | hmem
  · rcases List.mem_append.mp hmem with hmem | hmem
    · exact absurd hmem (by decide)
    · rcases List.mem_cons.mp hmem with hmem | hmem
      · exact absurd hmem (by decide)
      · exact absurd (isSpace_encode _ _ hmem) (by decide)
  · rcases List.mem_cons.mp hmem with hmem | hmem
    · exact absurd hmem (by decide)
    · rcases mem_keyComment hmem with hmem | hmem
      · exact absurd hmem (by decide)
      · exact (hcomment _ hmem).2 rfl

theorem trim_public : trim (lineText x y comment ++ ['\n']) = lineText x y comment := by
  have htype : Trimmed Agent.SK_ECDSA_TYPE := trimmed_of_head (a := 's') rfl (by decide) (by decide)
  have htrimmed := htype.append (by decide) (trimmed_keyComment comment) (keyComment_ne comment)
    (' ' :: Base64.encode (buildSkPublicBlob x y SK_APPLICATION) ++ [' '])
  refine trim_append_newline ?_ (by simp [lineText])
  simpa [lineText] using htrimmed

theorem encode_ne {bs : Bytes} (h : bs ≠ []) : Base64.encode bs ≠ [] := by
  intro hnil
  have hdecode := Base64.decode_encode bs
  rw [hnil] at hdecode
  exact h (Option.some.inj hdecode).symm

theorem readPublicFile_eq (hfile : dir (pubName name) = some (.file (encodeUtf8 (publicLine x y comment))))
    (hcomment : ∀ c ∈ comment.getD [], c ≠ '\n' ∧ c ≠ '\r') :
    readPublicFile dir name = some (buildSkPublicBlob x y SK_APPLICATION, keyComment comment) := by
  have hblob : buildSkPublicBlob x y SK_APPLICATION ≠ [] := by simp [buildSkPublicBlob, writeString, writeInt, beBytes]
  have hhead : ∀ c, (keyComment comment).head? = some c → isSpace c = false := by
    intro c hc
    rw [← Bool.not_eq_true]
    exact fun hspace => (trimmed_keyComment comment).head c hc (isSpace_le hspace)
  have hsplit : splitThree (lineText x y comment) =
      [Agent.SK_ECDSA_TYPE, Base64.encode (buildSkPublicBlob x y SK_APPLICATION), keyComment comment] :=
    splitThree_eq (eq_false_of_any (by decide)) (isSpace_encode _) (encode_ne hblob) hhead
  rw [readPublicFile, readFile_public hfile hcomment, trim_public, hsplit]
  dsimp only
  rw [if_pos rfl, decodeBase64_encode]
  rfl

end Files

section KeyAlias

/-- Without white space at its ends, a text has two parts if and only if it has two words, and then the same ones. -/
theorem words_splitThree {t : JString} (ht : Trimmed t) :
    (∃ a, splitThree t = [a] ∧ ∀ b c others, Words.words isSpace t ≠ b :: c :: others) ∨
    ∃ a b rest others, splitThree t = a :: b :: rest ∧ Words.words isSpace t = a :: b :: others := by
  cases t with
  | nil => exact .inl ⟨[], rfl, fun b c others h => List.cons_ne_nil b _ h.symm⟩
  | cons c s =>
    have hc : isSpace c = false := by
      rw [← Bool.not_eq_true]
      exact fun hspace => ht.head c rfl (isSpace_le hspace)
    have hwords := Words.words_eq_cons (s := s) hc
    have hsplit := List.takeWhile_append_dropWhile (p := fun c => !isSpace c) (l := c :: s)
    rw [splitThree]
    generalize (c :: s).takeWhile (fun c => !isSpace c) = first at hwords hsplit ⊢
    generalize (c :: s).dropWhile (fun c => !isSpace c) = rest at hwords hsplit ⊢
    dsimp only
    by_cases hrest : rest = []
    · rw [if_pos hrest]
      refine .inl ⟨first, rfl, fun b d others h => ?_⟩
      rw [hwords, hrest] at h
      exact List.cons_ne_nil d others (List.cons.inj h).2.symm
    · rw [if_neg hrest]
      have hnext : rest.dropWhile isSpace ≠ [] := by
        intro hnil
        have hlast := ht.last (List.cons_ne_nil c s)
        simp only [← hsplit, List.getLast_append_of_ne_nil _ hrest] at hlast
        exact hlast (isSpace_le (List.dropWhile_eq_nil_iff.mp hnil _ (List.getLast_mem hrest)))
      obtain ⟨d, u, hu⟩ := List.exists_cons_of_ne_nil hnext
      have hd : isSpace d = false := by
        have hnot := List.head?_dropWhile_not isSpace rest
        rw [hu] at hnot
        exact hnot
      rw [← Words.words_dropWhile rest, hu, Words.words_eq_cons hd] at hwords
      rw [hu]
      split_ifs with hlast
      · exact .inr ⟨first, _, [], _, rfl, hwords⟩
      · exact .inr ⟨first, _, [_], _, rfl, hwords⟩

theorem readAndroidSecurityKey_eq (dir : Dir) (name : JString) :
    readAndroidSecurityKey dir name = (readSecurityKey dir name).map AndroidSecurityKey.keyAlias := by
  unfold readAndroidSecurityKey readSecurityKey readPublicFile decodeBase64
  have hbase : ∀ blob, isBase64 blob = true → ∃ bytes, Base64.decode blob = some bytes := fun blob h => by
    simp only [isBase64, Bool.and_eq_true] at h
    exact Option.isSome_iff_exists.mp h.2
  rcases (readFile dir name).splitOnP isLineBreak with _ | ⟨marker, _ | ⟨keyAlias, _ | ⟨application, rest⟩⟩⟩
  · rfl
  · rfl
  · rfl
  · dsimp only
    split_ifs
    · obtain ⟨a, hsplit, hwords⟩ | ⟨a, b, parts, others, hsplit, hwords⟩ :=
        words_splitThree (trimmed_trim (readFile dir (pubName name)))
      · rw [hsplit]
        split
        · rename_i heq
          exact absurd heq (hwords _ _ _)
        · rfl
      · rw [hsplit, hwords]
        dsimp only
        by_cases htype : a = Agent.SK_ECDSA_TYPE
        · by_cases hb : isBase64 b = true
          · obtain ⟨bytes, hbytes⟩ := hbase b hb
            rw [if_pos ⟨htype, hb⟩, if_pos htype, if_pos hb, hbytes]
            rfl
          · rw [if_neg (fun h => hb h.2), if_pos htype, if_neg hb]
            rfl
        · rw [if_neg (fun h => htype h.1), if_neg htype]
          rfl
    · rfl

end KeyAlias

end Tinyhack.KeyFiles
