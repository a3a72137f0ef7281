import Mathlib.Data.List.TakeWhile
import TinyhackSsh.Spec.MoshConnect

/-! The launcher's reading of `MOSH CONNECT` lines against the wrapper's regular
expression. The launcher splits at the first space and looks at nothing else. -/

namespace Tinyhack.Mosh

/-- What both readers drop after the key: spaces, then line ends. -/
def Trailer (t : JString) : Prop :=
  ∃ spaces ends : JString, t = spaces ++ ends ∧ (∀ c ∈ spaces, c = ' ') ∧ ∀ c ∈ ends, isLineEnd c = true

/-- A line without a port or without a key. -/
def MissingField (line : JString) : Prop :=
  ' ' ∉ line.drop 13 ∨ (line.drop 13).head? = some ' ' ∨
    ∃ port t, line.drop 13 = port ++ ' ' :: t ∧ ' ' ∉ port ∧ Trailer t

def IsPort (port : JString) : Prop := port ≠ [] ∧ ∀ c ∈ port, isDigit c = true

def IsKey (key : JString) : Prop := key.length = 22 ∧ ∀ c ∈ key, isKeyChar c = true

/-- A line of the wrapper's form, with nothing but spaces and line ends after the key. -/
def PlainConnect (line : JString) : Prop :=
  ∃ port key t, line.drop 13 = port ++ ' ' :: (key ++ t) ∧ IsPort port ∧ IsKey key ∧ Trailer t

/-! ### Characters and trailing runs -/

theorem IsPort.space_notMem {port : JString} (h : IsPort port) : ' ' ∉ port := by
  intro hmem
  exact absurd (h.2 ' ' hmem) (by decide)

theorem isKeyChar_cases {c : Char} (h : isKeyChar c = true) : c ≠ ' ' ∧ isLineEnd c = false ∧ c ≠ '\x00' := by
  refine ⟨?_, ?_, ?_⟩
  · rintro rfl
    exact absurd h (by decide)
  · simp only [isLineEnd, Bool.or_eq_false_iff, decide_eq_false_iff_not]
    refine ⟨?_, ?_⟩ <;> rintro rfl <;> exact absurd h (by decide)
  · rintro rfl
    exact absurd h (by decide)

theorem IsKey.ne_nil {key : JString} (h : IsKey key) : key ≠ [] := by
  rintro rfl
  exact absurd h.1 (by decide)

theorem rdropWhile_append_eq (p : Char → Bool) (a b : JString) :
    (a ++ b).rdropWhile p = if b.rdropWhile p = [] then a.rdropWhile p else a ++ b.rdropWhile p := by
  simp only [List.rdropWhile, List.reverse_append, List.dropWhile_append, List.isEmpty_iff, List.reverse_eq_nil_iff]
  split_ifs
  · rfl
  · rw [List.reverse_append, List.reverse_reverse]

theorem rdropWhile_append_cons {p : Char → Bool} {c : Char} (hc : p c = false) (a b : JString) :
    (a ++ c :: b).rdropWhile p = a ++ c :: b.rdropWhile p := by
  rw [← List.singleton_append, ← List.append_assoc, rdropWhile_append_eq]
  split_ifs with hb
  · rw [hb, List.rdropWhile_concat_neg _ _ _ (by simp [hc])]
  · simp

theorem rdropWhile_append_all {p : Char → Bool} {b : JString} (hb : ∀ c ∈ b, p c = true) (a : JString) :
    (a ++ b).rdropWhile p = a.rdropWhile p := by
  rw [rdropWhile_append_eq, if_pos (List.rdropWhile_eq_nil_iff.mpr hb)]

theorem rdropWhile_eq_self {p : Char → Bool} {a : JString} (ha : ∀ c ∈ a, p c = false) : a.rdropWhile p = a := by
  rw [List.rdropWhile_eq_self_iff]
  intro hne
  simp [ha _ (List.getLast_mem hne)]

/-- The key the launcher takes from what follows the first space. -/
def keyOf (tail : JString) : JString := (tail.rdropWhile isLineEnd).rdropWhile (· = ' ')

theorem exists_trailer (tail : JString) : ∃ t, tail = keyOf tail ++ t ∧ Trailer t := by
  refine ⟨(tail.rdropWhile isLineEnd).rtakeWhile (· = ' ') ++ tail.rtakeWhile isLineEnd, ?_, _, _, rfl, ?_, ?_⟩
  · rw [← List.append_assoc, keyOf, List.rdropWhile_append_rtakeWhile, List.rdropWhile_append_rtakeWhile]
  · intro c hc
    simpa using List.mem_rtakeWhile_imp hc
  · intro c hc
    exact List.mem_rtakeWhile_imp hc

theorem keyOf_append {key t : JString} (hkey : ∀ c ∈ key, c ≠ ' ' ∧ isLineEnd c = false) (ht : Trailer t) :
    keyOf (key ++ t) = key := by
  obtain ⟨spaces, ends, rfl, hspaces, hends⟩ := ht
  have hplain : ∀ c ∈ key ++ spaces, isLineEnd c = false := by
    intro c hc
    rcases List.mem_append.mp hc with hc | hc
    · exact (hkey c hc).2
    · rw [hspaces c hc]
      decide
  rw [keyOf, ← List.append_assoc, rdropWhile_append_all hends, rdropWhile_eq_self hplain,
    rdropWhile_append_all (by simpa using hspaces), rdropWhile_eq_self]
  intro c hc
  simpa using (hkey c hc).1

theorem trailer_iff {tail : JString} : Trailer tail ↔ keyOf tail = [] := by
  constructor
  · intro h
    have hkey : keyOf ([] ++ tail) = [] := keyOf_append (by simp) h
    exact hkey
  · intro h
    obtain ⟨t, htail, ht⟩ := exists_trailer tail
    rwa [htail, h, List.nil_append]

theorem cString_eq_self {s : JString} (h : ∀ c ∈ s, c ≠ '\x00') : cString s = s := by
  rw [cString, List.takeWhile_eq_self_iff]
  simpa using h

/-! ### One line -/

/-- The launcher's reading of a raw line. -/
def launcherFields (line : JString) : Option (JString × JString) := connectFields (line.rdropWhile isLineEnd)

theorem exists_rest {line : JString} (h : startsWith connectTag line = true) : line = connectTag ++ line.drop 13 := by
  obtain ⟨rest, rfl⟩ := List.isPrefixOf_iff_prefix.mp h
  rfl

theorem rdropWhile_lineEnd {line : JString} (h : startsWith connectTag line = true) :
    line.rdropWhile isLineEnd = connectTag ++ (line.drop 13).rdropWhile isLineEnd := by
  conv_lhs => rw [exists_rest h]
  exact rdropWhile_append_cons (c := ' ') rfl "MOSH CONNECT".toList _

theorem launcherFields_of_notMem {line : JString} (h : startsWith connectTag line = true) (hsp : ' ' ∉ line.drop 13) :
    launcherFields line = none := by
  have hsub : ' ' ∉ (line.drop 13).rdropWhile isLineEnd := fun hmem => hsp ((List.rdropWhile_prefix _ _).subset hmem)
  rw [launcherFields, rdropWhile_lineEnd h]
  exact if_neg hsub

theorem launcherFields_of_split {line port tail : JString} (h : startsWith connectTag line = true)
    (hrest : line.drop 13 = port ++ ' ' :: tail) (hport : ' ' ∉ port) :
    launcherFields line = if port = [] ∨ keyOf tail = [] then none else some (port, keyOf tail) := by
  have hpos : ∀ c ∈ port, (decide (c ≠ ' ')) = true := by
    intro c hc
    simp only [decide_eq_true_eq]
    rintro rfl
    exact hport hc
  rw [launcherFields, rdropWhile_lineEnd h, hrest, rdropWhile_append_cons rfl, connectFields]
  have hdrop : (connectTag ++ (port ++ ' ' :: tail.rdropWhile isLineEnd)).drop 13 =
      port ++ ' ' :: tail.rdropWhile isLineEnd := rfl
  simp only [hdrop, List.takeWhile_append_of_pos hpos, List.dropWhile_append_of_pos hpos]
  simp [keyOf]

theorem wrapperFields_eq_some {line port key : JString} :
    wrapperFields line = some (port, key) ↔
      ∃ spaces, line.drop 13 = port ++ ' ' :: (key ++ spaces) ∧ IsPort port ∧ IsKey key ∧
        ∀ c ∈ spaces, isSpace c = true := by
  constructor
  · intro h
    have hrest := List.takeWhile_append_dropWhile (p := isDigit) (l := line.drop 13)
    rw [wrapperFields] at h
    split at h
    · cases h
    · rename_i c tail htail
      split_ifs at h with hform
      · obtain ⟨rfl, hport, hlen, hkey, hspaces⟩ := hform
        obtain ⟨rfl, rfl⟩ := Prod.mk.injEq .. ▸ Option.some.inj h
        refine ⟨tail.drop 22, ?_, ⟨hport, ?_⟩, ⟨hlen, ?_⟩, ?_⟩
        · rw [List.take_append_drop, ← htail, hrest]
        · intro d hd
          exact List.mem_takeWhile_imp hd
        · exact List.all_eq_true.mp hkey
        · exact List.all_eq_true.mp hspaces
  · rintro ⟨spaces, hrest, ⟨hne, hdigits⟩, ⟨hlen, hkey⟩, hspaces⟩
    have htake : (key ++ spaces).take 22 = key := List.take_left' hlen
    have hdrop : (key ++ spaces).drop 22 = spaces := List.drop_left' hlen
    have hport : (line.drop 13).takeWhile isDigit = port := by
      rw [hrest, List.takeWhile_append_of_pos hdigits, List.takeWhile_cons_of_neg (by decide), List.append_nil]
    have htail : (line.drop 13).dropWhile isDigit = ' ' :: (key ++ spaces) := by
      rw [hrest, List.dropWhile_append_of_pos hdigits, List.dropWhile_cons_of_neg (by decide)]
    simp only [wrapperFields, hport, htail, htake, hdrop]
    exact if_pos ⟨trivial, hne, hlen, List.all_eq_true.mpr hkey, List.all_eq_true.mpr hspaces⟩

theorem split_unique {port tail port' tail' : JString} (hport : ' ' ∉ port) (hport' : ' ' ∉ port')
    (h : port ++ ' ' :: tail = port' ++ ' ' :: tail') : port = port' ∧ tail = tail' := by
  have hpos : ∀ p : JString, ' ' ∉ p → ∀ c ∈ p, (decide (c ≠ ' ')) = true := by
    intro p hp c hc
    simp only [decide_eq_true_eq]
    rintro rfl
    exact hp hc
  have htake := congrArg (List.takeWhile (· ≠ ' ')) h
  rw [List.takeWhile_append_of_pos (hpos _ hport), List.takeWhile_append_of_pos (hpos _ hport')] at htake
  simp only [ne_eq, not_true_eq_false, decide_false, Bool.false_eq_true, not_false_eq_true, List.takeWhile_cons_of_neg,
    List.append_nil] at htake
  subst htake
  simpa using h

/-! The conditions and the wrapper's form, in the parts before and after the first space. -/

section Split

variable {line port tail : JString} (hrest : line.drop 13 = port ++ ' ' :: tail) (hport : ' ' ∉ port)
include hrest hport

theorem missingField_iff : MissingField line ↔ port = [] ∨ keyOf tail = [] := by
  constructor
  · rintro (hsp | hhead | ⟨port', t, hrest', hport', ht⟩)
    · exact absurd (by simp [hrest]) hsp
    · refine .inl (List.eq_nil_iff_forall_not_mem.mpr fun c hc => ?_)
      obtain ⟨d, port', rfl⟩ := List.exists_cons_of_ne_nil (List.ne_nil_of_mem hc)
      rw [hrest, List.cons_append, List.head?_cons, Option.some.injEq] at hhead
      exact hport (hhead ▸ List.mem_cons_self)
    · obtain ⟨rfl, rfl⟩ := split_unique hport hport' (hrest.symm.trans hrest')
      exact .inr (trailer_iff.mp ht)
  · rintro (rfl | hkey)
    · exact .inr (.inl (by rw [hrest, List.nil_append, List.head?_cons]))
    · exact .inr (.inr ⟨port, tail, hrest, hport, trailer_iff.mpr hkey⟩)

theorem plainConnect_iff : PlainConnect line ↔ IsPort port ∧ IsKey (keyOf tail) := by
  constructor
  · rintro ⟨port', key, t, hrest', hport', hkey, ht⟩
    obtain ⟨rfl, rfl⟩ := split_unique hport hport'.space_notMem (hrest.symm.trans hrest')
    rw [keyOf_append (fun c hc => ⟨(isKeyChar_cases (hkey.2 c hc)).1, (isKeyChar_cases (hkey.2 c hc)).2.1⟩) ht]
    exact ⟨hport', hkey⟩
  · rintro ⟨hp, hkey⟩
    obtain ⟨t, htail, ht⟩ := exists_trailer tail
    exact ⟨port, keyOf tail, t, htail ▸ hrest, hp, hkey, ht⟩

theorem wrapperFields_iff {port' key : JString} :
    wrapperFields line = some (port', key) ↔
      port' = port ∧ IsPort port ∧ IsKey key ∧ ∃ spaces, tail = key ++ spaces ∧ ∀ c ∈ spaces, isSpace c = true := by
  rw [wrapperFields_eq_some]
  constructor
  · rintro ⟨spaces, hrest', hport', hkey, hspaces⟩
    obtain ⟨rfl, rfl⟩ := split_unique hport hport'.space_notMem (hrest.symm.trans hrest')
    exact ⟨rfl, hport', hkey, spaces, rfl, hspaces⟩
  · rintro ⟨rfl, hport', hkey, spaces, rfl, hspaces⟩
    exact ⟨spaces, hrest, hport', hkey, hspaces⟩

end Split

theorem Trailer.space_or_lineEnd {t : JString} (ht : Trailer t) {c : Char} (hc : c ∈ t) :
    c = ' ' ∨ isLineEnd c = true := by
  obtain ⟨spaces, ends, rfl, hspaces, hends⟩ := ht
  rcases List.mem_append.mp hc with hc | hc
  · exact .inl (hspaces c hc)
  · exact .inr (hends c hc)

theorem isSpace_of_trailer {t : JString} (ht : Trailer t) : ∀ c ∈ t, isSpace c = true := by
  intro c hc
  rcases ht.space_or_lineEnd hc with rfl | hend
  · decide
  · rw [isLineEnd, Bool.or_eq_true, decide_eq_true_eq, decide_eq_true_eq] at hend
    rcases hend with rfl | rfl <;> decide

/-- The wrapper refuses a line with a field missing. -/
theorem wrapperFields_of_missing {line port tail : JString} (hrest : line.drop 13 = port ++ ' ' :: tail)
    (hport : ' ' ∉ port) (hmissing : port = [] ∨ keyOf tail = []) : wrapperFields line = none := by
  rw [Option.eq_none_iff_forall_ne_some]
  rintro ⟨port', key⟩ hfields
  obtain ⟨-, hport', hkey, spaces, rfl, -⟩ := (wrapperFields_iff hrest hport).mp hfields
  rcases hmissing with hnil | hnil
  · exact hport'.1 hnil
  · obtain ⟨c, key', rfl⟩ := List.exists_cons_of_ne_nil hkey.ne_nil
    obtain ⟨hspace, hend, -⟩ := isKeyChar_cases (hkey.2 c List.mem_cons_self)
    rcases (trailer_iff.mpr hnil).space_or_lineEnd (c := c) (by simp) with h | h
    · exact hspace h
    · exact absurd h (by simp [hend])

theorem cString_port {port : JString} (h : IsPort port) : cString port = port := by
  apply cString_eq_self
  rintro c hc rfl
  exact absurd (h.2 _ hc) (by decide)

theorem cString_key {key : JString} (h : IsKey key) : cString key = key :=
  cString_eq_self fun c hc => (isKeyChar_cases (h.2 c hc)).2.2

/-- Both readers take the same fields from a line that has both. -/
theorem wrapperFields_agree_iff {line port tail : JString} (hrest : line.drop 13 = port ++ ' ' :: tail)
    (hport : ' ' ∉ port) :
    wrapperFields line = some (cString port, cString (keyOf tail)) ↔ IsPort port ∧ IsKey (keyOf tail) := by
  obtain ⟨t, htail, ht⟩ := exists_trailer tail
  rw [wrapperFields_iff hrest hport]
  constructor
  · rintro ⟨-, hp, hkey, spaces, hspaces, hblank⟩
    -- neither the key nor the white space after it has a NUL, so nothing was cut off
    have hnul : ∀ c ∈ tail, c ≠ '\x00' := by
      intro c hc
      rw [hspaces] at hc
      rcases List.mem_append.mp hc with hc | hc
      · exact (isKeyChar_cases (hkey.2 c hc)).2.2
      · rintro rfl
        exact absurd (hblank _ hc) (by decide)
    have hself : cString (keyOf tail) = keyOf tail := by
      apply cString_eq_self
      intro c hc
      exact hnul c (htail ▸ List.mem_append_left t hc)
    exact ⟨hp, hself ▸ hkey⟩
  · rintro ⟨hp, hkey⟩
    rw [cString_key hkey]
    exact ⟨cString_port hp, hp, hkey, t, htail, isSpace_of_trailer ht⟩

theorem fields_agree_iff {line : JString} (h : startsWith connectTag line = true) :
    (launcherFields line).map (Prod.map cString cString) = wrapperFields line ↔
      MissingField line ∨ PlainConnect line := by
  by_cases hsp : ' ' ∈ line.drop 13
  · obtain ⟨port, tail, hrest, hport⟩ := List.eq_append_cons_of_mem hsp
    rw [launcherFields_of_split h hrest hport, missingField_iff hrest hport, plainConnect_iff hrest hport]
    by_cases hmissing : port = [] ∨ keyOf tail = []
    · simp [hmissing, wrapperFields_of_missing hrest hport hmissing]
    · rw [if_neg hmissing, Option.map_some, Prod.map_apply, eq_comm, wrapperFields_agree_iff hrest hport,
        or_iff_right hmissing]
  · have hnone : wrapperFields line = none := by
      rw [Option.eq_none_iff_forall_ne_some]
      rintro ⟨port, key⟩ hfields
      obtain ⟨spaces, hrest, -⟩ := wrapperFields_eq_some.mp hfields
      exact hsp (by simp [hrest])
    rw [launcherFields_of_notMem h hsp, hnone]
    exact iff_of_true rfl (.inl (.inl hsp))

/-! ### The output -/

theorem startsWith_rdropWhile (line : JString) :
    startsWith connectTag (line.rdropWhile isLineEnd) = startsWith connectTag line := by
  rw [Bool.eq_iff_iff]
  constructor
  · intro h
    exact List.isPrefixOf_iff_prefix.mpr ((List.isPrefixOf_iff_prefix.mp h).trans (List.rdropWhile_prefix _ _))
  · intro h
    rw [rdropWhile_lineEnd h]
    exact List.isPrefixOf_iff_prefix.mpr (List.prefix_append _ _)

/-- What the loop makes of the first `MOSH CONNECT` line. -/
def Connect.ofLine (line : Option JString) : Connect :=
  line.elim .missing fun l => (launcherFields l).elim .bad fun f => .found f.1 f.2

/-- The loop stops at that line, whatever address it has read so far. -/
theorem readOutput_connect (ip : JString) (lines : List JString) :
    (readOutput ip lines).connect = .ofLine (connectLine lines) := by
  induction lines generalizing ip with
  | nil => rfl
  | cons line lines ih =>
    rw [readOutput, startsWith_rdropWhile, connectLine, List.find?_cons]
    cases hline : startsWith connectTag line with
    | true =>
      simp only [if_true, Connect.ofLine, Option.elim_some, launcherFields]
      cases connectFields (line.rdropWhile isLineEnd) <;> rfl
    | false =>
      simp only [Bool.false_eq_true, if_false]
      split_ifs <;> exact ih _

/-- The port and the key mosh-client is started with. -/
theorem startClient_fields (resolveNumeric : JString → Option JString) (o : Options) (lines : List JString) :
    (startClient resolveNumeric o lines).map (fun c => (c.port, c.key)) =
      (resolveNumeric (serverAddress o lines)).bind fun _ =>
        (connectLine lines).bind fun line => (launcherFields line).map (Prod.map cString cString) := by
  rw [startClient, readOutput_connect]
  cases resolveNumeric (serverAddress o lines) <;> cases connectLine lines with
  | none => rfl
  | some line => cases hfields : launcherFields line <;> simp [Connect.ofLine, hfields, Prod.map]

/-- Whatever the resolver answers, the launcher starts mosh-client with the wrapper's port and key,
and only where the wrapper accepts the line, exactly if the first `MOSH CONNECT` line lacks a field,
or has the wrapper's form and nothing but spaces and line ends after the key. -/
theorem startClient_agrees_iff (o : Options) (lines : List JString) :
    (∀ resolveNumeric, (startClient resolveNumeric o lines).map (fun c => (c.port, c.key)) =
      (resolveNumeric (serverAddress o lines)).bind fun _ => (connectLine lines).bind wrapperFields) ↔
    ∀ line, connectLine lines = some line → MissingField line ∨ PlainConnect line := by
  constructor
  · intro h line hline
    have hstart : startsWith connectTag line = true := List.find?_some hline
    have hfields := h some
    rw [startClient_fields, hline] at hfields
    exact (fields_agree_iff hstart).mp hfields
  · intro h resolveNumeric
    rw [startClient_fields]
    cases hline : connectLine lines with
    | none => rfl
    | some line =>
      have hstart : startsWith connectTag line = true := List.find?_some hline
      simp only [Option.bind_some]
      rw [(fields_agree_iff hstart).mpr (h line hline)]

/-- The launcher hands any two words to mosh-client; the wrapper's form has no match. -/
theorem startClient_accepts_words :
    (startClient some { Options.initial with userhost := "me@host".toList } ["MOSH CONNECT any thing".toList]).map
      (fun c => (c.port, c.key)) = some ("any".toList, "thing".toList) ∧
    (connectLine ["MOSH CONNECT any thing".toList]).bind wrapperFields = none := by
  decide

end Tinyhack.Mosh
