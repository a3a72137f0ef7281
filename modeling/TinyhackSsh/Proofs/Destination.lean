import TinyhackSsh.Proofs.Launch

/-! The destinations that pass the check of a profile, against the grammar `host:port` or
`[host]:port`. `Integer.parseInt` takes a sign and the digits of other scripts too. -/

namespace Tinyhack.Launch

/-! The grammar. -/

def isAsciiDigit (c : Char) : Bool := '0' ≤ c && c ≤ '9'

def portValue (port : JString) : ℕ := port.foldl (fun acc c => acc * 10 + (c.toNat - '0'.toNat)) 0

def IsPort (port : JString) : Prop :=
  port ≠ [] ∧ port.all isAsciiDigit = true ∧ 1 ≤ portValue port ∧ portValue port ≤ 65535

instance (port : JString) : Decidable (IsPort port) := inferInstanceAs (Decidable (_ ∧ _))

/-- The text of a host and a port. -/
def Written (text host port : JString) : Prop :=
  text.head? ≠ some '[' ∧ text = host ++ ':' :: port ∨ text = '[' :: host ++ "]:".toList ++ port

def WellFormed (text : JString) : Prop := ∃ host port, Written text host port ∧ isValidHost host = true ∧ IsPort port

/-- A number from 1 to 65535 for `Integer.parseInt`. -/
def ParsedPort (digit : Char → Option ℕ) (port : JString) : Prop :=
  ∃ n, parseInt digit port = some n ∧ 1 ≤ n ∧ n ≤ 65535

/-- A port with a plus sign or with digits that are not ASCII. -/
def ForeignPort (digit : Char → Option ℕ) (port : JString) : Prop :=
  ParsedPort digit port ∧ (port.head? = some '+' ∨ ∃ c ∈ port, 0x80 ≤ c.toNat)

/-- `Character.digit` on ASCII. -/
def AsciiDigits (digit : Char → Option ℕ) : Prop :=
  ∀ c : Char, c.toNat < 0x80 → digit c = if isAsciiDigit c then some (c.toNat - '0'.toNat) else none

/-! Separators. -/

section Separators

variable {host port text : JString} {c : Char} {i : ℕ}

theorem lastIndexOf_append (hport : c ∉ port) : lastIndexOf (host ++ c :: port) c = some host.length := by
  have hlength : (host ++ c :: port).length = host.length + (port.length + 1) := by simp
  have hlater : (((List.range port.length).map (1 + ·)).map (host.length + ·)).reverse.find?
      (fun i => decide ((host ++ c :: port)[i]? = some c)) = none := by
    rw [List.find?_eq_none]
    intro j hj
    simp only [List.mem_reverse, List.mem_map, List.mem_range] at hj
    obtain ⟨_, ⟨k, hk, rfl⟩, rfl⟩ := hj
    have hget : (host ++ c :: port)[host.length + (1 + k)]? = port[k]? := by
      rw [List.getElem?_append_right (by omega), Nat.add_sub_cancel_left, Nat.add_comm 1 k, List.getElem?_cons_succ]
    rw [hget]
    intro hc
    exact hport (List.mem_of_getElem? (of_decide_eq_true hc))
  unfold lastIndexOf
  rw [hlength, List.range_add, Nat.add_comm port.length 1, List.range_add, List.map_append, List.reverse_append,
    List.reverse_append, List.find?_append, List.find?_append, hlater]
  simp

theorem split_of_lastIndexOf (h : lastIndexOf text c = some i) :
    text = text.take i ++ c :: text.drop (i + 1) := by
  have hget : text[i]? = some c := by simpa using List.find?_some h
  obtain ⟨hi, hc⟩ := List.getElem?_eq_some_iff.mp hget
  rw [← hc, List.cons_getElem_drop_succ, List.take_append_drop]

theorem indexOf_bracket (hhost : ']' ∉ host) :
    indexOf ('[' :: host ++ "]:".toList ++ port) "]:".toList = some (host.length + 1) := by
  unfold indexOf
  rw [List.find?_range_eq_some]
  have hdrop : ('[' :: host ++ "]:".toList ++ port).drop (host.length + 1) = "]:".toList ++ port := by
    rw [List.append_assoc]
    exact @List.drop_left _ ('[' :: host) _
  refine ⟨?_, by simp, ?_⟩
  · rw [hdrop, List.isPrefixOf_iff_prefix]
    exact List.prefix_append _ _
  · intro j hj
    rw [Bool.not_eq_true', ← Bool.not_eq_true, List.isPrefixOf_iff_prefix]
    rintro ⟨rest, hrest⟩
    have hget : ('[' :: host ++ "]:".toList ++ port)[j]? = some ']' := by
      rw [← List.head?_drop, ← hrest]
      rfl
    rw [List.append_assoc, List.getElem?_append_left (by simpa using hj)] at hget
    have hmem := List.mem_of_getElem? hget
    simp only [List.mem_cons, Char.reduceEq, false_or] at hmem
    exact hhost hmem

theorem split_of_indexOf {pat : JString} (h : indexOf text pat = some i) :
    text = text.take i ++ pat ++ text.drop (i + pat.length) := by
  have hfound := List.find?_some (p := fun i => pat.isPrefixOf (text.drop i)) h
  obtain ⟨rest, hrest⟩ := List.isPrefixOf_iff_prefix.mp hfound
  have hdrop : text.drop (i + pat.length) = rest := by
    rw [← List.drop_drop, ← hrest, List.drop_left]
  rw [hdrop, List.append_assoc, hrest, List.take_append_drop]

end Separators

section Split

variable {text host port : JString}

theorem isHostChar_of_mem {c : Char} (h : isValidHost host = true) (hc : c ∈ host) : isHostChar c = true := by
  unfold isValidHost at h
  simp only [Bool.and_eq_true, List.all_eq_true] at h
  exact h.2 c hc

theorem host_ne_nil (h : isValidHost host = true) : host ≠ [] := by
  rintro rfl
  exact absurd h (by decide)

/-- The search for the separators finds the host and the port that are written. -/
theorem splitDestination_of_written (hhost : isValidHost host = true) (hne : port ≠ []) (hport : ':' ∉ port)
    (h : Written text host port) : splitDestination text = .ok (host, port) := by
  have hpos : 0 < host.length := List.length_pos_iff.mpr (host_ne_nil hhost)
  have hportpos : 0 < port.length := List.length_pos_iff.mpr hne
  unfold splitDestination
  obtain ⟨hhead, rfl⟩ | rfl := h
  · rw [if_neg hhead, lastIndexOf_append hport]
    dsimp only
    rw [if_neg (by rw [List.length_append, List.length_cons]; omega), List.take_left]
    simp [← List.drop_drop]
  · have hbracket : ']' ∉ host := fun hmem => absurd (isHostChar_of_mem hhost hmem) (by decide)
    have hhead : ('[' :: host ++ "]:".toList ++ port).head? = some '[' := rfl
    rw [if_pos hhead, indexOf_bracket hbracket]
    dsimp only
    have htake : ('[' :: host ++ "]:".toList ++ port).take (host.length + 1) = '[' :: host := by
      rw [List.append_assoc]
      exact @List.take_left _ ('[' :: host) _
    have hdrop : ('[' :: host ++ "]:".toList ++ port).drop (host.length + 1 + 2) = port :=
      List.drop_left' (by simp)
    rw [if_neg (by omega), htake, hdrop]
    rfl

theorem written_of_splitDestination (h : splitDestination text = .ok (host, port)) : Written text host port := by
  unfold splitDestination at h
  split_ifs at h with hhead
  · right
    cases hlast : indexOf text "]:".toList with
    | none =>
      rw [hlast] at h
      exact absurd h (by simp)
    | some last =>
      rw [hlast] at h
      dsimp only at h
      split_ifs at h with hle
      have hsplit := split_of_indexOf hlast
      simp only [Except.ok.injEq, Prod.mk.injEq] at h
      obtain ⟨rfl, rfl⟩ := h
      have hfirst : text.take last = '[' :: (text.take last).drop 1 := by
        cases text with
        | nil => exact absurd hhead (by simp)
        | cons c text =>
          obtain rfl : c = '[' := by simpa using hhead
          obtain ⟨k, rfl⟩ : ∃ k, last = k + 1 := ⟨last - 1, by omega⟩
          rfl
      rw [← hfirst]
      exact hsplit
  · left
    cases hcolon : lastIndexOf text ':' with
    | none =>
      rw [hcolon] at h
      exact absurd h (by simp)
    | some colon =>
      rw [hcolon] at h
      dsimp only at h
      split_ifs at h
      simp only [Except.ok.injEq, Prod.mk.injEq] at h
      obtain ⟨rfl, rfl⟩ := h
      exact ⟨hhead, split_of_lastIndexOf hcolon⟩

end Split

/-! Ports. -/

section Ports

variable {digit : Char → Option ℕ} {port : JString}

/-- The digits of a number, from an accumulator. -/
def digitsFrom (digit : Char → Option ℕ) (acc : ℕ) (s : JString) : Option ℕ :=
  s.foldlM (fun acc c => (digit c).map (acc * 10 + ·)) acc

theorem isSome_digit_of_digitsFrom {s : JString} {acc n : ℕ} (h : digitsFrom digit acc s = some n) :
    ∀ c ∈ s, (digit c).isSome = true := by
  induction s generalizing acc with
  | nil => nofun
  | cons c s ih =>
    unfold digitsFrom at h
    rw [List.foldlM_cons] at h
    obtain ⟨m, hm, hrest⟩ := Option.bind_eq_some_iff.mp h
    obtain ⟨d, hd, -⟩ := Option.map_eq_some_iff.mp hm
    intro e he
    obtain rfl | he := List.mem_cons.mp he
    · rw [hd]
      rfl
    · exact ih hrest e he

theorem digitsFrom_ascii (hdigit : AsciiDigits digit) {s : JString} (h : s.all isAsciiDigit = true) (acc : ℕ) :
    digitsFrom digit acc s = some (s.foldl (fun acc c => acc * 10 + (c.toNat - '0'.toNat)) acc) := by
  induction s generalizing acc with
  | nil => rfl
  | cons c s ih =>
    rw [List.all_cons, Bool.and_eq_true] at h
    have hlt : c.toNat < 0x80 := by
      have hle : c ≤ '9' := by
        have hc := h.1
        simp only [isAsciiDigit, Bool.and_eq_true, decide_eq_true_eq] at hc
        exact hc.2
      have hnat : c.toNat ≤ '9'.toNat := hle
      simp only [Char.reduceToNat] at hnat
      omega
    have hc : digit c = some (c.toNat - '0'.toNat) := by rw [hdigit c hlt, if_pos h.1]
    unfold digitsFrom
    rw [List.foldlM_cons, hc]
    exact ih h.2 _

theorem parseInt_unsigned (hminus : port.head? ≠ some '-') (hplus : port.head? ≠ some '+') (hne : port ≠ []) :
    parseInt digit port = (digitsFrom digit 0 port).bind fun n =>
      if -2 ^ 31 ≤ (n : ℤ) ∧ (n : ℤ) < 2 ^ 31 then some (n : ℤ) else none := by
  have hsign : ¬ (port.head? = some '-' ∨ port.head? = some '+') := fun h => h.elim hminus hplus
  unfold parseInt
  dsimp only
  rw [if_neg hsign, if_neg (by simpa using hne)]
  simp only [if_neg hminus]
  rfl

theorem parseInt_signed {c : Char} {s : JString} {n : ℤ} (hc : c = '-' ∨ c = '+')
    (h : parseInt digit (c :: s) = some n) : ∃ m, digitsFrom digit 0 s = some m ∧ (c = '-' → n ≤ 0) := by
  have hsign : (c :: s).head? = some '-' ∨ (c :: s).head? = some '+' := by simpa using hc
  unfold parseInt at h
  dsimp only at h
  rw [if_pos hsign] at h
  by_cases hempty : s.isEmpty = true
  · rw [List.tail_cons, if_pos hempty] at h
    exact absurd h (by simp)
  · rw [List.tail_cons, if_neg hempty] at h
    obtain ⟨m, hm, h⟩ := Option.bind_eq_some_iff.mp h
    refine ⟨m, hm, ?_⟩
    rintro rfl
    simp only [List.head?_cons, if_true, Option.ite_none_right_eq_some, Option.some.injEq] at h
    omega

/-- What `Integer.parseInt` takes, after a sign if there is one. -/
theorem parseInt_eq_some {n : ℤ} (h : parseInt digit port = some n) :
    (∃ c s m, port = c :: s ∧ (c = '-' ∨ c = '+') ∧ digitsFrom digit 0 s = some m ∧ (c = '-' → n ≤ 0)) ∨
    (port ≠ [] ∧ ∃ m : ℕ, digitsFrom digit 0 port = some m ∧ n = m) := by
  cases port with
  | nil => exact absurd h (by simp [parseInt])
  | cons c s =>
    by_cases hc : c = '-' ∨ c = '+'
    · obtain ⟨m, hm, hneg⟩ := parseInt_signed hc h
      exact Or.inl ⟨c, s, m, rfl, hc, hm, hneg⟩
    · obtain ⟨hminus, hplus⟩ := not_or.mp hc
      rw [parseInt_unsigned (by simpa using hminus) (by simpa using hplus) (List.cons_ne_nil c s)] at h
      obtain ⟨m, hm, h⟩ := Option.bind_eq_some_iff.mp h
      simp only [Option.ite_none_right_eq_some, Option.some.injEq] at h
      exact Or.inr ⟨List.cons_ne_nil c s, m, hm, h.2.symm⟩

theorem colon_notMem_of_parsed (hdigit : AsciiDigits digit) (h : ParsedPort digit port) : port ≠ [] ∧ ':' ∉ port := by
  have hcolon : digit ':' = none := hdigit ':' (by decide)
  have hnotMem : ∀ {s : JString} {m : ℕ}, digitsFrom digit 0 s = some m → ':' ∉ s := by
    intro s m hm hmem
    have hsome := isSome_digit_of_digitsFrom hm ':' hmem
    rw [hcolon] at hsome
    exact absurd hsome (by decide)
  obtain ⟨n, hn, -⟩ := h
  obtain ⟨c, s, m, rfl, hc, hm, -⟩ | ⟨hne, m, hm, -⟩ := parseInt_eq_some hn
  · refine ⟨List.cons_ne_nil c s, fun hmem => ?_⟩
    obtain rfl | hmem := List.mem_cons.mp hmem
    · exact absurd hc (by decide)
    · exact hnotMem hm hmem
  · exact ⟨hne, hnotMem hm⟩

theorem parsed_of_isPort (hdigit : AsciiDigits digit) (h : IsPort port) : ParsedPort digit port := by
  obtain ⟨hne, hall, hlo, hhi⟩ := h
  cases port with
  | nil => exact absurd rfl hne
  | cons c s =>
    have hc : isAsciiDigit c = true := by
      rw [List.all_cons, Bool.and_eq_true] at hall
      exact hall.1
    have hminus : c ≠ '-' := by
      rintro rfl
      exact absurd hc (by decide)
    have hplus : c ≠ '+' := by
      rintro rfl
      exact absurd hc (by decide)
    have hvalue : digitsFrom digit 0 (c :: s) = some (portValue (c :: s)) := digitsFrom_ascii hdigit hall 0
    refine ⟨portValue (c :: s), ?_, by exact_mod_cast hlo, by exact_mod_cast hhi⟩
    rw [parseInt_unsigned (by simpa using hminus) (by simpa using hplus) (List.cons_ne_nil c s), hvalue,
      Option.bind_some, if_pos (by omega)]

/-- Of what is parsed, the grammar leaves out the plus sign and the digits of other scripts. -/
theorem isPort_iff (hdigit : AsciiDigits digit) : IsPort port ↔ ParsedPort digit port ∧ ¬ ForeignPort digit port := by
  constructor
  · intro h
    refine ⟨parsed_of_isPort hdigit h, ?_⟩
    rintro ⟨-, hplus | ⟨c, hc, hlong⟩⟩
    · cases port with
      | nil => exact absurd hplus (by simp)
      | cons c s =>
        obtain rfl : c = '+' := by simpa using hplus
        have hall := h.2.1
        rw [List.all_cons, Bool.and_eq_true] at hall
        exact absurd hall.1 (by decide)
    · have hdig : c ≤ '9' := by
        have hall := List.all_eq_true.mp h.2.1 c hc
        simp only [isAsciiDigit, Bool.and_eq_true, decide_eq_true_eq] at hall
        exact hall.2
      have hnat : c.toNat ≤ '9'.toNat := hdig
      simp only [Char.reduceToNat] at hnat
      omega
  · rintro ⟨⟨n, hn, hlo, hhi⟩, hforeign⟩
    have hascii : ∀ c ∈ port, c.toNat < 0x80 := by
      intro c hc
      by_contra hlong
      exact hforeign ⟨⟨n, hn, hlo, hhi⟩, Or.inr ⟨c, hc, by omega⟩⟩
    obtain ⟨c, s, m, rfl, rfl | rfl, hm, hneg⟩ | ⟨hne, m, hm, rfl⟩ := parseInt_eq_some hn
    · have hle := hneg rfl
      omega
    · exact absurd ⟨⟨n, hn, hlo, hhi⟩, Or.inl rfl⟩ hforeign
    · have hall : port.all isAsciiDigit = true := by
        rw [List.all_eq_true]
        intro c hc
        have hsome := isSome_digit_of_digitsFrom hm c hc
        rw [hdigit c (hascii c hc)] at hsome
        split_ifs at hsome with hdig
        · exact hdig
        · exact absurd hsome (by decide)
      rw [digitsFrom_ascii hdigit hall] at hm
      obtain rfl : portValue port = m := Option.some.inj hm
      exact ⟨hne, hall, by exact_mod_cast hlo, by exact_mod_cast hhi⟩

end Ports

/-! The check. -/

section Check

variable {app : App} {text : JString}

/-- The destinations that have a plus sign or a digit of another script in the port. -/
def ForeignDestination (app : App) (text : JString) : Prop :=
  ∃ host port, Written text host port ∧ isValidHost host = true ∧ ForeignPort app.digit port

/-- What the check accepts. -/
theorem destination_accepted_iff (hdigit : AsciiDigits app.digit) (hne : trimOrEmpty (some text) ≠ []) :
    destinationValidationError app (some text) = none ↔
      ∃ host port, Written (trimOrEmpty (some text)) host port ∧ isValidHost host = true ∧
        ParsedPort app.digit port := by
  unfold destinationValidationError
  dsimp only
  rw [if_neg (by simpa using hne)]
  constructor
  · intro h
    cases hsplit : splitDestination (trimOrEmpty (some text)) with
    | error message =>
      rw [hsplit] at h
      exact absurd h (by simp)
    | ok parts =>
      obtain ⟨host, port⟩ := parts
      rw [hsplit] at h
      dsimp only at h
      split_ifs at h with hhost
      cases hparse : parseInt app.digit port with
      | none =>
        rw [hparse] at h
        exact absurd h (by simp)
      | some n =>
        rw [hparse] at h
        dsimp only at h
        split_ifs at h with hrange
        refine ⟨host, port, written_of_splitDestination hsplit, ?_, n, hparse, by omega, by omega⟩
        simpa using hhost
  · rintro ⟨host, port, hwritten, hhost, hport⟩
    obtain ⟨hportne, hcolon⟩ := colon_notMem_of_parsed hdigit hport
    obtain ⟨n, hn, hlo, hhi⟩ := hport
    rw [splitDestination_of_written hhost hportne hcolon hwritten]
    dsimp only
    rw [hhost, hn]
    dsimp only
    rw [if_neg (by decide), if_neg (by omega)]

/-- A text is written of one host and one port only. -/
theorem not_wellFormed_of_foreign (app : App) (hdigit : AsciiDigits app.digit) (h : ForeignDestination app text) :
    ¬ WellFormed text := by
  obtain ⟨host, port, hwritten, hhost, hforeign⟩ := h
  rintro ⟨host', port', hwritten', hhost', hport'⟩
  have hsplit := colon_notMem_of_parsed hdigit hforeign.1
  have hsplit' := colon_notMem_of_parsed hdigit (parsed_of_isPort hdigit hport')
  have hsame := (splitDestination_of_written hhost hsplit.1 hsplit.2 hwritten).symm.trans
    (splitDestination_of_written hhost' hsplit'.1 hsplit'.2 hwritten')
  simp only [Except.ok.injEq, Prod.mk.injEq] at hsame
  obtain ⟨-, rfl⟩ := hsame
  exact ((isPort_iff hdigit).mp hport').2 hforeign

/-- The check accepts the grammar if and only if the port has no plus sign and no digit of another script. -/
theorem destination_error_none_iff_grammar (app : App) (hdigit : AsciiDigits app.digit) (d : Option JString) :
    (destinationValidationError app d = none ↔
      d = none ∨ trimOrEmpty d = [] ∨ WellFormed (trimOrEmpty d)) ↔ ¬ ForeignDestination app (trimOrEmpty d) := by
  have hnotEmpty : ForeignDestination app (trimOrEmpty d) → trimOrEmpty d ≠ [] := by
    rintro ⟨host, port, ⟨-, htext⟩ | htext, -⟩ hempty
    all_goals
      rw [hempty] at htext
      simp at htext
  by_cases hempty : trimOrEmpty d = []
  · have haccept : destinationValidationError app d = none := by
      unfold destinationValidationError
      dsimp only
      rw [hempty]
      rfl
    simp only [haccept, hempty, true_or, or_true, true_iff]
    intro hforeign
    rw [← hempty] at hforeign
    exact hnotEmpty hforeign hempty
  · cases d with
    | none => exact absurd rfl hempty
    | some text =>
      rw [destination_accepted_iff hdigit hempty]
      simp only [reduceCtorEq, hempty, false_or]
      constructor
      · intro hiff hforeign
        obtain ⟨host, port, hwritten, hhost, hport, -⟩ := id hforeign
        exact not_wellFormed_of_foreign app hdigit hforeign (hiff.mp ⟨host, port, hwritten, hhost, hport⟩)
      · intro hforeign
        constructor
        · rintro ⟨host, port, hwritten, hhost, hport⟩
          refine ⟨host, port, hwritten, hhost, (isPort_iff hdigit).mpr ⟨hport, fun h => ?_⟩⟩
          exact hforeign ⟨host, port, hwritten, hhost, h⟩
        · rintro ⟨host, port, hwritten, hhost, hport⟩
          exact ⟨host, port, hwritten, hhost, parsed_of_isPort hdigit hport⟩

/-- The digits of ASCII and the Arabic-Indic ones. -/
def twoScripts (c : Char) : Option ℕ :=
  if isAsciiDigit c then some (c.toNat - '0'.toNat)
  else if 0x660 ≤ c.toNat ∧ c.toNat ≤ 0x669 then some (c.toNat - 0x660)
  else none

theorem asciiDigits_twoScripts : AsciiDigits twoScripts := by
  intro c hc
  unfold twoScripts
  split_ifs with hdigit hforeign
  · rfl
  · omega
  · rfl

theorem destination_error_none_ipv6 :
    destinationValidationError { sampleApp with digit := twoScripts } (some " [::1]:22 ".toList) = none ↔
      some " [::1]:22 ".toList = none ∨ trimOrEmpty (some " [::1]:22 ".toList) = [] ∨
        WellFormed (trimOrEmpty (some " [::1]:22 ".toList)) :=
  (destination_error_none_iff_grammar { sampleApp with digit := twoScripts } asciiDigits_twoScripts
    (some " [::1]:22 ".toList)).mpr fun hforeign =>
      not_wellFormed_of_foreign _ asciiDigits_twoScripts hforeign
        ⟨"::1".toList, "22".toList, Or.inr (by decide), by decide, by decide⟩

/-- A port with a plus sign and one in other digits are accepted. -/
theorem destination_foreign_ports :
    destinationValidationError { sampleApp with digit := twoScripts } (some "host:+22".toList) = none ∧
    destinationValidationError { sampleApp with digit := twoScripts } (some "host:٢٢".toList) = none ∧
    ¬ WellFormed "host:+22".toList ∧ ¬ WellFormed "host:٢٢".toList :=
  have hforeign (port : JString) (h : ForeignPort twoScripts port) : ¬ WellFormed ("host:".toList ++ port) :=
    not_wellFormed_of_foreign { sampleApp with digit := twoScripts } asciiDigits_twoScripts
      ⟨"host".toList, port, Or.inl ⟨(by decide : some 'h' ≠ some '['), rfl⟩, by decide, h⟩
  ⟨by decide, by decide, hforeign "+22".toList ⟨⟨22, by decide⟩, Or.inl rfl⟩,
    hforeign "٢٢".toList ⟨⟨22, by decide⟩, Or.inr ⟨'٢', by decide⟩⟩⟩

end Check

end Tinyhack.Launch
