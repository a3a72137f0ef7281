import Mathlib.Tactic

/-! The tokens of a command line by the POSIX shell's rules for token recognition and quoting:
words, operators and comments. A text whose words are not fixed by the rules alone has none:
expansions and patterns depend on the machine that runs the shell, and a quote may be left open. -/

namespace ShellTokens

inductive Token
  | word (w : List Char)
  | op (o : List Char)
  deriving DecidableEq

/-- What an unquoted character is. -/
inductive Kind
  | single
  | double
  | backslash
  | blank
  | operator
  /-- an expansion, or a character of a pattern -/
  | active
  | literal
  deriving DecidableEq

def kind (c : Char) : Kind :=
  if c = '\'' then .single
  else if c = '"' then .double
  else if c = '\\' then .backslash
  else if c = ' ' ∨ c = '\t' then .blank
  else if c ∈ ['&', '|', ';', '<', '>', '(', ')', '\n'] then .operator
  else if c ∈ ['$', '\x60', '*', '?'] then .active
  else .literal

/-- The operators of more than one character. -/
def longOperators : List (List Char) :=
  ["&&", "||", ";;", "<<", ">>", "<&", ">&", "<>", "<<-", ">|"].map String.toList

/-- How far a bracket expression of the word has been read. -/
inductive Bracket
  | outside
  | opened
  | negated
  /-- a closing bracket would complete it -/
  | inside
  deriving DecidableEq

/-- The next character, `none` if it completes a bracket expression. -/
def Bracket.next : Bracket → Char → Option Bracket
  | .outside, c => some (if c = '[' then .opened else .outside)
  | .opened, c => some (if c = '/' then .outside else if c = '!' then .negated else .inside)
  | .negated, c => some (if c = '/' then .outside else .inside)
  | .inside, c => if c = ']' then none else some (if c = '/' then .outside else .inside)

/-- A quoted character stands for itself between brackets too. -/
def Bracket.quoted : Bracket → Char → Bracket
  | .outside, _ => .outside
  | _, c => if c = '/' then .outside else .inside

inductive Mode
  | plain
  /-- after the characters of an operator -/
  | op (o : List Char)
  | single
  | double
  /-- after a backslash -/
  | escaped
  /-- after a backslash in double quotes -/
  | doubleEscaped
  | comment
  deriving DecidableEq

/-- The tokens read to their end, and the word that has been begun. -/
structure State where
  tokens : List Token
  word : Option (List Char)
  bracket : Bracket
  mode : Mode
  deriving DecidableEq

def State.initial : State := ⟨[], none, .outside, .plain⟩

/-- The token that ends where `s` stands. -/
def State.pending (s : State) : List Token :=
  match s.mode with
  | .op o => [.op o]
  | _ => s.word.toList.map .word

def State.flush (s : State) : State := ⟨s.tokens ++ s.pending, none, .outside, .plain⟩

def State.push (s : State) (c : Char) (b : Bracket) : State :=
  { s with word := some (s.word.getD [] ++ [c]), bracket := b }

def State.quoted (s : State) (c : Char) : State := s.push c (s.bracket.quoted c)

/-- A quote begins a word, even if nothing follows in it. -/
def State.enter (s : State) (mode : Mode) : State := { s with word := some (s.word.getD []), mode := mode }

def unquoted (s : State) (c : Char) : Option State :=
  match kind c with
  | .single => some (s.enter .single)
  | .double => some (s.enter .double)
  | .backslash => some { s with mode := .escaped }
  | .blank => some s.flush
  | .operator => some { s.flush with mode := .op [c] }
  | .active => none
  | .literal =>
    if s.word.isNone ∧ c = '~' then none
    else if s.word.isNone ∧ c = '#' then some { s with mode := .comment }
    else (s.bracket.next c).map (s.push c)

def step (s : State) (c : Char) : Option State :=
  match s.mode with
  | .plain => unquoted s c
  | .op o => if o ++ [c] ∈ longOperators then some { s with mode := .op (o ++ [c]) } else unquoted s.flush c
  | .single => some (if c = '\'' then { s with mode := .plain } else s.quoted c)
  | .double =>
    if c = '"' then some { s with mode := .plain }
    else if c = '\\' then some { s with mode := .doubleEscaped }
    else if c = '$' ∨ c = '\x60' then none
    else some (s.quoted c)
  -- a backslash before a line feed joins the lines
  | .escaped => some { (if c = '\n' then s else s.quoted c) with mode := .plain }
  | .doubleEscaped =>
    some { (if c = '\n' then s
      else if c = '$' ∨ c = '\x60' ∨ c = '"' ∨ c = '\\' then s.quoted c
      else (s.quoted '\\').quoted c) with mode := .double }
  | .comment => some (if c = '\n' then { s.flush with mode := .op [c] } else s)

def scan (s : State) (text : List Char) : Option State := text.foldlM step s

/-- Nothing is left open. -/
def Mode.isClosed : Mode → Bool
  | .plain | .op _ | .comment => true
  | .single | .double | .escaped | .doubleEscaped => false

def finish (s : State) : Option (List Token) := if s.mode.isClosed then some s.flush.tokens else none

def tokens (text : List Char) : Option (List Token) := (scan .initial text).bind finish

theorem scan_append (s : State) (text more : List Char) :
    scan s (text ++ more) = (scan s text).bind fun s => scan s more := List.foldlM_append

theorem scan_cons (s : State) (c : Char) (text : List Char) :
    scan s (c :: text) = (step s c).bind fun s => scan s text := List.foldlM_cons

/-! ### Ordinary words -/

def isLiteral (c : Char) : Bool := kind c = .literal

/-- How far the bracket expressions of a text have been read, `none` if it has a complete one. -/
def brackets (b : Bracket) (w : List Char) : Option Bracket := w.foldlM Bracket.next b

/-- Text that stands for itself in the middle of a word. -/
def Ordinary (w : List Char) : Prop := (∀ c ∈ w, isLiteral c = true) ∧ (brackets .outside w).isSome = true

/-- A character that may begin a word. -/
def mayBegin (c : Char) : Bool := c ≠ '#' && c ≠ '~'

structure OrdinaryWord (w : List Char) : Prop where
  ne_nil : w ≠ []
  ordinary : Ordinary w
  mayBegin : ∀ c, w.head? = some c → mayBegin c = true

/-- The same as a check. -/
def checkWord (w : List Char) : Bool :=
  !w.isEmpty && w.all isLiteral && (brackets .outside w).isSome && w.head?.all mayBegin

theorem checkWord_iff {w : List Char} : checkWord w = true ↔ OrdinaryWord w := by
  simp only [checkWord, Bool.and_eq_true, Bool.not_eq_true', List.isEmpty_eq_false_iff, List.all_eq_true,
    Option.all_eq_true]
  constructor
  · rintro ⟨⟨⟨hne, hlit⟩, hsome⟩, hbegin⟩
    exact ⟨hne, ⟨hlit, hsome⟩, hbegin⟩
  · rintro ⟨hne, ⟨hlit, hsome⟩, hbegin⟩
    exact ⟨⟨⟨hne, hlit⟩, hsome⟩, hbegin⟩

theorem brackets_of_notMem {w : List Char} (h : '[' ∉ w) : brackets .outside w = some .outside := by
  induction w with
  | nil => rfl
  | cons c w ih =>
    have hc : c ≠ '[' := fun hc => h (hc ▸ List.mem_cons_self)
    simp only [brackets, List.foldlM_cons, Bracket.next, if_neg hc]
    exact ih fun hw => h (List.mem_cons_of_mem c hw)

/-- What begins like an ordinary word goes on as ordinary text. -/
theorem ordinaryWord_append {u v : List Char} (hu : OrdinaryWord u) (hbracket : '[' ∉ u) :
    OrdinaryWord (u ++ v) ↔ Ordinary v := by
  have hbrackets : brackets .outside (u ++ v) = brackets .outside v := by
    rw [brackets, List.foldlM_append, ← brackets, brackets_of_notMem hbracket]
    rfl
  constructor
  · rintro ⟨-, ⟨hlit, hsome⟩, -⟩
    exact ⟨fun c hc => hlit c (List.mem_append_right u hc), hbrackets ▸ hsome⟩
  · rintro ⟨hlit, hsome⟩
    refine ⟨by simp [hu.ne_nil], ⟨?_, by rwa [hbrackets]⟩, ?_⟩
    · intro c hc
      rcases List.mem_append.mp hc with hc | hc
      · exact hu.ordinary.1 c hc
      · exact hlit c hc
    · intro c hc
      rw [List.head?_append_of_ne_nil _ hu.ne_nil] at hc
      exact hu.mayBegin c hc

theorem isLiteral_of_isDigit {c : Char} (h : c.isDigit = true) : isLiteral c = true := by
  have hne : ∀ d : Char, d.isDigit = false → c ≠ d := by
    rintro d hd rfl
    exact absurd (h.symm.trans hd) (by decide)
  apply decide_eq_true
  unfold kind
  rw [if_neg (hne _ rfl), if_neg (hne _ rfl), if_neg (hne _ rfl), if_neg, if_neg, if_neg]
  all_goals simp (disch := decide) [hne]

/-- Numbers are ordinary words. -/
theorem ordinaryWord_digits {w : List Char} (hne : w ≠ []) (h : ∀ c ∈ w, c.isDigit = true) : OrdinaryWord w := by
  have hbracket : '[' ∉ w := fun hmem => absurd (h _ hmem) (by decide)
  refine ⟨hne, ⟨fun c hc => isLiteral_of_isDigit (h c hc), by rw [brackets_of_notMem hbracket]; rfl⟩, ?_⟩
  intro c hc
  have hdigit := h c (List.mem_of_mem_head? hc)
  rw [ShellTokens.mayBegin, Bool.and_eq_true, decide_eq_true_eq, decide_eq_true_eq]
  refine ⟨?_, ?_⟩ <;> rintro rfl <;> exact absurd hdigit (by decide)

theorem brackets_concat (b : Bracket) (w : List Char) (c : Char) :
    brackets b (w ++ [c]) = (brackets b w).bind fun b => b.next c := by
  simp [brackets, List.foldlM_append]

theorem unquoted_literal {s : State} {c : Char} (hc : isLiteral c = true) (hbegin : s.word.isNone → mayBegin c = true) :
    unquoted s c = (s.bracket.next c).map (s.push c) := by
  have hkind : kind c = .literal := of_decide_eq_true hc
  simp only [unquoted, hkind]
  rw [if_neg, if_neg]
  · rintro ⟨hnone, rfl⟩
    exact absurd (hbegin hnone) (by decide)
  · rintro ⟨hnone, rfl⟩
    exact absurd (hbegin hnone) (by decide)

/-- Ordinary text continues a word. -/
theorem scan_literals {ts : List Token} {w u : List Char} {b b' : Bracket} (hu : ∀ c ∈ u, isLiteral c = true)
    (hb : brackets b u = some b') :
    scan ⟨ts, some w, b, .plain⟩ u = some ⟨ts, some (w ++ u), b', .plain⟩ := by
  induction u generalizing w b with
  | nil =>
    obtain rfl : b = b' := Option.some.inj hb
    rw [List.append_nil]
    rfl
  | cons c u ih =>
    simp only [brackets, List.foldlM_cons, Option.bind_eq_bind, Option.bind_eq_some_iff] at hb
    obtain ⟨b₁, hnext, hb⟩ := hb
    have hstep : step ⟨ts, some w, b, .plain⟩ c = some ⟨ts, some (w ++ [c]), b₁, .plain⟩ := by
      rw [step, unquoted_literal (hu c List.mem_cons_self) (by simp)]
      simp [hnext, State.push]
    rw [scan_cons, hstep, Option.bind_some, ih (fun d hd => hu d (List.mem_cons_of_mem c hd)) hb, List.append_assoc,
      List.singleton_append]

theorem scan_ordinaryWord (ts : List Token) {w : List Char} (h : OrdinaryWord w) :
    ∃ b, scan ⟨ts, none, .outside, .plain⟩ w = some ⟨ts, some w, b, .plain⟩ := by
  obtain ⟨hne, ⟨hlit, hsome⟩, hbegin⟩ := h
  obtain ⟨c, u, rfl⟩ := List.exists_cons_of_ne_nil hne
  obtain ⟨b, hb⟩ := Option.isSome_iff_exists.mp hsome
  simp only [brackets, List.foldlM_cons, Option.bind_eq_bind, Option.bind_eq_some_iff] at hb
  obtain ⟨b₁, hnext, hb⟩ := hb
  have hstep : step ⟨ts, none, .outside, .plain⟩ c = some ⟨ts, some [c], b₁, .plain⟩ := by
    rw [step, unquoted_literal (hlit c List.mem_cons_self) fun _ => hbegin c rfl]
    simp [hnext, State.push]
  refine ⟨b, ?_⟩
  rw [scan_cons, hstep, Option.bind_some, scan_literals (fun d hd => hlit d (List.mem_cons_of_mem c hd)) hb,
    List.singleton_append]

/-- Words joined by single spaces. -/
def join (ws : List (List Char)) : List Char := List.intercalate [' '] ws

theorem join_cons_cons (w v : List Char) (ws : List (List Char)) :
    join (w :: v :: ws) = w ++ ' ' :: join (v :: ws) := by
  simp [join]

theorem join_singleton (w : List Char) : join [w] = w := by simp [join]

/-- Ordinary words are read back from their text. -/
theorem scan_join (ts : List Token) {w : List Char} {ws : List (List Char)} (h : ∀ v ∈ w :: ws, OrdinaryWord v) :
    ∃ s, scan ⟨ts, none, .outside, .plain⟩ (join (w :: ws)) = some s ∧ s.mode = .plain ∧
      s.flush.tokens = ts ++ (w :: ws).map .word := by
  induction ws generalizing ts w with
  | nil =>
    obtain ⟨b, hscan⟩ := scan_ordinaryWord ts (h w List.mem_cons_self)
    rw [join_singleton]
    exact ⟨_, hscan, rfl, rfl⟩
  | cons v ws ih =>
    obtain ⟨b, hscan⟩ := scan_ordinaryWord ts (h w List.mem_cons_self)
    obtain ⟨s, hs, hmode, htokens⟩ := ih (ts ++ [Token.word w]) fun u hu => h u (List.mem_cons_of_mem w hu)
    refine ⟨s, ?_, hmode, ?_⟩
    · rw [join_cons_cons, scan_append, hscan, Option.bind_some, scan_cons]
      exact hs
    · rw [htokens]
      simp

theorem tokens_join {ws : List (List Char)} (hne : ws ≠ []) (h : ∀ w ∈ ws, OrdinaryWord w) :
    tokens (join ws) = some (ws.map .word) := by
  obtain ⟨w, ws, rfl⟩ := List.exists_cons_of_ne_nil hne
  obtain ⟨s, hs, hmode, htokens⟩ := scan_join [] h
  rw [tokens, State.initial, hs, Option.bind_some, finish, hmode, htokens]
  rfl

/-! ### What the tokens weigh

A character adds at most one to the weight of the tokens, and the quotes, backslashes,
comments and operators add less than they take up in the text. Words that weigh as
much as their text are therefore ordinary. -/

def Token.weight : Token → ℕ
  | .word w => w.length + 1
  | .op _ => 0

def weigh (ts : List Token) : ℕ := (ts.map Token.weight).sum

theorem weigh_append (ts us : List Token) : weigh (ts ++ us) = weigh ts + weigh us := by
  simp [weigh]

def State.weight (s : State) : ℕ :=
  weigh s.tokens + (s.word.getD []).length + if s.mode = .doubleEscaped then 1 else 0

theorem weight_flush_le (s : State) : s.flush.weight ≤ weigh s.tokens + (s.word.getD []).length + 1 := by
  obtain ⟨ts, word, b, mode⟩ := s
  cases word <;> cases mode <;> simp [State.weight, State.flush, State.pending, weigh, Token.weight] <;> omega

theorem weight_push (s : State) (c : Char) (b : Bracket) : (s.push c b).weight = s.weight + 1 := by
  have hmode : (s.push c b).mode = s.mode := rfl
  have hword : ((s.push c b).word.getD []).length = (s.word.getD []).length + 1 := List.length_append
  have htokens : (s.push c b).tokens = s.tokens := rfl
  rw [State.weight, State.weight, hmode, hword, htokens]
  omega

theorem unquoted_weight {s s' : State} {c : Char} (hs : s.mode = .plain) (h : unquoted s c = some s') :
    s'.weight ≤ s.weight + 1 := by
  have hflush := weight_flush_le s
  have hweight : s.weight = weigh s.tokens + (s.word.getD []).length := by simp [State.weight, hs]
  unfold unquoted at h
  split at h
  · cases h
    simp [State.weight, State.enter, hs]
  · cases h
    simp [State.weight, State.enter, hs]
  · cases h
    simp [State.weight, hs]
  · cases h
    omega
  · cases h
    simp only [State.weight, State.flush] at hflush ⊢
    simp at hflush ⊢
    omega
  · cases h
  · split_ifs at h
    · cases h
      simp [State.weight, hs]
    · obtain ⟨b, -, rfl⟩ := Option.map_eq_some_iff.mp h
      exact (weight_push s c b).le

/-- A change of mode, apart from the backslash that double quotes may keep. -/
theorem weight_mode {s : State} {m : Mode} (hm : m ≠ .doubleEscaped) :
    ({ s with mode := m } : State).weight = weigh s.tokens + (s.word.getD []).length := by
  simp [State.weight, hm]

theorem weight_flush_op {s : State} {o : List Char} (hs : s.mode = .op o) : s.flush.weight ≤ s.weight := by
  simp only [State.weight, State.flush, State.pending, hs, weigh_append]
  simp [weigh, Token.weight]

theorem step_weight {s s' : State} {c : Char} (h : step s c = some s') : s'.weight ≤ s.weight + 1 := by
  have hbase : weigh s.tokens + (s.word.getD []).length ≤ s.weight := Nat.le_add_right _ _
  have hquoted : ∀ (t : State) (d : Char), (t.quoted d).weight = t.weight + 1 := fun t d => weight_push t d _
  unfold step at h
  split at h
  case h_1 hmode => exact unquoted_weight hmode h
  case h_2 o hmode =>
    split_ifs at h
    · cases h
      rw [weight_mode (by simp)]
      omega
    · have hop := weight_flush_op hmode
      have hrest := unquoted_weight rfl h
      omega
  case h_3 =>
    obtain rfl := Option.some.inj h
    split_ifs
    · rw [weight_mode (by simp)]
      omega
    · exact (hquoted s c).le
  case h_4 hmode =>
    split_ifs at h <;> obtain rfl := Option.some.inj h
    · rw [weight_mode (by simp)]
      omega
    · simp [State.weight, hmode]
    · exact (hquoted s c).le
  case h_5 =>
    obtain rfl := Option.some.inj h
    split_ifs
    · rw [weight_mode (by simp)]
      omega
    · rw [weight_mode (by simp)]
      exact (Nat.le_add_right _ _).trans (hquoted s c).le
  case h_6 hmode =>
    -- the backslash has been counted already
    have hone : s.weight = weigh s.tokens + (s.word.getD []).length + 1 := by simp [State.weight, hmode]
    obtain rfl := Option.some.inj h
    rw [weight_mode (by simp)]
    split_ifs
    · omega
    · simp [State.quoted, State.push]
      omega
    · simp [State.quoted, State.push]
      omega
  case h_7 =>
    have hflush := weight_flush_le s
    obtain rfl := Option.some.inj h
    split_ifs
    · rw [weight_mode (by simp)]
      simp only [State.weight] at hflush
      omega
    · omega

theorem scan_weight {s s' : State} {text : List Char} (h : scan s text = some s') :
    s'.weight ≤ s.weight + text.length := by
  induction text generalizing s with
  | nil =>
    obtain rfl : s = s' := Option.some.inj h
    exact Nat.le_add_right _ _
  | cons c text ih =>
    rw [scan_cons, Option.bind_eq_some_iff] at h
    obtain ⟨s₁, hstep, h⟩ := h
    have hc := step_weight hstep
    have hrest := ih h
    rw [List.length_cons]
    omega

/-! ### Operators are not lost -/

theorem unquoted_tokens {s s' : State} {c : Char} (h : unquoted s c = some s') : s.tokens ⊆ s'.tokens := by
  unfold unquoted at h
  split at h
  case h_6 => cases h
  case h_7 =>
    split_ifs at h
    · cases h
      exact List.Subset.refl _
    · obtain ⟨b, -, rfl⟩ := Option.map_eq_some_iff.mp h
      exact List.Subset.refl _
  all_goals
    cases h
    first
      | exact List.Subset.refl _
      | exact List.subset_append_left _ _

theorem step_tokens {s s' : State} {c : Char} (h : step s c = some s') : s.tokens ⊆ s'.tokens := by
  have hflush : s.tokens ⊆ s.flush.tokens := List.subset_append_left _ _
  unfold step at h
  split at h
  case h_1 => exact unquoted_tokens h
  case h_2 =>
    split_ifs at h
    · cases h
      exact List.Subset.refl _
    · exact List.Subset.trans hflush (unquoted_tokens h)
  case h_4 =>
    split_ifs at h <;> cases h <;> exact List.Subset.refl _
  case h_7 =>
    obtain rfl := Option.some.inj h
    split_ifs
    · exact hflush
    · exact List.Subset.refl _
  all_goals
    obtain rfl := Option.some.inj h
    split_ifs <;> exact List.Subset.refl _

/-- The text read so far has an operator. -/
def HasOp (s : State) : Prop := ∃ o, .op o ∈ s.flush.tokens

theorem hasOp_of_mode {s : State} {o : List Char} (h : s.mode = .op o) : HasOp s :=
  ⟨o, by simp [State.flush, State.pending, h]⟩

theorem hasOp_of_mem {s : State} {o : List Char} (h : .op o ∈ s.tokens) : HasOp s :=
  ⟨o, List.mem_append_left _ h⟩

theorem hasOp_iff {s : State} : HasOp s ↔ (∃ o, .op o ∈ s.tokens) ∨ ∃ o, s.mode = .op o := by
  constructor
  · rintro ⟨o, ho⟩
    rcases List.mem_append.mp ho with ho | ho
    · exact .inl ⟨o, ho⟩
    · unfold State.pending at ho
      split at ho
      case h_1 o' hmode => exact .inr ⟨o', hmode⟩
      case h_2 => simp at ho
  · rintro (⟨o, ho⟩ | ⟨o, ho⟩)
    · exact hasOp_of_mem ho
    · exact hasOp_of_mode ho

theorem hasOp_step {s s' : State} {c : Char} (h : step s c = some s') (hs : HasOp s) : HasOp s' := by
  rcases hasOp_iff.mp hs with ⟨o, ho⟩ | ⟨o, hmode⟩
  · exact hasOp_of_mem (step_tokens h ho)
  · simp only [step, hmode] at h
    split_ifs at h
    · cases h
      exact hasOp_of_mode rfl
    · obtain ⟨o', ho'⟩ := hs
      exact hasOp_of_mem (unquoted_tokens h ho')

theorem hasOp_scan {s s' : State} {text : List Char} (h : scan s text = some s') (hs : HasOp s) : HasOp s' := by
  induction text generalizing s with
  | nil =>
    obtain rfl : s = s' := Option.some.inj h
    exact hs
  | cons c text ih =>
    rw [scan_cons, Option.bind_eq_some_iff] at h
    obtain ⟨s₁, hstep, h⟩ := h
    exact ih h (hasOp_step hstep hs)

/-! ### Text that weighs what it measures -/

/-- All words so far are ordinary, and nothing is quoted. -/
structure Good (s : State) : Prop where
  mode : s.mode = .plain
  tokens : ∀ t ∈ s.tokens, ∃ w, t = .word w ∧ OrdinaryWord w
  word : ∀ w, s.word = some w → OrdinaryWord w ∧ brackets .outside w = some s.bracket
  fresh : s.word = none → s.bracket = .outside

theorem good_initial : Good .initial := ⟨rfl, by simp [State.initial], by simp [State.initial], fun _ => rfl⟩

theorem Good.flush_tokens {s : State} (hs : Good s) : ∀ t ∈ s.flush.tokens, ∃ w, t = .word w ∧ OrdinaryWord w := by
  intro t ht
  rcases List.mem_append.mp ht with ht | ht
  · exact hs.tokens t ht
  · simp only [State.pending, hs.mode, List.mem_map, Option.mem_toList] at ht
    obtain ⟨w, hw, rfl⟩ := ht
    exact ⟨w, rfl, (hs.word w hw).1⟩

theorem Good.flush {s : State} (hs : Good s) : Good s.flush :=
  ⟨rfl, hs.flush_tokens, by simp [State.flush], fun _ => rfl⟩

/-- A literal that neither begins a comment nor completes a pattern. -/
theorem Good.push {s : State} (hs : Good s) {c : Char} {b : Bracket} (hc : isLiteral c = true)
    (hbegin : s.word = none → ShellTokens.mayBegin c = true) (hb : s.bracket.next c = some b) : Good (s.push c b) := by
  refine ⟨hs.mode, hs.tokens, ?_, fun h => absurd h (by simp [State.push])⟩
  intro w hw
  obtain rfl : s.word.getD [] ++ [c] = w := Option.some.inj hw
  cases hword : s.word with
  | none =>
    have hbrackets : brackets .outside [c] = some b := by
      rw [← List.nil_append [c], brackets_concat]
      rw [hs.fresh hword] at hb
      exact hb
    rw [Option.getD_none, List.nil_append]
    refine ⟨⟨by simp, ⟨by simpa using hc, by rw [hbrackets]; rfl⟩, ?_⟩, hbrackets⟩
    intro d hd
    obtain rfl : c = d := Option.some.inj hd
    exact hbegin hword
  | some u =>
    obtain ⟨hu, hbu⟩ := hs.word u hword
    have hbrackets : brackets .outside (u ++ [c]) = some b := by
      rw [brackets_concat, hbu]
      exact hb
    rw [Option.getD_some]
    refine ⟨⟨by simp, ⟨?_, by rw [hbrackets]; rfl⟩, ?_⟩, hbrackets⟩
    · intro d hd
      rcases List.mem_append.mp hd with hd | hd
      · exact hu.ordinary.1 d hd
      · rwa [List.mem_singleton.mp hd]
    · intro d hd
      rw [List.head?_append_of_ne_nil _ hu.ne_nil] at hd
      exact hu.mayBegin d hd

theorem unquoted_tight {s s' : State} {c : Char} (hs : Good s) (h : unquoted s c = some s')
    (hw : s'.weight = s.weight + 1) : Good s' ∨ HasOp s' := by
  have hweight : s.weight = weigh s.tokens + (s.word.getD []).length := by simp [State.weight, hs.mode]
  unfold unquoted at h
  split at h
  case h_4 =>
    cases h
    exact .inl hs.flush
  case h_5 =>
    cases h
    exact .inr (hasOp_of_mode rfl)
  case h_6 => cases h
  case h_7 hkind =>
    split_ifs at h with htilde hcomment
    · cases h
      rw [weight_mode (by simp)] at hw
      omega
    · obtain ⟨b, hb, rfl⟩ := Option.map_eq_some_iff.mp h
      refine .inl (hs.push (decide_eq_true hkind) (fun hnone => ?_) hb)
      simp only [hnone, Option.isNone_none, true_and] at htilde hcomment
      simp [mayBegin, htilde, hcomment]
  -- quotes and backslashes weigh nothing
  all_goals
    cases h
    simp [State.weight, State.enter, hs.mode] at hw

theorem scan_tight {s s' : State} {text : List Char} (hs : Good s) (h : scan s text = some s')
    (hw : s'.weight = s.weight + text.length) : Good s' ∨ HasOp s' := by
  induction text generalizing s with
  | nil =>
    obtain rfl : s = s' := Option.some.inj h
    exact .inl hs
  | cons c text ih =>
    rw [scan_cons, Option.bind_eq_some_iff] at h
    obtain ⟨s₁, hstep, h⟩ := h
    have hc := step_weight hstep
    have hrest := scan_weight h
    rw [List.length_cons] at hw
    have hunquoted : unquoted s c = some s₁ := by rwa [step, hs.mode] at hstep
    rcases unquoted_tight hs hunquoted (by omega) with hgood | hop
    · exact ih hgood h (by omega)
    · exact .inr (hasOp_scan h hop)

theorem length_join {ws : List (List Char)} (hne : ws ≠ []) : weigh (ws.map .word) = (join ws).length + 1 := by
  induction ws with
  | nil => exact absurd rfl hne
  | cons w ws ih =>
    cases ws with
    | nil => simp [join_singleton, weigh, Token.weight]
    | cons v ws =>
      have hrest := ih (by simp)
      rw [List.map_cons, ← List.singleton_append, weigh_append, hrest, join_cons_cons]
      simp [weigh, Token.weight]
      omega

/-- Words that are read back from their text are ordinary. -/
theorem ordinary_of_flush {ws : List (List Char)} {s : State} (hne : ws ≠ []) (h : scan .initial (join ws) = some s)
    (htokens : s.flush.tokens = ws.map .word) : ∀ w ∈ ws, OrdinaryWord w := by
  have hlength := length_join hne
  have hupper : s.weight ≤ (join ws).length := by simpa [State.weight, State.initial, weigh] using scan_weight h
  have hflush : s.flush.weight = (join ws).length + 1 := by
    rw [← hlength, ← htokens]
    rfl
  have hlower := weight_flush_le s
  have hbase : weigh s.tokens + (s.word.getD []).length ≤ s.weight := Nat.le_add_right _ _
  have htight := scan_tight good_initial h (by
    have hzero : State.initial.weight = 0 := rfl
    omega)
  rcases htight with hgood | ⟨o, ho⟩
  · intro w hw
    obtain ⟨v, hv, hord⟩ := hgood.flush_tokens (.word w) (htokens ▸ List.mem_map_of_mem hw)
    obtain rfl : w = v := Token.word.inj hv
    exact hord
  · simp [htokens] at ho

/-- Words are read back from their text exactly if they are ordinary. -/
theorem tokens_join_iff {ws : List (List Char)} (hne : ws ≠ []) :
    tokens (join ws) = some (ws.map .word) ↔ ∀ w ∈ ws, OrdinaryWord w := by
  constructor
  · intro h
    rw [tokens, Option.bind_eq_some_iff] at h
    obtain ⟨s, hs, hfinish⟩ := h
    unfold finish at hfinish
    split_ifs at hfinish
    exact ordinary_of_flush hne hs (Option.some.inj hfinish)
  · exact tokens_join hne

/-! ### A command, `&&` and another command -/

/-- Modes that the text of ordinary words does not leave. -/
def Mode.isStuck (m : Mode) : Prop := m = .single ∨ m = .double ∨ m = .comment

/-- A character that ends neither quotes nor a comment, and escapes nothing. -/
def isInert (c : Char) : Bool := kind c = .literal || kind c = .blank || c = '&'

theorem isInert_ne {c : Char} (h : isInert c = true) : c ≠ '\'' ∧ c ≠ '"' ∧ c ≠ '\\' ∧ c ≠ '\n' := by
  refine ⟨?_, ?_, ?_, ?_⟩ <;> rintro rfl <;> exact absurd h (by decide)

theorem stuck_step {s s' : State} {c : Char} (hc : isInert c = true) (hs : s.mode.isStuck) (h : step s c = some s') :
    s'.mode = s.mode := by
  obtain ⟨hsingle, hdouble, hslash, hnewline⟩ := isInert_ne hc
  unfold step at h
  rcases hs with hs | hs | hs <;> simp only [hs] at h
  · rw [if_neg hsingle] at h
    cases h
    rfl
  · rw [if_neg hdouble, if_neg hslash] at h
    split_ifs at h
    cases h
    rfl
  · rw [if_neg hnewline] at h
    cases h
    rfl

theorem stuck_scan {s s' : State} {text : List Char} (htext : ∀ c ∈ text, isInert c = true) (hs : s.mode.isStuck)
    (h : scan s text = some s') : s'.mode = s.mode := by
  induction text generalizing s with
  | nil =>
    obtain rfl : s = s' := Option.some.inj h
    rfl
  | cons c text ih =>
    rw [scan_cons, Option.bind_eq_some_iff] at h
    obtain ⟨s₁, hstep, h⟩ := h
    have hmode := stuck_step (htext c List.mem_cons_self) hs hstep
    rw [ih (fun d hd => htext d (List.mem_cons_of_mem c hd)) (hmode ▸ hs) h, hmode]

/-- A comment takes in the rest of its line. -/
theorem comment_scan {s s' : State} {text : List Char} (htext : ∀ c ∈ text, isInert c = true) (hs : s.mode = .comment)
    (h : scan s text = some s') : s' = s := by
  induction text with
  | nil => exact (Option.some.inj h).symm
  | cons c text ih =>
    have hstep : step s c = some s := by
      simp only [step, hs]
      rw [if_neg (isInert_ne (htext c List.mem_cons_self)).2.2.2]
    rw [scan_cons, hstep] at h
    exact ih (fun d hd => htext d (List.mem_cons_of_mem c hd)) h

theorem unquoted_escaped {s s' : State} {c : Char} (hs : s.mode = .plain) (h : unquoted s c = some s')
    (hs' : s'.mode = .escaped) : kind c = .backslash := by
  unfold unquoted at h
  split at h
  case h_3 hkind => exact hkind
  case h_6 => cases h
  case h_7 =>
    split_ifs at h
    · cases h
      exact absurd hs' (by simp)
    · obtain ⟨b, -, rfl⟩ := Option.map_eq_some_iff.mp h
      exact absurd (hs.symm.trans hs') (by simp)
  all_goals
    cases h
    exact absurd hs' (by simp [State.enter, State.flush])

theorem step_escaped {s s' : State} {c : Char} (h : step s c = some s') (hs' : s'.mode = .escaped) :
    kind c = .backslash := by
  unfold step at h
  split at h
  case h_1 hmode => exact unquoted_escaped hmode h hs'
  case h_2 =>
    split_ifs at h
    · cases h
      exact absurd hs' (by simp)
    · exact unquoted_escaped rfl h hs'
  case h_3 hmode =>
    cases h
    split_ifs at hs'
    exact absurd (hmode.symm.trans hs') (by simp)
  case h_4 hmode =>
    split_ifs at h <;> cases h
    · exact absurd hs' (by simp)
    · exact absurd hs' (by simp)
    · exact absurd (hmode.symm.trans hs') (by simp)
  case h_5 =>
    cases h
    exact absurd hs' (by simp)
  case h_6 =>
    cases h
    exact absurd hs' (by simp)
  case h_7 hmode =>
    cases h
    split_ifs at hs'
    exact absurd (hmode.symm.trans hs') (by simp)

/-- What ends in an open escape ends with its backslash. -/
theorem scan_escaped {s : State} {text : List Char} (h : scan .initial text = some s) (hs : s.mode = .escaped) :
    ∃ u c, text = u ++ [c] ∧ kind c = .backslash := by
  rcases List.eq_nil_or_concat text with rfl | ⟨u, c, rfl⟩
  · obtain rfl : State.initial = s := Option.some.inj h
    exact absurd hs (by decide)
  · rw [List.concat_eq_append, scan_append, Option.bind_eq_some_iff] at h
    obtain ⟨s₁, -, h⟩ := h
    rw [scan_cons, Option.bind_eq_some_iff] at h
    obtain ⟨s₂, hstep, h⟩ := h
    obtain rfl : s₂ = s := Option.some.inj h
    exact ⟨u, c, List.concat_eq_append, step_escaped hstep hs⟩

theorem flush_flush (s : State) : s.flush.flush = s.flush := by
  simp [State.flush, State.pending]

/-- The operator of an and-list, with the space after it. -/
def andOperator : List Char := "&& ".toList

theorem scan_andOperator {s : State} (hs : s.mode = .plain) :
    scan s andOperator = some ⟨s.flush.tokens ++ [Token.op "&&".toList], none, .outside, .plain⟩ := by
  have hfirst : step s '&' = some { s.flush with mode := .op ['&'] } := by
    simp only [step, hs]
    rfl
  rw [andOperator, show "&& ".toList = '&' :: "& ".toList from rfl, scan_cons, hfirst, Option.bind_some]
  simp [scan, step, unquoted, kind, State.flush, State.pending, longOperators]

theorem step_space {s : State} (hs : s.mode = .plain ∨ ∃ o, s.mode = .op o) : step s ' ' = some s.flush := by
  rcases hs with hs | ⟨o, hs⟩
  · simp only [step, hs]
    rfl
  · have hnone : o ++ [' '] ∉ longOperators := by
      intro hmem
      have hspace : ∀ w ∈ longOperators, ' ' ∉ w := by decide
      exact hspace _ hmem (by simp)
    simp only [step, hs]
    rw [if_neg hnone]
    exact congrArg some (flush_flush s)

theorem mem_join {ws : List (List Char)} {c : Char} (h : c ∈ join ws) : c = ' ' ∨ ∃ w ∈ ws, c ∈ w := by
  induction ws with
  | nil => simp [join] at h
  | cons w ws ih =>
    cases ws with
    | nil =>
      rw [join_singleton] at h
      exact .inr ⟨w, List.mem_cons_self, h⟩
    | cons v ws =>
      rw [join_cons_cons, List.mem_append, List.mem_cons] at h
      rcases h with h | h | h
      · exact .inr ⟨w, List.mem_cons_self, h⟩
      · exact .inl h
      · rcases ih h with h | ⟨u, hu, hc⟩
        · exact .inl h
        · exact .inr ⟨u, List.mem_cons_of_mem w hu, hc⟩

theorem join_append {ws vs : List (List Char)} (hws : ws ≠ []) (hvs : vs ≠ []) :
    join (ws ++ vs) = join ws ++ ' ' :: join vs := by
  induction ws with
  | nil => exact absurd rfl hws
  | cons w ws ih =>
    cases ws with
    | nil =>
      obtain ⟨v, vs, rfl⟩ := List.exists_cons_of_ne_nil hvs
      rw [List.singleton_append, join_cons_cons, join_singleton]
    | cons u ws =>
      rw [List.cons_append, List.cons_append, join_cons_cons, ← List.cons_append, ih (by simp), join_cons_cons,
        List.append_assoc, List.cons_append]

section AndList

variable {ws vs : List (List Char)} (hvs : vs ≠ []) (hord : ∀ v ∈ vs, OrdinaryWord v)
include hvs hord

theorem finish_and {s : State} (hs : s.mode = .plain) :
    (scan s (andOperator ++ join vs)).bind finish =
      some (s.flush.tokens ++ Token.op "&&".toList :: vs.map .word) := by
  obtain ⟨v, vs, rfl⟩ := List.exists_cons_of_ne_nil hvs
  obtain ⟨s', hs', hmode, htokens⟩ := scan_join (s.flush.tokens ++ [Token.op "&&".toList]) hord
  rw [scan_append, scan_andOperator hs, Option.bind_some, hs', Option.bind_some, finish, hmode, htokens]
  simp [Mode.isClosed]

omit hvs in
theorem inert_and : ∀ c ∈ andOperator ++ join vs, isInert c = true := by
  intro c hc
  rcases List.mem_append.mp hc with hc | hc
  · have hop : andOperator.all isInert = true := by decide
    exact List.all_eq_true.mp hop c hc
  · rcases mem_join hc with rfl | ⟨v, hv, hc⟩
    · decide
    · have hlit := (hord v hv).ordinary.1 c hc
      rw [isLiteral] at hlit
      simp [isInert, of_decide_eq_true hlit]

/-- An escape open at the end of the first command would take the space, which the last word then ends with. -/
theorem not_escaped (hws : ws ≠ []) {s : State} (hscan : scan .initial (join ws) = some s)
    (htokens : (scan s (' ' :: (andOperator ++ join vs))).bind finish =
      some (ws.map .word ++ Token.op "&&".toList :: vs.map .word)) : s.mode ≠ .escaped := by
  intro hmode
  obtain ⟨u, c, htext, hkind⟩ := scan_escaped hscan hmode
  have hspace : step s ' ' = some { s.quoted ' ' with mode := .plain } := by
    simp only [step, hmode]
    rfl
  rw [scan_cons, hspace, Option.bind_some, finish_and hvs hord rfl, Option.some.injEq] at htokens
  have hwords := List.append_inj_left' htokens rfl
  obtain ⟨ws, w, rfl⟩ := List.eq_nil_or_concat' ws |>.resolve_left hws
  rw [List.map_append, List.map_singleton] at hwords
  have hlast : s.word.getD [] ++ [' '] = w :=
    Token.word.inj (List.append_inj_right' hwords rfl |> List.head_eq_of_cons_eq)
  -- the text ends with its last word
  have hend : ∃ t, join (ws ++ [w]) = t ++ [' '] := by
    by_cases hnil : ws = []
    · exact ⟨s.word.getD [], by rw [hnil, List.nil_append, join_singleton, hlast]⟩
    · refine ⟨join ws ++ ' ' :: s.word.getD [], ?_⟩
      rw [join_append hnil (by simp), join_singleton, ← hlast, List.append_assoc, List.cons_append]
  obtain ⟨t, ht⟩ := hend
  obtain rfl : c = ' ' := by
    have heq := htext.symm.trans ht
    exact List.head_eq_of_cons_eq (List.append_inj_right' heq rfl)
  exact absurd hkind (by decide)

/-- The first command of an and-list is read back from its text exactly if its words are ordinary. -/
theorem tokens_and_iff (hws : ws ≠ []) :
    tokens (join ws ++ ' ' :: (andOperator ++ join vs)) =
      some (ws.map .word ++ Token.op "&&".toList :: vs.map .word) ↔ ∀ w ∈ ws, OrdinaryWord w := by
  have hinert : ∀ c ∈ ' ' :: (andOperator ++ join vs), isInert c = true := by
    intro c hc
    rcases List.mem_cons.mp hc with rfl | hc
    · decide
    · exact inert_and hord c hc
  constructor
  · intro h
    rw [tokens, scan_append, Option.bind_assoc, Option.bind_eq_some_iff] at h
    obtain ⟨s, hscan, h⟩ := h
    have hunquoted : s.mode = .plain ∨ (∃ o, s.mode = .op o) → ∀ w ∈ ws, OrdinaryWord w := by
      intro hmode
      rw [scan_cons, step_space hmode, Option.bind_some, finish_and hvs hord rfl, flush_flush, Option.some.injEq] at h
      exact ordinary_of_flush hws hscan (List.append_inj_left' h rfl)
    obtain ⟨s', hs', hfinish⟩ := Option.bind_eq_some_iff.mp h
    have hclosed : s'.mode.isClosed = true := by
      unfold finish at hfinish
      split_ifs at hfinish with hclosed
      exact hclosed
    cases hmode : s.mode with
    | plain => exact hunquoted (.inl hmode)
    | op o => exact hunquoted (.inr ⟨o, hmode⟩)
    | single =>
      rw [stuck_scan hinert (.inl hmode) hs', hmode] at hclosed
      exact absurd hclosed (by decide)
    | double =>
      rw [stuck_scan hinert (.inr (.inl hmode)) hs', hmode] at hclosed
      exact absurd hclosed (by decide)
    | escaped => exact absurd hmode (not_escaped hvs hord hws hscan h)
    | doubleEscaped =>
      rw [scan_cons] at hs'
      obtain ⟨s₁, hstep, hs'⟩ := Option.bind_eq_some_iff.mp hs'
      have hdouble : s₁.mode = .double := by
        simp only [step, hmode] at hstep
        obtain rfl := Option.some.inj hstep
        rfl
      rw [stuck_scan (inert_and hord) (.inr (.inl hdouble)) hs', hdouble] at hclosed
      exact absurd hclosed (by decide)
    | comment =>
      -- the comment hides the rest, so the tokens would weigh more than the text
      obtain rfl := comment_scan hinert hmode hs'
      have hupper : s'.weight ≤ (join ws).length := by
        simpa [State.weight, State.initial, weigh] using scan_weight hscan
      have hbase : weigh s'.tokens + (s'.word.getD []).length ≤ s'.weight := Nat.le_add_right _ _
      have hflush := weight_flush_le s'
      have htokens : s'.flush.tokens = ws.map .word ++ Token.op "&&".toList :: vs.map .word := by
        rw [finish, if_pos hclosed] at hfinish
        exact Option.some.inj hfinish
      have htotal : s'.flush.weight = (join ws).length + 1 + ((join vs).length + 1) := by
        rw [← length_join hws, ← length_join hvs, ← zero_add (weigh (vs.map .word))]
        change weigh s'.flush.tokens + 0 + 0 = _
        rw [htokens, weigh_append]
        rfl
      omega
  · intro h
    obtain ⟨w, ws, rfl⟩ := List.exists_cons_of_ne_nil hws
    obtain ⟨s, hs, hmode, htokens⟩ := scan_join [] h
    rw [tokens, State.initial, scan_append, hs, Option.bind_some, scan_cons, step_space (.inl hmode), Option.bind_some,
      finish_and hvs hord rfl, flush_flush, htokens, List.nil_append]

end AndList

end ShellTokens
