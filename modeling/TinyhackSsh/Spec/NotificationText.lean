import TinyhackSsh.Lib.Base64
import TinyhackSsh.Spec.Wire

/-! Reading OSC 99 requests, from `KittyNotificationManager`: the metadata, the
text parts with their base64 remainder, and the options of an assembly. A thrown
`IllegalArgumentException` or `CharacterCodingException` is `none`. What the
assembly of a chunked notification is for stands at the end. -/

namespace Tinyhack.Notify

open Wire

def MAX_TEXT_BYTES : ℕ := 16384

/-- The strict decoder reports bytes that are not the encoding of a string. -/
def text (bytes : Bytes) : Option JString :=
  let value := decodeUtf8 bytes
  if encodeUtf8 value = bytes then some value else none

def asciiChar (b : UInt8) : Char := Char.ofNat b.toNat

def isLetter (c : Char) : Bool := ('a' ≤ c && c ≤ 'z') || ('A' ≤ c && c ≤ 'Z')

def isDigit (c : Char) : Bool := '0' ≤ c && c ≤ '9'

/-- The map of the options; the first item with a key counts (`putIfAbsent`). -/
abbrev Options := List (Char × JString)

def metadataItem : JString → Option (Char × JString)
  | key :: '=' :: value => if isLetter key then some (key, value) else none
  | _ => none

def metadata (bytes : Bytes) : Option Options :=
  if bytes.length > 2048 then none
  else if bytes.any fun b => b < 0x20 || b > 0x7e then none
  else some (((bytes.map asciiChar).splitOn ':').filterMap metadataItem)

/-- `[a-zA-Z0-9_+.-]` -/
def isIdChar (c : Char) : Bool := isLetter c || isDigit c || c = '_' || c = '+' || c = '.' || c = '-'

def isValidId (id : JString) : Bool := !id.isEmpty && id.length ≤ 128 && id.all isIdChar

inductive RequestType
  | query
  | alive
  | close
  | title
  | body
  /-- icons and buttons are not advertised -/
  | other
  deriving DecidableEq

def requestType (p : JString) : RequestType :=
  if p = "?".toList then .query
  else if p = "alive".toList then .alive
  else if p = "close".toList then .close
  else if p = "title".toList then .title
  else if p = "body".toList then .body
  else .other

structure Request where
  options : Options
  id : Option JString
  type : RequestType
  deriving DecidableEq

/-- The metadata of a request, unless it is ignored. -/
def parseRequest (bytes : Bytes) : Option Request := do
  let options ← metadata bytes
  let id := options.lookup 'i'
  if id.any fun id => !isValidId id then none
  else some ⟨options, id, requestType ((options.lookup 'p').getD "title".toList)⟩

def CAPABILITIES : JString :=
  "p=title,body,?,close,alive:a=focus,report:c=1:o=always,unfocused,invisible:s=system,silent:u=0,1,2:w=1".toList

/-- The text that `reply` writes. -/
def replyText (id operation : Option JString) (payload : JString) : JString :=
  "\x1b]99;i=".toList ++ id.getD "0".toList ++ (operation.elim [] fun operation => ':' :: operation) ++
    ';' :: payload ++ "\x1b\\".toList

def capabilityReply (bytes : Bytes) : Option Bytes :=
  match metadata bytes with
  | none => none
  | some options =>
    if options.lookup 'p' ≠ some "?".toList then none
    else if (options.lookup 'i').any fun id => !isValidId id then some []
    else some (encodeUtf8 (replyText (options.lookup 'i') (some "p=?".toList) CAPABILITIES))

/-! `TextPart`. -/

structure TextPart where
  bytes : Bytes
  quartet : JString
  deriving DecidableEq

def TextPart.append (part : TextPart) (data : Bytes) : Option TextPart :=
  if part.bytes.length + data.length > MAX_TEXT_BYTES then none
  else some { part with bytes := part.bytes ++ data }

def isControl (c : Char) : Bool := c.toNat < 32 || (127 ≤ c.toNat && c.toNat ≤ 159)

/-- A plain payload is text without control characters. -/
def isPlain (data : Bytes) : Bool := (text data).any fun value => !value.any isControl

def TextPart.plain (part : TextPart) (data : Bytes) : Option TextPart :=
  if !part.quartet.isEmpty then none
  else if !isPlain data then none
  else part.append data

/-- `[A-Za-z0-9+/]{4}|[A-Za-z0-9+/]{3}=|[A-Za-z0-9+/]{2}==` -/
def isQuartet : JString → Bool
  | [a, b, c, d] => a ∈ Base64.alphabet && b ∈ Base64.alphabet &&
      (c ∈ Base64.alphabet && (d ∈ Base64.alphabet || d = '=') || c = '=' && d = '=')
  | _ => false

def TextPart.encodedByte (part : TextPart) (b : UInt8) : Option TextPart :=
  let c := asciiChar b
  if c ∉ Base64.alphabet ∧ c ≠ '=' then none
  else
    let group := part.quartet ++ [c]
    if group.length = 4 then
      if !isQuartet group then none
      else (Base64.decode group).bind fun data => { part with quartet := [] }.append data
    else some { part with quartet := group }

def TextPart.encoded (part : TextPart) (data : Bytes) : Option TextPart := data.foldlM TextPart.encodedByte part

/-- `[A-Za-z0-9+/]{2,3}` -/
def isRemainder (quartet : JString) : Bool :=
  2 ≤ quartet.length && quartet.length ≤ 3 && quartet.all fun c => c ∈ Base64.alphabet

def TextPart.finish (part : TextPart) : Option TextPart :=
  if part.quartet.isEmpty then some part
  else if !isRemainder part.quartet then none
  else (Base64.decode part.quartet).bind fun data => { part with quartet := [] }.append data

/-! `Assembly`. -/

inductive Occasion
  | always
  | unfocused
  | invisible
  deriving DecidableEq

structure Assembly where
  session : ℕ
  id : Option JString
  created : ℕ
  title : TextPart
  body : TextPart
  focus : Bool
  report : Bool
  closeReport : Bool
  silent : Bool
  failed : Bool
  occasion : Occasion
  urgency : ℕ
  expires : ℤ
  deriving DecidableEq

def Assembly.new (session : ℕ) (id : Option JString) (now : ℕ) : Assembly where
  session := session
  id := id
  created := now
  title := ⟨[], []⟩
  body := ⟨[], []⟩
  focus := true
  report := false
  closeReport := false
  silent := false
  failed := false
  occasion := .always
  urgency := 1
  expires := -1

/-- The `switch` on one of the actions; focus and report. -/
def applyAction (flags : Bool × Bool) (action : JString) : Bool × Bool :=
  if action = "focus".toList then (true, flags.2)
  else if action = "-focus".toList then (false, flags.2)
  else if action = "report".toList then (flags.1, true)
  else if action = "-report".toList then (flags.1, false)
  else flags

def occasionOf (value : JString) : Occasion :=
  if value = "unfocused".toList then .unfocused
  else if value = "invisible".toList then .invisible
  else .always

def urgencyOf (value : JString) : ℕ := if value = "0".toList then 0 else if value = "2".toList then 2 else 1

/-- `[A-Za-z0-9+/]*={0,2}` -/
def isBase64 (encoded : JString) : Bool :=
  let padding := encoded.dropWhile fun c => c ∈ Base64.alphabet
  padding.length ≤ 2 && padding.all fun c => c = '='

/-- The sound that an `s` option names. -/
def soundOf (encoded : JString) : Option JString :=
  if !isBase64 encoded then none else (Base64.decode encoded).bind text

/-- The number that matches `-?[0-9]+`; `Long.parseLong` throws beyond the range of
`long`, which is outside the range tested for anyway. -/
def parseNumber (value : JString) : Option ℤ :=
  let negative := value.head? = some '-'
  let digits := if negative then value.tail else value
  if digits.isEmpty || !digits.all isDigit then none
  else
    let n : ℕ := digits.foldl (fun acc c => acc * 10 + (c.toNat - '0'.toNat)) 0
    some (if negative then -n else n)

def expiresOf (value : JString) (expires : ℤ) : ℤ :=
  match parseNumber value with
  | some n => if -1 ≤ n ∧ n ≤ 2147483647 then n else expires
  | none => expires

/-- The options that cannot fail, in the order of the source. -/
def Assembly.setFlags (a : Assembly) (o : Options) : Assembly :=
  let flags := (o.lookup 'a').elim (a.focus, a.report) fun value => (value.splitOn ',').foldl applyAction (true, false)
  { a with
    focus := flags.1
    report := flags.2
    closeReport := (o.lookup 'c').elim a.closeReport fun value => value = "1".toList
    occasion := (o.lookup 'o').elim a.occasion occasionOf
    urgency := (o.lookup 'u').elim a.urgency urgencyOf }

def Assembly.options (a : Assembly) (o : Options) : Option Assembly :=
  let a := a.setFlags o
  let expires := (o.lookup 'w').elim a.expires fun value => expiresOf value a.expires
  match o.lookup 's' with
  | none => some { a with expires := expires }
  | some encoded => (soundOf encoded).map fun sound =>
      { a with silent := sound = "silent".toList, expires := expires }

/-- A title or body request: options and payload. -/
structure Chunk where
  options : Options
  isBody : Bool
  payload : Bytes
  deriving DecidableEq

def Chunk.isEncoded (c : Chunk) : Bool := c.options.lookup 'e' = some "1".toList

def Chunk.isFinal (c : Chunk) : Bool := c.options.lookup 'd' ≠ some "0".toList

def Assembly.part (a : Assembly) (isBody : Bool) : TextPart := if isBody then a.body else a.title

def Assembly.setPart (a : Assembly) (isBody : Bool) (part : TextPart) : Assembly :=
  if isBody then { a with body := part } else { a with title := part }

/-- One chunk, to the part it is for. -/
def TextPart.feed (part : TextPart) (c : Chunk) : Option TextPart :=
  if c.isEncoded then part.encoded c.payload else part.plain c.payload

/-- The `try` block of `onNotification` up to the test for the final chunk. -/
def Assembly.add (a : Assembly) (c : Chunk) : Option Assembly := do
  let a ← a.options c.options
  let part ← (a.part c.isBody).feed c
  let a := a.setPart c.isBody part
  if a.title.bytes.length + a.body.bytes.length > MAX_TEXT_BYTES then none else some a

def texts (title body : Bytes) : Option (JString × JString) :=
  if title.length + body.length > MAX_TEXT_BYTES then none
  else (text title).bind fun titleText => (text body).map fun bodyText => (titleText, bodyText)

/-- The rest of the block: the texts that are handed to `show`. -/
def Assembly.complete (a : Assembly) : Option (JString × JString) := do
  let title ← a.title.finish
  let body ← a.body.finish
  texts title.bytes body.bytes

/-! What a transaction means, read as a whole: the payloads of a part are joined in
order, base64 payloads that follow one another being one stream, and decoded. -/

inductive Segment
  | plain (data : Bytes)
  | encoded (chars : JString)
  deriving DecidableEq

def Chunk.segment (c : Chunk) : Segment :=
  if c.isEncoded then .encoded (c.payload.map asciiChar) else .plain c.payload

def joinSegments : List Segment → List Segment
  | [] => []
  | .plain data :: rest => .plain data :: joinSegments rest
  | .encoded chars :: rest =>
    match joinSegments rest with
    | .encoded more :: tail => .encoded (chars ++ more) :: tail
    | tail => .encoded chars :: tail

/-- Complete quartets. -/
def decodeQuartets : JString → Option Bytes
  | [] => some []
  | a :: b :: c :: d :: rest =>
    if isQuartet [a, b, c, d] then
      (Base64.decode [a, b, c, d]).bind fun data => (decodeQuartets rest).map fun more => data ++ more
    else none
  | _ => none

/-- Quartets, the last of which may lack its padding. -/
def decodeStream : JString → Option Bytes
  | [] => some []
  | a :: b :: c :: d :: rest =>
    if isQuartet [a, b, c, d] then
      (Base64.decode [a, b, c, d]).bind fun data => (decodeStream rest).map fun more => data ++ more
    else none
  | rest => if isRemainder rest then Base64.decode rest else none

/-- Only the last stream may end in an incomplete quartet. -/
def decodeSegments : List Segment → Option Bytes
  | [] => some []
  | [.encoded chars] => decodeStream chars
  | .encoded chars :: rest => (decodeQuartets chars).bind fun data => (decodeSegments rest).map fun more => data ++ more
  | .plain data :: rest => if isPlain data then (decodeSegments rest).map fun more => data ++ more else none

def partSegments (isBody : Bool) (chunks : List Chunk) : List Segment :=
  (chunks.filter fun c => c.isBody = isBody).map Chunk.segment

/-- The only options that can make a chunk invalid. -/
def Chunk.hasBadSound (c : Chunk) : Bool := (c.options.lookup 's').any fun encoded => (soundOf encoded).isNone

/-- Title and body of a whole transaction. -/
def assemble (chunks : List Chunk) : Option (JString × JString) :=
  if chunks.any Chunk.hasBadSound then none
  else do
    let title ← decodeSegments (joinSegments (partSegments false chunks))
    let body ← decodeSegments (joinSegments (partSegments true chunks))
    texts title body

end Tinyhack.Notify
