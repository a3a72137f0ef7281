import Mathlib.Data.List.DropRight
import TinyhackSsh.Spec.MoshLauncher

/-! `mosh-launcher.cc` after the start of ssh: the loop over the lines of ssh's
output and the start of mosh-client; and the line form that `mosh.pl` asks for. -/

namespace Tinyhack.Mosh

def connectTag : JString := "MOSH CONNECT ".toList

def isLineEnd (c : Char) : Bool := c = '\n' || c = '\r'

def startsWith (tag s : JString) : Bool := tag.isPrefixOf s

/-- The port and the key of a line that starts with `connectTag`; `none` where the launcher dies. -/
def connectFields (s : JString) : Option (JString × JString) :=
  let rest := s.drop 13
  if ' ' ∈ rest then
    let port := rest.takeWhile (· ≠ ' ')
    let key := (rest.dropWhile (· ≠ ' ')).tail.rdropWhile (· = ' ')
    if port.isEmpty || key.isEmpty then none else some (port, key)
  else none

/-- How the loop over the output ends. -/
inductive Connect
  /-- the output ended first -/
  | missing
  /-- `Bad MOSH CONNECT string` -/
  | bad
  | found (port key : JString)
  deriving DecidableEq

structure Bootstrap where
  ip : JString
  connect : Connect
  deriving DecidableEq

/-- The `getline` loop, with the address read so far. -/
def readOutput (ip : JString) : List JString → Bootstrap
  | [] => ⟨ip, .missing⟩
  | line :: lines =>
    let s := line.rdropWhile isLineEnd
    if startsWith connectTag s then
      match connectFields s with
      | none => ⟨ip, .bad⟩
      | some (port, key) => ⟨ip, .found port key⟩
    else if startsWith "MOSH IP ".toList s then readOutput (s.drop 8) lines
    else if startsWith "MOSH SSH_CONNECTION ".toList s then
      readOutput (if (splitSpaces s).length = 6 then (splitSpaces s).getD 4 [] else ip) lines
    else readOutput ip lines

/-- `c_str()`, as the callee reads it. -/
def cString (s : JString) : JString := s.takeWhile (· ≠ '\x00')

/-- The arguments of mosh-client and the variables set for it. -/
structure Client where
  title : JString
  ip : JString
  port : JString
  key : JString
  predictionDisplay : Option JString
  noTermInit : Bool
  deriving DecidableEq

/-- The host part of `user@host`. -/
def hostOf (userhost : JString) : JString :=
  if '@' ∈ userhost then (userhost.dropWhile (· ≠ '@')).tail else userhost

/-- The address before `resolveNumeric`. -/
def serverAddress (o : Options) (lines : List JString) : JString :=
  let ip := (readOutput [] lines).ip
  if ip.isEmpty then hostOf o.userhost else ip

/-- What the launcher starts, or `none` where it dies. `resolveNumeric` asks the system's resolver. -/
def startClient (resolveNumeric : JString → Option JString) (o : Options) (lines : List JString) : Option Client :=
  match (readOutput [] lines).connect with
  | .missing => none
  | .bad => none
  | .found port key =>
    (resolveNumeric (serverAddress o lines)).map fun ip =>
      { title := cString (o.userhost ++ " | ".toList)
        ip := cString ip
        port := cString port
        key := cString key
        predictionDisplay := if o.predict.isEmpty then none else some (cString o.predict)
        noTermInit := o.noInit }

/-! ### The wrapper -/

def isDigit (c : Char) : Bool := '0' ≤ c && c ≤ '9'

/-- The class `[A-Za-z0-9/+]`. -/
def isKeyChar (c : Char) : Bool :=
  ('A' ≤ c && c ≤ 'Z') || ('a' ≤ c && c ≤ 'z') || isDigit c || c = '/' || c = '+'

/-- The class `\s`. -/
def isSpace (c : Char) : Bool := c = ' ' || ('\t' ≤ c && c ≤ '\r')

/-- The groups of `^MOSH CONNECT (\d+?) ([A-Za-z0-9/+]{22})\s*$` on a line that starts with `connectTag`. -/
def wrapperFields (s : JString) : Option (JString × JString) :=
  let rest := s.drop 13
  let port := rest.takeWhile isDigit
  match rest.dropWhile isDigit with
  | [] => none
  | c :: tail =>
    if c = ' ' ∧ port ≠ [] ∧ (tail.take 22).length = 22 ∧ (tail.take 22).all isKeyChar ∧ (tail.drop 22).all isSpace then
      some (port, tail.take 22)
    else none

/-- The line at which the wrapper and the launcher stop reading. -/
def connectLine (lines : List JString) : Option JString := lines.find? (startsWith connectTag)

end Tinyhack.Mosh
