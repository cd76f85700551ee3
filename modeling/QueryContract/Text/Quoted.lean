import QueryContract.Number.Decimal

/-!
Quoted text: the string form of JSON, with a double quote at each end and backslash escapes inside.

Reading goes character by character through a `Reader`, which counts the bytes of the UTF-8 form it
has passed, so that every fault has a place. Writing escapes the quote, the backslash and the
characters below the space, and nothing else.
-/

namespace QueryContract.Text.Quoted

inductive Reason where
  | unterminated
  | controlCharacter
  | invalidEscape
  | loneSurrogate
  | unfinishedPair
  | trailingText
  deriving DecidableEq, Repr

def Reason.message : Reason → String
  | unterminated => "EOF while parsing a string"
  | controlCharacter => "control character (\\u0000-\\u001F) found while parsing a string"
  | invalidEscape => "invalid escape"
  | loneSurrogate => "lone leading surrogate in hex escape"
  | unfinishedPair => "unexpected end of hex escape"
  | trailingText => "trailing characters"

/-- A reason and the number of bytes read when it was found. -/
structure Fault where
  reason : Reason
  offset : Nat
  deriving DecidableEq, Repr

def byteLength (text : List Char) : Nat := (text.flatMap String.utf8EncodeChar).length

def bytesBefore (text : List Char) (offset : Nat) : List UInt8 :=
  (text.flatMap String.utf8EncodeChar).take offset

def Fault.line (raw : List Char) (fault : Fault) : Nat :=
  1 + (bytesBefore raw fault.offset).count 10

def Fault.column (raw : List Char) (fault : Fault) : Nat :=
  ((bytesBefore raw fault.offset).reverse.takeWhile (· != 10)).length

def Fault.message (raw : List Char) (fault : Fault) : String :=
  fault.reason.message ++ " at line " ++ Number.showNat (fault.line raw) ++ " column "
    ++ Number.showNat (fault.column raw)

def hexDigit? (c : Char) : Option Nat :=
  if c.isDigit then some (c.toNat - 48)
  else if 'a' ≤ c ∧ c ≤ 'f' then some (c.toNat - 87)
  else if 'A' ≤ c ∧ c ≤ 'F' then some (c.toNat - 55)
  else none

def hexValue? (digits : List Char) : Option Nat :=
  digits.foldlM (fun value digit => (hexDigit? digit).map (value * 16 + ·)) 0

def isHighSurrogate (unit : Nat) : Bool := 0xD800 ≤ unit && unit ≤ 0xDBFF

def isLowSurrogate (unit : Nat) : Bool := 0xDC00 ≤ unit && unit ≤ 0xDFFF

def joinSurrogates (high low : Nat) : Char :=
  Char.ofNat (0x10000 + (high - 0xD800) * 0x400 + (low - 0xDC00))

/-- The letters that may follow a backslash, `u` apart, with the characters they stand for. -/
def escapeLetters : List (Char × Char) :=
  [('"', '"'), ('\\', '\\'), ('/', '/'), ('b', '\x08'), ('f', '\x0C'), ('n', '\n'), ('r', '\r'),
    ('t', '\t')]

/-- What the characters read so far leave open. -/
inductive Mode where
  | plain
  | escape
  /-- The digits of an escape, latest first, after the high half of a pair if there was one. -/
  | digits (high : Option Nat) (latest : List Char)
  | pairBackslash (high : Nat)
  | pairLetter (high : Nat)
  | closed
  deriving DecidableEq, Repr

/-- The state after an opening quote: the decoded characters stand latest first. -/
structure Reader where
  mode : Mode
  offset : Nat
  latest : List Char
  deriving DecidableEq, Repr

namespace Reader

def start : Reader := ⟨.plain, 1, []⟩

def text (reader : Reader) : List Char := reader.latest.reverse

def moveTo (reader : Reader) (c : Char) (mode : Mode) : Reader :=
  { reader with mode := mode, offset := reader.offset + c.utf8Size }

def emit (reader : Reader) (c : Char) (decoded : Char) : Reader :=
  ⟨.plain, reader.offset + c.utf8Size, decoded :: reader.latest⟩

def faultAfterByte (reader : Reader) (reason : Reason) : Except Fault Reader :=
  .error ⟨reason, reader.offset + 1⟩

/-- The reader after the last digit of an escape whose value is `unit`. -/
def acceptUnit (reader : Reader) (c : Char) (high : Option Nat) (unit : Nat) : Except Fault Reader :=
  match high with
  | some high =>
    if isLowSurrogate unit then .ok (reader.emit c (joinSurrogates high unit))
    else reader.faultAfterByte .loneSurrogate
  | none =>
    if isLowSurrogate unit then reader.faultAfterByte .loneSurrogate
    else if isHighSurrogate unit then .ok (reader.moveTo c (.pairBackslash unit))
    else .ok (reader.emit c (Char.ofNat unit))

/-- An escape is judged when four bytes of it are there, so a text that ends earlier is unterminated
    whatever those bytes are. -/
def acceptDigit (reader : Reader) (c : Char) (high : Option Nat) (latest : List Char) :
    Except Fault Reader :=
  if byteLength (c :: latest) < 4 then .ok (reader.moveTo c (.digits high (c :: latest)))
  else
    match hexValue? (c :: latest).reverse with
    | some unit => reader.acceptUnit c high unit
    | none => .error ⟨.invalidEscape, reader.offset - byteLength latest + 4⟩

def step (reader : Reader) (c : Char) : Except Fault Reader :=
  match reader.mode with
  | .plain =>
    if c = '"' then .ok (reader.moveTo c .closed)
    else if c = '\\' then .ok (reader.moveTo c .escape)
    else if c < ' ' then reader.faultAfterByte .controlCharacter
    else .ok (reader.emit c c)
  | .escape =>
    if c = 'u' then .ok (reader.moveTo c (.digits none []))
    else
      match escapeLetters.lookup c with
      | some decoded => .ok (reader.emit c decoded)
      | none => reader.faultAfterByte .invalidEscape
  | .digits high latest => reader.acceptDigit c high latest
  | .pairBackslash high =>
    if c = '\\' then .ok (reader.moveTo c (.pairLetter high))
    else reader.faultAfterByte .unfinishedPair
  | .pairLetter high =>
    if c = 'u' then .ok (reader.moveTo c (.digits (some high) []))
    else reader.faultAfterByte .unfinishedPair
  | .closed =>
    if c = ' ' ∨ c = '\t' ∨ c = '\n' ∨ c = '\r' then .ok (reader.moveTo c .closed)
    else reader.faultAfterByte .trailingText

end Reader

/-- The text of a literal that starts with a double quote and may have blanks after its end. -/
def read (raw : List Char) : Except Fault (List Char) := do
  let reader ← (raw.drop 1).foldlM Reader.step Reader.start
  match reader.mode with
  | .closed => .ok reader.text
  | _ => .error ⟨.unterminated, reader.offset⟩

def hexDigits : List Char := "0123456789abcdef".toList

def hexCharacter (value : Nat) : Char := hexDigits.getD (value % 16) '0'

def encodeChar (c : Char) : List Char :=
  if c = '"' then ['\\', '"']
  else if c = '\\' then ['\\', '\\']
  else if c = '\x08' then ['\\', 'b']
  else if c = '\x0C' then ['\\', 'f']
  else if c = '\n' then ['\\', 'n']
  else if c = '\r' then ['\\', 'r']
  else if c = '\t' then ['\\', 't']
  else if c < ' ' then ['\\', 'u', '0', '0', hexCharacter (c.toNat / 16), hexCharacter c.toNat]
  else [c]

def write (text : List Char) : List Char := '"' :: text.flatMap encodeChar ++ ['"']

end QueryContract.Text.Quoted
