/-!
# Quoted messages

A message of a program is quoted in a diagnostic so that it stays on one line and ends where its
quotes do: quotes, backslashes and control characters are written as escapes, everything else as
it is.

* `Escape.encode` — the quoted form of a message, without the quotes.
* `Escape.decode?` — the message with a given quoted form.
-/

namespace ExprTree

namespace Escape

/-- Is this one of the 65 control characters? -/
def isControl (c : Char) : Bool :=
  decide (c.toNat < 0x20) || (decide (0x7f ≤ c.toNat) && decide (c.toNat < 0xa0))

/-- Is this character written as an escape? -/
def isEscaped (c : Char) : Bool := isControl c || c == '"' || c == '\\'

/-- The escape of a character: a letter or the character itself behind a backslash, or its code
point in hexadecimal digits. -/
def escape (c : Char) : List Char :=
  if c = '\n' then ['\\', 'n']
  else if c = '\r' then ['\\', 'r']
  else if c = '\t' then ['\\', 't']
  else if c = '"' then ['\\', '"']
  else if c = '\\' then ['\\', '\\']
  else ['\\', 'u', '\x7b'] ++ Nat.toDigits 16 c.toNat ++ ['\x7d']

/-- The written form of a character. -/
def encodeChar (c : Char) : List Char := if isEscaped c then escape c else [c]

/-- The quoted form of a message, without the quotes. -/
def encode (message : String) : String := String.ofList (message.toList.flatMap encodeChar)

/-! ### Reading quoted forms -/

/-- The value of a hexadecimal digit. -/
def digit? (c : Char) : Option Nat :=
  if '0' ≤ c ∧ c ≤ '9' then some (c.toNat - '0'.toNat)
  else if 'a' ≤ c ∧ c ≤ 'f' then some (c.toNat - 'a'.toNat + 10)
  else if 'A' ≤ c ∧ c ≤ 'F' then some (c.toNat - 'A'.toNat + 10)
  else none

/-- The character with a code point. -/
def char? (value : Nat) : Option Char :=
  if value.isValidChar then some (Char.ofNat value) else none

/-- Where a reader of quoted forms stands. -/
inductive Reader
  /-- Between two written forms. -/
  | text
  /-- Behind a backslash. -/
  | escape
  /-- Before the opening brace of a code point. -/
  | brace
  /-- Behind the opening brace of a code point, with the value of the digits so far, if there are
  any. -/
  | digits (value : Option Nat)
  deriving DecidableEq, Repr

/-- The characters of a quoted form, read from a state; nothing where an escape is malformed. -/
def decodeFrom? : Reader → List Char → Option (List Char)
  | .text, [] => some []
  | _, [] => none
  | .text, c :: cs =>
    if c = '\\' then decodeFrom? .escape cs else (decodeFrom? .text cs).map (c :: ·)
  | .escape, c :: cs =>
    if c = 'n' then (decodeFrom? .text cs).map ('\n' :: ·)
    else if c = 'r' then (decodeFrom? .text cs).map ('\r' :: ·)
    else if c = 't' then (decodeFrom? .text cs).map ('\t' :: ·)
    else if c = '"' ∨ c = '\\' then (decodeFrom? .text cs).map (c :: ·)
    else if c = 'u' then decodeFrom? .brace cs
    else none
  | .brace, c :: cs => if c = '\x7b' then decodeFrom? (.digits none) cs else none
  | .digits value, c :: cs =>
    if c = '\x7d' then
      (value.bind char?).bind fun c => (decodeFrom? .text cs).map (c :: ·)
    else (digit? c).bind fun d => decodeFrom? (.digits (some (16 * value.getD 0 + d))) cs

/-- The message with a given quoted form. -/
def decode? (text : String) : Option String := (decodeFrom? .text text.toList).map String.ofList

end Escape

end ExprTree
