import TalkMachine.Text.Printable

/-!
# Spellings

How numbers, characters and strings are spelled: numerals with hexadecimal digits, columns of a given
width, decimal numerals that are read, and quoted texts.

A decimal numeral is one or more digits. A sign may stand in front where it is allowed.

A quoted text stands between two equal quotes. Inside, a backslash and the quote itself take a
backslash before them, the four common control characters have two-character names, and whatever
would not show as itself is written by its code point, `\u{...}`.
-/

namespace TalkMachine.Text

/-! ### Hexadecimal digits and columns -/

/-- Writes `n` with at least `width` lower-case hexadecimal digits. -/
def hex (width n : Nat) : String :=
  let digits := Nat.toDigits 16 n
  String.ofList (List.replicate (width - digits.length) '0' ++ digits)

/-- Writes `n` with upper-case hexadecimal digits and no leading zero. -/
def hexUpper (n : Nat) : String :=
  String.ofList ((Nat.toDigits 16 n).map Char.toUpper)

/-- Writes `text` flush right in a field of `width` characters. -/
def padLeft (width : Nat) (text : String) : String :=
  String.ofList (List.replicate (width - text.length) ' ') ++ text

/-- Writes `text` flush left in a field of `width` characters. -/
def padRight (width : Nat) (text : String) : String :=
  text ++ String.ofList (List.replicate (width - text.length) ' ')

/-! ### Decimal numerals -/

/-- The value of a decimal digit. -/
def digit? (c : Char) : Option Nat :=
  if c.isDigit then some (c.toNat - '0'.toNat) else none

/-- The number that digits spell behind the digits of `before`. -/
def readDigits (before : Nat) : List Char → Option Nat
  | [] => some before
  | c :: rest => do readDigits (10 * before + (← digit? c)) rest

/-- The number that a numeral without sign spells. -/
def readUnsigned? : List Char → Option Nat
  | [] => none
  | digits => readDigits 0 digits

/-- The number that a numeral spells, in front of which a plus may stand. -/
def readNatural? (text : String) : Option Nat :=
  match text.toList with
  | '+' :: digits => readUnsigned? digits
  | digits => readUnsigned? digits

/-- The number that a numeral spells, in front of which a plus or a minus may stand. -/
def readInteger? (text : String) : Option Int :=
  match text.toList with
  | '-' :: digits => (readUnsigned? digits).map (fun n => -(n : Int))
  | _ => (readNatural? text).map (fun n => (n : Int))

/-! ### Quoted characters and strings -/

/-- Writes the code point of `c` between braces. -/
def codePointEscape (c : Char) : String :=
  "\\u\x7b" ++ hex 1 c.toNat ++ "\x7d"

/-- Writes one character as it stands between two `quote`s. -/
def escapeChar (quote c : Char) : String :=
  if c = Char.ofNat 0 then "\\0"
  else if c = '\t' then "\\t"
  else if c = '\n' then "\\n"
  else if c = '\r' then "\\r"
  else if c = '\\' ∨ c = quote then String.ofList ['\\', c]
  else if isCombining c then codePointEscape c
  else if isPrintable c then c.toString
  else codePointEscape c

/-- A character between single quotes. -/
def quotedChar (c : Char) : String :=
  "'" ++ escapeChar '\'' c ++ "'"

/-- A string between double quotes. -/
def quotedString (text : String) : String :=
  "\"" ++ String.join (text.toList.map (escapeChar '"')) ++ "\""

end TalkMachine.Text
