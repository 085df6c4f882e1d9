import FormattedOutput.Text.Utf8
import FormattedOutput.Text.Hidden

/-! Quoted text, as diagnostics show it: a text between double quotes, in which every character that
could be misread is written as an escape. What counts as hidden is a parameter of the escapes, and
`Text.hidden` is what the diagnostics use. -/

namespace FormattedOutput.Text

/-- The escape of a character by its code point. -/
def codePointEscape (c : Char) : List Char :=
  ['\\', 'u', '\x7b'] ++ Nat.toDigits 16 c.toNat ++ ['\x7d']

/-- A character of a quoted text. -/
def escapeChar (isHidden : Char → Bool) (c : Char) : List Char :=
  match c with
  | '\x00' => ['\\', '0']
  | '\t' => ['\\', 't']
  | '\r' => ['\\', 'r']
  | '\n' => ['\\', 'n']
  | '\\' => ['\\', '\\']
  | '"' => ['\\', '"']
  | c => if isHidden c then codePointEscape c else [c]

/-- A text between double quotes. -/
def quoteWith (isHidden : Char → Bool) (cs : List Char) : List Char :=
  '"' :: cs.flatMap (escapeChar isHidden) ++ ['"']

/-- A text between double quotes. -/
def quote (s : String) (isHidden : Char → Bool := hidden) : String :=
  String.ofList (quoteWith isHidden s.toList)

/-- A list of quoted texts in brackets. -/
def quoteList (ss : List String) (isHidden : Char → Bool := hidden) : String :=
  "[" ++ ", ".intercalate (ss.map (quote · isHidden)) ++ "]"

/-- A byte that belongs to no character, by its two hexadecimal digits. -/
def byteEscape (b : UInt8) : List Char :=
  ['\\', 'x'] ++ ((Nat.toDigits 16 b.toNat).map Char.toUpper).leftpad 2 '0'

/-- The inside of quoted bytes, behind `skip` bytes of a character already written. Where a
character starts it is written as in quoted text; any other byte is written by its digits. -/
def escapeBytes (isHidden : Char → Bool) : (skip : Nat) → Bytes → List Char
  | _, [] => []
  | skip + 1, _ :: bs => escapeBytes isHidden skip bs
  | 0, b :: bs =>
    match Utf8.first? (b :: bs) with
    | some (c, size) => escapeChar isHidden c ++ escapeBytes isHidden (size - 1) bs
    | none => byteEscape b ++ escapeBytes isHidden 0 bs

/-- Bytes that need not be text, between double quotes. -/
def quoteBytes (bs : Bytes) : String :=
  String.ofList ('"' :: escapeBytes hidden 0 bs ++ ['"'])

end FormattedOutput.Text
