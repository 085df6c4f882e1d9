import FormattedOutput.Errno
import FormattedOutput.Hosted.Floating
import FormattedOutput.Hosted.Text

/-! The conversions of the host's format language: what each letter asks for, and what becomes of an
argument. -/

namespace FormattedOutput.Hosted

/-- What a conversion letter asks for. -/
inductive Conversion where
  /-- A percent sign. -/
  | percentSign
  | signed
  | unsigned (radix : Radix)
  | floating (style : FloatStyle) (upper : Bool)
  /-- A character; the letter may ask for a wide one by itself. -/
  | character (wide : Bool)
  /-- A text; the letter may ask for a wide one by itself. -/
  | text (wide : Bool)
  | address
  /-- Store how much was written so far. -/
  | count
  /-- The text of the error number. -/
  | errorText
  /-- The letter means nothing. -/
  | unknown
  deriving DecidableEq, Repr

/-- What a letter asks for. -/
def Conversion.ofLetter (letter : UInt8) : Conversion :=
  match Char.ofUInt8 letter with
  | '%' => percentSign
  | 'd' | 'i' => signed
  | 'u' => unsigned .decimal
  | 'o' => unsigned .octal
  | 'x' => unsigned .hexadecimal
  | 'X' => unsigned .upperHexadecimal
  | 'b' => unsigned .binary
  | 'B' => unsigned .upperBinary
  | 'f' => floating .fixed false
  | 'F' => floating .fixed true
  | 'e' => floating .scientific false
  | 'E' => floating .scientific true
  | 'g' => floating .general false
  | 'G' => floating .general true
  | 'a' => floating .hexadecimal false
  | 'A' => floating .hexadecimal true
  | 'c' => character false
  | 'C' => character true
  | 's' => text false
  | 'S' => text true
  | 'p' => address
  | 'n' => count
  | 'm' => errorText
  | _ => unknown

/-- Whether a conversion is known with a length. -/
def Conversion.takes : Conversion → Length → Bool
  | unknown, _ => false
  | percentSign, .short | signed, .short | unsigned _, .short | count, .short => true
  | _, .short => false
  | _, _ => true

/-- Whether a length asks for wide characters. -/
def wideLength : Length → Bool
  | .int | .char | .short => false
  | .long | .longLong | .size | .difference | .maximal | .extended => true

/-- What a conversion does. -/
inductive Effect where
  | write (text : Rope UInt8)
  /-- Store the count so far in a cell. -/
  | store (cell size : Nat)
  /-- Write a text and then fail. -/
  | fail (text : Bytes) (cause : Cause)
  deriving DecidableEq, Repr

/-- Write a text of characters. -/
def Effect.writeChars (cs : Rope Char) : Effect := .write (Utf8.encodeRope cs)

/-- A directive that means nothing, written out in a fixed order of its parts
and without its length. -/
def unknownText (l : Layout) (letter : Option UInt8) : Rope UInt8 :=
  let flag (on : Bool) (c : Char) : List Char := if on then [c] else []
  let f := l.flags
  let chars :=
    ['%'] ++ flag f.alternate '#' ++ flag f.grouping '\'' ++ flag f.plus '+' ++
      flag (f.space && !f.plus) ' ' ++ flag f.left '-' ++ flag f.zero '0' ++
      flag f.localDigits 'I' ++ (if l.width = 0 then [] else Nat.toDigits 10 l.width) ++
      (match l.precision with | some p => '.' :: Nat.toDigits 10 p | none => [])
  .ofList (Utf8.encode chars ++ letter.toList)

/-- An address, in hexadecimal digits. Unlike other unsigned integers it takes a sign on demand. -/
def addressText (l : Layout) (w : UInt64) : Rope UInt8 :=
  if w = 0 then nullAddress l
  else
    let l := { l with flags := { l.flags with alternate := true } }
    Utf8.encodeRope (integer l .hexadecimal (signOf l.flags false) w.toNat)

/-- An error number: its text, or its name in the alternate form. One without a name is
written in digits there. -/
def errorText (l : Layout) (errno : Int) : Rope UInt8 :=
  let words (s : String) : Rope UInt8 := text l (Utf8.encode s.toList)
  if l.flags.alternate then
    match Errno.name? errno with
    | some name => words name
    | none => Utf8.encodeRope (decimalInteger l errno)
  else words (Errno.text errno)

/-- A wide character, which fails if it has no byte. -/
def Effect.wideCharacter (l : Layout) (code : Nat) : Effect :=
  match wideCharacter? l code with
  | some text => .write text
  | none => .fail [] .unencodable

/-- A wide text, which fails if one of its characters has no byte. -/
def Effect.wideText (l : Layout) (codes : List Nat) : Effect :=
  match Hosted.wideText l codes with
  | .ok text => .write text
  | .error front => .fail front .unencodable

/-- The effect of a conversion that takes an argument, if the argument is one that it can take. -/
def Conversion.apply (c : Conversion) (l : Layout) (arg : Argument) : Option Effect :=
  match c, arg with
  | .signed, .word w => some (.writeChars (signedInteger l w))
  | .unsigned radix, .word w => some (.writeChars (unsignedInteger l radix w))
  | .floating style upper, .double bits =>
    some (.writeChars (Hosted.floating style upper l (.ofBits bits)))
  | .character wide, .word w =>
    if wide || wideLength l.length then some (.wideCharacter l (Length.int.unsigned w))
    else some (.write (bytesField l [w.toUInt8]))
  | .text wide, .text bs =>
    if wide || wideLength l.length then none else some (.write (Hosted.text l bs.untilZero))
  | .text wide, .wideText codes =>
    if wide || wideLength l.length then some (.wideText l codes) else none
  | .text _, .word w => if w = 0 then some (.write (nullText l)) else none
  | .address, .word w => some (.write (addressText l w))
  | .count, .cell cell => some (.store cell l.length.bytes)
  | _, _ => none

/-- The effect of a conversion in a settled directive, and the arguments that it leaves, if the
argument is one that it can take. -/
def Conversion.perform (c : Conversion) (errno : Int) (spec : Spec) (letter : UInt8) (l : Layout)
    (s : Supply) : Option (Effect × Supply) :=
  match c with
  | .percentSign => some (.write (.ofList [percent]), s)
  | .errorText => some (.write (Hosted.errorText l errno), s)
  | .unknown => some (.write (unknownText l letter), s)
  | c => do
    let (arg, s) ← s.take spec.source
    return (← c.apply l arg, s)

/-- The effect of a directive and the arguments that it leaves, if its arguments are ones that it
can take. Without a letter a directive is written out. -/
def perform (manner : Manner) (errno : Int) (spec : Spec) (letter : Option UInt8) (s : Supply) :
    Option (Effect × Supply) := do
  let (l, s) ← spec.settle manner s
  match letter with
  | some letter => (Conversion.ofLetter letter).perform errno spec letter l s
  | none => some (.write (unknownText l none), s)

end FormattedOutput.Hosted
