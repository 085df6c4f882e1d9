import FormattedOutput.Argument

/-! What the directives of every format language have in common: flags, amounts such as a width, the
length of an argument, and the order in which arguments are taken. -/

namespace FormattedOutput

/-- The flags of a directive. -/
structure Flags where
  left : Bool := false
  plus : Bool := false
  space : Bool := false
  zero : Bool := false
  alternate : Bool := false
  grouping : Bool := false
  localDigits : Bool := false
  deriving DecidableEq, Repr

namespace Flags

/-- The flags with the one added that a letter stands for. -/
def set (f : Flags) : Char → Flags
  | '-' => { f with left := true }
  | '+' => { f with plus := true }
  | ' ' => { f with space := true }
  | '0' => { f with zero := true }
  | '#' => { f with alternate := true }
  | '\'' => { f with grouping := true }
  | 'I' => { f with localDigits := true }
  | _ => f

/-- The flags at the start of a text, of those that some letters stand for,
and the rest of the text. -/
def scan (letters : List Char) (bs : Bytes) : Flags × Bytes :=
  let isFlag (b : UInt8) : Bool := letters.contains (.ofUInt8 b)
  ((bs.takeWhile isFlag).foldl (fun f b => f.set (.ofUInt8 b)) {}, bs.dropWhile isFlag)

end Flags

/-- The number at the start of a text, 0 if there is none, and the rest of the text. -/
def scanNumber (bs : Bytes) : Nat × Bytes :=
  let isDigit (b : UInt8) : Bool := (Char.ofUInt8 b).isDigit
  (Nat.ofDigitChars 10 ((bs.takeWhile isDigit).map .ofUInt8) 0, bs.dropWhile isDigit)

/-- The length of an integer argument. -/
inductive Length where
  | int
  | char
  | short
  | long
  | longLong
  | size
  | difference
  | maximal
  /-- The greatest length there is for the argument's kind, integer or not. -/
  | extended
  deriving DecidableEq, Repr

namespace Length

/-- The number of bytes of an integer. -/
def bytes : Length → Nat
  | char => 1
  | short => 2
  | int => 4
  | long | longLong | size | difference | maximal | extended => 8

/-- The number of bits of an integer. -/
def bits (l : Length) : Nat := 8 * l.bytes

/-- The unsigned integer in the low bits of a word. -/
def unsigned (l : Length) (w : UInt64) : Nat := w.toNat % Nat.pow 2 l.bits

/-- The signed integer in the low bits of a word. -/
def signed (l : Length) (w : UInt64) : Int := Int.bmod w.toNat (Nat.pow 2 l.bits)

/-- The length whose letters start a text, of those in a table, and the rest of the text. -/
def scan (table : List (String × Length)) (bs : Bytes) : Length × Bytes :=
  let found := table.findSome? fun (letters, l) =>
    let bytes := letters.toList.map Char.toUInt8
    if bytes.isPrefixOf bs then some (l, bs.drop bytes.length) else none
  found.getD (.int, bs)

end Length

/-- Which argument a directive takes. -/
inductive Source where
  /-- The first of those that were not yet taken in order. -/
  | next
  /-- The argument with a given index. -/
  | nth (index : Nat)
  deriving DecidableEq, Repr

/-- A width or a precision, as a directive gives it. -/
inductive Amount where
  | given (n : Nat)
  | argument (source : Source)
  deriving DecidableEq, Repr

/-- The arguments of a write. -/
structure Supply where
  all : List Argument
  /-- Those that were not yet taken in order. -/
  rest : List Argument
  deriving DecidableEq, Repr

namespace Supply

/-- Every argument, and none of them taken. -/
def ofList (args : List Argument) : Supply := ⟨args, args⟩

/-- Take an argument, if there is one. -/
def take (s : Supply) : Source → Option (Argument × Supply)
  | .next =>
    match s.rest with
    | a :: rest => some (a, { s with rest })
    | [] => none
  | .nth index => s.all[index]?.map (·, s)

/-- Take a word, if there is one. -/
def takeWord (s : Supply) (source : Source) : Option (UInt64 × Supply) :=
  match s.take source with
  | some (.word w, s) => some (w, s)
  | _ => none

/-- The value of an amount. An argument gives it as a signed integer. -/
def amount (s : Supply) : Amount → Option (Int × Supply)
  | .given n => some (n, s)
  | .argument source => (s.takeWord source).map fun (w, s) => (Length.int.signed w, s)

/-- The value of an amount, if there is one to give. -/
def amount? (s : Supply) : Option Amount → Option (Option Int × Supply)
  | none => some (none, s)
  | some a => (s.amount a).map fun (n, s) => (some n, s)

end Supply

end FormattedOutput
