/-!
# Numerals

`digitValue?` is the value of a digit in a base up to sixteen and `readDigits?` the number that a
list of digits denotes; `hexDigit` writes one. `readInt64?` reads a signed decimal number that
fits into 64 bits, the bound under which constant slice bounds are folded. `writeInt` writes an
integer in decimal.
-/

namespace Berrify.Text

/-- The value of a digit : `0` to `9`, then `a` to `f` in either case. -/
def digitValue? (base : Nat) (c : Char) : Option Nat :=
  let value :=
    if '0' ≤ c ∧ c ≤ '9' then some (c.toNat - '0'.toNat)
    else if 'a' ≤ c ∧ c ≤ 'f' then some (c.toNat - 'a'.toNat + 10)
    else if 'A' ≤ c ∧ c ≤ 'F' then some (c.toNat - 'A'.toNat + 10)
    else none
  value.filter (· < base)

/-- Whether a character is a digit of a base. -/
def isDigitOf (base : Nat) (c : Char) : Bool :=
  (digitValue? base c).isSome

/-- The number that digits denote after `acc` has been read before them. -/
def readDigitsFrom? (base acc : Nat) : List Char → Option Nat
  | [] => some acc
  | c :: rest => do readDigitsFrom? base (acc * base + (← digitValue? base c)) rest

/-- The number that a non-empty list of digits denotes. -/
def readDigits? (base : Nat) (digits : List Char) : Option Nat :=
  if digits.isEmpty then none else readDigitsFrom? base 0 digits

/-- Like `readDigits?`, with an optional plus sign in front. -/
def readUnsigned? (base : Nat) : List Char → Option Nat
  | '+' :: digits => readDigits? base digits
  | digits => readDigits? base digits

/-- Whether an integer fits into 64 bits with a sign. -/
def fitsInt64 (value : Int) : Bool :=
  -0x8000000000000000 ≤ value && value < 0x8000000000000000

/-- A decimal number with an optional sign. -/
def readInt? : List Char → Option Int
  | '-' :: digits => (readDigits? 10 digits).map (fun n => -(n : Int))
  | digits => (readUnsigned? 10 digits).map Int.ofNat

/-- A decimal number with an optional sign that fits into 64 bits. -/
def readInt64? (text : String) : Option Int :=
  (readInt? text.toList).filter fitsInt64

/-- The decimal text of a natural number. -/
def writeNat (n : Nat) : String :=
  String.ofList (Nat.toDigits 10 n)

/-- The decimal text of an integer. -/
def writeInt (value : Int) : String :=
  if value < 0 then "-" ++ writeNat value.natAbs else writeNat value.natAbs

/-- The digit of a value below sixteen, in lower case. -/
def hexDigit (value : Nat) : Char :=
  if value < 10 then Char.ofNat ('0'.toNat + value) else Char.ofNat ('a'.toNat + (value - 10))

/-- The digit of a value below sixteen, in upper case. -/
def hexDigitUpper (value : Nat) : Char :=
  if value < 10 then Char.ofNat ('0'.toNat + value) else Char.ofNat ('A'.toNat + (value - 10))

end Berrify.Text
