/-!
JSON values as a text spells them. A text may spell values that no reader can use: strings with half
of a surrogate pair, numbers beyond every double, and arrays nested too deep. `Json.isUsable` tells
them apart; a value that nobody looks at need not be usable.
-/
namespace ScriptImports

/-- The digits of a number before and after its point, and the power of ten after them. -/
structure JsonNumber where
  whole : List Char
  fraction : List Char
  exponent : Int

inductive Json where
  | null
  | boolean (value : Bool)
  | number (n : JsonNumber)
  /-- `none` where the escapes leave half of a surrogate pair. -/
  | string (text : Option String)
  | array (items : List Json)
  | object (members : List (Option String × Json))

namespace JsonNumber

/-- The nearest number of at most 53 binary digits, a tie going to the even one. -/
def roundToDouble (n : Nat) : Nat :=
  let shift := n.log2 + 1 - 53
  let unit := Nat.pow 2 shift
  let quotient := n / unit
  let twice := 2 * (n % unit)
  if unit < twice ∨ (unit = twice ∧ quotient % 2 = 1) then (quotient + 1) * unit
  else quotient * unit

/-- Digits added to a number for as long as it stays below 2^64, and how many were left over. -/
def addDigits : Nat → List Char → Nat × Nat
  | n, [] => (n, 0)
  | n, d :: ds =>
    let more := n * 10 + (d.toNat - '0'.toNat)
    if more < UInt64.size then addDigits more ds else (n, ds.length + 1)

/-- Whether the number is below the point where doubles end. It is measured as the product of two
doubles: the leading digits that fit in 64 bits, and the power of ten that they are scaled by. -/
def isFinite (n : JsonNumber) : Bool :=
  let (lead, left) := addDigits 0 n.whole
  let (digits, unread) := addDigits lead n.fraction
  let power := n.exponent + left - (n.fraction.length - unread)
  if digits = 0 ∨ power ≤ 0 then true
  else if 308 < power then false
  else
    roundToDouble digits * roundToDouble (Nat.pow 10 power.toNat) <
      Nat.pow 2 1024 - Nat.pow 2 970

end JsonNumber

/-- Whether a reader can use the value, with at most `depth` arrays and objects around each part. -/
def Json.isUsable : Nat → Json → Bool
  | _, .null | _, .boolean _ => true
  | _, .number n => n.isFinite
  | _, .string text => text.isSome
  | 0, .array _ | 0, .object _ => false
  | depth + 1, .array items => items.all (isUsable depth)
  | depth + 1, .object members => members.all fun m => m.1.isSome && isUsable depth m.2

end ScriptImports
