import ConvergentStore.Number.Numeral

/-!
# Delays

The time between two attempts, as a binary64 number of milliseconds that is
not negative and may be infinite. A delay can be given as a number of
milliseconds, as a text such as `250 millis`, as seconds with nanoseconds, or
as a whole number of nanoseconds; what is not a whole number of milliseconds is
held to the nanosecond.
-/

namespace ConvergentStore

/-- The ways of giving a delay. -/
inductive DelayInput where
  | millis (amount : Binary64)
  | text (content : String)
  | parts (numbers : List Binary64)
  | nanos (amount : Int)

/-- Why a delay cannot be read. -/
inductive DelayFault where
  /-- It has none of the accepted forms. -/
  | unreadable
  /-- Its nanoseconds are no whole number. -/
  | notWhole (actual : Binary64)
  deriving DecidableEq

/-- The text of a fault. -/
def DelayFault.message : DelayFault → String
  | .unreadable => "Invalid DurationInput"
  | .notWhole actual =>
      "The number " ++ actual.toText ++
        " cannot be converted to a BigInt because it is not an integer"

namespace Delay

/-- The milliseconds of a whole number of nanoseconds; nothing below zero counts. -/
def ofNanos (nanos : Int) : Binary64 :=
  if nanos ≤ 0 then 0 else Binary64.ofInt nanos / 1000000

/-- The delay of a number of milliseconds. -/
def ofMillis (millis : Binary64) : Binary64 :=
  if !Binary64.lt 0 millis then 0
  else if millis.isInteger then millis
  else
    match (millis * 1000000).nearestInt? with
    | some nanos => ofNanos nanos
    | none => millis

/-- The nearest whole number of nanoseconds. -/
def wholeNanos (nanos : Binary64) : Except DelayFault Int :=
  match nanos.nearestInt? with
  | some whole => .ok whole
  | none => .error (.notWhole nanos)

/-! ## Texts -/

/-- The units of a delay in words. -/
inductive TimeUnit where
  | nanos
  | micros
  /-- A number of milliseconds. -/
  | millis (each : Nat)
  deriving DecidableEq

/-- The unit that a word names. -/
def unit? (word : String) : Option TimeUnit :=
  if word = "nano" || word = "nanos" then some .nanos
  else if word = "micro" || word = "micros" then some .micros
  else if word = "milli" || word = "millis" then some (.millis 1)
  else if word = "second" || word = "seconds" then some (.millis 1000)
  else if word = "minute" || word = "minutes" then some (.millis 60000)
  else if word = "hour" || word = "hours" then some (.millis 3600000)
  else if word = "day" || word = "days" then some (.millis 86400000)
  else if word = "week" || word = "weeks" then some (.millis 604800000)
  else none

/-- A unit after at least one blank. -/
def spacedUnit? (chars : List Char) : Option TimeUnit :=
  match chars with
  | [] => none
  | c :: rest =>
      if Text.isBlank c then unit? (String.ofList (rest.dropWhile Text.isBlank))
      else none

/-- An amount, digits with perhaps a point and more digits, and the text after it. -/
def amount? (chars : List Char) : Option (Numeral × List Char) :=
  let whole := chars.takeWhile Char.isDigit
  if whole.isEmpty then none
  else
    match chars.dropWhile Char.isDigit with
    | '.' :: rest =>
        let fraction := rest.takeWhile Char.isDigit
        if fraction.isEmpty then none
        else some (⟨whole, some fraction, 0⟩, rest.dropWhile Char.isDigit)
    | rest => some (⟨whole, none, 0⟩, rest)

/-- The delay of an amount of a unit. -/
def ofAmount (negative : Bool) (amount : Numeral) (unit : TimeUnit) :
    Except DelayFault Binary64 :=
  let value := amount.value negative
  let whole : Int := Nat.ofDigitChars 10 amount.whole 0
  let signed := if negative then -whole else whole
  match unit, amount.fraction with
  | .nanos, none => .ok (ofNanos signed)
  | .nanos, some _ => (wholeNanos value).map ofNanos
  | .micros, none => .ok (ofNanos (1000 * signed))
  | .micros, some _ => (wholeNanos (value * 1000)).map ofNanos
  | .millis each, _ => .ok (ofMillis (value * Binary64.ofNat each))

/-- The delay that a text describes. -/
def ofText (content : String) : Except DelayFault Binary64 :=
  let (negative, unsigned) :=
    match content.toList with
    | '-' :: rest => (true, rest)
    | chars => (false, chars)
  match amount? unsigned with
  | none => .error .unreadable
  | some (amount, rest) =>
      match spacedUnit? rest with
      | none => .error .unreadable
      | some unit => ofAmount negative amount unit

/-! ## All forms -/

/-- The delay of a number of seconds and a number of nanoseconds. -/
def ofParts : List Binary64 → Except DelayFault Binary64
  | [seconds, nanos] =>
      let void (part : Binary64) := part.isNaN || part = .infinity true
      if void seconds || void nanos then .ok 0
      else if !seconds.isFinite || !nanos.isFinite then .ok Binary64.unbounded
      else
        match wholeNanos (seconds * 1000000000), wholeNanos nanos with
        | .ok whole, .ok rest => .ok (ofNanos (whole + rest))
        | .error fault, _ => .error fault
        | _, .error fault => .error fault
  | _ => .error .unreadable

/-- The delay that an input gives. -/
def ofInput : DelayInput → Except DelayFault Binary64
  | .millis amount => .ok (ofMillis amount)
  | .text content => ofText content
  | .parts numbers => ofParts numbers
  | .nanos amount => .ok (ofNanos amount)

end Delay

end ConvergentStore
