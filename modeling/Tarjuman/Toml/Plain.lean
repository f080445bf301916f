/-
# Numbers, dates and times in TOML

A number may have underscores between its digits, no zero in front of other digits,
and has to fit its type: a signed word of sixty-four bits or a binary float of that
width.  A date is one of the calendar.
-/

import Tarjuman.Text.Number

namespace Tarjuman
namespace Toml
namespace Plain

/-- An underscore. -/
def underscore : UInt8 := Text.byte '_'

/-- The byte is a hexadecimal digit. -/
def isHex (b : UInt8) : Bool := (Text.hexDigit? b).isSome

/-- The byte is a sign. -/
def isSign (b : UInt8) : Bool := b == Text.byte '+' || b == Text.byte '-'

/-- Every underscore stands behind a digit and the text ends in one; `digit` says
whether the byte before was a digit. -/
def spacedFrom (digit : Bool) : Text → Bool
  | [] => digit
  | b :: r => (b != underscore || digit) && spacedFrom (isHex b) r

/-- Underscores stand between digits only. -/
def isSpaced (s : Text) : Bool := spacedFrom false s

/-- A zero stands in front of other digits; the mark of a base may follow it. -/
def hasLeadingZero (s : Text) : Bool :=
  match s with
  | a :: b :: r =>
    if isSign a then b == Text.byte '0' && !r.isEmpty
    else a == Text.byte '0' && !("box" : Text).contains b
  | _ => false

/-- The text without underscores. -/
def packed (s : Text) : Text := s.filter (· != underscore)

/-- The number that digits to a base denote. -/
def valueOf (base : Nat) (ds : Text) : Nat :=
  ds.foldl (fun n d => base * n + (Text.hexDigit? d).getD 0) 0

/-- An integer without underscores. -/
def integerOf (s : Text) : Int :=
  match s with
  | [] => 0
  | a :: r =>
    if a == Text.byte '-' then -valueOf 10 r
    else if a == Text.byte '+' then valueOf 10 r
    else
      match r with
      | b :: r' =>
        if b == Text.byte 'b' then valueOf 2 r'
        else if b == Text.byte 'o' then valueOf 8 r'
        else if b == Text.byte 'x' then valueOf 16 r'
        else valueOf 10 s
      | [] => valueOf 10 s

/-- The text is an integer. -/
def isInteger (s : Text) : Bool :=
  let n := integerOf (packed s)
  isSpaced s && !hasLeadingZero s && -0x8000000000000000 ≤ n && n < 0x8000000000000000

/-- The byte stands between parts of a float. -/
def isFloatMark (b : UInt8) : Bool := (".eE" : Text).contains b

/-- The parts of a float between its marks. -/
def floatParts : Text → List Text
  | [] => [[]]
  | b :: r =>
    match floatParts r with
    | [] => [[b]]
    | part :: more => if isFloatMark b then [] :: part :: more else (b :: part) :: more

/-- A digit follows every point. -/
def pointsFollowed : Text → Bool
  | [] => true
  | b :: r =>
    (b != Text.byte '.' || (r.head?.map Text.isDigitByte).getD false) && pointsFollowed r

/-- The text without a sign in front. -/
def unsigned (s : Text) : Text :=
  match s with
  | b :: r => if isSign b then r else s
  | [] => []

/-- The text is one or more digits. -/
def isDigits (s : Text) : Bool := !s.isEmpty && s.all Text.isDigitByte

/-- Digits and a power of ten by which they are multiplied, if the text is a float
without underscores. -/
def floatOf? (s : Text) : Option (Nat × Int) :=
  let s := unsigned s
  let whole := s.takeWhile Text.isDigitByte
  let rest := s.dropWhile Text.isDigitByte
  let (fraction, rest) :=
    if rest.head? = some (Text.byte '.') then
      ((rest.drop 1).takeWhile Text.isDigitByte, (rest.drop 1).dropWhile Text.isDigitByte)
    else ([], rest)
  let exponent : Option Int :=
    match rest with
    | [] => some 0
    | e :: r =>
      if (("eE" : Text).contains e) && isDigits (unsigned r) then
        some (if r.head? = some (Text.byte '-') then -valueOf 10 (unsigned r)
          else valueOf 10 (unsigned r))
      else none
  if whole.isEmpty then none
  else exponent.map fun e => (valueOf 10 (whole ++ fraction), e - fraction.length)

/-- Half a unit above the greatest float, where rounding leaves the range. -/
def floatBound : Nat := Nat.pow 2 1024 - Nat.pow 2 970

/-- `n` times a power of ten lies in the range of floats.  Powers far from the bound
are decided by the number of digits alone. -/
def fitsFloat (n : Nat) (e : Int) : Bool :=
  let magnitude : Int := (Text.ofNat n).length + e
  n = 0 || magnitude < 300 ||
    (magnitude ≤ 400 && n * Nat.pow 10 e.toNat < floatBound * Nat.pow 10 (-e).toNat)

/-- The text is a float. -/
def isFloat (s : Text) : Bool :=
  let parts := (floatParts s).filter (!·.isEmpty)
  parts.all isSpaced && !((parts.head?.map hasLeadingZero).getD false) && pointsFollowed s &&
    match floatOf? (packed s) with
    | some (n, e) => fitsFloat n e
    | none => false

/-- The number at the front of a text, written with exactly `w` digits. -/
def fixed? (w : Nat) (s : Text) : Option (Nat × Text) :=
  if (s.take w).length = w ∧ (s.take w).all Text.isDigitByte then
    some (valueOf 10 (s.take w), s.drop w)
  else none

/-- What follows a byte at the front. -/
def skip? (c : Char) (s : Text) : Option Text :=
  match s with
  | b :: r => if b == Text.byte c then some r else none
  | [] => none

/-- The number of days of a month. -/
def daysOf (year month : Nat) : Nat :=
  if month = 2 then
    if year % 4 = 0 ∧ (year % 100 ≠ 0 ∨ year % 400 = 0) then 29 else 28
  else if month = 4 ∨ month = 6 ∨ month = 9 ∨ month = 11 then 30
  else 31

/-- What follows a date at the front. -/
def afterDate? (s : Text) : Option Text := do
  let (year, s) ← fixed? 4 s
  let (month, s) ← fixed? 2 (← skip? '-' s)
  let (day, s) ← fixed? 2 (← skip? '-' s)
  if 1 ≤ month ∧ month ≤ 12 ∧ 1 ≤ day ∧ day ≤ daysOf year month then some s else none

/-- What follows a fraction of a second, if one is there. -/
def afterFraction (s : Text) : Text :=
  match s with
  | p :: d :: r =>
    if p == Text.byte '.' && Text.isDigitByte d then r.dropWhile Text.isDigitByte else s
  | _ => s

/-- What follows a time of the day at the front. -/
def afterTime? (s : Text) : Option Text := do
  let (hour, s) ← fixed? 2 s
  let (minute, s) ← fixed? 2 (← skip? ':' s)
  let (second, s) ← fixed? 2 (← skip? ':' s)
  if hour < 24 ∧ minute < 60 ∧ second < 60 then some (afterFraction s) else none

/-- The text is a zone or nothing. -/
def isZone (s : Text) : Bool :=
  match s with
  | [] => true
  | b :: r =>
    if b == Text.byte 'Z' then r.isEmpty
    else if isSign b then
      match (do
        let (hour, r) ← fixed? 2 r
        let (minute, r) ← fixed? 2 (← skip? ':' r)
        if hour ≤ 24 ∧ minute ≤ 60 ∧ r.isEmpty then some () else none : Option Unit) with
      | some _ => true
      | none => false
    else false

/-- A blank or a small letter between date and time counts as the capital letter. -/
def upperMark (b : UInt8) : UInt8 :=
  if b == Text.byte 't' || b == 0x20 then Text.byte 'T'
  else if b == Text.byte 'z' then Text.byte 'Z'
  else b

/-- The text is a date, a time, or both, then perhaps with a zone. -/
def isMoment (s : Text) : Bool :=
  let s := s.map upperMark
  match afterDate? s with
  | some [] => true
  | some rest => ((skip? 'T' rest).bind afterTime?).any isZone
  | none => (afterTime? s).any (·.isEmpty)

/-- The byte may stand in a moment. -/
def isMomentByte (b : UInt8) : Bool := Text.isDigitByte b || ("-:Tt .Zz+" : Text).contains b

/-- The byte may stand in a float behind its first mark. -/
def isFloatByte (b : UInt8) : Bool :=
  Text.isDigitByte b || b == underscore || isFloatMark b || isSign b

/-- The byte may stand in a decimal integer. -/
def isDecimalByte (b : UInt8) : Bool := Text.isDigitByte b || b == underscore

/-- Accept the first `n` bytes of a text by a test and give what follows. -/
def accept? (test : Text → Bool) (n : Nat) (s : Text) : Option Text :=
  if test (s.take n) then some (s.drop n) else none

/-- What follows a float whose first mark is known to stand behind `n` bytes. -/
def afterFloat? (n : Nat) (s : Text) : Option Text :=
  accept? isFloat (n + ((s.drop n).takeWhile isFloatByte).length) s

/-- What follows a decimal number of which `n` bytes are known. -/
def afterDecimal? (n : Nat) (s : Text) : Option Text :=
  let n := n + ((s.drop n).takeWhile isDecimalByte).length
  if ((s.drop n).head?.map isFloatMark).getD false then afterFloat? n s else accept? isInteger n s

/-- The digits of a base, by its letter. -/
def digitsOf? (mark : UInt8) : Option (UInt8 → Bool) :=
  if mark == Text.byte 'b' then some fun b => b == Text.byte '0' || b == Text.byte '1'
  else if mark == Text.byte 'o' then some fun b => Text.byte '0' ≤ b && b ≤ Text.byte '7'
  else if mark == Text.byte 'x' then some isHex
  else none

/-- What follows a date or time; blanks at its end do not belong to it. -/
def afterMoment? (s : Text) : Option Text :=
  let run := s.takeWhile isMomentByte
  let token := (run.reverse.dropWhile (· == 0x20)).reverse
  if isMoment token then some (s.drop run.length) else none

/-- What follows a number, date or time that starts with a digit. -/
def afterDigits? (s : Text) : Option Text :=
  let n := (s.takeWhile Text.isDigitByte).length
  match s.drop n with
  | b :: r =>
    if b == Text.byte '-' || b == Text.byte ':' then
      if 2 ≤ n || s.head? ≠ some (Text.byte '0') then afterMoment? s else accept? isInteger n s
    else
      match if s.take n = "0" then digitsOf? b else none with
      | some isDigit =>
        if (r.head?.map isDigit).getD false then
          accept? isInteger (n + 1 + (r.takeWhile fun b => isDigit b || b == underscore).length) s
        else none
      | none => afterDecimal? n s
  | [] => afterDecimal? n s

/-- What follows a number with a sign; the sign stands in front of `s`. -/
def afterSign? (sign : UInt8) (s : Text) : Option Text :=
  if Text.startsWith s "inf" || Text.startsWith s "nan" then some (s.drop 3)
  else
    match s with
    | b :: r =>
      if Text.isDigitByte b && !(b == Text.byte '0' && (r.head?.any fun m => (digitsOf? m).isSome))
      then afterDecimal? 1 (sign :: s)
      else none
    | [] => none

/-- What follows a number, date or time at the front of a text. -/
def after? (s : Text) : Option Text :=
  match s with
  | b :: r =>
    if Text.isDigitByte b then afterDigits? s
    else if isSign b then afterSign? b r
    else if Text.startsWith s "inf" || Text.startsWith s "nan" then some (s.drop 3)
    else none
  | [] => none

end Plain
end Toml
end Tarjuman
