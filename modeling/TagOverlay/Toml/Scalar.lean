import TagOverlay.Text.Digits
import TagOverlay.Toml.Basic

/-! Scalars of TOML without quotes: truth values, numbers, dates and times. Integers have to fit
into 128 bits and floats into 64. -/
namespace TagOverlay.Toml

/-- Digits to a base without the underscores, each of which stands between two digits. -/
def digits? (base : Nat) (text : Text) : Option Text :=
  let groups := text.splitOn '_'
  if groups.all fun group => !group.isEmpty && group.all (Text.isDigitOf base) then
    some groups.flatten
  else none

/-- The decimal digits of a whole number, which begin with zero only if that is all. -/
def whole? (text : Text) : Option Text :=
  (digits? 10 text).filter fun digits => digits.length = 1 ∨ digits.head? ≠ some '0'

/-- A leading sign and the rest; the sign tells whether the number is negative. -/
def splitSign (text : Text) : Bool × Text :=
  match text with
  | '+' :: rest => (false,rest)
  | '-' :: rest => (true,rest)
  | _ => (false,text)

/-- The number that digits write, unless more than 128 are left without the leading zeros: so many
do not fit into 128 bits to any base. -/
def bounded? (base : Nat) (digits : Text) : Option Nat :=
  let significant := digits.dropWhile (· = '0')
  if significant.length ≤ 128 then some (Text.numberOf base significant) else none

def natural? : Text → Option Nat
  | '0' :: 'x' :: rest => (digits? 16 rest).bind (bounded? 16)
  | '0' :: 'o' :: rest => (digits? 8 rest).bind (bounded? 8)
  | '0' :: 'b' :: rest => (digits? 2 rest).bind (bounded? 2)
  | text => (whole? text).bind (bounded? 10)

/-- A whole number; one with a sign is decimal. -/
def integer? (text : Text) : Option Int :=
  let (negative,rest) := splitSign text
  let size? :=
    if rest.length = text.length then natural? text else (whole? rest).bind (bounded? 10)
  size?.bind fun size =>
    if negative then if size ≤ Nat.pow 2 127 then some (-(size : Int)) else none
    else if size < Nat.pow 2 128 then some size else none

/-- Whether the digits times this power of ten round to a finite float: they stay below the largest
one plus half of its last place. That limit is a whole number of 309 digits, so only as many digits
count. -/
def isFinite (digits : Text) (exponent : Int) : Bool :=
  let significant := digits.dropWhile (· = '0')
  let places := exponent + significant.length
  if significant.isEmpty ∨ places < 309 then true
  else if 309 < places then false
  else
    Text.numberOf 10 ((significant ++ List.replicate 309 '0').take 309)
      < Nat.pow 2 1024 - Nat.pow 2 970

/-- The size of an exponent. A digit counts only if the digits before it write a number below 65536,
so a longer exponent is cut short and none is above 655359. -/
def exponentSize (digits : Text) : Nat :=
  digits.foldl
    (fun size c => if size < 65536 then 10 * size + (Text.digitValue? c).getD 0 else size) 0

/-- An exponent of the usual size is the number that its digits write. -/
theorem exponentSize_eq_numberOf (digits : Text) (small : Text.numberOf 10 digits < 655360) :
    exponentSize digits = Text.numberOf 10 digits := by
  suffices ∀ number,
      digits.foldl (fun n c => 10 * n + (Text.digitValue? c).getD 0) number < 655360 →
      digits.foldl (fun n c => if n < 65536 then 10 * n + (Text.digitValue? c).getD 0 else n) number
        = digits.foldl (fun n c => 10 * n + (Text.digitValue? c).getD 0) number from this 0 small
  clear small
  induction digits with
  | nil => exact fun _ _ => rfl
  | cons c rest ih =>
      intro number small
      have := Nat.lt_of_le_of_lt (Text.le_foldl_digits 10 (by decide) rest _) small
      have below : number < 65536 := by grind
      rw [List.foldl_cons,List.foldl_cons,if_pos below]
      exact ih _ small

/-- The digits after the point and the exponent of a float, at least one of which is there. -/
def fractionAndExponent? (text : Text) : Option (Text × Int) := do
  let beforeExponent := text.takeWhile fun c => c ≠ 'e' ∧ c ≠ 'E'
  let exponent ←
    match text.drop beforeExponent.length with
    | [] => some none
    | _ :: exponent =>
        let (negative,rest) := splitSign exponent
        (digits? 10 rest).map fun digits =>
          let size : Int := exponentSize digits
          some (if negative then -size else size)
  let fraction ←
    match beforeExponent with
    | [] => some none
    | '.' :: rest => (digits? 10 rest).map some
    | _ => none
  if exponent.isNone && fraction.isNone then none
  else some (fraction.getD [],exponent.getD 0)

def isFloat (text : Text) : Bool :=
  let (_,unsigned) := splitSign text
  if unsigned = "inf".toList ∨ unsigned = "nan".toList then true
  else
    let before := unsigned.takeWhile fun c => c.isDigit || c = '_'
    match whole? before,fractionAndExponent? (unsigned.drop before.length) with
    | some whole,some (fraction,exponent) =>
        isFinite (whole ++ fraction) (exponent - fraction.length)
    | _,_ => false

def isPair (limit : Nat) (tens units : Char) : Bool :=
  (Text.number? 10 [tens,units]).any (· ≤ limit)

def daysOf (year month : Nat) : Nat :=
  if month = 2 then
    if year % 4 = 0 ∧ (year % 100 ≠ 0 ∨ year % 400 = 0) then 29 else 28
  else if month = 4 ∨ month = 6 ∨ month = 9 ∨ month = 11 then 30
  else 31

def afterDate? : Text → Option Text
  | a :: b :: c :: d :: '-' :: e :: f :: '-' :: g :: h :: rest => do
      let year ← Text.number? 10 [a,b,c,d]
      let month ← Text.number? 10 [e,f]
      let day ← Text.number? 10 [g,h]
      if 1 ≤ month ∧ month ≤ 12 ∧ 1 ≤ day ∧ day ≤ daysOf year month then some rest else none
  | _ => none

def afterFraction? : Text → Option Text
  | '.' :: rest =>
      if (rest.takeWhile Char.isDigit).isEmpty then none else some (rest.dropWhile Char.isDigit)
  | rest => some rest

/-- What follows a time of day, whose seconds may be missing. -/
def afterTime? : Text → Option Text
  | a :: b :: ':' :: c :: d :: rest =>
      if isPair 23 a b && isPair 59 c d then
        match rest with
        | ':' :: e :: f :: rest => if isPair 60 e f then afterFraction? rest else none
        | _ => some rest
      else none
  | _ => none

def isOffset : Text → Bool
  | ['Z'] | ['z'] => true
  | [sign,a,b,':',c,d] => (sign = '+' || sign = '-') && isPair 23 a b && isPair 59 c d
  | _ => false

def isDate (text : Text) : Bool :=
  afterDate? text = some []

/-- A date, a time, or both with or without an offset. -/
def isMoment (text : Text) : Bool :=
  match afterDate? text with
  | some [] => true
  | some (mark :: rest) =>
      (mark = 'T' || mark = 't' || mark = ' ')
        && (afterTime? rest).any fun offset => offset.isEmpty || isOffset offset
  | none => afterTime? text = some []

def scalar? (word : Text) : Option Toml :=
  if word = "true".toList then some (.boolean true)
  else if word = "false".toList then some (.boolean false)
  else
    match integer? word with
    | some value => some (.integer value)
    | none =>
        if isFloat word then some (.float word)
        else if isMoment word then some (.moment word)
        else none

end TagOverlay.Toml
