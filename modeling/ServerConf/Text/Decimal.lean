/-!
The text of a decimal number: the digits that matter, positional between a
ten-thousandth and ten quadrillion, with an exponent beyond.
-/

namespace ServerConf.Text

/-- The value `mantissa * 10 ^ exponent`, or its negative. A negative zero keeps
its sign. -/
structure Decimal where
  negative : Bool := false
  mantissa : Nat
  exponent : Int
  deriving DecidableEq, Repr

namespace Decimal

def dropTrailingZeros (cs : List Char) : List Char :=
  (cs.reverse.dropWhile (· = '0')).reverse

def zeros (n : Nat) : List Char :=
  List.replicate n '0'

/-- Writes the digits of a value below ten to the power `point`, where `point`
counts the digits before the decimal point. -/
def positional (digits : List Char) (point : Int) : List Char :=
  if point ≤ 0 then
    '0' :: '.' :: zeros (-point).toNat ++ digits
  else if digits.length ≤ point.toNat then
    digits ++ zeros (point.toNat - digits.length) ++ ['.', '0']
  else
    digits.take point.toNat ++ '.' :: digits.drop point.toNat

def exponential (digits : List Char) (exponent : Int) : List Char :=
  let size := (toString exponent.natAbs).toList
  let fraction := match digits.drop 1 with
    | [] => []
    | more => '.' :: more
  digits.take 1 ++ fraction ++ ['e', if exponent < 0 then '-' else '+'] ++
    (if size.length < 2 then '0' :: size else size)

def text (d : Decimal) : String :=
  let all := (toString d.mantissa).toList
  let digits := dropTrailingZeros all
  let sign := if d.negative then ['-'] else []
  let point : Int := all.length + d.exponent
  String.ofList <| sign ++
    if digits.isEmpty then ['0', '.', '0']
    else if -4 < point ∧ point ≤ 16 then positional digits point
    else exponential digits (point - 1)

end Decimal

end ServerConf.Text
