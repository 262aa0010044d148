import JvmAssembler.Binary.Float
import JvmAssembler.Decimal.Shortest

/-!
# Writing decimals

A decimal is written positionally while its leading digit stands in a given range of places, and as a
significand with an exponent outside of it. Positional text always has a fractional digit; a
significand of one digit has no point.
-/

namespace JvmAssembler.Decimal

/-- The places, as powers of ten, that the leading digit of a positional decimal may stand in: from
`least` up to but not including `limit`. -/
structure Layout where
  least : Int
  limit : Int

def zeros (n : Nat) : String :=
  String.ofList (List.replicate n '0')

/-- Digits with a point after the first `n` of them, padded with zeros on the side that is short. -/
def positional (digits : String) (point : Int) : String :=
  let length : Int := digits.length
  if point ≤ 0 then "0." ++ zeros (-point).toNat ++ digits
  else if point < length then
    String.ofList (digits.toList.take point.toNat) ++ "." ++
      String.ofList (digits.toList.drop point.toNat)
  else digits ++ zeros (point - length).toNat ++ ".0"

/-- Digits with a point after the first of them, and the place of that first digit. -/
def scientific (digits : String) (place : Int) : String :=
  match digits.toList with
  | [] => ""
  | [d] => String.ofList [d] ++ "e" ++ toString place
  | d :: rest => String.ofList (d :: '.' :: rest) ++ "e" ++ toString place

def Layout.render (rule : Layout) (d : Decimal) : String :=
  let digits := toString d.digits
  let place : Int := d.exponent + digits.length - 1
  if rule.least ≤ place ∧ place < rule.limit then positional digits (place + 1)
  else scientific digits place

/-- The text of a floating-point number: its shortest decimal, or a word. -/
def Layout.renderFloat (rule : Layout) : Binary.FloatValue → String
  | .nan => "NaN"
  | .infinite negative => if negative then "-inf" else "inf"
  | .finite negative significand exponent narrowBelow =>
    let magnitude :=
      if significand = 0 then "0.0" else rule.render (shortest significand exponent narrowBelow)
    if negative then "-" ++ magnitude else magnitude

end JvmAssembler.Decimal
