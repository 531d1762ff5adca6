import QueryConsole.Double.Shortest

set_option autoImplicit false

namespace QueryConsole.Double

def writePositional (ds : Text) (e : Int) : Text :=
  let before := (ds.length : Int) + e
  if before ≤ 0 then "0.".toList ++ List.replicate (-before).toNat '0' ++ ds
  else if 0 ≤ e then ds ++ List.replicate e.toNat '0' ++ ".0".toList
  else ds.take before.toNat ++ '.' :: ds.drop before.toNat

def writeScientific (ds : Text) (e : Int) : Text :=
  let leading := (ds.length : Int) + e - 1
  ds.take 1 ++ (if ds.length ≤ 1 then [] else '.' :: ds.drop 1) ++ 'e' :: Numeral.ofInt leading

/-- The least and the greatest exponent of the leading digit that are written with a point. -/
def positionalExponents : Int × Int := (-4, 15)

def Decimal.text (d : Decimal) : Text :=
  let ds := Numeral.ofNat d.digits
  let leading := (ds.length : Int) + d.exponent - 1
  if positionalExponents.1 ≤ leading ∧ leading ≤ positionalExponents.2 then
    writePositional ds d.exponent
  else writeScientific ds d.exponent

def signText (x : Double) : Text := if x.negative then ['-'] else []

def plainInt? (x : Double) : Option Int := x.toInt?.filter fun n => n.natAbs ≤ exactLimit

def text (x : Double) : Text :=
  if x.isNaN then "nan".toList
  else if x.isFinite then
    match x.plainInt? with
    | some n => Numeral.ofInt n
    | none => x.signText ++ x.shortest.text
  else x.signText ++ "inf".toList

end QueryConsole.Double
