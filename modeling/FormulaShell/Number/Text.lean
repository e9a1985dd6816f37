import FormulaShell.Number.Parts
import FormulaShell.Number.Shortest

namespace FormulaShell.Number

def zeros (n : Nat) : List Char := List.replicate n '0'

/-- A point stands only before digits, and has a digit before it. -/
def positional (d : Digits) : String :=
  let ds := Nat.toDigits 10 d.units
  match d.exponent with
  | .ofNat k => String.ofList (ds ++ zeros k)
  | .negSucc k =>
    let places := k + 1
    let padded := zeros (places + 1 - ds.length) ++ ds
    let split := padded.length - places
    String.ofList (padded.take split ++ '.' :: padded.drop split)

structure Words where
  negativeZero : String
  infinity : String
  nan : String

def write (words : Words) (x : Float) : String :=
  match parts x with
  | .nan => words.nan
  | .infinite negative => (if negative then "-" else "") ++ words.infinity
  | .finite negative 0 _ => if negative then words.negativeZero else "0"
  | .finite negative m q => (if negative then "-" else "") ++ positional (shortest .up m q)

/-- Both zeros are written alike. -/
def text (x : Float) : String := write ⟨"0", "Infinity", "NaN"⟩ x

def plainText (x : Float) : String := write ⟨"-0", "inf", "NaN"⟩ x

end FormulaShell.Number
