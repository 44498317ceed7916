/-!
# Hexadecimal numbers

Numbers printed in base sixteen with lower-case digits and a least number of them.
-/

namespace ClassStub

/-- The hexadecimal digits of a number, with zeros in front up to the given width. -/
def hexadecimal (width n : Nat) : String :=
  let digits := Nat.toDigits 16 n
  String.ofList (List.replicate (width - digits.length) '0' ++ digits)

end ClassStub
