/-!
# Letter case

Names are compared without regard to the case of the letters A to Z. No other letter has a case
here.
-/

namespace LittleComputer.Text

/-- The text with the letters A to Z in upper case. -/
def upperCase (s : String) : String := String.ofList (s.toList.map Char.toUpper)

end LittleComputer.Text
