import FormattedInput.CodePage

namespace FormattedInput

structure Locale where
  name : String
  decimalPoint : Byte
  page : CodePage
deriving DecidableEq

namespace Locale

def c : Locale := ⟨"C", .ofNat .narrow '.'.toNat, .latin1⟩

def resolve (current : Locale) (override : Option Locale) : Locale := override.getD current

end Locale

end FormattedInput
