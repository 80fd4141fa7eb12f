import FormattedInput.Source.Leftover

namespace FormattedInput

structure ParkedInput where
  bytes : Leftover .narrow
deriving DecidableEq

namespace ParkedInput

variable {w : Width}

def empty : ParkedInput := ⟨.empty⟩

/-- What the next call finds parked, widened through its code page. -/
def resume (page : CodePage) (w : Width) (parked : ParkedInput) : Leftover w :=
  parked.bytes.convert page w

def park (page : CodePage) (left : Leftover w) : ParkedInput := ⟨left.convert page .narrow⟩

end ParkedInput

end FormattedInput
