import FormattedInput.Scan.Log

namespace FormattedInput

structure Options where
  bits : Nat
deriving DecidableEq

namespace Options

def secureBit : Nat := 1

def legacyWideBit : Nat := 2

def legacyNumberBit : Nat := 4

def textKnown : Nat := secureBit + legacyWideBit + legacyNumberBit

def streamKnown : Nat := secureBit

def isSet (options : Options) (bit : Nat) : Bool := options.bits &&& bit != 0

def policy (options : Options) : Policy := .ofSecure (options.isSet secureBit)

def hex (number : Nat) : String := "0x" ++ String.ofList (Nat.toDigits 16 number)

def remarks (known : Nat) (options : Options) : List LogLine :=
  let unknown := options.bits &&& known != options.bits
  (if unknown then
    [⟨.warn, "scanf options " ++ hex options.bits ++ " not handled", []⟩] else [])
  ++ (if options.isSet (known &&& legacyWideBit) then
    [⟨.debug, "legacy wide specifiers requested; wide scans always use them", []⟩] else [])
  ++ (if options.isSet (known &&& legacyNumberBit) then
    [⟨.debug, "legacy msvcrt nan/inf handling requested; nan/inf parsing is not implemented",
      []⟩] else [])

end Options

end FormattedInput
