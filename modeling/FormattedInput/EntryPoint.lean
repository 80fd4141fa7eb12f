import FormattedInput.Options
import FormattedInput.Source.Text

namespace FormattedInput

inductive Origin where
  | text
  | countedText
  | stream
  | standardInput
  | console
deriving DecidableEq

structure EntryPoint where
  width : Width
  origin : Origin
  /-- The policy in the name, or none if the option word settles it. -/
  policy : Option Policy
  takesLocale : Bool
deriving DecidableEq

structure Call (w : Width) where
  format : Text w
  slots : List Slot
  locale : Option Locale
  options : Options

namespace EntryPoint

def families : List (String × Width × Origin) :=
  [("sscanf", .narrow, .text), ("swscanf", .wide, .text),
   ("snscanf", .narrow, .countedText), ("snwscanf", .wide, .countedText),
   ("fscanf", .narrow, .stream), ("fwscanf", .wide, .stream),
   ("scanf", .narrow, .standardInput), ("wscanf", .wide, .standardInput),
   ("cscanf", .narrow, .console), ("cwscanf", .wide, .console)]

def variants : List (String × Policy × Bool) :=
  [("", .plain, false), ("_l", .plain, true), ("_s", .secure, false), ("_s_l", .secure, true)]

def all : List (String × EntryPoint) :=
  (families.flatMap fun (base, width, origin) =>
    variants.map fun (ending, policy, takesLocale) =>
      (base ++ ending, ⟨width, origin, some policy, takesLocale⟩))
  ++ [("vsscanf", ⟨.narrow, .text, some .plain, false⟩),
      ("vswscanf", ⟨.wide, .text, some .plain, false⟩),
      ("stdio_common_vsscanf", ⟨.narrow, .countedText, none, true⟩),
      ("stdio_common_vswscanf", ⟨.wide, .countedText, none, true⟩),
      ("stdio_common_vfscanf", ⟨.narrow, .stream, none, true⟩),
      ("stdio_common_vfwscanf", ⟨.wide, .stream, none, true⟩)]

def ofName? (name : String) : Option EntryPoint := all.lookup name

def knownOptions (entry : EntryPoint) : Nat :=
  match entry.origin with
  | .text | .countedText => Options.textKnown
  | .stream | .standardInput | .console => Options.streamKnown

def rules {w : Width} (entry : EntryPoint) (current : Locale) (call : Call w) : Rules where
  policy := entry.policy.getD call.options.policy
  locale := Locale.resolve current (if entry.takesLocale then call.locale else none)

def run {σ : Type} {w : Width} [UnitSource σ w] (entry : EntryPoint) (current : Locale)
    (call : Call w) (source : σ) : Scan σ :=
  scan (entry.rules current call) call.format call.slots source

def openText {w : Width} (entry : EntryPoint) (length : Nat) (text : Text w) : TextSource w :=
  match entry.origin with
  | .countedText => .limited length text
  | _ => .ofText text

def log {w : Width} (entry : EntryPoint) (call : Call w) (failures : List String)
    (report : Report) : List LogLine :=
  (if entry.policy.isNone then call.options.remarks entry.knownOptions else [])
    ++ report.log .unobserved failures

end EntryPoint

end FormattedInput
