import FormattedInput.EntryPoint
import FormattedInput.Source.Console
import FormattedInput.Source.Parked
import FormattedInput.Source.Stream

/-!
The calls on a process's standard input. The stream and the console read the same
bytes, each byte once, but park what they leave apart from each other. -/
namespace FormattedInput

structure StandardInput where
  unread : List Byte
  stream : ParkedInput
  console : ParkedInput
deriving DecidableEq

namespace StandardInput

def ofBytes (bytes : List Byte) : StandardInput := ⟨bytes, .empty, .empty⟩

def streamParked (input : StandardInput) : List Byte := input.stream.bytes.units

def consoleParked (input : StandardInput) : List Byte := input.console.bytes.units

def scanBytes (rules : Rules) (format : Text .narrow) (slots : List Slot) (input : StandardInput) :
    (Report × List Slot) × StandardInput :=
  let source := ByteStream.resume (.ofBytes input.unread) (input.stream.resume .latin1 .narrow)
  let done := scan rules format slots source
  ((done.report, done.slots),
   { input with
     unread := done.source.feed.reader.rest
     stream := .park .latin1 done.source.park })

/-- Reads the stream as wide text. The code page of the call's locale widens the
bytes and narrows what is parked. -/
def scanWide (rules : Rules) (format : Text .wide) (slots : List Slot) (input : StandardInput) :
    (Report × List Slot) × StandardInput :=
  let page := rules.locale.page
  let source :=
    WideStream.resume (.text page) (.ofBytes input.unread) (input.stream.resume page .wide)
  let done := scan rules format slots source
  ((done.report, done.slots),
   { input with
     unread := done.source.feed.reader.rest
     stream := .park page done.source.park })

/-- Reads the console, whose keys are bytes widened as they are and not echoed. -/
def scanConsole {w : Width} (rules : Rules) (format : Text w) (slots : List Slot)
    (input : StandardInput) : (Report × List Slot) × StandardInput :=
  let source :=
    ConsoleStream.resume (.ofTerminal w input.unread) (input.console.resume .latin1 w)
  let done := scan rules format slots source
  ((done.report, done.slots),
   { input with
     unread := done.source.console.terminalRest
     console := .park .latin1 done.source.park })

def call (entry : EntryPoint) (current : Locale) (request : Call entry.width)
    (input : StandardInput) : (Report × List Slot) × StandardInput :=
  let rules := entry.rules current request
  match entry, request with
  | ⟨_, .console, _, _⟩, request => input.scanConsole rules request.format request.slots
  | ⟨.narrow, _, _, _⟩, request => input.scanBytes rules request.format request.slots
  | ⟨.wide, _, _, _⟩, request => input.scanWide rules request.format request.slots

end StandardInput

end FormattedInput
