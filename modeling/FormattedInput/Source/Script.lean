import FormattedInput.CodeUnit

/-!
A byte reader and what its reads will answer. A read delivers a chunk, meets the
end of the file, is interrupted or fails; the end of the file need not be the last
answer, since a terminal or a growing file may have more later. A read is made
only when bytes are asked for and none are buffered. -/
namespace FormattedInput

/-- What one read does. An empty chunk is a read that meets the end of the file. -/
inductive ReadEvent where
  | chunk (bytes : List Byte)
  | interrupted
  | failed (reason : String)
deriving DecidableEq

namespace ReadEvent

def bytes : ReadEvent → List Byte
  | chunk bytes => bytes
  | interrupted | failed _ => []

end ReadEvent

structure ByteReader where
  buffered : List Byte
  script : List ReadEvent
deriving DecidableEq

inductive Look where
  | byte (byte : Byte)
  | endOfFile
  | failed (reason : String)
deriving DecidableEq

namespace ByteReader

def ofScript (script : List ReadEvent) : ByteReader := ⟨[], script⟩

def ofBytes (bytes : List Byte) : ByteReader := ⟨bytes, []⟩

def rest (reader : ByteReader) : List Byte :=
  reader.buffered ++ reader.script.flatMap ReadEvent.bytes

def refill : List ReadEvent → Look × ByteReader
  | [] => (.endOfFile, ⟨[], []⟩)
  | .chunk [] :: script => (.endOfFile, ⟨[], script⟩)
  | .chunk (byte :: bytes) :: script => (.byte byte, ⟨byte :: bytes, script⟩)
  | .interrupted :: script => refill script
  | .failed reason :: script => (.failed reason, ⟨[], script⟩)

def look (reader : ByteReader) : Look × ByteReader :=
  match reader.buffered with
  | byte :: _ => (.byte byte, reader)
  | [] => refill reader.script

def drop (reader : ByteReader) : ByteReader := { reader with buffered := reader.buffered.tail }

theorem rest_refill {script : List ReadEvent} {byte : Byte} {reader : ByteReader}
    (shown : refill script = (.byte byte, reader)) :
    script.flatMap ReadEvent.bytes = reader.rest ∧ ∃ bytes, reader.buffered = byte :: bytes := by
  fun_induction refill script with
  | case1 => simp at shown
  | case2 => simp at shown
  | case3 first bytes script =>
    simp only [Prod.mk.injEq, Look.byte.injEq] at shown
    obtain ⟨rfl, rfl⟩ := shown
    simp [rest, ReadEvent.bytes]
  | case4 script ih => simpa [ReadEvent.bytes] using ih shown
  | case5 => simp at shown

theorem look_again {reader seen : ByteReader} {byte : Byte}
    (shown : reader.look = (.byte byte, seen)) : seen.look = (.byte byte, seen) := by
  unfold look at shown
  split at shown
  · rename_i bytes eq
    obtain ⟨first, rfl⟩ := Prod.mk.inj shown
    simp only [look, eq]
    rw [first]
  · obtain ⟨-, bytes, front⟩ := rest_refill shown
    simp only [look, front]

theorem rest_look {reader seen : ByteReader} {byte : Byte}
    (shown : reader.look = (.byte byte, seen)) : reader.rest = byte :: seen.drop.rest := by
  unfold look at shown
  split at shown
  · rename_i bytes eq
    obtain ⟨first, rfl⟩ := Prod.mk.inj shown
    cases first
    simp [rest, drop, eq]
  · rename_i eq
    obtain ⟨same, bytes, front⟩ := rest_refill shown
    simp only [rest, eq, List.nil_append, same, drop, front, List.tail_cons, List.cons_append]

end ByteReader

end FormattedInput
