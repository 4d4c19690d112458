/-!
# Output

A program writes bytes.  Where room is limited, a text that does not fit is cut off where the room
ends, which may be inside a character, and the write counts as refused.
-/

namespace Lox

structure Output where
  written : ByteArray := .empty
  /-- How many more bytes are taken; `none` if there is no limit. -/
  room : Option Nat := none

namespace Output

/-- Writes what fits; the flag tells whether that was all. -/
def write (o : Output) (bytes : ByteArray) : Output × Bool :=
  match o.room with
  | none => ({ o with written := o.written ++ bytes }, true)
  | some room =>
    if bytes.size ≤ room then (⟨o.written ++ bytes, some (room - bytes.size)⟩, true)
    else (⟨o.written ++ bytes.extract 0 room, some 0⟩, false)

/-- Hands over what was written so far. -/
def taken (o : Output) : ByteArray × Output := (o.written, { o with written := .empty })

end Output

end Lox
