/-!
The output of a run: the bytes written so far, and the room for more if it is limited. A text
that does not fit is cut at the last byte for which there is room.
-/

namespace Treewalk

structure Output where
  written : ByteArray := ByteArray.empty
  room : Option Nat := none

namespace Output

/-- Writes bytes, and tells whether all of them were taken. -/
def write (output : Output) (bytes : ByteArray) : Bool × Output :=
  match output.room with
  | none => (true, ⟨output.written ++ bytes, none⟩)
  | some room =>
      if bytes.size ≤ room then (true, ⟨output.written ++ bytes, some (room - bytes.size)⟩)
      else (false, ⟨output.written ++ bytes.extract 0 room, some 0⟩)

/-- Writes a text and a newline. -/
def writeLine (output : Output) (text : String) : Bool × Output :=
  output.write (text ++ "\n").toUTF8

end Output

end Treewalk
