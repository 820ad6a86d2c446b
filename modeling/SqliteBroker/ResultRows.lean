import SqliteBroker.Base64Codec
import SqliteBroker.EchoSqlite
import SqliteBroker.MessageTexts
import SqliteBroker.StepCycle
import Mathlib.Data.List.TakeWhile

/-!
A result row on its way from SQLite to the application: `read_row` makes cells of it, a
frame carries the cells, and the shim's accessors show them. Integers, doubles and blobs
arrive as they are; a text arrives up to its first NUL, where the broker reads it as a C
string.
-/
namespace SqliteBroker.ResultRows

open Utf8 Messages Engine Execution Serde Wire Frames SqlValues ShimStatement StepCycle
open MessageTexts (ascii okText responseText response_sized)
open ShimConnection (cstringLossy)

section Reading

variable {S : Sqlite} {st : S.Stmt} {i : Int32} {v : Value}

end Reading

section Showing

variable {floats : FloatText} {row : List Cell} {i : Int32}

/-- The text that arrives for valid UTF-8: everything before its first NUL. -/
theorem arriving_text (cs : List Char) :
    lossyString (fromPtr (encode cs)) = String.ofList (cs.takeWhile (· ≠ '\x00')) := by
  rw [lossyString, fromPtr, takeWhile_encode, lossy_encode]

end Showing

section Broker

variable {S : Sqlite}

end Broker

section Arrival

variable {S : Sqlite} {floats : FloatText} {f : S.File} {c : S.Conn} {st : S.Stmt}
  {ncols : Int32} {values : List Value} {J : SerdeJson} {bytes : Bytes}

end Arrival

section Examples

/-- The statement of the broker on that row. -/
def onRow (values : List Value) : EchoSqlite.Stmt := ⟨fun _ => .null, values, true⟩

end Examples

end SqliteBroker.ResultRows
