import SqliteBroker.Utf8
import Mathlib.Algebra.Group.Int.Defs

/-!
The messages between the shim and the broker, and the base64 text that carries
blobs inside them.
-/
namespace SqliteBroker.Messages

open Utf8

/-- A double by its bits: the broker and the shim carry such values and never
compute with them. -/
structure F64 where
  bits : UInt64
  deriving DecidableEq

namespace F64

def isFinite (x : F64) : Bool := (x.bits >>> 52) &&& 0x7FF != 0x7FF

def infinity : F64 := ⟨0x7FF0000000000000⟩

/-- The top 53 bits of a positive number, rounded to nearest with ties to even. -/
def mantissa (m : ℕ) : ℕ :=
  let e := m.log2
  if e ≤ 52 then m <<< (52 - e)
  else
    let q := m >>> (e - 52)
    let r := m % 2 ^ (e - 52)
    let half := 2 ^ (e - 53)
    if half < r ∨ (r = half ∧ q % 2 = 1) then q + 1 else q

def ofNat (m : ℕ) : F64 :=
  if m = 0 then ⟨0⟩ else ⟨UInt64.ofNat (((m.log2 + 1023) <<< 52) + (mantissa m - 2 ^ 52))⟩

/-- An integer as a double, as Rust's `as f64` rounds it. -/
def ofInt (i : ℤ) : F64 :=
  if 0 ≤ i then ofNat i.toNat else ⟨(ofNat i.natAbs).bits ||| 0x8000000000000000⟩

example : ofInt (-3) = ⟨0xC008000000000000⟩ := rfl

end F64

inductive Cell
  | null
  | int (v : Int64)
  | real (v : F64)
  | text (v : String)
  | blob (v : String)
  deriving DecidableEq

structure Param where
  index : Int32
  value : Cell
  deriving DecidableEq

structure Hello where
  ok : Bool
  session : UInt64
  error : Option String
  deriving DecidableEq

/-- `prepare` compiles the first statement only and does not run it. -/
inductive Request
  | exec (sql : String) (params : List Param)
  | prepare (sql : String)
  | close
  deriving DecidableEq

/-- `tail` is the byte offset of the uncompiled tail after a prepare. An empty
parameter name means a nameless `?`, an empty decltype a missing one. `empty`
marks a prepare that found comments or whitespace and no statement. -/
structure Response where
  ok : Bool
  message : String
  code : Int32
  columns : List String
  rows : List (List Cell)
  changes : Int32
  lastInsertRowid : Int64
  autocommit : Bool
  tail : UInt64
  paramCount : Int32
  paramNames : List String
  decltypes : List String
  totalChanges : Int32
  empty : Bool
  deriving DecidableEq

namespace Request

def isClose : Request → Bool
  | .close => true
  | _ => false

end Request

/-- Cells are finite when they are not a NaN or an infinity. -/
def Cell.finite : Cell → Bool
  | .real v => v.isFinite
  | _ => true

def Param.finite (p : Param) : Bool := p.value.finite

def Request.finite : Request → Bool
  | .exec _ params => params.all Param.finite
  | _ => true

def Response.finite (r : Response) : Bool := r.rows.all (fun row => row.all Cell.finite)

namespace Base64

def table : Bytes :=
  encode "ABCDEFGHIJKLMNOPQRSTUVWXYZabcdefghijklmnopqrstuvwxyz0123456789+/".toList

def digit (n shift : ℕ) : Char := Char.ofNat (table.getD ((n >>> shift) &&& 63) 0).toNat

def encodeChunks : Bytes → List Char
  | b0 :: b1 :: b2 :: rest =>
    let n := (b0.toNat <<< 16) ||| (b1.toNat <<< 8) ||| b2.toNat
    digit n 18 :: digit n 12 :: digit n 6 :: digit n 0 :: encodeChunks rest
  | [b0, b1] =>
    let n := (b0.toNat <<< 16) ||| (b1.toNat <<< 8)
    [digit n 18, digit n 12, digit n 6, '=']
  | [b0] =>
    let n := b0.toNat <<< 16
    [digit n 18, digit n 12, '=', '=']
  | [] => []

def encodeBase64 (data : Bytes) : String := String.ofList (encodeChunks data)

def val (byte : UInt8) : Option UInt8 :=
  if 65 ≤ byte ∧ byte ≤ 90 then some (byte - 65)
  else if 97 ≤ byte ∧ byte ≤ 122 then some (byte - 97 + 26)
  else if 48 ≤ byte ∧ byte ≤ 57 then some (byte - 48 + 52)
  else if byte = 43 then some 62
  else if byte = 47 then some 63
  else none

/-- `61` is the padding byte `=`. -/
def valOrPad (byte : UInt8) : Option UInt8 := if byte = 61 then some 0 else val byte

def decodeChunks : Bytes → Option Bytes
  | c0 :: c1 :: c2 :: c3 :: rest => do
    if c2 = 61 ∧ c3 ≠ 61 then none
    let pad := (if c2 = 61 then 1 else 0) + (if c3 = 61 then 1 else 0)
    let v0 ← val c0
    let v1 ← val c1
    let v2 ← valOrPad c2
    let v3 ← valOrPad c3
    let n := (v0.toNat <<< 18) ||| (v1.toNat <<< 12) ||| (v2.toNat <<< 6) ||| v3.toNat
    let bytes := UInt8.ofNat (n >>> 16) ::
      ((if pad < 2 then [UInt8.ofNat (n >>> 8)] else []) ++
        (if pad < 1 then [UInt8.ofNat n] else []))
    let tail ← decodeChunks rest
    some (bytes ++ tail)
  | [] => some []
  | _ => none

/-- A text whose length is no multiple of four reaches the last case of `decodeChunks`
or fails before it, as the length check of the source fails at once. -/
def decodeBase64 (text : String) : Option Bytes := decodeChunks (encode text.toList)

example : decodeBase64 (encodeBase64 [0, 1, 0x68, 0x69]) = some [0, 1, 0x68, 0x69] := by decide

end Base64

end SqliteBroker.Messages
