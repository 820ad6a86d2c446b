import Mathlib.Data.List.Nodup
import Mathlib.Logic.Function.Basic
import SqliteBroker.Decimal
import SqliteBroker.Messages

/-!
The load driver. A worker of a storm reads or writes at random: a write is one transaction
on the tables `item` and `event` of the shared file, and the worker keeps the names of its
live rows and counts what it does. The transactions of all workers are executed one after
the other, in any order.
-/
namespace SqliteBroker.Hammer

structure Rng where
  state : UInt64
  deriving DecidableEq

namespace Rng

def next (rng : Rng) : UInt64 × Rng :=
  let x := rng.state
  let x := x ^^^ (x <<< 13)
  let x := x ^^^ (x >>> 7)
  let x := x ^^^ (x <<< 17)
  (x, ⟨x⟩)

def below (rng : Rng) (n : UInt32) : UInt32 × Rng :=
  let (x, rng') := rng.next
  ((x % n.toUInt64).toUInt32, rng')

theorem below_lt (rng : Rng) {n : UInt32} (h : 0 < n.toNat) :
    (rng.below n).1.toNat < n.toNat := by
  unfold below
  dsimp only
  rw [UInt64.toNat_toUInt32, UInt64.toNat_mod, UInt32.toNat_toUInt64]
  exact Nat.lt_of_le_of_lt (Nat.mod_le ..) (Nat.mod_lt _ h)

end Rng

inductive Kind
  | insert
  | update
  | delete
  deriving DecidableEq

/-- What SQLite stores for a decimal literal in an `INTEGER` column: an integer below
`2 ^ 63`, and otherwise the nearest double. -/
def literal (n : ℕ) : ℕ :=
  if n < 2 ^ 63 then n else Messages.F64.mantissa n * 2 ^ (n.log2 - 52)

theorem literal_of_lt {n : ℕ} (h : n < 2 ^ 63) : literal n = n := if_pos h

/-- A row of `item`, without its row id; the price in quarters. -/
structure Item where
  worker : ℕ
  n : ℕ
  name : String
  note : String
  price : ℕ
  flag : ℕ
  seen : ℕ
  deriving DecidableEq

structure Event where
  worker : ℕ
  seq : ℕ
  kind : Kind
  token : String
  deriving DecidableEq

structure Store where
  items : List Item
  events : List Event
  deriving DecidableEq

/-- A write transaction: a change of `item` by name, and the event that records it. The
worker is the value that its number has in the file. -/
structure Write where
  worker : ℕ
  step : ℕ
  kind : Kind
  name : String
  deriving DecidableEq

inductive Violation
  | unique
  | primaryKey
  deriving DecidableEq

namespace Store

def newItem (w : Write) : Item where
  worker := w.worker
  n := w.step
  name := w.name
  note := s!"row {w.step}"
  price := 4 * w.step + 1
  flag := w.step % 2
  seen := 0

def edited (w : Write) (item : Item) : Item :=
  { item with note := s!"edited {w.step}", seen := item.seen + 1, price := item.price + 2 }

/-- The first statement of a write: how many rows it affects and what it leaves. -/
def change (items : List Item) (w : Write) : Except Violation (ℕ × List Item) :=
  match w.kind with
  | .insert =>
    if w.name ∈ items.map Item.name then .error .unique else .ok (1, items ++ [newItem w])
  | .update =>
    .ok ((items.map Item.name).count w.name,
      items.map (fun item => if item.name = w.name then edited w item else item))
  | .delete =>
    .ok ((items.map Item.name).count w.name, items.filter (fun item => item.name ≠ w.name))

def exec (store : Store) (w : Write) : Except Violation (ℕ × Store) :=
  match change store.items w with
  | .error err => .error err
  | .ok (affected, items) =>
    if (w.worker, w.step) ∈ store.events.map (fun e => (e.worker, e.seq)) then .error .primaryKey
    else .ok (affected, ⟨items, store.events ++ [⟨w.worker, w.step, w.kind, w.name⟩]⟩)

def itemsOf (store : Store) (worker : ℕ) : List Item :=
  store.items.filter (fun item => item.worker = worker)

def eventsOf (store : Store) (worker : ℕ) : List Event :=
  store.events.filter (fun e => e.worker = worker)

end Store

/-- What a worker is started with. -/
structure Config where
  worker : UInt64
  ops : UInt32
  seed : UInt64

/-- The variables of `run_worker` in its loop. -/
structure Run where
  rng : Rng
  step : ℕ
  live : List String
  executed : ℕ
  reads : ℕ
  inserts : ℕ
  updates : ℕ
  deletes : ℕ
  sumSeq : ℕ
  sample : String
  last : String
  deriving DecidableEq

def fresh (worker step : ℕ) : String := s!"w{worker}-s{step}"

namespace Run

def new (seed : UInt64) : Run := ⟨⟨seed ||| 1⟩, 0, [], 0, 0, 0, 0, 0, 0, "", ""⟩

def writes (r : Run) : ℕ := r.inserts + r.updates + r.deletes

/-- The choice of a write. `none` is a panic: an index outside `live`, or a pop of it when
it is empty. -/
def write (r : Run) (worker : ℕ) : Option (Run × Write) :=
  let (kind, rng) := r.rng.below 3
  if kind = 0 ∨ r.live.isEmpty then
    let name := fresh worker r.step
    some ({ r with rng, live := r.live ++ [name], inserts := r.inserts + 1 },
      ⟨literal worker, r.step, .insert, name⟩)
  else if kind = 1 then
    let (index, rng) := rng.below (UInt32.ofNat r.live.length)
    r.live[index.toNat]?.map (fun name =>
      ({ r with rng, updates := r.updates + 1 }, ⟨literal worker, r.step, .update, name⟩))
  else
    r.live.getLast?.map (fun name =>
      ({ r with rng, live := r.live.dropLast, deletes := r.deletes + 1 },
        ⟨literal worker, r.step, .delete, name⟩))

/-- What follows a write that has gone through. -/
def record (r : Run) (name : String) : Run :=
  { r with
    sample := if r.sample = "" then name else r.sample
    last := name
    sumSeq := r.sumSeq + r.step }

def read (r : Run) : Run :=
  let (_, rng) := r.rng.below 4
  { r with rng, reads := r.reads + 1 }

/-- The end of a round of the loop. -/
def advance (r : Run) : Run := { r with step := r.step + 1, executed := r.executed + 1 }

end Run

variable {ι : Type} [DecidableEq ι]

/-- The workers of a storm and the file they share. A worker that fails stops. `log` is
ghost state: every write with its outcome, the number of rows that its first statement
affects. -/
structure Storm (ι : Type) where
  runs : ι → Run
  failed : ι → Bool
  store : Store
  log : List (Write × Except Violation ℕ)

namespace Storm

def start (configs : ι → Config) : Storm ι where
  runs i := .new (configs i).seed
  failed _ := false
  store := ⟨[], []⟩
  log := []

/-- A round of worker `i`. Opening the file again after 200 rounds leaves the tables alone. -/
def turn (configs : ι → Config) (s : Storm ι) (i : ι) : Storm ι :=
  let r := s.runs i
  if s.failed i ∨ (configs i).ops.toNat ≤ r.step then s
  else
    let (coin, rng) := r.rng.below 2
    let r : Run := { r with rng }
    if coin = 0 then
      match r.write (configs i).worker.toNat with
      | none => { s with failed := Function.update s.failed i true }
      | some (r, w) =>
        match s.store.exec w with
        | .error err =>
          { s with failed := Function.update s.failed i true, log := s.log ++ [(w, .error err)] }
        | .ok (affected, store) =>
          { s with
            runs := Function.update s.runs i (r.record w.name).advance
            store := store
            log := s.log ++ [(w, .ok affected)] }
    else { s with runs := Function.update s.runs i r.read.advance }

/-- The storm after the rounds of this schedule. -/
def run (configs : ι → Config) (schedule : List ι) : Storm ι :=
  schedule.foldl (turn configs) (start configs)

end Storm

end SqliteBroker.Hammer
