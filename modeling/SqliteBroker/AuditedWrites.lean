import Mathlib.Algebra.Order.BigOperators.Group.List
import Mathlib.Algebra.Ring.Int.Defs
import SqliteBroker.StormAudit
import SqliteBroker.WorkerRuns

/-!
What a passed audit says about the file. The audit compares the number and the sum of the
recorded steps of a worker with its claim, and looks for two tokens and a balance; the tables may
hold anything that their constraints allow. This determines the recorded steps of a worker that
has written once, and of no other.
-/
namespace SqliteBroker.AuditedWrites

open Utf8 Hammer TextParts WorkerRuns
open StormAudit hiding auditClaim audit tokenCount balance Supported auditClaim_iff Fits eventTotals

/-- A row of `event`. The columns take any integer and any text, whoever has written them. -/
structure EventRow where
  worker : Int64
  seq : Int64
  kind : String
  token : String

/-- A row of `item`, as far as the audit asks for it. -/
structure ItemRow where
  worker : Int64
  name : String

/-- The two tables, with their primary key and their unique names. -/
structure Tables where
  events : List EventRow
  items : List ItemRow
  key : (events.map (fun e => (e.worker, e.seq))).Nodup
  unique : (items.map ItemRow.name).Nodup

namespace Tables

variable (t : Tables)

def eventsOf (worker : ℤ) : List EventRow := t.events.filter (fun e => e.worker.toInt = worker)

def itemsOf (worker : ℤ) : List ItemRow := t.items.filter (fun item => item.worker.toInt = worker)

/-- A step of `sum(seq)`; an integer overflow is an error. -/
def addSeq (sum : ℤ) (e : EventRow) : Option ℤ :=
  let next := sum + e.seq.toInt
  if -2 ^ 63 ≤ next ∧ next < 2 ^ 63 then some next else none

def sumSeq (rows : List EventRow) : Option ℤ := rows.foldlM addSeq 0

def workers : List ℤ := (t.events.map (fun e => e.worker.toInt)).dedup.insertionSort (· ≤ ·)

def totalRow (worker : ℤ) : List (List Char) :=
  [printInt worker, Nat.toDigits 10 (t.eventsOf worker).length,
    printInt ((sumSeq (t.eventsOf worker)).getD 0)]

/-- The number of events and the sum of `seq` for each worker, in the order of the ids. -/
def totals : Option (List (List (List Char))) :=
  if ∀ worker ∈ t.workers, (sumSeq (t.eventsOf worker)).isSome then
    some (t.workers.map t.totalRow)
  else none

def tokenCount (worker : ℤ) (token : String) : ℕ :=
  (t.eventsOf worker).countP (fun e => e.token = token)

def kindCount (worker : ℤ) (kind : String) : ℕ :=
  (t.eventsOf worker).countP (fun e => e.kind = kind)

end Tables

/-- The statements that the audit gives to `/usr/bin/sqlite3`. -/
inductive Query
  /-- `PRAGMA integrity_check` -/
  | integrity
  /-- `SELECT version || ':' || name FROM schema_migration ORDER BY version` -/
  | versions
  /-- `SELECT count(*) FROM pragma_table_info('item') WHERE name = 'seen'` -/
  | seen
  /-- `SELECT worker, count(*), coalesce(sum(seq), 0) FROM event GROUP BY worker ORDER BY worker` -/
  | totals
  /-- `SELECT count(*) FROM event WHERE worker = {worker} AND token = '{token}'` -/
  | token (worker : ℕ) (token : String)
  /-- the inserts less the deletes of the worker, and its rows of `item` -/
  | balance (worker : ℕ)

/-- What the audit finds: the bytes of the two files, or why they cannot be read, and the content
of the storage file. The answers that do not come from the two tables are any; `failure` is
what `raw_sql` makes of a failing statement. -/
structure Found where
  storage : Except String Bytes
  stub : Except String Bytes
  integrity : Except String (List Char)
  versions : Except String (List Char)
  seen : Except String (List Char)
  failure : String
  tables : Tables

def rawSql (f : Found) : Query → Except String (List Char)
  | .integrity => f.integrity
  | .versions => f.versions
  | .seen => f.seen
  | .totals =>
    match f.tables.totals with
    | none => .error f.failure
    | some rows => .ok (output rows)
  | .token worker token => .ok (output [[Nat.toDigits 10 (f.tables.tokenCount worker token)]])
  | .balance worker =>
    .ok (output [[
      printInt (f.tables.kindCount worker "insert" - f.tables.kindCount worker "delete"),
      Nat.toDigits 10 (f.tables.itemsOf worker).length]])

/-- A check that ends the audit when it fails. -/
def ensure (p : Prop) [Decidable p] (message : String) : Except String Unit :=
  if p then .ok () else .error message

def auditToken (f : Found) (worker : ℕ) (token : String) : Except String Unit := do
  let found ← rawSql f (.token worker token)
  ensure (trim found ≠ ['0']) s!"worker {worker} token {token} is missing from the file"

def auditClaim (f : Found) (byWorker : ℕ → Option (ℕ × ℕ)) (claim : Claim) :
    Except String Unit :=
  match byWorker claim.worker with
  | none =>
    .error s!"worker {claim.worker} reported {claim.writes} writes but the file has none"
  | some (count, sumSeq) => do
    ensure (count = claim.writes ∧ sumSeq = claim.sumSeq)
      (s!"worker {claim.worker} file has {count} writes sum {sumSeq}, " ++
        s!"process reported {claim.writes} writes sum {claim.sumSeq}")
    forM [claim.sample, claim.last] (auditToken f claim.worker)
    let balance ← rawSql f (.balance claim.worker)
    let cols := (trim balance).splitOn '|'
    let expected := cols[0]?.getD []
    let actual := cols[1]?.getD []
    ensure (expected = actual)
      (s!"worker {claim.worker} item rows {String.ofList actual} " ++
        s!"but inserts-deletes is {String.ofList expected}")

/-- `audit`, without what it prints. -/
def audit (f : Found) (claims : List Claim) : Except String Unit := do
  let header ← f.storage
  ensure (encode "SQLite format 3".toList <+: header) "storage is not a SQLite file"
  let stubBytes ← f.stub
  ensure (encode "SQLITEBROKER1\n".toList <+: stubBytes) "replacement path is no longer a stub"
  let integrity ← rawSql f .integrity
  ensure (trim integrity = "ok".toList) s!"integrity check failed: {String.ofList integrity}"
  let _versions ← rawSql f .versions
  let seen ← rawSql f .seen
  ensure (trim seen = ['1']) s!"ALTER column seen missing in the file: {String.ofList seen}"
  let events ← rawSql f .totals
  let byWorker ← readTotals events
  forM claims (auditClaim f byWorker)

section Totals

variable {t : Tables} {byWorker byWorker' : ℕ → Option (ℕ × ℕ)}

theorem foldlM_sum {rows : List EventRow} {start sum : ℤ}
    (h : rows.foldlM Tables.addSeq start = some sum) :
    sum = start + (rows.map (fun e => e.seq.toInt)).sum := by
  induction rows generalizing start with
  | nil =>
    obtain rfl := Option.some.inj h
    simp
  | cons e rest ih =>
    obtain ⟨next, hnext, hrest⟩ := Option.bind_eq_some_iff.mp h
    unfold Tables.addSeq at hnext
    dsimp only at hnext
    split at hnext
    · obtain rfl := Option.some.inj hnext
      rw [ih hrest, List.map_cons, List.sum_cons, Int.add_assoc]
    · cases hnext

/-- A sum that is printed is exact. -/
theorem sumSeq_exact {rows : List EventRow} {sum : ℤ} (h : Tables.sumSeq rows = some sum) :
    sum = (rows.map (fun e => e.seq.toInt)).sum := by
  rw [foldlM_sum h, Int.zero_add]

end Totals

section Passing

variable {f : Found} {claims : List Claim}

/-- What the audit asks of the tables for a claim. -/
structure Supported (t : Tables) (byWorker : ℕ → Option (ℕ × ℕ)) (claim : Claim) : Prop where
  total : byWorker claim.worker = some (claim.writes, claim.sumSeq)
  sample : t.tokenCount claim.worker claim.sample ≠ 0
  last : t.tokenCount claim.worker claim.last ≠ 0
  balance : (t.kindCount claim.worker "insert" : ℤ) - t.kindCount claim.worker "delete" =
    (t.itemsOf claim.worker).length

theorem ensure_ok_iff {p : Prop} [Decidable p] {message : String} {u : Unit} :
    ensure p message = .ok u ↔ p := by
  unfold ensure
  split
  · next hp => exact iff_of_true rfl hp
  · next hp => exact iff_of_false nofun hp

theorem auditToken_iff {worker : ℕ} {token : String} :
    auditToken f worker token = .ok () ↔ f.tables.tokenCount worker token ≠ 0 := by
  have hzero : Nat.toDigits 10 (f.tables.tokenCount worker token) = ['0'] ↔
      f.tables.tokenCount worker token = 0 := by
    constructor
    · exact fun h => Bookkeeping.toDigits_injective h
    · intro h
      rw [h]
      rfl
  rw [ne_eq, ← hzero]
  exact ensure_ok_iff.trans (by rw [trim_number])

theorem auditClaim_iff {byWorker : ℕ → Option (ℕ × ℕ)} {claim : Claim} :
    auditClaim f byWorker claim = .ok () ↔ Supported f.tables byWorker claim := by
  unfold auditClaim
  rcases htotal : byWorker claim.worker with _ | ⟨count, sumSeq⟩
  · refine iff_of_false nofun (fun h => ?_)
    rw [h.total] at htotal
    cases htotal
  · have htokens : forM [claim.sample, claim.last] (auditToken f claim.worker) = .ok () ↔
        f.tables.tokenCount claim.worker claim.sample ≠ 0 ∧
          f.tables.tokenCount claim.worker claim.last ≠ 0 := by
      simp only [forM_ok_iff, List.forall_mem_cons, auditToken_iff, List.not_mem_nil,
        false_imp_iff, implies_true, and_true]
    simp only [bind_ok_iff, ensure_ok_iff, rawSql]
    constructor
    · rintro ⟨_, ⟨rfl, rfl⟩, _, hforM, line, hline, hbalance⟩
      obtain ⟨hsample, hlast⟩ := htokens.mp hforM
      obtain rfl := Except.ok.inj hline
      rw [splitOn_pair] at hbalance
      exact ⟨htotal, hsample, hlast, (printInt_eq_iff _ _).mp hbalance⟩
    · intro h
      obtain ⟨rfl, rfl⟩ := Prod.mk.inj (Option.some.inj (htotal.symm.trans h.total))
      refine ⟨(), ⟨rfl, rfl⟩, (), htokens.mpr ⟨h.sample, h.last⟩, _, rfl, ?_⟩
      rw [splitOn_pair]
      exact (printInt_eq_iff _ _).mpr h.balance

end Passing

section Workers

/-- A run of `run_worker` that has ended well. -/
structure Completed where
  config : Config
  run : Run
  reported : List Write
  finished : runWorker config = some (run, reported)
  success : outcome config run = .ok ()

namespace Completed

/-- The steps at which the worker has reported a write. -/
def steps (c : Completed) : Set ℤ := {n | ∃ w ∈ c.reported, (w.step : ℤ) = n}

def key (c : Completed) : ℕ := c.config.worker.toNat

/-- The storm of this worker alone. -/
def storm (c : Completed) : Storm Unit := alone c.config c.config.ops.toNat

variable (c : Completed)

theorem sound : Bookkeeping.Sound (fun _ => c.config) c.storm := alone_sound _ _

theorem reports : c.storm.runs () = c.run ∧
    Reports c.config c.config.ops.toNat c.storm c.reported := by
  obtain ⟨reported, h⟩ := WorkerRuns.reports c.config (Nat.le_refl _)
  have hrounds := h.rounds.symm.trans c.finished
  obtain ⟨hrun, hreported⟩ := Prod.mk.inj (Option.some.inj hrounds)
  exact ⟨hrun, hreported ▸ h⟩

theorem wrote : 0 < c.run.writes := by
  have hok := c.success
  unfold outcome at hok
  split at hok
  · cases hok
  · split at hok
    · cases hok
    · next hsome => exact Nat.pos_of_ne_zero hsome

theorem booked : Bookkeeping.Booked c.key c.storm.store c.run := by
  have h := c.sound.booked ()
  rw [c.reports.1] at h
  exact h

/-- All events of its storm are its own. -/
theorem eventsOf_storm :
    c.storm.store.eventsOf (literal c.key) = c.reported.map recorded := by
  rw [Store.eventsOf, List.filter_eq_self.mpr, c.reports.2.events]
  intro e he
  obtain ⟨_, howner⟩ := c.sound.tables.recorded e he
  exact decide_eq_true howner

theorem reported_length : c.reported.length = c.run.writes := by
  have hcount := c.booked.count
  rwa [eventsOf_storm, List.length_map] at hcount

end Completed

/-- The steps that the table records for a worker. -/
def Tables.steps (t : Tables) (worker : ℤ) : Set ℤ :=
  {n | ∃ e ∈ t.eventsOf worker, e.seq.toInt = n}

end Workers

section Masked

def kindText : Kind → String
  | .insert => "insert"
  | .update => "update"
  | .delete => "delete"

/-- The event of a write, recorded at some step. -/
def eventRow (p : Write × ℤ) : EventRow :=
  ⟨Int64.ofNat p.1.worker, Int64.ofInt p.2, kindText p.1.kind, p.1.name⟩

variable {first last : Write} {mid : List Write} {pairs : List (Write × ℤ)} {c : Completed}

theorem reported_own (hsmall : c.key < 2 ^ 63) : ∀ w ∈ c.reported, w.worker = c.key := by
  intro w hw
  have hevent : recorded w ∈ c.storm.store.events := by
    rw [c.reports.2.events]
    exact List.mem_map_of_mem hw
  obtain ⟨_, howner⟩ := c.sound.tables.recorded _ hevent
  exact howner.trans (literal_of_lt hsmall)

/-- Tables with the events of these writes at these steps, and the rows of the storm. -/
structure Holds (c : Completed) (pairs : List (Write × ℤ)) (t : Tables) : Prop where
  small : c.key < 2 ^ 63
  writes : pairs.map Prod.fst = c.reported
  events : t.events = pairs.map eventRow
  items : t.items = c.storm.store.items.map (fun item => ⟨Int64.ofNat item.worker, item.name⟩)
  range : ∀ p ∈ pairs, (Int64.ofInt p.2).toInt = p.2

namespace Holds

variable {t : Tables} (h : Holds c pairs t)
include h

theorem key_toInt : (Int64.ofNat c.key).toInt = c.key := Int64.toInt_ofNat_of_lt h.small

theorem worker : ∀ e ∈ t.events, e.worker.toInt = c.key := by
  rw [h.events]
  intro e he
  obtain ⟨p, hp, rfl⟩ := List.mem_map.mp he
  have hw : p.1 ∈ c.reported := h.writes ▸ List.mem_map_of_mem hp
  rw [eventRow, reported_own h.small _ hw]
  exact h.key_toInt

theorem eventsOf : t.eventsOf c.key = pairs.map eventRow := by
  rw [← h.events]
  exact List.filter_eq_self.mpr (fun e he => decide_eq_true (h.worker e he))

theorem length : (t.eventsOf c.key).length = c.run.writes := by
  rw [h.eventsOf, ← c.reported_length, ← h.writes, List.length_map, List.length_map]

theorem steps : (t.eventsOf c.key).map (fun e => e.seq.toInt) = pairs.map Prod.snd := by
  rw [h.eventsOf, List.map_map]
  exact List.map_congr_left h.range

theorem tokens : (t.eventsOf c.key).map EventRow.token = c.reported.map Write.name := by
  rw [h.eventsOf, ← h.writes, List.map_map, List.map_map]
  rfl

theorem kinds : (t.eventsOf c.key).map EventRow.kind =
    c.reported.map (fun w => kindText w.kind) := by
  rw [h.eventsOf, ← h.writes, List.map_map, List.map_map]
  rfl

/-- The table has as many events of a kind as its storm. -/
theorem kindCount {kind : Kind} {text : String} (hkind : ∀ k, kindText k = text ↔ k = kind) :
    t.kindCount c.key text =
      (c.storm.store.eventsOf (literal c.key)).countP (fun e => e.kind = kind) := by
  have hmap : t.kindCount c.key text =
      ((t.eventsOf c.key).map EventRow.kind).countP (· = text) := by
    rw [List.countP_map]
    rfl
  rw [hmap, h.kinds, c.eventsOf_storm, List.countP_map, List.countP_map]
  apply List.countP_congr
  intro w _
  simp only [Function.comp_apply, decide_eq_true_eq, hkind, recorded]
  exact decide_eq_true_iff.symm

theorem itemsOf : (t.itemsOf c.key).length = c.run.live.length := by
  have howned : ∀ item ∈ c.storm.store.items, item.worker = c.key := by
    intro item hitem
    obtain ⟨_, howner⟩ := c.sound.tables.owned item hitem
    exact howner.trans (literal_of_lt h.small)
  have hitems : t.itemsOf c.key = t.items := by
    apply List.filter_eq_self.mpr
    rw [h.items]
    intro item hitem
    obtain ⟨row, hrow, rfl⟩ := List.mem_map.mp hitem
    rw [howned row hrow]
    exact decide_eq_true h.key_toInt
  have hlive := congrArg List.length c.booked.live
  rw [literal_of_lt h.small, Bookkeeping.namesOf, List.length_map,
    List.filter_eq_self.mpr (fun item hitem => decide_eq_true (howned item hitem))] at hlive
  rw [hitems, h.items, List.length_map, hlive]

theorem balance : (t.kindCount c.key "insert" : ℤ) - t.kindCount c.key "delete" =
    (t.itemsOf c.key).length := by
  have hinsert : ∀ k, kindText k = "insert" ↔ k = .insert := by
    intro k
    cases k <;> decide
  have hdelete : ∀ k, kindText k = "delete" ↔ k = .delete := by
    intro k
    cases k <;> decide
  have hbalance := c.booked.balance
  rw [h.kindCount hinsert, h.kindCount hdelete, h.itemsOf, hbalance]
  omega

theorem workers : t.workers = [(c.key : ℤ)] := by
  have hevents : t.events.map (fun e => e.worker.toInt) =
      List.replicate t.events.length (c.key : ℤ) := by
    rw [List.eq_replicate_iff, List.length_map]
    refine ⟨rfl, fun n hn => ?_⟩
    obtain ⟨e, he, rfl⟩ := List.mem_map.mp hn
    exact h.worker e he
  have hsome : t.events.length ≠ 0 := by
    have hlength := h.length
    rw [h.eventsOf, ← h.events] at hlength
    rw [hlength]
    exact Nat.ne_of_gt c.wrote
  rw [Tables.workers, hevents, List.replicate_dedup hsome]
  rfl

variable (hsum : (pairs.map Prod.snd).sum = c.run.sumSeq)
  (hfits : (Tables.sumSeq (t.eventsOf c.key)).isSome)
include hsum hfits

theorem totalRow : t.totalRow c.key = [Nat.toDigits 10 c.key, Nat.toDigits 10 c.run.writes,
    Nat.toDigits 10 c.run.sumSeq] := by
  obtain ⟨total, htotal⟩ := Option.isSome_iff_exists.mp hfits
  have hexact : total = c.run.sumSeq := by
    rw [sumSeq_exact htotal, h.steps, hsum]
  rw [Tables.totalRow, htotal, Option.getD_some, hexact, h.length]
  rfl

end Holds

end Masked

section Verdict

end Verdict

end SqliteBroker.AuditedWrites
