import SqliteBroker.Runs
import SqliteBroker.ShimStatement
import Mathlib.Data.Finset.Basic

/-!
The handles of the shim: the memory of its connections and statements, the two global
sets of their addresses, and the calls that create and destroy them. Memory that has been
freed may be allocated again, so an address can name different connections over time; their
serial numbers and the log of what has happened to them are ghost state that tells them
apart. A call that touches memory which is not allocated has no result.
-/
namespace SqliteBroker.Handles

open Utf8 Messages Engine ShimConnection ShimStatement
open Runs (Trace)

abbrev Addr := ℕ

def sqliteBusy : Int32 := 5
def sqliteCantOpen : Int32 := 14

/-- A `ProxyDb` in memory. -/
structure DbBox where
  serial : ℕ
  proxy : ProxyDb
  stmts : List Addr

/-- A `ProxyStmt` in memory. -/
structure StmtBox where
  db : Addr
  stmt : ProxyStmt

/-- What can happen to a connection: `linked` and `finalized` are about one of its
statements, `removed` is its leaving of `DBS`. -/
inductive Deed
  | opened
  | linked
  | finalized
  | closed
  | removed
  | closeSent
  | freed
  deriving DecidableEq

structure Event where
  deed : Deed
  db : ℕ
  deriving DecidableEq

/-- `dbs` and `stmts` are the sets `DBS` and `STMTS`. -/
structure Registry where
  dbMem : Addr → Option DbBox
  stmtMem : Addr → Option StmtBox
  dbs : Finset Addr
  stmts : Finset Addr
  next : ℕ
  log : List Event

namespace Registry

def empty : Registry := ⟨fun _ => none, fun _ => none, ∅, ∅, 0, []⟩

/-- A call returns a code, or goes on to the real library. -/
inductive Outcome
  | code (rc : Int32)
  | forwarded
  deriving DecidableEq

/-- A new connection at `a`. -/
def addDb (h : Registry) (a : Addr) : Registry :=
  { h with
    dbMem := Function.update h.dbMem a (some ⟨h.next, .connected, []⟩)
    dbs := insert a h.dbs
    next := h.next + 1
    log := h.log ++ [⟨.opened, h.next⟩] }

def setProxy (h : Registry) (db : Addr) (box : DbBox) (proxy : ProxyDb) : Registry :=
  { h with dbMem := Function.update h.dbMem db (some { box with proxy }) }

/-- A new statement at `a` on the connection `box`. -/
def addStmt (h : Registry) (db : Addr) (box : DbBox) (a : Addr) (stmt : ProxyStmt) : Registry :=
  { h with
    dbMem := Function.update h.dbMem db (some { box with stmts := box.stmts ++ [a] })
    stmtMem := Function.update h.stmtMem a (some ⟨db, stmt⟩)
    stmts := insert a h.stmts
    log := h.log ++ [⟨.linked, box.serial⟩] }

/-- `unlink_stmt` and the end of the statement's memory. -/
def dropStmt (h : Registry) (stmt : Addr) (box : StmtBox) (owner : DbBox) : Registry :=
  { h with
    dbMem := Function.update h.dbMem box.db
      (some { owner with stmts := owner.stmts.filter (· ≠ stmt) })
    stmtMem := Function.update h.stmtMem stmt none
    stmts := h.stmts.erase stmt
    log := h.log ++ [⟨.finalized, owner.serial⟩] }

def markClosed (h : Registry) (db : Addr) (box : DbBox) : Registry :=
  { h.setProxy db box { box.proxy with closed := true } with
    log := h.log ++ [⟨.closed, box.serial⟩] }

/-- The set lets go of the connection, a Close request is sent, the memory is freed. -/
def dropDb (h : Registry) (db : Addr) (box : DbBox) : Registry :=
  { h with
    dbMem := Function.update h.dbMem db none
    dbs := h.dbs.erase db
    log := h.log ++ [⟨.removed, box.serial⟩, ⟨.closeSent, box.serial⟩, ⟨.freed, box.serial⟩] }

def destroyDb (h : Registry) (db : Addr) : Option Registry :=
  if db ∉ h.dbs then some h else (h.dbMem db).map (h.dropDb db)

/-- `open_v2` on a stub: the address is that of the connection it makes, if it gets one. -/
def openV2 (h : Registry) (raw : Option Addr) : Option (Outcome × Registry) :=
  match raw with
  | none => some (.code sqliteCantOpen, h)
  | some a => some (.code sqliteOk, h.addDb a)

def closeDb (h : Registry) (db : Addr) (v2 : Bool) : Option (Outcome × Registry) :=
  if db = 0 then some (.code sqliteOk, h)
  else if db ∉ h.dbs then some (.forwarded, h)
  else do
    let box ← h.dbMem db
    if ¬ v2 ∧ box.stmts ≠ [] then some (.code sqliteBusy, h)
    else
      let h' := h.markClosed db box
      if box.stmts = [] then (h'.destroyDb db).map (fun h'' => (.code sqliteOk, h''))
      else some (.code sqliteOk, h')

/-- `rpc` as its caller sees it: the handle afterwards, and the response or the error code
that the handle then holds. -/
def answer (proxy : ProxyDb) (heard : Except String Response) : ProxyDb × Except Int32 Response :=
  if proxy.closed then
    let proxy' := proxy.fail "connection is closed"
    (proxy', .error proxy'.errcode)
  else
    let proxy' := proxy.hear heard
    match heard with
    | .ok resp => (proxy', if resp.ok then .ok resp else .error proxy'.errcode)
    | .error _ => (proxy', .error proxy'.errcode)

/-- `prepare_v2`; a statement that it makes is allocated at `a`. `ppstmt` tells whether the
caller gives a place for its handle. -/
def prepare (h : Registry) (db : Addr) (sql : Option Bytes) (nbytes : Int32) (ppstmt : Bool)
    (heard : Except String Response) (a : Addr) : Option (Outcome × Registry) :=
  if ¬ ppstmt then some (.code sqliteMisuse, h)
  else if db ∉ h.dbs then some (.forwarded, h)
  else if sql = none then some (.code sqliteMisuse, h)
  else do
    let box ← h.dbMem db
    let (proxy, got) := answer box.proxy heard
    let h' := h.setProxy db box proxy
    let prepared := prepareV2 sql nbytes got
    match prepared.stmt with
    | none => some (.code prepared.rc, h')
    | some stmt => some (.code prepared.rc, h'.addStmt db { box with proxy } a stmt)

def finalizeStmt (h : Registry) (stmt : Addr) : Option (Outcome × Registry) :=
  if stmt = 0 then some (.code sqliteOk, h)
  else if stmt ∉ h.stmts then some (.forwarded, h)
  else do
    let box ← h.stmtMem stmt
    let owner ← h.dbMem box.db
    let h' := h.dropStmt stmt box owner
    let owner' ← h'.dbMem box.db
    if owner'.proxy.closed ∧ owner'.stmts = [] then
      (h'.destroyDb box.db).map (fun h'' => (.code sqliteOk, h''))
    else some (.code sqliteOk, h')

inductive Call
  | openV2 (raw : Option Addr)
  | prepare (db : Addr) (sql : Option Bytes) (nbytes : Int32) (ppstmt : Bool)
      (heard : Except String Response) (a : Addr)
  | finalize (stmt : Addr)
  | close (db : Addr)
  | closeV2 (db : Addr)

def run (h : Registry) : Call → Option (Outcome × Registry)
  | .openV2 raw => h.openV2 raw
  | .prepare db sql nbytes ppstmt heard a => h.prepare db sql nbytes ppstmt heard a
  | .finalize stmt => h.finalizeStmt stmt
  | .close db => h.closeDb db false
  | .closeV2 db => h.closeDb db true

/-- Memory that can be given out: not null and not in use. -/
def Free (h : Registry) (a : Addr) : Prop := a ≠ 0 ∧ h.dbMem a = none ∧ h.stmtMem a = none

/-- The allocator gives out free memory. -/
def Allocates (h : Registry) : Call → Prop
  | .openV2 (some a) => h.Free a
  | .prepare _ _ _ _ _ a => h.Free a
  | _ => True

def Step (h : Registry) (call : Call) (h' : Registry) : Prop :=
  h.Allocates call ∧ ∃ out, h.run call = some (out, h')

/-- The sets and the lists of statements describe the memory. -/
structure Linked (h : Registry) : Prop where
  dbs_iff : ∀ d, d ∈ h.dbs ↔ (h.dbMem d).isSome
  stmts_iff : ∀ a, a ∈ h.stmts ↔ (h.stmtMem a).isSome
  null : h.dbMem 0 = none ∧ h.stmtMem 0 = none
  owner : ∀ a box, h.stmtMem a = some box →
    ∃ owner, h.dbMem box.db = some owner ∧ a ∈ owner.stmts
  nodup : ∀ d owner, h.dbMem d = some owner → owner.stmts.Nodup
  listed : ∀ d owner a, h.dbMem d = some owner → a ∈ owner.stmts →
    ∃ box, h.stmtMem a = some box ∧ box.db = d

/-- How often something has happened to a connection. -/
def tally (h : Registry) (deed : Deed) (i : ℕ) : ℕ := h.log.count ⟨deed, i⟩

/-- The application has closed the connection and finalized each of its statements. -/
def Finished (h : Registry) (i : ℕ) : Prop :=
  0 < h.tally .closed i ∧ h.tally .linked i = h.tally .finalized i

/-- How often the connection has been let go of, its Close sent and its memory freed. -/
def Ended (h : Registry) (i n : ℕ) : Prop :=
  h.tally .removed i = n ∧ h.tally .closeSent i = n ∧ h.tally .freed i = n

/-- The log tells what has become of every connection. -/
structure Ledger (h : Registry) : Prop where
  unused : ∀ deed i, h.next ≤ i → h.tally deed i = 0
  used : ∀ d box, h.dbMem d = some box → box.serial < h.next
  serial : ∀ d d' box box', h.dbMem d = some box → h.dbMem d' = some box' →
    box.serial = box'.serial → d = d'
  kept : ∀ d box, h.dbMem d = some box → h.Ended box.serial 0
  closed_iff : ∀ d box, h.dbMem d = some box →
    (0 < h.tally .closed box.serial ↔ box.proxy.closed = true)
  balance : ∀ d box, h.dbMem d = some box →
    h.tally .linked box.serial = h.tally .finalized box.serial + box.stmts.length
  gone : ∀ i < h.next, (∃ d box, h.dbMem d = some box ∧ box.serial = i) ∨
    (h.Ended i 1 ∧ h.Finished i)

section Sets

variable {h : Registry} {d a : Addr}

theorem addDb_linked (hl : h.Linked) (hfree : h.Free a) : (h.addDb a).Linked := by
  obtain ⟨hdbs, hstmts, hnull, howner, hnodup, hlisted⟩ := hl
  obtain ⟨hne, hdb, hstmt⟩ := hfree
  have hmem : ∀ x, (h.addDb a).dbMem x =
      if x = a then some ⟨h.next, .connected, []⟩ else h.dbMem x :=
    fun x => Function.update_apply ..
  have hsame : (h.addDb a).stmtMem = h.stmtMem := rfl
  constructor
  case dbs_iff =>
    intro x
    rw [hmem, show (h.addDb a).dbs = insert a h.dbs from rfl, Finset.mem_insert, hdbs]
    by_cases hx : x = a <;> simp [hx]
  case stmts_iff => exact hstmts
  case null => grind
  case owner =>
    -- the owner of a statement is in memory, so it is not at the new address
    intro x box hbox
    obtain ⟨owner, hown, hin⟩ := howner x box hbox
    refine ⟨owner, ?_, hin⟩
    rw [hmem, if_neg (by rintro heq; rw [heq, hdb] at hown; cases hown), hown]
  case nodup => grind
  case listed => grind

theorem setProxy_linked {box : DbBox} {proxy : ProxyDb} (hl : h.Linked)
    (hbox : h.dbMem d = some box) : (h.setProxy d box proxy).Linked := by
  obtain ⟨hdbs, hstmts, hnull, howner, hnodup, hlisted⟩ := hl
  have hmem : ∀ x, (h.setProxy d box proxy).dbMem x =
      if x = d then some { box with proxy } else h.dbMem x := fun x => Function.update_apply ..
  have hsame : (h.setProxy d box proxy).stmtMem = h.stmtMem := rfl
  constructor
  case dbs_iff =>
    intro x
    rw [hmem, show (h.setProxy d box proxy).dbs = h.dbs from rfl, hdbs]
    by_cases hx : x = d <;> simp [hx, hbox]
  case stmts_iff => exact hstmts
  case null => grind
  case owner =>
    intro x sbox hx
    obtain ⟨owner, hown, hin⟩ := howner x sbox hx
    rw [hmem]
    by_cases hd : sbox.db = d
    · rw [hd, hbox] at hown
      cases hown
      exact ⟨_, if_pos hd, hin⟩
    · exact ⟨owner, (if_neg hd).trans hown, hin⟩
  case nodup => grind
  case listed =>
    intro x owner b hx hb
    rw [hmem] at hx
    split at hx
    · next heq =>
      cases hx
      rw [heq]
      exact hlisted d box b hbox hb
    · exact hlisted x owner b hx hb

theorem markClosed_linked {box : DbBox} (hl : h.Linked) (hbox : h.dbMem d = some box) :
    (h.markClosed d box).Linked := by
  have hset : (h.setProxy d box { box.proxy with closed := true }).Linked :=
    setProxy_linked hl hbox
  exact ⟨hset.dbs_iff, hset.stmts_iff, hset.null, hset.owner, hset.nodup, hset.listed⟩

theorem addStmt_linked {box : DbBox} {stmt : ProxyStmt} (hl : h.Linked)
    (hbox : h.dbMem d = some box) (hfree : h.Free a) : (h.addStmt d box a stmt).Linked := by
  obtain ⟨hdbs, hstmts, hnull, howner, hnodup, hlisted⟩ := hl
  obtain ⟨hne, hdb, hstmt⟩ := hfree
  have hnew : a ∉ box.stmts := by
    intro hin
    obtain ⟨sbox, hs, _⟩ := hlisted d box a hbox hin
    rw [hstmt] at hs
    cases hs
  have hmem : ∀ x, (h.addStmt d box a stmt).dbMem x =
      if x = d then some { box with stmts := box.stmts ++ [a] } else h.dbMem x :=
    fun x => Function.update_apply ..
  have hsmem : ∀ x, (h.addStmt d box a stmt).stmtMem x =
      if x = a then some ⟨d, stmt⟩ else h.stmtMem x := fun x => Function.update_apply ..
  constructor
  case dbs_iff =>
    intro x
    rw [hmem, show (h.addStmt d box a stmt).dbs = h.dbs from rfl, hdbs]
    by_cases hx : x = d <;> simp [hx, hbox]
  case stmts_iff =>
    intro x
    rw [hsmem, show (h.addStmt d box a stmt).stmts = insert a h.stmts from rfl,
      Finset.mem_insert, hstmts]
    by_cases hx : x = a <;> simp [hx]
  case null => grind
  case owner =>
    intro x sbox hx
    rw [hsmem] at hx
    by_cases hxa : x = a
    · rw [if_pos hxa] at hx
      cases hx
      refine ⟨_, (hmem d).trans (if_pos rfl), ?_⟩
      simp [hxa]
    · rw [if_neg hxa] at hx
      obtain ⟨owner, hown, hin⟩ := howner x sbox hx
      rw [hmem]
      by_cases hd : sbox.db = d
      · rw [hd, hbox] at hown
        cases hown
        exact ⟨_, if_pos hd, List.mem_append_left _ hin⟩
      · exact ⟨owner, (if_neg hd).trans hown, hin⟩
  case nodup =>
    intro x owner hx
    rw [hmem] at hx
    split at hx
    · cases hx
      rw [List.nodup_append]
      refine ⟨hnodup d box hbox, List.nodup_singleton a, fun b hb c hc => ?_⟩
      rw [List.mem_singleton.mp hc]
      exact fun heq => hnew (heq ▸ hb)
    · exact hnodup x owner hx
  case listed =>
    intro x owner b hx hb
    rw [hmem] at hx
    rw [hsmem]
    by_cases hba : b = a
    · rw [if_pos hba]
      split at hx
      · next hxd => exact ⟨_, rfl, hxd.symm⟩
      · obtain ⟨sbox, hs, _⟩ := hlisted x owner b hx hb
        rw [hba, hstmt] at hs
        cases hs
    · rw [if_neg hba]
      split at hx
      · next hxd =>
        cases hx
        rw [hxd]
        refine hlisted d box b hbox ?_
        simpa [hba] using hb
      · exact hlisted x owner b hx hb

theorem dropStmt_linked {box : StmtBox} {owner : DbBox} (hl : h.Linked)
    (hbox : h.stmtMem a = some box) (hown : h.dbMem box.db = some owner) :
    (h.dropStmt a box owner).Linked := by
  obtain ⟨hdbs, hstmts, hnull, howner, hnodup, hlisted⟩ := hl
  have hmem : ∀ x, (h.dropStmt a box owner).dbMem x =
      if x = box.db then some { owner with stmts := owner.stmts.filter (· ≠ a) } else h.dbMem x :=
    fun x => Function.update_apply ..
  have hsmem : ∀ x, (h.dropStmt a box owner).stmtMem x =
      if x = a then none else h.stmtMem x := fun x => Function.update_apply ..
  constructor
  case dbs_iff =>
    intro x
    rw [hmem, show (h.dropStmt a box owner).dbs = h.dbs from rfl, hdbs]
    by_cases hx : x = box.db <;> simp [hx, hown]
  case stmts_iff =>
    intro x
    rw [hsmem, show (h.dropStmt a box owner).stmts = h.stmts.erase a from rfl,
      Finset.mem_erase, hstmts]
    by_cases hx : x = a <;> simp [hx]
  case null => grind
  case owner =>
    intro x sbox hx
    rw [hsmem] at hx
    split at hx
    · cases hx
    · next hxa =>
      obtain ⟨sowner, hsown, hin⟩ := howner x sbox hx
      rw [hmem]
      by_cases hd : sbox.db = box.db
      · rw [hd, hown] at hsown
        cases hsown
        exact ⟨_, if_pos hd, List.mem_filter.mpr ⟨hin, by simpa using hxa⟩⟩
      · exact ⟨sowner, (if_neg hd).trans hsown, hin⟩
  case nodup =>
    intro x xowner hx
    rw [hmem] at hx
    split at hx
    · cases hx
      exact (hnodup _ owner hown).filter _
    · exact hnodup x xowner hx
  case listed =>
    intro x xowner b hx hb
    rw [hmem] at hx
    rw [hsmem]
    by_cases hba : b = a
    · -- only the statement's own connection lists it
      exfalso
      split at hx
      · cases hx
        simp [hba] at hb
      · next hxd =>
        obtain ⟨sbox, hs, hdb⟩ := hlisted x xowner b hx hb
        rw [hba, hbox] at hs
        cases hs
        exact hxd hdb.symm
    · rw [if_neg hba]
      split at hx
      · next hxd =>
        cases hx
        rw [hxd]
        exact hlisted box.db owner b hown (List.mem_filter.mp hb).1
      · exact hlisted x xowner b hx hb

theorem dropDb_linked {box : DbBox} (hl : h.Linked) (hbox : h.dbMem d = some box)
    (hempty : box.stmts = []) : (h.dropDb d box).Linked := by
  obtain ⟨hdbs, hstmts, hnull, howner, hnodup, hlisted⟩ := hl
  have hmem : ∀ x, (h.dropDb d box).dbMem x = if x = d then none else h.dbMem x :=
    fun x => Function.update_apply ..
  have hsame : (h.dropDb d box).stmtMem = h.stmtMem := rfl
  constructor
  case dbs_iff =>
    intro x
    rw [hmem, show (h.dropDb d box).dbs = h.dbs.erase d from rfl, Finset.mem_erase, hdbs]
    by_cases hx : x = d <;> simp [hx]
  case stmts_iff => exact hstmts
  case null => grind
  case owner =>
    -- a connection without statements owns none
    intro x sbox hx
    obtain ⟨owner, hown, hin⟩ := howner x sbox hx
    refine ⟨owner, ?_, hin⟩
    rw [hmem, if_neg]
    · exact hown
    · intro hd
      rw [hd, hbox] at hown
      cases hown
      rw [hempty] at hin
      cases hin
  case nodup => grind
  case listed => grind

end Sets

section Logs

variable {h h' : Registry} {d a : Addr} {box box' : DbBox}

/-- One connection in memory changes, as the log records; nothing else does. -/
theorem Ledger.of_replaced (hg : h.Ledger) (hbox : h.dbMem d = some box)
    (hmem : ∀ x, h'.dbMem x = if x = d then some box' else h.dbMem x) (hnext : h'.next = h.next)
    (hserial : box'.serial = box.serial)
    (hother : ∀ deed i, i ≠ box.serial → h'.tally deed i = h.tally deed i)
    (hended : h'.Ended box.serial 0)
    (hclosed : 0 < h'.tally .closed box.serial ↔ box'.proxy.closed = true)
    (hbalance : h'.tally .linked box.serial =
      h'.tally .finalized box.serial + box'.stmts.length) : h'.Ledger := by
  obtain ⟨hunused, hused, hser, hkept, hclosed', hbal, hgone⟩ := hg
  have hlt := hused d box hbox
  constructor
  case unused => grind
  case used => grind
  case serial => grind
  case kept => grind [Ended]
  case closed_iff => grind
  case balance => grind
  case gone =>
    intro i hi
    rw [hnext] at hi
    by_cases heq : i = box.serial
    · exact .inl ⟨d, box', by rw [hmem, if_pos rfl], by rw [hserial, heq]⟩
    · obtain ⟨x, xbox, hx, hxi⟩ | ⟨hend, hfin⟩ := hgone i hi
      · refine .inl ⟨x, xbox, ?_, hxi⟩
        rw [hmem, if_neg]
        · exact hx
        · rintro rfl
          rw [hbox] at hx
          cases hx
          exact heq hxi.symm
      · refine .inr ⟨?_, ?_⟩
        · simpa only [Ended, hother _ i heq] using hend
        · simpa only [Finished, hother _ i heq] using hfin

theorem setProxy_ledger {proxy : ProxyDb} (hg : h.Ledger) (hbox : h.dbMem d = some box)
    (hclosed : proxy.closed = box.proxy.closed) : (h.setProxy d box proxy).Ledger := by
  refine hg.of_replaced hbox (fun x => Function.update_apply ..) rfl rfl (fun _ _ _ => rfl)
    (hg.kept d box hbox) ?_ (hg.balance d box hbox)
  rw [hclosed]
  exact hg.closed_iff d box hbox

theorem addStmt_ledger {stmt : ProxyStmt} (hg : h.Ledger) (hbox : h.dbMem d = some box) :
    (h.addStmt d box a stmt).Ledger := by
  have htally : ∀ deed i, (h.addStmt d box a stmt).tally deed i =
      h.tally deed i + if deed = .linked ∧ i = box.serial then 1 else 0 := by
    intro deed i
    simp only [tally, addStmt, List.count_append, List.count_singleton]
    grind
  have hkept := hg.kept d box hbox
  have hclosed := hg.closed_iff d box hbox
  have hbal := hg.balance d box hbox
  refine hg.of_replaced hbox (fun x => Function.update_apply ..) rfl rfl ?_ ?_ ?_ ?_
  · grind
  · grind [Ended]
  · grind
  · grind

theorem dropStmt_ledger {sbox : StmtBox} (hl : h.Linked) (hg : h.Ledger)
    (hsbox : h.stmtMem a = some sbox) (hbox : h.dbMem sbox.db = some box) :
    (h.dropStmt a sbox box).Ledger := by
  have htally : ∀ deed i, (h.dropStmt a sbox box).tally deed i =
      h.tally deed i + if deed = .finalized ∧ i = box.serial then 1 else 0 := by
    intro deed i
    simp only [tally, dropStmt, List.count_append, List.count_singleton]
    grind
  have hkept := hg.kept _ box hbox
  have hclosed := hg.closed_iff _ box hbox
  have hbal := hg.balance _ box hbox
  -- the list loses one element, since it holds the statement once
  have hlen : (box.stmts.filter (· ≠ a)).length + 1 = box.stmts.length := by
    obtain ⟨owner, hown, hin⟩ := hl.owner a sbox hsbox
    rw [hbox] at hown
    cases hown
    have herase := (hl.nodup _ _ hbox).erase_eq_filter a
    have hpos := List.length_pos_of_mem hin
    have hlen := List.length_erase_of_mem hin
    rw [herase] at hlen
    simp only [ne_eq, decide_not] at hlen ⊢
    grind
  refine hg.of_replaced hbox (fun x => Function.update_apply ..) rfl rfl ?_ ?_ ?_ ?_
  · grind
  · grind [Ended]
  · grind
  · grind

theorem markClosed_ledger (hg : h.Ledger) (hbox : h.dbMem d = some box) :
    (h.markClosed d box).Ledger := by
  have htally : ∀ deed i, (h.markClosed d box).tally deed i =
      h.tally deed i + if deed = .closed ∧ i = box.serial then 1 else 0 := by
    intro deed i
    simp only [tally, markClosed, List.count_append, List.count_singleton]
    grind [setProxy]
  have hkept := hg.kept _ box hbox
  have hbal := hg.balance _ box hbox
  refine hg.of_replaced hbox (fun x => Function.update_apply ..) rfl rfl ?_ ?_ ?_ ?_
  · grind
  · grind [Ended]
  · grind
  · grind

theorem addDb_ledger (hg : h.Ledger) (hfree : h.Free a) : (h.addDb a).Ledger := by
  have htally : ∀ deed i, (h.addDb a).tally deed i =
      h.tally deed i + if deed = .opened ∧ i = h.next then 1 else 0 := by
    intro deed i
    simp only [tally, addDb, List.count_append, List.count_singleton]
    grind
  have hmem : ∀ x, (h.addDb a).dbMem x =
      if x = a then some ⟨h.next, .connected, []⟩ else h.dbMem x :=
    fun x => Function.update_apply ..
  have hnext : (h.addDb a).next = h.next + 1 := rfl
  obtain ⟨-, hdb, -⟩ := hfree
  obtain ⟨hunused, hused, hser, hkept, hclosed, hbal, hgone⟩ := hg
  constructor
  case unused => grind
  case used => grind
  case serial => grind
  case kept => grind [Ended]
  case closed_iff => grind [ProxyDb.connected]
  case balance => grind
  case gone =>
    intro i hi
    by_cases heq : i = h.next
    · exact .inl ⟨a, _, (hmem a).trans (if_pos rfl), heq.symm⟩
    · obtain ⟨x, xbox, hx, hxi⟩ | ⟨hend, hfin⟩ := hgone i (by omega)
      · refine .inl ⟨x, xbox, (hmem x).trans ?_, hxi⟩
        rw [if_neg]
        · exact hx
        · rintro rfl
          rw [hdb] at hx
          cases hx
      · refine .inr ⟨?_, ?_⟩
        · simpa [Ended, htally] using hend
        · simpa [Finished, htally] using hfin

/-- A connection may go once it is closed and has no statement left. -/
theorem dropDb_ledger (hg : h.Ledger) (hbox : h.dbMem d = some box)
    (hclosed : box.proxy.closed = true) (hempty : box.stmts = []) : (h.dropDb d box).Ledger := by
  have htally : ∀ deed i, (h.dropDb d box).tally deed i = h.tally deed i +
      if (deed = .removed ∨ deed = .closeSent ∨ deed = .freed) ∧ i = box.serial then 1 else 0 := by
    intro deed i
    simp only [tally, dropDb, List.count_append, List.count_cons, List.count_nil]
    grind
  have hmem : ∀ x, (h.dropDb d box).dbMem x = if x = d then none else h.dbMem x :=
    fun x => Function.update_apply ..
  have hnext : (h.dropDb d box).next = h.next := rfl
  have hkept := hg.kept d box hbox
  have hshut := (hg.closed_iff d box hbox).mpr hclosed
  have hbal := hg.balance d box hbox
  rw [hempty, List.length_nil, Nat.add_zero] at hbal
  obtain ⟨hunused, hused, hser, hkept', hclosed', hbal', hgone⟩ := hg
  have hlt := hused d box hbox
  constructor
  case unused => grind
  case used => grind
  case serial => grind
  case kept => grind [Ended]
  case closed_iff => grind
  case balance => grind
  case gone =>
    intro i hi
    by_cases heq : i = box.serial
    · refine .inr ⟨?_, ?_⟩
      · obtain ⟨hremoved, hsent, hfreed⟩ := hkept
        simp [Ended, htally, heq, hremoved, hsent, hfreed]
      · simpa [Finished, htally, heq] using ⟨hshut, hbal⟩
    · obtain ⟨x, xbox, hx, hxi⟩ | ⟨hend, hfin⟩ := hgone i hi
      · refine .inl ⟨x, xbox, (hmem x).trans ?_, hxi⟩
        rw [if_neg]
        · exact hx
        · rintro rfl
          rw [hbox] at hx
          cases hx
          exact heq hxi.symm
      · refine .inr ⟨?_, ?_⟩
        · simpa [Ended, htally, heq] using hend
        · simpa [Finished, htally, heq] using hfin

end Logs

/-- A closed connection that is still in memory has a statement. -/
def Settled (h : Registry) : Prop :=
  ∀ d box, h.dbMem d = some box → box.proxy.closed = true → box.stmts ≠ []

structure Sound (h : Registry) : Prop where
  linked : h.Linked
  ledger : h.Ledger
  settled : h.Settled

section Calls

variable {h : Registry}

theorem sound_empty : Sound empty := by
  refine ⟨?_, ?_, ?_⟩
  · constructor <;> simp [empty]
  · constructor <;> simp [empty, tally]
  · intro d box hbox
    cases hbox

/-- A connection of the set is in memory. -/
theorem Sound.box {d : Addr} (hs : h.Sound) (hd : d ∈ h.dbs) : ∃ box, h.dbMem d = some box :=
  Option.isSome_iff_exists.mp ((hs.linked.dbs_iff d).mp hd)

theorem addDb_sound {a : Addr} (hs : h.Sound) (hfree : h.Free a) : (h.addDb a).Sound := by
  refine ⟨addDb_linked hs.linked hfree, addDb_ledger hs.ledger hfree, fun d box hbox hclosed => ?_⟩
  rw [show (h.addDb a).dbMem d = _ from Function.update_apply ..] at hbox
  split at hbox
  · cases hbox
    cases hclosed
  · exact hs.settled d box hbox hclosed

/-- What is closed and empty goes. -/
theorem destroyDb_eq {d : Addr} {box : DbBox} (hl : h.Linked) (hbox : h.dbMem d = some box) :
    h.destroyDb d = some (h.dropDb d box) := by
  have hd : d ∈ h.dbs := (hl.dbs_iff d).mpr (by rw [hbox]; rfl)
  rw [destroyDb, if_neg (not_not.mpr hd), hbox]
  rfl

/-- When every closed connection but `d` has a statement, `d` may go. -/
theorem dropDb_sound {d : Addr} {box : DbBox} (hl : h.Linked) (hg : h.Ledger)
    (hothers : ∀ x xbox, x ≠ d → h.dbMem x = some xbox → xbox.proxy.closed = true →
      xbox.stmts ≠ [])
    (hbox : h.dbMem d = some box) (hclosed : box.proxy.closed = true) (hempty : box.stmts = []) :
    (h.dropDb d box).Sound := by
  refine ⟨dropDb_linked hl hbox hempty, dropDb_ledger hg hbox hclosed hempty,
    fun x xbox hx hshut => ?_⟩
  rw [show (h.dropDb d box).dbMem x = _ from Function.update_apply ..] at hx
  split at hx
  · cases hx
  · next hne => exact hothers x xbox hne hx hshut

theorem closeDb_sound (hs : h.Sound) (db : Addr) (v2 : Bool) :
    ∃ out h', h.closeDb db v2 = some (out, h') ∧ h'.Sound := by
  unfold closeDb
  by_cases hnull : db = 0
  · exact ⟨_, h, if_pos hnull, hs⟩
  rw [if_neg hnull]
  by_cases hmem : db ∉ h.dbs
  · exact ⟨_, h, if_pos hmem, hs⟩
  rw [if_neg hmem]
  obtain ⟨box, hbox⟩ := hs.box (not_not.mp hmem)
  simp only [hbox, Option.bind_eq_bind, Option.bind_some]
  by_cases hbusy : ¬ v2 ∧ box.stmts ≠ []
  · exact ⟨_, h, if_pos hbusy, hs⟩
  rw [if_neg hbusy]
  have hl := markClosed_linked hs.linked hbox
  have hg := markClosed_ledger hs.ledger hbox
  have hown : (h.markClosed db box).dbMem db =
      some { box with proxy := { box.proxy with closed := true } } := Function.update_self ..
  have hothers : ∀ x xbox, x ≠ db → (h.markClosed db box).dbMem x = some xbox →
      xbox.proxy.closed = true → xbox.stmts ≠ [] := by
    intro x xbox hne hx
    rw [show (h.markClosed db box).dbMem x = _ from Function.update_of_ne hne ..] at hx
    exact hs.settled x xbox hx
  by_cases hempty : box.stmts = []
  · rw [if_pos hempty, destroyDb_eq hl hown]
    exact ⟨_, _, rfl, dropDb_sound hl hg hothers hown rfl hempty⟩
  · rw [if_neg hempty]
    refine ⟨_, _, rfl, hl, hg, fun x xbox hx hclosed => ?_⟩
    by_cases hne : x = db
    · rw [hne, hown] at hx
      cases hx
      exact hempty
    · exact hothers x xbox hne hx hclosed

theorem answer_closed (proxy : ProxyDb) (heard : Except String Response) :
    (answer proxy heard).1.closed = proxy.closed := by
  unfold answer
  split
  · rfl
  · cases heard with
    | error err => rfl
    | ok resp =>
      change (proxy.apply resp).closed = proxy.closed
      unfold ProxyDb.apply
      cases resp.ok <;> rfl

/-- A connection that is closed gives out the code of its own failure. -/
theorem answer_of_closed {proxy : ProxyDb} (hclosed : proxy.closed = true)
    (heard : Except String Response) :
    answer proxy heard =
      (proxy.fail "connection is closed", .error ShimConnection.sqliteError) := by
  rw [answer, if_pos hclosed]
  rfl

/-- A prepare that hears nothing makes no statement. -/
theorem prepareV2_error {sql : Option Bytes} (hsql : sql ≠ none) (nbytes errcode : Int32) :
    (prepareV2 sql nbytes (.error errcode)).stmt = none ∧
      (prepareV2 sql nbytes (.error errcode)).rc = errcode := by
  cases sql with
  | none => exact absurd rfl hsql
  | some bytes => exact ⟨rfl, rfl⟩

theorem prepare_sound {db a : Addr} {sql : Option Bytes} {nbytes : Int32} {ppstmt : Bool}
    {heard : Except String Response} (hs : h.Sound) (hfree : h.Free a) :
    ∃ out h', h.prepare db sql nbytes ppstmt heard a = some (out, h') ∧ h'.Sound := by
  unfold prepare
  by_cases hplace : ¬ ppstmt
  · exact ⟨_, h, if_pos hplace, hs⟩
  rw [if_neg hplace]
  by_cases hmem : db ∉ h.dbs
  · exact ⟨_, h, if_pos hmem, hs⟩
  rw [if_neg hmem]
  by_cases hsql : sql = none
  · exact ⟨_, h, if_pos hsql, hs⟩
  rw [if_neg hsql]
  obtain ⟨box, hbox⟩ := hs.box (not_not.mp hmem)
  simp only [hbox, Option.bind_eq_bind, Option.bind_some]
  have hkeeps := answer_closed box.proxy heard
  generalize answer box.proxy heard = answered at hkeeps ⊢
  obtain ⟨proxy, got⟩ := answered
  dsimp only at hkeeps ⊢
  have hl : (h.setProxy db box proxy).Linked := setProxy_linked hs.linked hbox
  have hg := setProxy_ledger hs.ledger hbox hkeeps
  have hown : (h.setProxy db box proxy).dbMem db = some { box with proxy } :=
    Function.update_self ..
  have hset : (h.setProxy db box proxy).Settled := by
    intro x xbox hx hclosed
    rw [show (h.setProxy db box proxy).dbMem x = _ from Function.update_apply ..] at hx
    split at hx
    · cases hx
      exact hs.settled db box hbox (hkeeps ▸ hclosed)
    · exact hs.settled x xbox hx hclosed
  cases hstmt : (prepareV2 sql nbytes got).stmt with
  | none => exact ⟨_, _, rfl, hl, hg, hset⟩
  | some stmt =>
    have hfree' : (h.setProxy db box proxy).Free a := by
      refine ⟨hfree.1, ?_, hfree.2.2⟩
      rw [show (h.setProxy db box proxy).dbMem a = _ from Function.update_apply .., if_neg]
      · exact hfree.2.1
      · rintro rfl
        rw [hfree.2.1] at hbox
        cases hbox
    refine ⟨_, _, rfl, addStmt_linked hl hown hfree', addStmt_ledger hg hown,
      fun x xbox hx hclosed => ?_⟩
    rw [show ((h.setProxy db box proxy).addStmt db { box with proxy } a stmt).dbMem x = _ from
      Function.update_apply ..] at hx
    split at hx
    · cases hx
      simp
    · exact hset x xbox hx hclosed

theorem finalizeStmt_sound (hs : h.Sound) (a : Addr) :
    ∃ out h', h.finalizeStmt a = some (out, h') ∧ h'.Sound := by
  unfold finalizeStmt
  by_cases hnull : a = 0
  · exact ⟨_, h, if_pos hnull, hs⟩
  rw [if_neg hnull]
  by_cases hmem : a ∉ h.stmts
  · exact ⟨_, h, if_pos hmem, hs⟩
  rw [if_neg hmem]
  obtain ⟨box, hbox⟩ :=
    Option.isSome_iff_exists.mp ((hs.linked.stmts_iff a).mp (not_not.mp hmem))
  obtain ⟨owner, hown, -⟩ := hs.linked.owner a box hbox
  have hl := dropStmt_linked hs.linked hbox hown
  have hg := dropStmt_ledger hs.linked hs.ledger hbox hown
  have hself : (h.dropStmt a box owner).dbMem box.db =
      some { owner with stmts := owner.stmts.filter (· ≠ a) } := Function.update_self ..
  have hothers : ∀ x xbox, x ≠ box.db → (h.dropStmt a box owner).dbMem x = some xbox →
      xbox.proxy.closed = true → xbox.stmts ≠ [] := by
    intro x xbox hne hx
    rw [show (h.dropStmt a box owner).dbMem x = _ from Function.update_of_ne hne ..] at hx
    exact hs.settled x xbox hx
  simp only [hbox, hown, hself, Option.bind_eq_bind, Option.bind_some]
  split
  · next hlast =>
    rw [destroyDb_eq hl hself]
    exact ⟨_, _, rfl, dropDb_sound hl hg hothers hself hlast.1 hlast.2⟩
  · next hkept =>
    refine ⟨_, _, rfl, hl, hg, fun x xbox hx hclosed => ?_⟩
    by_cases hne : x = box.db
    · rw [hne, hself] at hx
      cases hx
      exact fun hempty => hkept ⟨hclosed, hempty⟩
    · exact hothers x xbox hne hx hclosed

/-- A call on a sound registry touches allocated memory only, and leaves it sound. -/
theorem run_sound (hs : h.Sound) {call : Call} (hfree : h.Allocates call) :
    ∃ out h', h.run call = some (out, h') ∧ h'.Sound := by
  cases call with
  | openV2 raw =>
    cases raw with
    | none => exact ⟨_, h, rfl, hs⟩
    | some a => exact ⟨_, _, rfl, addDb_sound hs hfree⟩
  | prepare db sql nbytes ppstmt heard a => exact prepare_sound hs hfree
  | finalize stmt => exact finalizeStmt_sound hs stmt
  | close db => exact closeDb_sound hs db false
  | closeV2 db => exact closeDb_sound hs db true

theorem sound_of_run {calls : List Call} (hrun : Trace Step empty calls h) : h.Sound := by
  refine hrun.invariant (fun s call s' hs hstep => ?_) sound_empty
  obtain ⟨hfree, out, hcall⟩ := hstep
  obtain ⟨out', s'', hcall', hs''⟩ := run_sound hs hfree
  rw [hcall] at hcall'
  cases hcall'
  exact hs''

end Calls

section LifeCycle

/-- The statements of the set and the lists of its connections. -/
structure Registered (h : Registry) : Prop where
  owned : ∀ a ∈ h.stmts, ∃ box owner, h.stmtMem a = some box ∧ box.db ∈ h.dbs ∧
    h.dbMem box.db = some owner ∧ owner.stmts.count a = 1
  listed : ∀ d ∈ h.dbs, ∀ owner, h.dbMem d = some owner → ∀ a ∈ owner.stmts,
    a ∈ h.stmts ∧ ∃ box, h.stmtMem a = some box ∧ box.db = d

theorem Linked.registered {h : Registry} (hl : h.Linked) : h.Registered := by
  constructor
  · intro a ha
    obtain ⟨box, hbox⟩ := Option.isSome_iff_exists.mp ((hl.stmts_iff a).mp ha)
    obtain ⟨owner, hown, hin⟩ := hl.owner a box hbox
    have hd : box.db ∈ h.dbs := (hl.dbs_iff _).mpr (by rw [hown]; rfl)
    exact ⟨box, owner, hbox, hd, hown, List.count_eq_one_of_mem (hl.nodup _ _ hown) hin⟩
  · intro d _ owner hown a ha
    obtain ⟨box, hbox, hd⟩ := hl.listed d owner a hown ha
    exact ⟨(hl.stmts_iff a).mpr (by rw [hbox]; rfl), box, hbox, hd⟩

/-- A connection is there until it is finished, and then it has ended once. -/
theorem Sound.ended_iff {h : Registry} (hs : h.Sound) {i : ℕ} (hi : i < h.next) :
    (¬ h.Finished i ∧ h.Ended i 0 ∧ ∃ d ∈ h.dbs, ∃ box, h.dbMem d = some box ∧ box.serial = i) ∨
    (h.Finished i ∧ h.Ended i 1 ∧ ∀ d box, h.dbMem d = some box → box.serial ≠ i) := by
  obtain ⟨d, box, hbox, rfl⟩ | ⟨hend, hfin⟩ := hs.ledger.gone i hi
  · refine .inl ⟨?_, hs.ledger.kept d box hbox,
      d, (hs.linked.dbs_iff d).mpr (by rw [hbox]; rfl), box, hbox, rfl⟩
    -- closed, with as many statements finalized as made, it would have none left
    rintro ⟨hclosed, hall⟩
    have hbal := hs.ledger.balance d box hbox
    refine hs.settled d box hbox ((hs.ledger.closed_iff d box hbox).mp hclosed) ?_
    exact List.eq_nil_of_length_eq_zero (by omega)
  · refine .inr ⟨hfin, hend, ?_⟩
    rintro d box hbox rfl
    have hkept := (hs.ledger.kept d box hbox).1
    have honce := hend.1
    omega

/-- A close of a connection that has statements is refused. -/
theorem close_busy {h : Registry} (hs : h.Sound) {d : Addr} {owner : DbBox} (hd : d ∈ h.dbs)
    (hown : h.dbMem d = some owner) (hstmts : owner.stmts ≠ []) :
    h.run (.close d) = some (.code sqliteBusy, h) := by
  have hne : d ≠ 0 := by
    rintro rfl
    rw [hs.linked.null.1] at hown
    cases hown
  rw [run, closeDb, if_neg hne, if_neg (not_not.mpr hd), hown]
  exact if_pos ⟨Bool.false_ne_true, hstmts⟩

/-- A closed connection makes no statement. -/
theorem prepare_of_closed {h : Registry} {d : Addr} {owner : DbBox} (hd : d ∈ h.dbs)
    (hown : h.dbMem d = some owner) (hclosed : owner.proxy.closed = true) (sql : Option Bytes)
    (nbytes : Int32) (ppstmt : Bool) (heard : Except String Response) (a : Addr) :
    ∃ rc h', rc ≠ 0 ∧ h.run (.prepare d sql nbytes ppstmt heard a) = some (.code rc, h') ∧
      h'.stmts = h.stmts ∧ h'.stmtMem = h.stmtMem ∧ h'.log = h.log := by
  rw [run, prepare]
  by_cases hplace : ¬ ppstmt
  · exact ⟨sqliteMisuse, h, by decide, if_pos hplace, rfl, rfl, rfl⟩
  rw [if_neg hplace, if_neg (not_not.mpr hd)]
  by_cases hsql : sql = none
  · exact ⟨sqliteMisuse, h, by decide, if_pos hsql, rfl, rfl, rfl⟩
  · obtain ⟨hstmt, hrc⟩ := prepareV2_error hsql nbytes ShimConnection.sqliteError
    refine ⟨ShimConnection.sqliteError,
      h.setProxy d owner (owner.proxy.fail "connection is closed"), by decide, ?_, rfl, rfl, rfl⟩
    rw [if_neg hsql, hown]
    simp only [Option.bind_eq_bind, Option.bind_some, answer_of_closed hclosed, hstmt, hrc]

/-- The life of every connection and statement, in every state that calls can reach. -/
theorem handle_life_cycle {calls : List Call} {h : Registry} (hrun : Trace Step empty calls h) :
    h.Registered ∧
    (∀ d ∈ h.dbs, ∀ owner, h.dbMem d = some owner → owner.stmts ≠ [] →
      h.run (.close d) = some (.code sqliteBusy, h)) ∧
    (∀ i < h.next,
      (¬ h.Finished i ∧ h.Ended i 0 ∧
        ∃ d ∈ h.dbs, ∃ box, h.dbMem d = some box ∧ box.serial = i) ∨
      (h.Finished i ∧ h.Ended i 1 ∧ ∀ d box, h.dbMem d = some box → box.serial ≠ i)) ∧
    (∀ d ∈ h.dbs, ∀ owner, h.dbMem d = some owner → owner.proxy.closed = true →
      ∀ sql nbytes ppstmt heard a, ∃ rc h', rc ≠ 0 ∧
        h.run (.prepare d sql nbytes ppstmt heard a) = some (.code rc, h') ∧
        h'.stmts = h.stmts ∧ h'.stmtMem = h.stmtMem ∧ h'.log = h.log) ∧
    ∀ call, h.Allocates call → (h.run call).isSome := by
  have hs := sound_of_run hrun
  refine ⟨hs.linked.registered, ?_, ?_, ?_, ?_⟩
  · exact fun d hd owner hown hstmts => close_busy hs hd hown hstmts
  · exact fun i hi => hs.ended_iff hi
  · exact fun d hd owner hown hclosed => prepare_of_closed hd hown hclosed
  · intro call hfree
    obtain ⟨out, h', hcall, -⟩ := run_sound hs hfree
    rw [hcall]
    rfl

def compiled : Response where
  ok := true
  message := ""
  code := 0
  columns := []
  rows := []
  changes := 0
  lastInsertRowid := 0
  autocommit := true
  tail := 0
  paramCount := 0
  paramNames := []
  decltypes := []
  totalChanges := 0
  empty := false

/-- Two statements, made before a close that is refused. -/
def refusedClose : List Call :=
  [.openV2 (some 1), .prepare 1 (some []) (-1) true (.ok compiled) 2,
    .prepare 1 (some []) (-1) true (.ok compiled) 3]

/-- A close that the last finalize completes. -/
def deferredClose : List Call := [.close 1, .closeV2 1, .finalize 2, .finalize 3]

theorem refusedClose_runs : ∃ h, Trace Step empty refusedClose h ∧ h.dbs = {1} ∧
    h.stmts = {2, 3} ∧ h.next = 1 ∧ ∃ owner, h.dbMem 1 = some owner ∧ owner.stmts = [2, 3] := by
  refine ⟨_, .cons ⟨?_, _, rfl⟩ (.cons ⟨?_, _, rfl⟩ (.cons ⟨?_, _, rfl⟩ (.nil _))),
    rfl, Finset.pair_comm 3 2, rfl, _, rfl, rfl⟩
  all_goals exact ⟨by decide, rfl, rfl⟩

theorem deferredClose_runs : ∃ h, Trace Step empty (refusedClose ++ deferredClose) h ∧
    h.log = [⟨.opened, 0⟩, ⟨.linked, 0⟩, ⟨.linked, 0⟩, ⟨.closed, 0⟩, ⟨.finalized, 0⟩,
      ⟨.finalized, 0⟩, ⟨.removed, 0⟩, ⟨.closeSent, 0⟩, ⟨.freed, 0⟩] ∧ h.next = 1 := by
  refine ⟨_, .cons ⟨?_, _, rfl⟩ (.cons ⟨?_, _, rfl⟩ (.cons ⟨?_, _, rfl⟩ (.cons ⟨trivial, _, rfl⟩
    (.cons ⟨trivial, _, rfl⟩ (.cons ⟨trivial, _, rfl⟩ (.cons ⟨trivial, _, rfl⟩ (.nil _))))))),
    rfl, rfl⟩
  all_goals exact ⟨by decide, rfl, rfl⟩

/-- Both statements are there and the first close is refused. After the last finalize the
connection has ended once. -/
theorem deferredClose_life_cycle :
    (∃ h, Trace Step empty refusedClose h ∧ h.Registered ∧ h.stmts = {2, 3} ∧
      h.run (.close 1) = some (.code sqliteBusy, h) ∧ h.Ended 0 0) ∧
    ∃ h, Trace Step empty (refusedClose ++ deferredClose) h ∧
      h.log = [⟨.opened, 0⟩, ⟨.linked, 0⟩, ⟨.linked, 0⟩, ⟨.closed, 0⟩, ⟨.finalized, 0⟩,
        ⟨.finalized, 0⟩, ⟨.removed, 0⟩, ⟨.closeSent, 0⟩, ⟨.freed, 0⟩] ∧
      h.Registered ∧ h.Finished 0 ∧ h.Ended 0 1 := by
  constructor
  · obtain ⟨h, hrun, hdbs, hstmts, hnext, owner, hown, hlist⟩ := refusedClose_runs
    obtain ⟨hreg, hbusy, hends, -⟩ := handle_life_cycle hrun
    have hopen : 1 ∈ h.dbs := by rw [hdbs]; decide
    refine ⟨h, hrun, hreg, hstmts, hbusy 1 hopen owner hown (by rw [hlist]; decide), ?_⟩
    obtain ⟨-, hend, -⟩ | ⟨-, -, hgone⟩ := hends 0 (by omega)
    · exact hend
    · have hledger := (sound_of_run hrun).ledger
      have hserial := hledger.used 1 owner hown
      exact absurd (by omega) (hgone 1 owner hown)
  · obtain ⟨h, hrun, hlog, hnext⟩ := deferredClose_runs
    obtain ⟨hreg, -, hends, -⟩ := handle_life_cycle hrun
    have hfin : h.Finished 0 := by
      rw [Finished, tally, tally, tally, hlog]
      decide
    obtain ⟨hnot, -⟩ | ⟨-, hend, -⟩ := hends 0 (by omega)
    · exact absurd hfin hnot
    · exact ⟨h, hrun, hlog, hreg, hfin, hend⟩

end LifeCycle

end Registry

end SqliteBroker.Handles
