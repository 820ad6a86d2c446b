import SqliteBroker.Runs
import SqliteBroker.ShimStatement
import SqliteBroker.SmallSqlite
import Mathlib.Logic.Function.Basic

/-!
One handle of the shim and the threads that use it. Each field of the handle has a lock of
its own and the stream has one, which an `rpc` keeps from its request to its response; a
step is one locked section of one thread. A call that a callback of `sqlite3_exec` makes
on the same handle runs like the call of another thread. What a call hears is an argument
of its step, so any order of responses and any failure of the transport is allowed.
-/
namespace SqliteBroker.SharedHandle

open Utf8 Messages Engine Runs ShimConnection ShimStatement
open Execution hiding sqliteError

abbrev ThreadId := ℕ

section Stores

/-- One assignment to a field of the handle, under the lock of the field. -/
inductive Store
  | changes (v : Int32)
  | totalChanges (v : Int32)
  | lastRowid (v : Int64)
  | autocommit (v : Int32)
  | errcode (v : Int32)
  | errmsg (v : String)

def Store.run (db : ProxyDb) : Store → ProxyDb
  | .changes v => { db with changes := v }
  | .totalChanges v => { db with totalChanges := v }
  | .lastRowid v => { db with lastRowid := v }
  | .autocommit v => { db with autocommit := v }
  | .errcode v => { db with errcode := v }
  | .errmsg v => { db with errmsg := v }

/-- The sections of `apply`. -/
def applyStores (resp : Response) : List Store :=
  [.changes resp.changes, .totalChanges resp.totalChanges, .lastRowid resp.lastInsertRowid,
    .autocommit (if resp.autocommit then 1 else 0)] ++
  if resp.ok then [.errcode 0, .errmsg "not an error"]
  else
    [.errcode (if resp.code = 0 then ShimConnection.sqliteError else resp.code),
      .errmsg (cstringLossy resp.message)]

/-- The sections of `fail`. -/
def failStores (message : String) : List Store :=
  [.errcode ShimConnection.sqliteError, .errmsg (cstringLossy message)]

/-- What `rpc` stores of what it has heard. -/
def heardStores : Except String Response → List Store
  | .ok resp => applyStores resp
  | .error err => failStores err

/-- Alone on the handle, the sections make one `apply` or one `fail`. -/
theorem heardStores_run (db : ProxyDb) (got : Except String Response) :
    (heardStores got).foldl Store.run db = db.hear got := by
  cases got with
  | error err => rfl
  | ok resp =>
    simp only [heardStores, applyStores, ProxyDb.hear, ProxyDb.apply]
    cases resp.ok <;> rfl

end Stores

section Codes

/-- `rpc` returns `Ok`. -/
def succeeded : Except String Response → Bool
  | .ok resp => resp.ok
  | .error _ => false

/-- The code of `prepare_v2` after a response. -/
def prepareCode (sql : String) (resp : Response) : Int32 :=
  let tail := min resp.tail.toNat (byteLen sql.toList)
  if resp.empty then sqliteOk
  else if tail = 0 then sqliteOk
  else
    match sliceTo sql.toList tail with
    | none => ShimConnection.sqliteError
    | some _ => sqliteOk

/-- The code of a call whose `rpc` has returned `Ok`; an `exec` has made its callbacks. -/
def doneCode (call : ApiCall) (resp : Response) : Int32 :=
  match call with
  | .exec _ _ => sqliteOk
  | .prepare sql => prepareCode sql resp
  | .step _ _ => if resp.rows = [] then sqliteDone else sqliteRow

/-- The code of a call whose `rpc` has returned `Err`, from the `errcode` it reads then.
Only `prepare_v2` returns it as it is. -/
def failCode (call : ApiCall) (errcode : Int32) : Int32 :=
  match call with
  | .prepare _ => errcode
  | _ => if errcode = 0 then ShimConnection.sqliteError else errcode

end Codes

/-- Where a thread stands in a call. What its `rpc` has heard stays with the call to its
return, as ghost state. -/
inductive CallPc
  | idle
  | checking (call : ApiCall)
  | unsent (call : ApiCall)
  | awaiting (call : ApiCall)
  | storing (call : ApiCall) (got : Except String Response) (left : List Store)
  | failing (call : ApiCall) (got : Except String Response)
  | looping (call : ApiCall) (got : Except String Response) (loop : RowLoop)
  | aborting (call : ApiCall) (got : Except String Response) (left : List Store)
  | returned (call : ApiCall) (got : Except String Response) (rc : Int32)

/-- `holder` has the lock of the stream. As ghost state `cleared` tells whether the code
stored last in `errcode` is that of a success. -/
structure Shared where
  db : ProxyDb
  pcs : ThreadId → CallPc
  holder : Option ThreadId
  cleared : Bool

inductive Act
  | start (t : ThreadId) (call : ApiCall)
  | check (t : ThreadId)
  | write (t : ThreadId) (sent : Except String Unit)
  | read (t : ThreadId) (got : Except String Response)
  | store (t : ThreadId)
  | settle (t : ThreadId)
  | readCode (t : ThreadId)
  | callback (t : ThreadId) (rc : Int32)
  | leave (t : ThreadId)
  | close

namespace Shared

def init : Shared := ⟨.connected, fun _ => .idle, none, true⟩

def enter (s : Shared) (t : ThreadId) (pc : CallPc) : Shared :=
  { s with pcs := Function.update s.pcs t pc }

/-- One field is stored; `success` is the outcome that the store belongs to. -/
def put (s : Shared) (store : Store) (success : Bool) : Shared :=
  { s with
    db := store.run s.db
    cleared := match store with
      | .errcode _ => success
      | _ => s.cleared }

/-- A call after the sections of its response. -/
def settled (call : ApiCall) (got : Except String Response) : CallPc :=
  match got with
  | .ok resp =>
    if resp.ok then
      match call.rowLoop got with
      | loop :: _ => .looping call got loop
      | [] => .returned call got (doneCode call resp)
    else .failing call got
  | .error _ => .failing call got

def step (s : Shared) : Act → Option Shared
  | .start t call =>
    match s.pcs t with
    | .idle => some (s.enter t (.checking call))
    | _ => none
  | .check t =>
    match s.pcs t with
    | .checking call =>
      if s.db.closed then
        let got : Except String Response := .error "connection is closed"
        some (s.enter t (.storing call got (heardStores got)))
      else some (s.enter t (.unsent call))
    | _ => none
  | .write t sent =>
    match s.pcs t, s.holder, sent with
    | .unsent call, none, .ok () => some { s.enter t (.awaiting call) with holder := some t }
    | .unsent call, none, .error err =>
      some (s.enter t (.storing call (.error err) (heardStores (.error err))))
    | _, _, _ => none
  | .read t got =>
    match s.pcs t with
    | .awaiting call =>
      some { s.enter t (.storing call got (heardStores got)) with holder := none }
    | _ => none
  | .store t =>
    match s.pcs t with
    | .storing call got (next :: left) =>
      some ((s.put next (succeeded got)).enter t (.storing call got left))
    | .aborting call got (next :: left) =>
      some ((s.put next false).enter t (.aborting call got left))
    | _ => none
  | .settle t =>
    match s.pcs t with
    | .storing call got [] => some (s.enter t (settled call got))
    | .aborting call got [] => some (s.enter t (.returned call got sqliteAbort))
    | _ => none
  | .readCode t =>
    match s.pcs t with
    | .failing call got => some (s.enter t (.returned call got (failCode call s.db.errcode)))
    | _ => none
  | .callback t rc =>
    match s.pcs t with
    | .looping call got loop =>
      if rc ≠ 0 then
        some (s.enter t (.aborting call got (applyStores (callbackAborted loop.resp))))
      else
        match loop.next with
        | loop' :: _ => some (s.enter t (.looping call got loop'))
        | [] => some (s.enter t (.returned call got sqliteOk))
    | _ => none
  | .leave t =>
    match s.pcs t with
    | .returned _ _ _ => some (s.enter t .idle)
    | _ => none
  | .close => some { s with db := { s.db with closed := true } }

/-- The steps on the handle, each from the place of its thread. -/
inductive HandleStep (s : Shared) : Act → Shared → Prop
  | start {t : ThreadId} {call : ApiCall} (hpc : s.pcs t = .idle) :
      HandleStep s (.start t call) (s.enter t (.checking call))
  | closed {t : ThreadId} {call : ApiCall} (hpc : s.pcs t = .checking call)
      (hclosed : s.db.closed = true) : HandleStep s (.check t) (s.enter t
        (.storing call (.error "connection is closed") (failStores "connection is closed")))
  | check {t : ThreadId} {call : ApiCall} (hpc : s.pcs t = .checking call)
      (hopen : s.db.closed = false) : HandleStep s (.check t) (s.enter t (.unsent call))
  | write {t : ThreadId} {call : ApiCall} (hpc : s.pcs t = .unsent call)
      (hfree : s.holder = none) : HandleStep s (.write t (.ok ()))
        { s.enter t (.awaiting call) with holder := some t }
  | writeFails {t : ThreadId} {call : ApiCall} {err : String} (hpc : s.pcs t = .unsent call)
      (hfree : s.holder = none) : HandleStep s (.write t (.error err))
        (s.enter t (.storing call (.error err) (failStores err)))
  | read {t : ThreadId} {call : ApiCall} {got : Except String Response}
      (hpc : s.pcs t = .awaiting call) : HandleStep s (.read t got)
        { s.enter t (.storing call got (heardStores got)) with holder := none }
  | store {t : ThreadId} {call : ApiCall} {got : Except String Response} {next : Store}
      {left : List Store} (hpc : s.pcs t = .storing call got (next :: left)) :
      HandleStep s (.store t)
        ((s.put next (succeeded got)).enter t (.storing call got left))
  | storeAbort {t : ThreadId} {call : ApiCall} {got : Except String Response} {next : Store}
      {left : List Store} (hpc : s.pcs t = .aborting call got (next :: left)) :
      HandleStep s (.store t) ((s.put next false).enter t (.aborting call got left))
  | settle {t : ThreadId} {call : ApiCall} {got : Except String Response}
      (hpc : s.pcs t = .storing call got []) :
      HandleStep s (.settle t) (s.enter t (settled call got))
  | settleAbort {t : ThreadId} {call : ApiCall} {got : Except String Response}
      (hpc : s.pcs t = .aborting call got []) :
      HandleStep s (.settle t) (s.enter t (.returned call got sqliteAbort))
  | readCode {t : ThreadId} {call : ApiCall} {got : Except String Response}
      (hpc : s.pcs t = .failing call got) :
      HandleStep s (.readCode t) (s.enter t (.returned call got (failCode call s.db.errcode)))
  | abort {t : ThreadId} {call : ApiCall} {got : Except String Response} {loop : RowLoop}
      {rc : Int32} (hpc : s.pcs t = .looping call got loop) (hrc : rc ≠ 0) :
      HandleStep s (.callback t rc)
        (s.enter t (.aborting call got (applyStores (callbackAborted loop.resp))))
  | nextRow {t : ThreadId} {call : ApiCall} {got : Except String Response} {loop loop' : RowLoop}
      {more : List RowLoop} (hpc : s.pcs t = .looping call got loop)
      (hnext : loop.next = loop' :: more) :
      HandleStep s (.callback t 0) (s.enter t (.looping call got loop'))
  | lastRow {t : ThreadId} {call : ApiCall} {got : Except String Response} {loop : RowLoop}
      (hpc : s.pcs t = .looping call got loop) (hnext : loop.next = []) :
      HandleStep s (.callback t 0) (s.enter t (.returned call got sqliteOk))
  | leave {t : ThreadId} {call : ApiCall} {got : Except String Response} {rc : Int32}
      (hpc : s.pcs t = .returned call got rc) : HandleStep s (.leave t) (s.enter t .idle)
  | close : HandleStep s .close { s with db := { s.db with closed := true } }

theorem handle_step {s s' : Shared} {a : Act} (h : s.step a = some s') : HandleStep s a s' := by
  cases a with
  | start t call =>
    simp only [step] at h
    split at h
    · next hpc =>
      cases h
      exact .start hpc
    · cases h
  | check t =>
    simp only [step] at h
    split at h
    · next hpc =>
      split at h
      · next hclosed =>
        cases h
        exact .closed hpc hclosed
      · next hopen =>
        cases h
        exact .check hpc (eq_false_of_ne_true hopen)
    · cases h
  | write t sent =>
    simp only [step] at h
    split at h
    · next hpc hfree =>
      cases h
      exact .write hpc hfree
    · next hpc hfree =>
      cases h
      exact .writeFails hpc hfree
    · cases h
  | read t got =>
    simp only [step] at h
    split at h
    · next hpc =>
      cases h
      exact .read hpc
    · cases h
  | store t =>
    simp only [step] at h
    split at h
    · next hpc =>
      cases h
      exact .store hpc
    · next hpc =>
      cases h
      exact .storeAbort hpc
    · cases h
  | settle t =>
    simp only [step] at h
    split at h
    · next hpc =>
      cases h
      exact .settle hpc
    · next hpc =>
      cases h
      exact .settleAbort hpc
    · cases h
  | readCode t =>
    simp only [step] at h
    split at h
    · next hpc =>
      cases h
      exact .readCode hpc
    · cases h
  | callback t rc =>
    simp only [step] at h
    split at h
    · next hpc =>
      split at h
      · next hrc =>
        cases h
        exact .abort hpc hrc
      · next hrc =>
        obtain rfl : rc = 0 := Decidable.not_not.mp hrc
        split at h
        · next hnext =>
          cases h
          exact .nextRow hpc hnext
        · next hnext =>
          cases h
          exact .lastRow hpc hnext
    · cases h
  | leave t =>
    simp only [step] at h
    split at h
    · next hpc =>
      cases h
      exact .leave hpc
    · cases h
  | close =>
    cases h
    exact .close

end Shared

section Answers

variable (S : Sqlite)

/-- What the worker of the broker can answer a request with. -/
inductive Answer : Response → Prop
  | executed (f : S.File) (c : S.Conn) (sql : String) (params : List Param) :
      Answer (execute S f c sql params).result
  | prepared (f : S.File) (c : S.Conn) (sql : String) : Answer (prepareMeta S f c sql).result
  | refused (message : String) : Answer (errorResponse true 1 message)
  | closed : Answer okClosed

/-- After a call that fails, SQLite reports the code of that failure: never that of a row
or of the end of the rows. -/
structure FailureCodes : Prop where
  prepare : ∀ f c sql, (S.prepareV2 f c sql).rc ≠ sqliteOk →
    S.errcode (S.prepareV2 f c sql).conn ≠ sqliteRow ∧
      S.errcode (S.prepareV2 f c sql).conn ≠ sqliteDone
  step : ∀ f c st, (S.step f c st).rc ≠ sqliteRow → (S.step f c st).rc ≠ sqliteDone →
    S.errcode (S.step f c st).conn ≠ sqliteRow ∧ S.errcode (S.step f c st).conn ≠ sqliteDone

/-- A code that tells the caller of a failure. -/
def ErrorCode (rc : Int32) : Prop := rc ≠ 0 ∧ rc ≠ sqliteRow ∧ rc ≠ sqliteDone

instance (rc : Int32) : Decidable (ErrorCode rc) := inferInstanceAs (Decidable (_ ∧ _))

theorem errorCode_one : ErrorCode 1 := by decide

variable {S} {f : S.File} {c : S.Conn}

theorem errorCode_sqliteError (h : S.errcode c ≠ sqliteRow ∧ S.errcode c ≠ sqliteDone) :
    ErrorCode (Execution.sqliteError S c).1 := by
  unfold Execution.sqliteError
  split
  · exact errorCode_one
  · next hne => exact ⟨hne, h⟩

theorem stepRows_code (hS : FailureCodes S) {ncols : Int32} {st : S.Stmt} {rows : List (List Cell)}
    {err : SqlError} (h : (stepRows S ncols f c st rows).result.2 = .error err) :
    ErrorCode err.1 := by
  fun_induction stepRows S ncols f c st rows with
  | case1 f c st rows hend =>
    cases h
    exact errorCode_one
  | case2 f c st rows hend out hrow ih => exact ih h
  | case3 f c st rows hend out hrow hdone => cases h
  | case4 f c st rows hend out hrow hdone =>
    cases h
    exact errorCode_sqliteError (hS.step f c st hrow hdone)

theorem executeLoop_code (hS : FailureCodes S) {sql : CStr} {params : List Param} {pos : ℕ}
    {columns : List String} {rows : List (List Cell)} {err : SqlError}
    (h : (executeLoop S sql params pos columns rows f c).result = .error err) :
    ErrorCode err.1 := by
  fun_induction executeLoop S sql params pos columns rows f c with
  | case1 =>
    rename_i hrc
    cases h
    exact errorCode_sqliteError (hS.prepare _ _ _ hrc)
  | case3 =>
    cases h
    exact errorCode_one
  | case4 =>
    rename_i hfailed _
    cases h
    exact stepRows_code hS hfailed
  | case7 =>
    cases h
    exact errorCode_one
  | case10 =>
    rename_i ih
    exact ih h
  | _ => cases h

/-- The code of an answer that reports an error. -/
theorem answer_code (hS : FailureCodes S) {resp : Response} (h : Answer S resp)
    (hok : resp.ok = false) : ErrorCode resp.code := by
  cases h with
  | executed f c sql params =>
    unfold execute at hok ⊢
    dsimp only at hok ⊢
    cases hresult : (executeInner S sql params f c).result with
    | ok collected =>
      rw [hresult] at hok
      cases hok
    | error err =>
      change ErrorCode err.1
      unfold executeInner at hresult
      cases hsql : cString sql with
      | error nul =>
        rw [hsql] at hresult
        cases hresult
        exact errorCode_one
      | ok cSql =>
        rw [hsql] at hresult
        exact executeLoop_code hS hresult
  | prepared f c sql =>
    unfold prepareMeta at hok ⊢
    cases hsql : cString sql with
    | error nul => exact errorCode_one
    | ok cSql =>
      simp only [hsql] at hok ⊢
      by_cases hrc : (S.prepareV2 f c cSql).rc ≠ sqliteOk
      · rw [if_pos hrc]
        exact errorCode_sqliteError (hS.prepare f c cSql hrc)
      · rw [if_neg hrc] at hok
        cases hstmt : (S.prepareV2 f c cSql).stmt with
        | none =>
          simp only [hstmt] at hok
          cases hok
        | some st =>
          simp only [hstmt] at hok
          cases hok
  | refused message => exact errorCode_one
  | closed => cases hok

end Answers

namespace Shared

section Failures

variable {s s' : Shared} {a : Act}

/-- A response that is read may have any code, but for that of a row or of the end of the
rows when it reports an error. -/
def Heard : Act → Prop
  | .read _ (.ok resp) => resp.ok = false → resp.code ≠ sqliteRow ∧ resp.code ≠ sqliteDone
  | _ => True

/-- The answers of the broker are such responses. -/
theorem answer_heard {S : Sqlite} (hS : FailureCodes S) {resp : Response} (h : Answer S resp)
    (t : ThreadId) : Heard (.read t (.ok resp)) :=
  fun hok => (answer_code hS h hok).2

/-- When a failed `prepare_v2` reads `errcode`, the outcome stored there last is not the
success of another call. -/
def Unspoiled (s : Shared) : Act → Prop
  | .readCode t => ∀ sql got, s.pcs t = .failing (.prepare sql) got → s.cleared = false
  | _ => True

/-- The stores of a thread that waits for their locks. -/
def Sound : CallPc → Prop
  | .storing _ got left => ∀ v, Store.errcode v ∈ left →
      if succeeded got then v = 0 else ErrorCode v
  | .aborting _ _ left => ∀ v, Store.errcode v ∈ left → ErrorCode v
  | _ => True

/-- `errcode` is zero exactly when a success has been stored last. -/
structure Faultless (s : Shared) : Prop where
  cell : if s.cleared then s.db.errcode = 0 else ErrorCode s.db.errcode
  threads : ∀ t, Sound (s.pcs t)

theorem faultless_init : Faultless init := ⟨rfl, fun _ => trivial⟩

theorem enter_faultless {t : ThreadId} {pc : CallPc} (hs : Faultless s) (hpc : Sound pc) :
    Faultless (s.enter t pc) := by
  refine ⟨hs.cell, fun i => ?_⟩
  rw [show (s.enter t pc).pcs i = _ from Function.update_apply ..]
  split
  · exact hpc
  · exact hs.threads i

/-- The lock of the stream has no part in it. -/
theorem lock_faultless {t : ThreadId} {pc : CallPc} {holder : Option ThreadId} (hs : Faultless s)
    (hpc : Sound pc) : Faultless { s.enter t pc with holder } :=
  ⟨hs.cell, (enter_faultless hs hpc).threads⟩

/-- A failure heard is stored as one. -/
theorem heardStores_sound {got : Except String Response} {v : Int32}
    (hgot : ∀ resp, got = .ok resp → resp.ok = false →
      resp.code ≠ sqliteRow ∧ resp.code ≠ sqliteDone)
    (h : Store.errcode v ∈ heardStores got) : if succeeded got then v = 0 else ErrorCode v := by
  cases got with
  | error err =>
    obtain rfl : v = ShimConnection.sqliteError := by simpa [heardStores, failStores] using h
    exact errorCode_one
  | ok resp =>
    have hcode := hgot resp rfl
    cases hok : resp.ok with
    | true =>
      obtain rfl : v = 0 := by simpa [heardStores, applyStores, hok] using h
      simp [succeeded, hok]
    | false =>
      have hv : v = if resp.code = 0 then ShimConnection.sqliteError else resp.code := by
        simpa [heardStores, applyStores, hok] using h
      simp only [succeeded, hok, Bool.false_eq_true, if_false]
      rw [hv]
      split
      · exact errorCode_one
      · next hne => exact ⟨hne, hcode hok⟩

theorem put_faultless {store : Store} {success : Bool} (hs : Faultless s)
    (hstore : ∀ v, store = .errcode v → if success then v = 0 else ErrorCode v) :
    Faultless (s.put store success) := by
  refine ⟨?_, hs.threads⟩
  cases store with
  | errcode v => exact hstore v rfl
  | _ => exact hs.cell

theorem settled_sound (call : ApiCall) (got : Except String Response) :
    Sound (settled call got) := by
  unfold settled
  cases got with
  | error err => trivial
  | ok resp =>
    dsimp only
    split
    · split <;> trivial
    · trivial

theorem step_faultless (hs : Faultless s) (hheard : Heard a)
    (h : s.step a = some s') : Faultless s' := by
  cases handle_step h with
  | closed hpc | writeFails hpc =>
    refine enter_faultless hs (fun v hv => ?_)
    exact @heardStores_sound (.error _) v (fun _ h => nomatch h) hv
  | write hpc => exact lock_faultless hs trivial
  | read hpc =>
    refine lock_faultless hs (fun v hv => heardStores_sound ?_ hv)
    rintro resp rfl hok
    exact hheard hok
  | @store t _ _ _ _ hpc | @storeAbort t _ _ _ _ hpc =>
    have hleft := hs.threads t
    rw [hpc] at hleft
    exact enter_faultless (put_faultless hs (fun v hv => hleft v (hv ▸ List.mem_cons_self ..)))
      (fun v hv => hleft v (List.mem_cons_of_mem _ hv))
  | settle hpc => exact enter_faultless hs (settled_sound _ _)
  | abort hpc hrc =>
    refine enter_faultless hs (fun v hv => ?_)
    obtain rfl : v = sqliteAbort := by
      simpa [applyStores, callbackAborted, show sqliteAbort ≠ 0 by decide] using hv
    decide
  | close => exact ⟨hs.cell, hs.threads⟩
  | _ => exact enter_faultless hs trivial

/-- Only `prepare_v2` passes on the code of a success. -/
theorem failCode_errorCode_iff {call : ApiCall} {errcode : Int32}
    (h : errcode = 0 ∨ ErrorCode errcode) :
    ErrorCode (failCode call errcode) ↔ ∀ sql, call = .prepare sql → errcode ≠ 0 := by
  have hguarded : ErrorCode (if errcode = 0 then ShimConnection.sqliteError else errcode) := by
    split
    · exact errorCode_one
    · next hne => exact h.resolve_left hne
  cases call with
  | prepare sql =>
    constructor
    · exact fun hcode _ _ => hcode.1
    · exact fun hne => h.resolve_left (hne sql rfl)
  | exec sql callback => exact ⟨fun _ _ heq => (nomatch heq), fun _ => hguarded⟩
  | step sql params => exact ⟨fun _ _ heq => (nomatch heq), fun _ => hguarded⟩

/-- A call whose `rpc` has failed finds an error code, unless it is a `prepare_v2` and a
success has been stored last. -/
theorem failing_code_iff (hs : Faultless s) {t : ThreadId} {call : ApiCall}
    {got : Except String Response} (hpc : s.pcs t = .failing call got) :
    ErrorCode (failCode call s.db.errcode) ↔ Unspoiled s (.readCode t) := by
  have hcell := hs.cell
  have hspoiled : Unspoiled s (.readCode t) ↔ ∀ sql, call = .prepare sql → s.cleared = false := by
    change (∀ sql got, s.pcs t = .failing (.prepare sql) got → s.cleared = false) ↔ _
    rw [hpc]
    simp only [CallPc.failing.injEq]
    exact ⟨fun h sql hcall => h sql got ⟨hcall, rfl⟩, fun h sql _ hcall => h sql hcall.1⟩
  rw [hspoiled]
  cases hcleared : s.cleared with
  | true =>
    have hzero : s.db.errcode = 0 := by simpa [hcleared] using hcell
    rw [failCode_errorCode_iff (.inl hzero), hzero]
    simp
  | false =>
    have hcode : ErrorCode s.db.errcode := by simpa [hcleared] using hcell
    rw [failCode_errorCode_iff (.inr hcode)]
    exact ⟨fun _ _ _ => rfl, fun _ _ _ => hcode.1⟩

/-- A call whose `rpc` has failed has returned an error code. -/
def Answered : CallPc → Prop
  | .looping _ got _ => succeeded got = true
  | .aborting _ got _ => succeeded got = true
  | .returned _ got rc => succeeded got = false → ErrorCode rc
  | _ => True

def Reported (s : Shared) : Prop := ∀ t, Answered (s.pcs t)

theorem enter_reported {t : ThreadId} {pc : CallPc} (hr : Reported s) (hpc : Answered pc) :
    Reported (s.enter t pc) := by
  intro i
  rw [show (s.enter t pc).pcs i = _ from Function.update_apply ..]
  split
  · exact hpc
  · exact hr i

theorem lock_reported {t : ThreadId} {pc : CallPc} {holder : Option ThreadId} (hr : Reported s)
    (hpc : Answered pc) : Reported { s.enter t pc with holder } :=
  fun i => enter_reported hr hpc i

/-- A call that goes on without reading `errcode` has succeeded. -/
theorem settled_answered (call : ApiCall) (got : Except String Response) :
    Answered (settled call got) := by
  unfold settled
  cases got with
  | error err => trivial
  | ok resp =>
    dsimp only
    split
    · next hok =>
      split
      · exact hok
      · intro hfailed
        rw [succeeded, hok] at hfailed
        cases hfailed
    · trivial

theorem answered_of_succeeded {call : ApiCall} {got : Except String Response} {rc : Int32}
    (hgot : succeeded got = true) : Answered (.returned call got rc) := by
  intro hfailed
  rw [hgot] at hfailed
  cases hfailed

theorem Reported.own (hr : Reported s) {t : ThreadId} {pc : CallPc} (hpc : s.pcs t = pc) :
    Answered pc := hpc ▸ hr t

theorem step_reported (hs : Faultless s) (hr : Reported s) (hclean : Unspoiled s a)
    (h : s.step a = some s') : Reported s' := by
  cases handle_step h with
  | write hpc | read hpc => exact lock_reported hr trivial
  | store hpc => exact enter_reported (s := s.put _ _) hr trivial
  | storeAbort hpc =>
    have hgot := hr.own hpc
    exact enter_reported (s := s.put _ _) hr hgot
  | settle hpc => exact enter_reported hr (settled_answered _ _)
  | settleAbort hpc =>
    have hgot := hr.own hpc
    exact enter_reported hr (answered_of_succeeded hgot)
  | readCode hpc => exact enter_reported hr (fun _ => (failing_code_iff hs hpc).mpr hclean)
  | abort hpc | nextRow hpc =>
    have hgot := hr.own hpc
    exact enter_reported hr hgot
  | lastRow hpc =>
    have hgot := hr.own hpc
    exact enter_reported hr (answered_of_succeeded hgot)
  | close => exact hr
  | _ => exact enter_reported hr trivial

/-- A run of the threads whose steps meet `p`. -/
def HandleRun (p : Shared → Act → Prop) (acts : List Act) (s : Shared) : Prop :=
  Trace (fun s a s' => Heard a ∧ p s a ∧ s.step a = some s') init acts s

/-- While no success spoils the code of a failed `prepare_v2`, every call whose `rpc` has
failed returns an error code. -/
theorem failed_call_reported {acts : List Act} (h : HandleRun Unspoiled acts s) {t : ThreadId}
    {call : ApiCall} {got : Except String Response} {rc : Int32}
    (hpc : s.pcs t = .returned call got rc) (hfailed : succeeded got = false) : ErrorCode rc := by
  have hinv : Faultless s ∧ Reported s := by
    refine h.invariant (P := fun s => Faultless s ∧ Reported s) ?_ ?_
    · rintro s a s' ⟨hs, hr⟩ ⟨hheard, hclean, hstep⟩
      exact ⟨step_faultless hs hheard hstep, step_reported hs hr hclean hstep⟩
    · exact ⟨faultless_init, fun _ => trivial⟩
  have hanswered := hinv.2 t
  rw [hpc] at hanswered
  exact hanswered hfailed

end Failures

section Race

variable {s : Shared} {t : ThreadId} {call : ApiCall}

@[simp] theorem enter_pcs (pc : CallPc) : (s.enter t pc).pcs = Function.update s.pcs t pc := rfl

/-- The sections of a thread that nobody interrupts. -/
theorem run_stores {p : Shared → Act → Prop} {got : Except String Response} {left : List Store}
    (hp : ∀ s, p s (.store t)) (hpc : s.pcs t = .storing call got left) :
    ∃ s', Trace (fun s a s' => Heard a ∧ p s a ∧ s.step a = some s') s
        (List.replicate left.length (.store t)) s' ∧
      s'.pcs = Function.update s.pcs t (.storing call got []) ∧
      s'.db = left.foldl Store.run s.db ∧ s'.holder = s.holder := by
  induction left generalizing s with
  | nil => exact ⟨s, .nil s, by rw [← hpc, Function.update_eq_self], rfl, rfl⟩
  | cons next left ih =>
    let s₁ := (s.put next (succeeded got)).enter t (.storing call got left)
    have hstep : s.step (.store t) = some s₁ := by simp only [step, hpc, s₁]
    obtain ⟨s', hrun, hpcs, hdb, hholder⟩ := @ih s₁ (Function.update_self ..)
    refine ⟨s', .cons ⟨trivial, hp s, hstep⟩ hrun, ?_, hdb, hholder⟩
    rw [hpcs]
    exact Function.update_idem ..

/-- A whole `rpc` of one thread, up to the code that it returns or goes on to read. -/
def rpcActs (t : ThreadId) (call : ApiCall) (resp : Response) : List Act :=
  [.start t call, .check t, .write t (.ok ()), .read t (.ok resp)] ++
    List.replicate (applyStores resp).length (.store t) ++ [.settle t]

/-- A call that nobody interrupts applies its response. -/
theorem run_rpc (t : ThreadId) (call : ApiCall) {p : Shared → Act → Prop} {resp : Response}
    (hp : ∀ s, ∀ a ∈ rpcActs t call resp, p s a) (hresp : Heard (.read t (.ok resp)))
    (hidle : s.pcs t = .idle) (hopen : s.db.closed = false) (hfree : s.holder = none) :
    ∃ s', Trace (fun s a s' => Heard a ∧ p s a ∧ s.step a = some s') s
        (rpcActs t call resp) s' ∧
      s'.pcs = Function.update s.pcs t (settled call (.ok resp)) ∧
      s'.db = s.db.apply resp ∧ s'.holder = none := by
  let s₁ := s.enter t (.checking call)
  let s₂ := s₁.enter t (.unsent call)
  let s₃ : Shared := { s₂.enter t (.awaiting call) with holder := some t }
  let s₄ : Shared :=
    { s₃.enter t (.storing call (.ok resp) (applyStores resp)) with holder := none }
  have hstart : s.step (.start t call) = some s₁ := by simp only [step, hidle, s₁]
  have hcheck : s₁.step (.check t) = some s₂ := by
    simp [step, s₁, s₂, enter, hopen]
  have hwrite : s₂.step (.write t (.ok ())) = some s₃ := by
    simp [step, s₁, s₂, s₃, enter, hfree]
  have hread : s₃.step (.read t (.ok resp)) = some s₄ := by
    simp [step, s₁, s₂, s₃, s₄, enter, heardStores]
  have hmem : ∀ {a}, a ∈ rpcActs t call resp → ∀ s, p s a := fun ha s => hp s _ ha
  obtain ⟨s₅, hstores, hpcs, hdb, hholder⟩ := run_stores (p := p)
    (hmem (by simp [rpcActs, applyStores]))
    (show s₄.pcs t = .storing call (.ok resp) (applyStores resp) from Function.update_self ..)
  have hsettle : s₅.step (.settle t) = some (s₅.enter t (settled call (.ok resp))) := by
    simp [step, hpcs]
  refine ⟨s₅.enter t (settled call (.ok resp)), ?_, ?_, ?_, hholder⟩
  · refine Trace.append (.cons ⟨trivial, hmem (by simp [rpcActs]) _, hstart⟩
      (.cons ⟨trivial, hmem (by simp [rpcActs]) _, hcheck⟩
      (.cons ⟨trivial, hmem (by simp [rpcActs]) _, hwrite⟩
      (.cons ⟨hresp, hmem (by simp [rpcActs]) _, hread⟩ hstores)))) ?_
    exact .single ⟨trivial, hmem (by simp [rpcActs]) _, hsettle⟩
  · rw [enter_pcs, hpcs]
    simp [s₁, s₂, s₃, s₄]
  · exact hdb.trans (heardStores_run s.db (.ok resp))

end Race

section SmallRuns

open SmallSqlite

theorem small_failureCodes : FailureCodes engine where
  prepare f c sql h := by
    simp only [SmallSqlite.prepareV2] at h ⊢
    cases hparse : parse sql with
    | stmt st => simp [hparse] at h
    | empty => simp [hparse] at h
    | invalid => exact errorCode_one.2
  step f c st hrow hdone := by
    cases st with
    | begin =>
      cases hc : c.autocommit with
      | true => simp [SmallSqlite.step, hc] at hdone
      | false => simpa [SmallSqlite.step, hc] using errorCode_one.2
    | commit =>
      cases hc : c.autocommit with
      | true => simpa [SmallSqlite.step, hc] using errorCode_one.2
      | false => simp [SmallSqlite.step, hc] at hdone
    | select => exact absurd rfl hrow
    | insert => exact absurd rfl hdone
    | row text => exact absurd rfl hdone

/-- The text does not compile. -/
def brokenCall : ApiCall := .prepare "SELEC"

def compileError : Response := errorResponse true 1 "SQL logic error"

def insertCall : ApiCall := .exec insertSql false

theorem compileError_heard (t : ThreadId) : Heard (.read t (.ok compileError)) := by
  have hprep := prepareMeta_invalid (f := newFile) (c := newConn)
    (show cString "SELEC" = .ok (bytesOf "SELEC") from rfl)
    (show parse (bytesOf "SELEC") = .invalid by decide)
  have hanswer := Answer.prepared (S := engine) newFile newConn "SELEC"
  rw [hprep] at hanswer
  exact answer_heard small_failureCodes hanswer t

theorem insertedResponse_heard (t : ThreadId) : Heard (.read t (.ok insertedResponse)) := by
  have hanswer := Answer.executed (S := engine) newFile newConn insertSql []
  rw [execute_insert] at hanswer
  exact answer_heard small_failureCodes hanswer t

/-- The failed call of thread 0, up to its `errcode`. -/
theorem run_failed {p : Shared → Act → Prop} {call : ApiCall} {resp : Response}
    (hp : ∀ s, ∀ a ∈ rpcActs 0 call resp, p s a) (hok : resp.ok = false)
    (hresp : Heard (.read 0 (.ok resp))) :
    ∃ s : Shared, HandleRun p (rpcActs 0 call resp) s ∧
      s.pcs = Function.update (fun _ => .idle) 0 (.failing call (.ok resp)) ∧
      s.db = ProxyDb.connected.apply resp ∧ s.holder = none := by
  have hsettled : settled call (.ok resp) = .failing call (.ok resp) := by
    simp [settled, hok]
  have hrun := run_rpc (s := init) 0 call hp hresp rfl rfl rfl
  rw [hsettled] at hrun
  exact hrun

/-- While the failed `prepare_v2` of one thread is about to read its code, a call of another
one succeeds: the text has not compiled, there is no statement, and the code is zero. -/
theorem spoiled_prepare : ∃ s : Shared,
    HandleRun (fun _ _ => True) (rpcActs 0 brokenCall compileError ++
      rpcActs 1 insertCall insertedResponse ++ [.readCode 0]) s ∧
    s.pcs 0 = .returned brokenCall (.ok compileError) 0 ∧ compileError.ok = false := by
  obtain ⟨s₁, hrun₁, hpcs₁, hdb₁, hholder₁⟩ := run_failed (p := fun _ _ => True)
    (fun _ _ _ => trivial) rfl (compileError_heard 0)
  obtain ⟨s₂, hrun₂, hpcs₂, hdb₂, -⟩ := run_rpc (p := fun _ _ => True) (s := s₁) 1
    insertCall (fun _ _ _ => trivial) (insertedResponse_heard 1) (by rw [hpcs₁]; rfl)
    (by rw [hdb₁]; rfl) hholder₁
  have hpc : s₂.pcs 0 = .failing brokenCall (.ok compileError) := by
    rw [hpcs₂, hpcs₁]
    rfl
  have hcode : s₂.db.errcode = 0 := by
    rw [hdb₂]
    rfl
  refine ⟨s₂.enter 0 (.returned brokenCall (.ok compileError) 0),
    Trace.snoc (hrun₁.append hrun₂) ⟨trivial, trivial, ?_⟩, by simp, rfl⟩
  simp [step, hpc, brokenCall, failCode, hcode]

theorem rpcActs_unspoiled {call : ApiCall} {resp : Response} :
    ∀ s, ∀ a ∈ rpcActs 0 call resp, Unspoiled s a := by
  intro s a ha
  simp only [rpcActs, List.mem_append, List.mem_cons, List.not_mem_nil, List.mem_replicate] at ha
  rcases ha with ((rfl | rfl | rfl | rfl | h) | ⟨-, rfl⟩) | rfl | h <;> trivial

/-- A failed call that reads its code before anyone else has stored one. -/
theorem run_reported (call : ApiCall) {resp : Response} (hok : resp.ok = false)
    (hresp : Heard (.read 0 (.ok resp))) : ∃ s : Shared,
    HandleRun Unspoiled (rpcActs 0 call resp ++ [.readCode 0]) s ∧
      s.pcs 0 = .returned call (.ok resp)
        (failCode call (if resp.code = 0 then ShimConnection.sqliteError else resp.code)) := by
  obtain ⟨s, hrun, hpcs, hdb, -⟩ := run_failed (@rpcActs_unspoiled call resp) hok hresp
  have hpc : s.pcs 0 = .failing call (.ok resp) := by
    rw [hpcs]
    rfl
  have hcode : s.db.errcode = if resp.code = 0 then ShimConnection.sqliteError else resp.code := by
    rw [hdb, ProxyDb.apply, hok]
    rfl
  have hcleared : s.cleared = false := by
    have hs : Faultless s := hrun.invariant
      (fun s a s' hs hstep => step_faultless hs hstep.1 hstep.2.2) faultless_init
    cases hcleared : s.cleared with
    | false => rfl
    | true =>
      have hcell := hs.cell
      rw [hcleared, if_pos rfl, hcode] at hcell
      split at hcell
      · cases hcell
      · next hne => exact absurd hcell hne
  refine ⟨s.enter 0 (.returned call (.ok resp) (failCode call s.db.errcode)),
    Trace.snoc hrun ⟨trivial, fun _ _ _ => hcleared, ?_⟩, ?_⟩
  · simp only [step, hpc]
  · rw [← hcode, enter_pcs, Function.update_self]

/-- An error response without a code of its own. -/
def codeless : Response := errorResponse true 0 "no code"

/-- When it reads its code first, it returns it, and a response without one is an error as
well. -/
theorem prepare_reported :
    (∃ s : Shared, HandleRun Unspoiled (rpcActs 0 brokenCall compileError ++ [.readCode 0]) s ∧
      s.pcs 0 = .returned brokenCall (.ok compileError) 1 ∧ ErrorCode 1) ∧
    ∃ s : Shared, HandleRun Unspoiled (rpcActs 0 insertCall codeless ++ [.readCode 0]) s ∧
      s.pcs 0 = .returned insertCall (.ok codeless) 1 ∧ ErrorCode 1 := by
  obtain ⟨s₁, hrun₁, hpc₁⟩ := run_reported brokenCall rfl (compileError_heard 0)
  obtain ⟨s₂, hrun₂, hpc₂⟩ := run_reported insertCall rfl
    (show Heard (.read 0 (.ok codeless)) from fun _ => by decide)
  exact ⟨⟨s₁, hrun₁, hpc₁, failed_call_reported hrun₁ hpc₁ rfl⟩,
    ⟨s₂, hrun₂, hpc₂, failed_call_reported hrun₂ hpc₂ rfl⟩⟩

end SmallRuns

end Shared

end SqliteBroker.SharedHandle
