import SqliteBroker.BoundValues
import SqliteBroker.ClientCalls
import SqliteBroker.Handles
import SqliteBroker.ScriptSqlite

/-!
A script sent whole, by one `sqlite3_exec`, and a script sent statement by statement, by
the loop of `sqlite3_prepare_v2` and `sqlite3_step`. One client speaks and no other
session's statement runs in between, so a request is the worker's dispatch alone. Every
message goes through its frame.
-/
namespace SqliteBroker.Scripts

open Utf8 Messages Serde Wire Frames Engine BrokerWorker WorkerLog Panics ShimConnection
  ShimStatement Statements
open Execution hiding sqliteError
open BoundValues (cString_of_no_nul)
open Exchanges (runOn answer_eq served_free)
open Handles.Registry (answer answer_closed)
open SharedHandle (FailureCodes ErrorCode)
open StepCycle (Agrees Cycle step_agrees create_agrees)

variable {S : Sqlite}

/-- The worker as one session finds it and the client's handle. `linked` says that the
connection stands; `asked` and `told` are ghost state, the requests and the responses of
the session so far. -/
structure Session (S : Sqlite) where
  worker : Worker S
  linked : Bool
  db : ProxyDb
  asked : List Request
  told : List Response

-- `lost` is what the client reads of a connection that is gone.
variable (J : SerdeJson) (lost : String) (id : SessionId)

namespace Session

/-- The broker ends the session. -/
def hangUp (s : Session S) : Session S :=
  { s with worker := s.worker.dropSession id, linked := false }

/-- The broker on a request that it has read: the frame of its response. -/
def serve (s : Session S) (req : Request) : Session S × Except String Bytes :=
  let p : Pending := ⟨id, req, 0⟩
  match (s.worker.noteDispatch p false).dispatch p with
  -- a panic of the worker is the end of the process
  | .error w => ({ s with worker := w, linked := false }, .error lost)
  | .ok w =>
    match w.responses.getLast? with
    | none => ({ s with worker := w, linked := false }, .error lost)
    | some (_, resp) =>
      let s' : Session S := { s with worker := w, told := s.told ++ [resp] }
      match writeMsg J resp with
      | .error _ => (s'.hangUp id, .error lost)
      | .ok bytes => (s', .ok bytes)

/-- A request on the wire and what the client reads after it. -/
def exchange (s : Session S) (req : Request) : Session S × Except String Response :=
  match writeMsg J req with
  | .error err => (s, .error err)
  | .ok bytes =>
    if s.linked then
      match readMsg (α := Request) J bytes with
      | some (.ok req', _) =>
        match s.serve J lost id req' with
        | (s', .error err) => (s', .error err)
        | (s', .ok bytes') =>
          match readMsg (α := Response) J bytes' with
          | some (got, _) => (s', got)
          | none => (s', .error lost)
      | _ => (s.hangUp id, .error lost)
    else (s, .error lost)

/-- `rpc`, with the response or the error code that the caller finds. -/
def rpc (s : Session S) (req : Request) : Session S × Except Int32 Response :=
  if s.db.closed then
    let (db, got) := answer s.db (.error lost)
    ({ s with db }, got)
  else
    let (s', heard) := ({ s with asked := s.asked ++ [req] } : Session S).exchange J lost id req
    let (db, got) := answer s'.db heard
    ({ s' with db }, got)

/-- `exec_sql` without a callback, on the bytes of a C string. -/
def execSql (s : Session S) (sql : Bytes) : Session S × Int32 :=
  match s.rpc J lost id (.exec (sqlFrom (some sql) (-1)) []) with
  | (s', .ok _) => (s', sqliteOk)
  | (s', .error code) => (s', if code = 0 then sqliteError else code)

variable (floats : FloatText)

/-- `step_stmt`. A statement that has been executed asks for nothing. -/
def stepStmt (s : Session S) (stmt : ProxyStmt) : Session S × Int32 × ProxyStmt :=
  match stmt.request with
  | none => (s, stmt.advance floats)
  | some req =>
    let (s', got) := s.rpc J lost id req
    (s', stmt.step floats got)

/-- Step until not ROW; `none` when the `n` steps do not suffice. -/
def stepAll : ℕ → Session S → ProxyStmt → Session S × Option Int32
  | 0, s, _ => (s, none)
  | n + 1, s, stmt =>
    match s.stepStmt J lost id floats stmt with
    | (s', rc, stmt') => if rc = sqliteRow then stepAll n s' stmt' else (s', some rc)

/-- The loop over the script, at the offset `pos`: prepare there, step until not ROW,
finalize, which sends nothing, and go on at `*pzTail`. A null statement says that nothing
but blanks, comments and semicolons is left. -/
def stepLoop (sql : Bytes) : ℕ → Session S → ℕ → Session S × Option Int32
  | 0, s, _ => (s, none)
  | n + 1, s, pos =>
    let (s₁, got) := s.rpc J lost id (.prepare (prepareText (some (sql.drop pos)) (-1)))
    let prepared := prepareV2 (some (sql.drop pos)) (-1) got
    if prepared.rc ≠ sqliteOk then (s₁, some prepared.rc)
    else
      match prepared.stmt with
      | none => (s₁, some sqliteOk)
      | some stmt =>
        match stepAll J lost id floats n s₁ stmt with
        | (s₂, none) => (s₂, none)
        | (s₂, some rc) =>
          if rc ≠ sqliteDone then (s₂, some rc)
          else
            let next := pos + prepared.tail.getD (sql.drop pos).length
            if (sql.drop next).isEmpty then (s₂, some sqliteOk) else stepLoop sql n s₂ next

variable {J lost id floats} {s s' : Session S} {req : Request} {f : S.File} {c : S.Conn}

/-- The session is open on this file and connection, and the turnstile lets it through. -/
structure Ready (id : SessionId) (s : Session S) (f : S.File) (c : S.Conn) : Prop where
  linked : s.linked = true
  opened : s.db.closed = false
  file : s.worker.file = f
  conn : s.worker.sessions id = some c
  free : s.worker.heldByOther id = false

/-- Every message so far is within the frame limit and is read as it was meant. -/
def Carried (J : SerdeJson) (s : Session S) : Prop :=
  (∀ req ∈ s.asked, Carries J req) ∧ ∀ resp ∈ s.told, Carries J resp

/-- Every text sent so far fits its event line. -/
def Fitting (s : Session S) : Prop := ∀ req ∈ s.asked, Fits (sqlOf req)

/-- The later session has said what the earlier one has. -/
def Grows (s s' : Session S) : Prop := s.asked ⊆ s'.asked ∧ s.told ⊆ s'.told

theorem Grows.refl (s : Session S) : Grows s s := ⟨fun _ h => h, fun _ h => h⟩

theorem Grows.trans {s₁ s₂ s₃ : Session S} (h : Grows s₁ s₂) (h' : Grows s₂ s₃) : Grows s₁ s₃ :=
  ⟨List.Subset.trans h.1 h'.1, List.Subset.trans h.2 h'.2⟩

theorem Carried.earlier (h : Carried J s') (hgrows : Grows s s') : Carried J s :=
  ⟨fun req hreq => h.1 req (hgrows.1 hreq), fun resp hresp => h.2 resp (hgrows.2 hresp)⟩

theorem Fitting.earlier (h : Fitting s') (hgrows : Grows s s') : Fitting s :=
  fun req hreq => h req (hgrows.1 hreq)

section Growing

theorem serve_grows : Grows s (s.serve J lost id req).1 := by
  unfold serve
  dsimp only
  split
  · exact .refl s
  · split
    · exact .refl s
    · split <;> exact ⟨fun _ h => h, List.subset_append_left ..⟩

theorem exchange_grows : Grows s (s.exchange J lost id req).1 := by
  unfold exchange
  cases writeMsg J req with
  | error err => exact .refl s
  | ok bytes =>
    dsimp only
    split
    · split
      · next req' _ _ =>
        have hserve : Grows s (s.serve J lost id req').1 := serve_grows
        cases hserved : s.serve J lost id req' with
        | mk s' sent =>
          rw [hserved] at hserve
          cases sent with
          | error err => exact hserve
          | ok bytes' =>
            dsimp only
            split <;> exact hserve
      · exact ⟨fun _ h => h, fun _ h => h⟩
    · exact .refl s

/-- A call on an open handle sends its request. -/
theorem rpc_open (hopen : s.db.closed = false) : s.rpc J lost id req =
    let out := ({ s with asked := s.asked ++ [req] } : Session S).exchange J lost id req
    ({ out.1 with db := (answer out.1.db out.2).1 }, (answer out.1.db out.2).2) := by
  unfold rpc
  rw [if_neg (by rw [hopen]; decide)]

theorem rpc_asked (hopen : s.db.closed = false) :
    Grows { s with asked := s.asked ++ [req] } (s.rpc J lost id req).1 := by
  rw [rpc_open hopen]
  exact exchange_grows

theorem rpc_grows : Grows s (s.rpc J lost id req).1 := by
  by_cases hopen : s.db.closed = true
  · unfold rpc
    rw [if_pos hopen]
    exact .refl s
  · have hasked : Grows s { s with asked := s.asked ++ [req] } :=
      ⟨List.subset_append_left .., fun _ h => h⟩
    exact hasked.trans (rpc_asked (Bool.not_eq_true _ ▸ hopen))

theorem stepStmt_grows {stmt : ProxyStmt} : Grows s (s.stepStmt J lost id floats stmt).1 := by
  unfold stepStmt
  cases stmt.request with
  | none => exact .refl s
  | some req => exact rpc_grows

theorem stepAll_grows {n : ℕ} {stmt : ProxyStmt} :
    Grows s (stepAll J lost id floats n s stmt).1 := by
  induction n generalizing s stmt with
  | zero => exact .refl s
  | succ n ih =>
    unfold stepAll
    have hstep : Grows s (s.stepStmt J lost id floats stmt).1 := stepStmt_grows
    generalize s.stepStmt J lost id floats stmt = out at hstep
    obtain ⟨s', rc, stmt'⟩ := out
    dsimp only
    split
    · exact hstep.trans ih
    · exact hstep

/-- A round of the loop has made its prepare; `h` is about the rounds after it. -/
theorem round_grows {sql : Bytes} {n pos : ℕ}
    (h : ∀ (s : Session S) (pos : ℕ), Grows s (stepLoop J lost id floats sql n s pos).1) :
    Grows (s.rpc J lost id (.prepare (prepareText (some (sql.drop pos)) (-1)))).1
      (stepLoop J lost id floats sql (n + 1) s pos).1 := by
  unfold stepLoop
  generalize s.rpc J lost id (.prepare (prepareText (some (sql.drop pos)) (-1))) = asked
  obtain ⟨s₁, got⟩ := asked
  dsimp only
  split
  · exact .refl s₁
  · split
    · exact .refl s₁
    · next stmt _ =>
      have hall : Grows s₁ (stepAll J lost id floats n s₁ stmt).1 := stepAll_grows
      generalize stepAll J lost id floats n s₁ stmt = ran at hall
      obtain ⟨s₂, rc⟩ := ran
      cases rc with
      | none => exact hall
      | some rc =>
        dsimp only
        split
        · exact hall
        · split
          · exact hall
          · exact hall.trans (h s₂ _)

theorem stepLoop_grows {sql : Bytes} {n pos : ℕ} :
    Grows s (stepLoop J lost id floats sql n s pos).1 := by
  induction n generalizing s pos with
  | zero => exact .refl s
  | succ n ih => exact rpc_grows.trans (round_grows fun _ _ => ih)

end Growing

section Exchanged

theorem answer_open {db : ProxyDb} (hopen : db.closed = false) (resp : Response) :
    answer db (.ok resp) = (db.apply resp,
      if resp.ok then .ok resp else .error (db.apply resp).errcode) := by
  unfold answer
  rw [if_neg (by rw [hopen]; decide)]
  rfl

/-- The worker has answered a request of the session and lets it through again. -/
theorem serve_eq (hs : Ready id s f c) (hreq : req.isClose = false) (hfits : Fits (sqlOf req)) :
    ∃ w, w.file = (runOn f c req).file ∧ w.sessions id = some (runOn f c req).conn ∧
      w.heldByOther id = false ∧
      let s' : Session S := { s with worker := w, told := s.told ++ [(runOn f c req).result] }
      s.serve J lost id req = match writeMsg J (runOn f c req).result with
        | .error _ => (s'.hangUp id, .error lost)
        | .ok bytes => (s', .ok bytes) := by
  let p : Pending := ⟨id, req, 0⟩
  obtain ⟨w, hw⟩ := (dispatch_ok_iff (s.worker.noteDispatch p false) p hreq).mpr hfits
  have hserved := dispatch_ok hreq hw
  obtain ⟨hresult, hworker⟩ :=
    answer_eq (w := s.worker.noteDispatch p false) (p := p) hs.conn hreq
  rw [show (s.worker.noteDispatch p false).file = f from hs.file] at hresult hworker
  have hlast : w.responses.getLast? = some (0, (runOn f c req).result) := by
    rw [hserved.responses, List.getLast?_concat, hresult]
  refine ⟨w, ?_, ?_, ?_, ?_⟩
  · rw [hserved.file, hworker]
    rfl
  · rw [hserved.sessions, hworker]
    exact Function.update_self ..
  · exact served_free (w := s.worker.noteDispatch p false) (p := p) hs.free hserved
  · unfold serve
    dsimp only
    rw [hw]
    dsimp only
    rw [hlast]

theorem readMsg_carried {α : Type} [Wire α] {m : α} {bytes : Bytes}
    (hwrite : writeMsg J m = .ok bytes) (hcarries : Carries J m) :
    readMsg (α := α) J bytes = some (.ok m, []) := by
  obtain ⟨_, _, hdecode⟩ := hcarries
  have hread := readMsg_writeMsg hwrite []
  rwa [List.append_nil, hdecode] at hread

/-- A request that carries and fits reaches the worker. What the client reads is the frame
of the response, if there is one. -/
theorem exchange_eq (hs : Ready id s f c) (hreq : req.isClose = false) (hcarries : Carries J req)
    (hfits : Fits (sqlOf req)) :
    ∃ w, w.file = (runOn f c req).file ∧ w.sessions id = some (runOn f c req).conn ∧
      w.heldByOther id = false ∧
      let s' : Session S := { s with worker := w, told := s.told ++ [(runOn f c req).result] }
      s.exchange J lost id req = match writeMsg J (runOn f c req).result with
        | .error _ => (s'.hangUp id, .error lost)
        | .ok _ => (s', decodeBody J (J.toVec (toJson (runOn f c req).result))) := by
  obtain ⟨bytes, hwrite, hdecode⟩ := hcarries
  obtain ⟨w, hfile, hconn, hfree, hserve⟩ := @serve_eq S J lost id s req f c hs hreq hfits
  have hread := readMsg_carried hwrite ⟨bytes, hwrite, hdecode⟩
  refine ⟨w, hfile, hconn, hfree, ?_⟩
  unfold exchange
  rw [hwrite]
  dsimp only
  rw [if_pos hs.linked, hread]
  dsimp only
  rw [hserve]
  cases hsent : writeMsg J (runOn f c req).result with
  | error err => rfl
  | ok bytes' =>
    have hanswer := readMsg_writeMsg hsent []
    rw [List.append_nil] at hanswer
    dsimp only
    rw [hanswer]

variable (lost) in
/-- What such a request adds to the messages, and where it leads if the response carries
too. -/
theorem rpc_eq (hs : Ready id s f c) (hreq : req.isClose = false) (hcarries : Carries J req)
    (hfits : Fits (sqlOf req)) :
    (s.rpc J lost id req).1.asked = s.asked ++ [req] ∧
      (s.rpc J lost id req).1.told = s.told ++ [(runOn f c req).result] ∧
      (Carries J (runOn f c req).result →
        Ready id (s.rpc J lost id req).1 (runOn f c req).file (runOn f c req).conn ∧
          (s.rpc J lost id req).2 =
            if (runOn f c req).result.ok then .ok (runOn f c req).result
            else .error (s.db.apply (runOn f c req).result).errcode) := by
  obtain ⟨w, hfile, hconn, hfree, hexchange⟩ := @exchange_eq S J lost id
    { s with asked := s.asked ++ [req] } req f c
    ⟨hs.linked, hs.opened, hs.file, hs.conn, hs.free⟩ hreq hcarries hfits
  rw [rpc_open hs.opened]
  dsimp only at hexchange ⊢
  rw [hexchange]
  cases hsent : writeMsg J (runOn f c req).result with
  | error err =>
    refine ⟨rfl, rfl, ?_⟩
    rintro ⟨_, hwritten, _⟩
    rw [hsent] at hwritten
    cases hwritten
  | ok bytes =>
    refine ⟨rfl, rfl, ?_⟩
    rintro ⟨_, _, hdecoded⟩
    have hopen := answer_closed s.db (.ok (runOn f c req).result)
    rw [answer_open hs.opened] at hopen
    dsimp only
    rw [hdecoded, answer_open hs.opened]
    exact ⟨⟨hs.linked, hopen.trans hs.opened, hfile, hconn, hfree⟩, rfl⟩

/-- A request whose messages carry: the response arrives, and the session goes on. -/
theorem rpc_ready (hs : Ready id s f c) (hreq : req.isClose = false)
    (hcarried : Carried J (s.rpc J lost id req).1) (hfits : Fitting (s.rpc J lost id req).1) :
    Ready id (s.rpc J lost id req).1 (runOn f c req).file (runOn f c req).conn ∧
      (s.rpc J lost id req).2 =
        if (runOn f c req).result.ok then .ok (runOn f c req).result
        else .error (s.db.apply (runOn f c req).result).errcode := by
  have hasked : req ∈ (s.rpc J lost id req).1.asked :=
    (rpc_asked hs.opened).1 (List.mem_append_right _ (List.mem_singleton_self req))
  obtain ⟨_, htold, hanswered⟩ :=
    rpc_eq lost hs hreq (hcarried.1 req hasked) (hfits req hasked)
  apply hanswered
  apply hcarried.2
  rw [htold]
  exact List.mem_append_right _ (List.mem_singleton_self _)

end Exchanged

section Texts

variable {text own rest : List Char} {resp : Response}

/-- The shim reads the rest of the script as it is. -/
theorem prepareText_rest (hnul : '\x00' ∉ text) :
    prepareText (some (encode text)) (-1) = String.ofList text := by
  have hwhole : text.takeWhile (· ≠ '\x00') = text := by
    rw [List.takeWhile_eq_self_iff]
    intro ch hch
    exact decide_eq_true fun h => hnul (h ▸ hch)
  unfold prepareText sqlFrom
  dsimp only
  rw [if_pos (by decide), ResultRows.arriving_text, hwhole]

/-- It makes a statement of the text in front of the tail. -/
theorem prepareV2_stmt (hnul : '\x00' ∉ text) (htext : text = own ++ rest) (hown : own ≠ [])
    (hempty : resp.empty = false) (htail : resp.tail.toNat = byteLen own) :
    prepareV2 (some (encode text)) (-1) (.ok resp) =
      ⟨sqliteOk, some (.create (String.ofList own) resp), some (byteLen own)⟩ := by
  have hinside : min (byteLen own) (byteLen (String.ofList text).toList) = byteLen own := by
    rw [String.toList_ofList, htext, byteLen_append]
    omega
  have hsome : ¬ byteLen own = 0 := (byteLen_pos hown).ne'
  unfold prepareV2
  dsimp only
  rw [prepareText_rest hnul, htail, hinside, if_neg (by rw [hempty]; decide), if_neg hsome,
    String.toList_ofList, htext, sliceTo_append]

end Texts

section Stepping

variable {stmt : ProxyStmt} {resp prepared : Response} {sql : String} {n : ℕ}

/-- The code of a failed request is that of a failure. -/
theorem failed_code (hcodes : FailureCodes S) (hreq : req.isClose = false) {db : ProxyDb}
    (hok : (runOn f c req).result.ok = false) :
    ErrorCode (db.apply (runOn f c req).result).errcode := by
  have hanswer : SharedHandle.Answer S (runOn f c req).result := by
    cases req with
    | exec sql params => exact .executed f c sql params
    | prepare sql => exact .prepared f c sql
    | close => cases hreq
  have hcode := SharedHandle.answer_code hcodes hanswer hok
  unfold ProxyDb.apply
  dsimp only
  rw [if_neg (by rw [hok]; decide), if_neg hcode.1]
  exact hcode

theorem stepStmt_started (h : stmt.started = true) (answer : Except Int32 Response) :
    s.stepStmt J lost id floats stmt = (s, stmt.step floats answer) := by
  unfold stepStmt ProxyStmt.request ProxyStmt.step
  rw [if_pos h, if_pos h]

/-- Once executed, a statement goes through its rows and sends nothing. -/
theorem stepAll_ran {steps : ℕ} (h : Agrees floats stmt (.ran resp steps))
    (hn : resp.rows.length ≤ n + steps) :
    stepAll J lost id floats (n + 1) s stmt = (s, some sqliteDone) := by
  induction n generalizing stmt steps with
  | zero =>
    obtain ⟨_, hcode⟩ := step_agrees h (.error 0)
    have hlast : (Cycle.ran resp (steps + 1)).code = sqliteDone := if_neg (by omega)
    unfold stepAll
    rw [stepStmt_started h.1 (.error 0)]
    dsimp only
    rw [hcode, show (Cycle.ran resp steps).step (.error 0) = .ran resp (steps + 1) from rfl, hlast,
      if_neg (by decide)]
  | succ n ih =>
    obtain ⟨hnext, hcode⟩ := step_agrees h (.error 0)
    unfold stepAll
    rw [stepStmt_started h.1 (.error 0)]
    dsimp only
    rw [hcode]
    by_cases hrow : steps + 1 ≤ resp.rows.length
    · rw [show ((Cycle.ran resp steps).step (.error 0)).code = sqliteRow from if_pos hrow,
        if_pos rfl]
      exact ih hnext (by omega)
    · rw [show ((Cycle.ran resp steps).step (.error 0)).code = sqliteDone from if_neg hrow,
        if_neg (by decide)]

/-- All steps of a new statement: its Exec decides. -/
theorem stepAll_fresh {s' : Session S} {got : Except Int32 Response}
    (hrpc : s.rpc J lost id (.exec sql []) = (s', got)) :
    match got with
    | .ok resp => resp.rows.length ≤ n →
      stepAll J lost id floats (n + 1) s (.create sql prepared) = (s', some sqliteDone)
    | .error code => ErrorCode code →
      stepAll J lost id floats (n + 1) s (.create sql prepared) = (s', some code) := by
  obtain ⟨hnext, hcode⟩ := step_agrees (@create_agrees floats sql prepared) got
  have hstep : s.stepStmt J lost id floats (.create sql prepared) =
      (s', (ProxyStmt.create sql prepared).step floats got) := by
    unfold stepStmt
    rw [show (ProxyStmt.create sql prepared).request = some (.exec sql []) from rfl]
    dsimp only
    rw [hrpc]
  unfold stepAll
  rw [hstep]
  dsimp only
  rw [hcode]
  cases got with
  | ok resp =>
    intro hn
    by_cases hrow : 1 ≤ resp.rows.length
    · obtain ⟨m, rfl⟩ := Nat.exists_eq_add_of_le (hrow.trans hn)
      rw [show (Cycle.fresh.step (.ok resp)).code = sqliteRow from if_pos hrow, if_pos rfl,
        Nat.add_comm 1 m]
      exact stepAll_ran hnext (by omega)
    · rw [show (Cycle.fresh.step (.ok resp)).code = sqliteDone from if_neg hrow,
        if_neg (by decide)]
  | error code =>
    intro herr
    have hsame : (Cycle.fresh.step (.error code)).code = code := if_neg herr.1
    rw [hsame, if_neg herr.2.1]

end Stepping

section Loop

variable {V : Type} {view : S.File → S.Conn → V} {sql : Bytes} {n pos : ℕ}
  {text own rest : List Char} {s₁ : Session S} {resp : Response}

theorem stepLoop_failed {code : Int32} (hrpc : s.rpc J lost id
      (.prepare (prepareText (some (sql.drop pos)) (-1))) = (s₁, .error code))
    (hcode : code ≠ sqliteOk) :
    stepLoop J lost id floats sql (n + 1) s pos = (s₁, some code) := by
  rw [stepLoop, hrpc]
  exact if_pos hcode

theorem stepLoop_blank (hrpc : s.rpc J lost id
      (.prepare (prepareText (some (sql.drop pos)) (-1))) = (s₁, .ok resp))
    (hempty : resp.empty = true) :
    stepLoop J lost id floats sql (n + 1) s pos = (s₁, some sqliteOk) := by
  have hmade : prepareV2 (some (sql.drop pos)) (-1) (.ok resp) = ⟨sqliteOk, none, _⟩ :=
    if_pos hempty
  rw [stepLoop, hrpc]
  dsimp only
  rw [hmade]
  rfl

/-- What the loop does behind the prepare of a statement. -/
theorem stepLoop_stmt (hrpc : s.rpc J lost id
      (.prepare (prepareText (some (sql.drop pos)) (-1))) = (s₁, .ok resp))
    (hsql : sql.drop pos = encode text) (hnul : '\x00' ∉ text) (htext : text = own ++ rest)
    (hown : own ≠ []) (hempty : resp.empty = false) (htail : resp.tail.toNat = byteLen own) :
    stepLoop J lost id floats sql (n + 1) s pos =
      match stepAll J lost id floats n s₁ (.create (String.ofList own) resp) with
      | (s₂, none) => (s₂, none)
      | (s₂, some rc) =>
        if rc ≠ sqliteDone then (s₂, some rc)
        else if rest = [] then (s₂, some sqliteOk)
        else stepLoop J lost id floats sql n s₂ (pos + byteLen own) := by
  have hdrop : sql.drop (pos + byteLen own) = encode rest := by
    rw [← List.drop_drop, hsql, htext, encode_append, ← length_encode, List.drop_left]
  have hmade := prepareV2_stmt hnul htext hown hempty htail
  rw [← hsql] at hmade
  rw [stepLoop]
  dsimp only
  rw [hrpc]
  dsimp only
  rw [hmade]
  dsimp only
  rw [if_neg (not_not_intro rfl), Option.getD_some, hdrop]
  have hend : (encode rest).isEmpty = true ↔ rest = [] := by
    rw [List.isEmpty_iff]
    exact ⟨fun h => encode_injective (b := []) h, fun h => by rw [h]; rfl⟩
  simp only [hend]

/-- The first step of a statement sends its text. -/
theorem stepAll_sent {made : String} {prepared : Response} :
    Grows (s.rpc J lost id (.exec made [])).1
      (stepAll J lost id floats (n + 1) s (.create made prepared)).1 := by
  unfold stepAll
  have hstep : (s.stepStmt J lost id floats (.create made prepared)).1 =
      (s.rpc J lost id (.exec made [])).1 := rfl
  rw [← hstep]
  generalize s.stepStmt J lost id floats (.create made prepared) = out
  obtain ⟨s', rc, stmt'⟩ := out
  dsimp only
  split
  · exact stepAll_grows
  · exact .refl s'

theorem afterPrepare_grows {got : Response} (hrpc : s.rpc J lost id
      (.prepare (prepareText (some (sql.drop pos)) (-1))) = (s₁, .ok got))
    (hsql : sql.drop pos = encode text) (hnul : '\x00' ∉ text) (htext : text = own ++ rest)
    (hown : own ≠ []) (hempty : got.empty = false) (htail : got.tail.toNat = byteLen own) :
    Grows (s₁.rpc J lost id (.exec (String.ofList own) [])).1
      (stepLoop J lost id floats sql (n + 2) s pos).1 := by
  rw [stepLoop_stmt hrpc hsql hnul htext hown hempty htail]
  have hsent : Grows (s₁.rpc J lost id (.exec (String.ofList own) [])).1
    (stepAll J lost id floats (n + 1) s₁ (.create (String.ofList own) got)).1 := stepAll_sent
  generalize stepAll J lost id floats (n + 1) s₁ (.create (String.ofList own) got) = ran at hsent
  obtain ⟨s₂, rc⟩ := ran
  cases rc with
  | none => exact hsent
  | some rc =>
    dsimp only
    split
    · exact hsent
    · split
      · exact hsent
      · exact hsent.trans stepLoop_grows

/-- The steps of one statement, which the broker runs as it would inside the script. -/
theorem stepAll_ends (hS : Deterministic S view) (hcodes : FailureCodes S) (hs : Ready id s f c)
    {f' : S.File} {c' : S.Conn} (hview : view f c = view f' c') (hnul : '\x00' ∉ own)
    (hown : own ≠ []) {st : S.Stmt} (hrc : (S.prepareV2 f' c' (encode own)).rc = sqliteOk)
    (hstmt : (S.prepareV2 f' c' (encode own)).stmt = some st)
    (htail : (S.prepareV2 f' c' (encode own)).tail = some (byteLen own))
    (hcarried : Carried J (s.rpc J lost id (.exec (String.ofList own) [])).1)
    (hfitting : Fitting (s.rpc J lost id (.exec (String.ofList own) [])).1) :
    let ran := runStmt (S.prepareV2 f' c' (encode text)) st
    ∃ s₂ f₂ c₂ rc M, Ready id s₂ f₂ c₂ ∧ view f₂ c₂ = view ran.file ran.conn ∧
      (∀ n, M ≤ n → stepAll J lost id floats n s (.create (String.ofList own) resp) =
        (s₂, some rc)) ∧
      if ran.result then rc = sqliteDone else ErrorCode rc := by
  have hscript : cString (String.ofList own) = .ok (encode own) := by
    rw [cString_of_no_nul (by rwa [String.toList_ofList]), String.toList_ofList]
  intro ran
  obtain ⟨hok, hran⟩ := @execute_stmt S V view f f' c c' text own st hS hview _ hscript hown hrc
    hstmt htail
  obtain ⟨hready, hgot⟩ := rpc_ready hs rfl hcarried hfitting
  have hfailed := @failed_code S (.exec (String.ofList own) []) f c hcodes rfl s.db
  generalize hout : runOn f c (.exec (String.ofList own) []) = out at *
  rw [show execute S f c (String.ofList own) [] = out from hout] at hok hran
  generalize hrpc : s.rpc J lost id (.exec (String.ofList own) []) = asked at *
  obtain ⟨s₂, got⟩ := asked
  dsimp only at hready hgot
  cases hresult : ran.result with
  | true =>
    rw [hok.trans hresult, if_pos rfl] at hgot
    subst hgot
    refine ⟨s₂, _, _, sqliteDone, out.result.rows.length + 1, hready, hran, fun n hn => ?_, rfl⟩
    obtain ⟨m, rfl⟩ := Nat.exists_eq_add_of_le hn
    rw [Nat.add_right_comm]
    exact stepAll_fresh hrpc (Nat.le_add_right _ m)
  | false =>
    rw [hok.trans hresult, if_neg Bool.false_ne_true] at hgot
    subst hgot
    have hcode := hfailed (hok.trans hresult)
    refine ⟨s₂, _, _, _, 1, hready, hran, fun n hn => ?_, hcode⟩
    obtain ⟨m, rfl⟩ := Nat.exists_eq_add_of_le hn
    rw [Nat.add_comm 1 m]
    exact stepAll_fresh hrpc hcode

/-- From an offset on the loop ends as this run of the broker's own loop has ended. -/
def LoopEnds (J : SerdeJson) (lost : String) (id : SessionId) (floats : FloatText)
    (view : S.File → S.Conn → V) (sql : Bytes) (s : Session S) (pos : ℕ)
    (ended : Outcome S (Except SqlError Collected)) : Prop :=
  ∃ N, ∀ n, N ≤ n → ∃ rc f₂ c₂, (stepLoop J lost id floats sql n s pos).2 = some rc ∧
    Ready id (stepLoop J lost id floats sql n s pos).1 f₂ c₂ ∧
    Ends view ended (decide (rc = sqliteOk)) (view f₂ c₂)

theorem loopEnds_of_round {ended : Outcome S (Except SqlError Collected)} {M : ℕ}
    {s₂ : Session S} {rc : Int32} {f₂ : S.File} {c₂ : S.Conn}
    (hround : ∀ n, M ≤ n → stepLoop J lost id floats sql (n + 1) s pos = (s₂, some rc))
    (hready : Ready id s₂ f₂ c₂)
    (hends : Ends view ended (decide (rc = sqliteOk)) (view f₂ c₂)) :
    LoopEnds J lost id floats view sql s pos ended := by
  refine ⟨M + 1, fun n hn => ?_⟩
  obtain ⟨k, rfl⟩ := Nat.exists_eq_add_of_le hn
  rw [Nat.add_right_comm, hround _ (Nat.le_add_right M k)]
  exact ⟨rc, f₂, c₂, rfl, hready, hends⟩

/-- One round of both loops has run the statement `own`, and both go on behind it. -/
structure SameRound (J : SerdeJson) (lost : String) (id : SessionId) (floats : FloatText)
    (view : S.File → S.Conn → V) (sql : Bytes) (s : Session S) (pos : ℕ) (own : List Char)
    (ended : Outcome S (Except SqlError Collected)) (s₂ : Session S) (f₂ : S.File) (c₂ : S.Conn) :
    Prop where
  ready : Ready id s₂ f₂ c₂
  shim : ∃ M, ∀ n, M ≤ n → stepLoop J lost id floats sql (n + 1) s pos =
    stepLoop J lost id floats sql n s₂ (pos + byteLen own)
  broker : ∃ f₁ c₁ columns rows, view f₁ c₁ = view f₂ c₂ ∧
    ended = executeLoop S sql [] (pos + byteLen own) columns rows f₁ c₁

/-- A round is the last of both loops, or both go on. -/
theorem loop_round (hS : Deterministic S view) (hcodes : FailureCodes S)
    {columns : List String} {rows : List (List Cell)} {f' : S.File} {c' : S.Conn} {N : ℕ}
    (hnul : '\x00' ∉ text) (hlen : byteLen text < 2 ^ 64) (hsql : sql.drop pos = encode text)
    (hview : view f c = view f' c') (hs : Ready id s f' c')
    (hN : ∀ n, N ≤ n → Carried J (stepLoop J lost id floats sql n s pos).1 ∧
      Fitting (stepLoop J lost id floats sql n s pos).1) :
    LoopEnds J lost id floats view sql s pos (executeLoop S sql [] pos columns rows f c) ∨
      ∃ own rest s₂ f₂ c₂, text = own ++ rest ∧ own ≠ [] ∧
        SameRound J lost id floats view sql s pos own
          (executeLoop S sql [] pos columns rows f c) s₂ f₂ c₂ := by
  have hscript : cString (String.ofList text) = .ok (encode text) := by
    rw [cString_of_no_nul (by rwa [String.toList_ofList]), String.toList_ofList]
  have hsent : prepareText (some (sql.drop pos)) (-1) = String.ofList text := by
    rw [hsql, prepareText_rest hnul]
  have hasked := @round_grows S J lost id floats s sql N pos (fun _ _ => stepLoop_grows)
  obtain ⟨hcarried, hfitting⟩ := hN (N + 1) (Nat.le_succ N)
  rw [hsent] at hasked
  obtain ⟨hready, hgot⟩ :=
    rpc_ready hs rfl (hcarried.earlier hasked) (hfitting.earlier hasked)
  obtain ⟨hprep, hok, hmade⟩ := @prepareMeta_cases S V view f' c' _ hS _ hscript
  have hfailed := @failed_code S (.prepare (String.ofList text)) f' c' hcodes rfl s.db
  generalize hout : runOn f' c' (.prepare (String.ofList text)) = out at *
  rw [show prepareMeta S f' c' (String.ofList text) = out from hout] at hprep hok hmade
  generalize hrpc : s.rpc J lost id (.prepare (String.ofList text)) = asked at *
  obtain ⟨s₁, got⟩ := asked
  dsimp only at hready hgot
  rw [← hsent] at hrpc
  by_cases hrc : (S.prepareV2 f' c' (encode text)).rc = sqliteOk
  · rw [decide_eq_true hrc] at hok
    rw [hok, if_pos rfl] at hgot
    rw [hgot] at hrpc
    obtain ⟨hempty, htail⟩ := hmade hrc
    cases hstmt : (S.prepareV2 f' c' (encode text)).stmt with
    | none =>
      rw [hstmt] at hempty
      refine .inl (loopEnds_of_round (M := 0) (fun n _ => stepLoop_blank hrpc hempty) hready ?_)
      rw [hprep]
      exact executeLoop_blank hS hsql hview hrc hstmt
    | some st =>
      rw [hstmt] at hempty
      obtain ⟨own, rest, hown, htext, hend, hrc', hstmt', hend'⟩ :=
        hS.consumes f' c' text st hrc hstmt
      have hshort : byteLen own < 2 ^ 64 := by
        rw [htext, byteLen_append] at hlen
        omega
      have htail' : out.result.tail.toNat = byteLen own := by
        rw [htail, hend]
        exact UInt64.toNat_ofNat_of_lt' hshort
      have hnul' : '\x00' ∉ own := fun h => hnul (htext ▸ List.mem_append_left _ h)
      have hround := fun n => @stepLoop_stmt S J lost id floats s sql n pos text own rest s₁ _
        hrpc hsql hnul htext hown hempty htail'
      have hexec := @afterPrepare_grows S J lost id floats s sql N pos text own rest s₁ _ hrpc
        hsql hnul htext hown hempty htail'
      obtain ⟨hcarried₂, hfitting₂⟩ := hN (N + 2) (Nat.le_add_right N 2)
      have hran := @stepAll_ends S J lost id floats s₁ out.file out.conn V view text own
        out.result hS hcodes hready f' c' hprep hnul' hown st hrc' hstmt' hend'
        (hcarried₂.earlier hexec) (hfitting₂.earlier hexec)
      have hwhole := @executeLoop_stmt S V view f f' c c' sql pos columns rows text own rest st hS
        hsql hview hrc hstmt hend hown htext
      generalize runStmt (S.prepareV2 f' c' (encode text)) st = ran at hran hwhole
      obtain ⟨s₂, f₂, c₂, rc, M, hready₂, hview₂, hall, hrc₂⟩ := hran
      cases hresult : ran.result with
      | false =>
        rw [hresult, if_neg Bool.false_ne_true] at hrc₂
        rw [if_neg (fun h => Bool.false_ne_true (hresult.symm.trans h.1)), hresult] at hwhole
        have hlast : ∀ n, M ≤ n →
            stepLoop J lost id floats sql (n + 1) s pos = (s₂, some rc) := by
          intro n hn
          rw [hround, hall n hn]
          exact if_pos hrc₂.2.2
        refine .inl (loopEnds_of_round hlast hready₂ ?_)
        rw [hview₂, decide_eq_false (show ¬ rc = sqliteOk from hrc₂.1)]
        exact hwhole
      | true =>
        rw [hresult, if_pos rfl] at hrc₂
        have hnext : ∀ n, M ≤ n → stepLoop J lost id floats sql (n + 1) s pos =
            if rest = [] then (s₂, some sqliteOk)
            else stepLoop J lost id floats sql n s₂ (pos + byteLen own) := by
          intro n hn
          rw [hround, hall n hn]
          dsimp only
          rw [if_neg (not_not_intro hrc₂)]
        by_cases hrest : rest = []
        · rw [if_neg (fun h => h.2 hrest), hresult] at hwhole
          have hlast : ∀ n, M ≤ n →
              stepLoop J lost id floats sql (n + 1) s pos = (s₂, some sqliteOk) := by
            intro n hn
            rw [hnext n hn, if_pos hrest]
          refine .inl (loopEnds_of_round hlast hready₂ ?_)
          rw [hview₂]
          exact hwhole
        · rw [if_pos ⟨hresult, hrest⟩] at hwhole
          obtain ⟨f₁, c₁, columns₁, rows₁, hview₁, hloop⟩ := hwhole
          refine .inr ⟨own, rest, s₂, f₂, c₂, htext, hown, hready₂, ⟨M, fun n hn => ?_⟩,
            f₁, c₁, columns₁, rows₁, hview₁.trans hview₂.symm, hloop⟩
          rw [hnext n hn, if_neg hrest]
  · rw [decide_eq_false hrc] at hok
    have hcode := hfailed hok
    rw [hok, if_neg Bool.false_ne_true] at hgot
    rw [hgot] at hrpc
    refine .inl (loopEnds_of_round (M := 0) (fun n _ => stepLoop_failed hrpc hcode.1) hready ?_)
    rw [hprep, decide_eq_false (show ¬ (s.db.apply out.result).errcode = sqliteOk from hcode.1)]
    exact executeLoop_invalid hS hsql hview hrc

/-- The loop from an offset on does what the broker's own loop does from there. -/
theorem stepLoop_ends (hS : Deterministic S view) (hcodes : FailureCodes S)
    {columns : List String} {rows : List (List Cell)} {f' : S.File} {c' : S.Conn}
    (hnul : '\x00' ∉ text) (hlen : byteLen text < 2 ^ 64) (hsql : sql.drop pos = encode text)
    (hview : view f c = view f' c') (hs : Ready id s f' c')
    (hgood : ∃ N, ∀ n, N ≤ n → Carried J (stepLoop J lost id floats sql n s pos).1 ∧
      Fitting (stepLoop J lost id floats sql n s pos).1) :
    LoopEnds J lost id floats view sql s pos (executeLoop S sql [] pos columns rows f c) := by
  induction hsize : text.length using Nat.strongRecOn
    generalizing text pos columns rows f c s f' c' with
  | ind size ih =>
    obtain ⟨N, hN⟩ := hgood
    rcases loop_round hS hcodes hnul hlen hsql hview hs hN with hends |
      ⟨own, rest, s₂, f₂, c₂, htext, hown, hready, ⟨M, hshim⟩, hbroker⟩
    · exact hends
    · obtain ⟨f₁, c₁, columns₁, rows₁, hview₁, hloop⟩ := hbroker
      have hdrop : sql.drop (pos + byteLen own) = encode rest := by
        rw [← List.drop_drop, hsql, htext, encode_append, ← length_encode, List.drop_left]
      have hsmaller : rest.length < size := by
        have hpos := List.length_pos_iff.mpr hown
        rw [← hsize, htext, List.length_append]
        omega
      have hlast : byteLen rest < 2 ^ 64 := by
        rw [htext, byteLen_append] at hlen
        omega
      have hnul' : '\x00' ∉ rest := fun h => hnul (htext ▸ List.mem_append_right _ h)
      have hgood : ∃ N, ∀ n, N ≤ n →
          Carried J (stepLoop J lost id floats sql n s₂ (pos + byteLen own)).1 ∧
          Fitting (stepLoop J lost id floats sql n s₂ (pos + byteLen own)).1 := by
        refine ⟨max M N, fun n hn => ?_⟩
        rw [← hshim n (by omega)]
        exact hN (n + 1) (by omega)
      obtain ⟨N', hN'⟩ := ih rest.length hsmaller hnul' hlast hdrop hview₁ hready hgood rfl
      refine ⟨max M N' + 1, fun n hn => ?_⟩
      obtain ⟨k, rfl⟩ := Nat.exists_eq_add_of_le hn
      rw [Nat.add_right_comm, hshim _ (by omega), hloop]
      exact hN' _ (by omega)

end Loop

/-- Two runs of a script have stepped the same statements in the same order, they leave the
same database state, and both succeed or both fail. -/
def Alike {V : Type} (view : S.File → S.Conn → V) (id : SessionId)
    (a b : Session (logged S) × Int32) : Prop :=
  ∃ c c', a.1.worker.sessions id = some c ∧ b.1.worker.sessions id = some c' ∧ c.2 = c'.2 ∧
    view a.1.worker.file c.1 = view b.1.worker.file c'.1 ∧ (a.2 = sqliteOk ↔ b.2 = sqliteOk)

theorem failureCodes_logged (h : FailureCodes S) : FailureCodes (logged S) where
  prepare f c sql := h.prepare f c.1 sql
  step f c st := h.step f c.1 st

theorem execSql_rpc (s : Session S) (sql : Bytes) :
    let out := s.rpc J lost id (.exec (sqlFrom (some sql) (-1)) [])
    (s.execSql J lost id sql).1 = out.1 ∧
      ((s.execSql J lost id sql).2 = sqliteOk ↔ ∃ resp, out.2 = .ok resp) := by
  intro out
  have hout : s.rpc J lost id (.exec (sqlFrom (some sql) (-1)) []) = out := rfl
  unfold execSql
  rw [hout]
  obtain ⟨s', got⟩ := out
  cases got with
  | ok resp => exact ⟨rfl, fun _ => ⟨resp, rfl⟩, fun _ => rfl⟩
  | error code =>
    refine ⟨rfl, fun h => ?_, nofun⟩
    dsimp only at h
    split at h
    · cases h
    · next hne => exact absurd h hne

/-- A script sent whole and the same script sent statement by statement do the same, if
every text that the two runs send fits its event line. The engine records the statements
it steps; the messages carry. -/
theorem script_runs_agree {V : Type} (view : S.File → S.Conn → V) (hS : Deterministic S view)
    (hcodes : FailureCodes S) (script : String) (hnul : '\x00' ∉ script.toList)
    (hlen : byteLen script.toList < 2 ^ 64) (s : Session (logged S)) (f : S.File)
    (c : S.Conn × List S.Stmt) (hs : Ready id s f c)
    (hwhole : Carried J (s.execSql J lost id (encode script.toList)).1)
    (hparts : ∀ n, Carried J (stepLoop J lost id floats (encode script.toList) n s 0).1)
    (hfits : Fitting (s.execSql J lost id (encode script.toList)).1)
    (hfits' : ∀ n, Fitting (stepLoop J lost id floats (encode script.toList) n s 0).1) :
    ∃ N, ∀ n, N ≤ n → ∃ rc,
      (stepLoop J lost id floats (encode script.toList) n s 0).2 = some rc ∧
      Alike view id (s.execSql J lost id (encode script.toList))
        ((stepLoop J lost id floats (encode script.toList) n s 0).1, rc) := by
  have hS' := hS.withLog
  have hcodes' := failureCodes_logged hcodes
  have hsql : cString script = .ok (encode script.toList) := cString_of_no_nul hnul
  obtain ⟨hfirst, hcode⟩ := @execSql_rpc (logged S) J lost id s (encode script.toList)
  have hsent : sqlFrom (some (encode script.toList)) (-1) = script :=
    (prepareText_rest hnul).trans String.ofList_toList
  rw [hsent] at hfirst hcode
  rw [hfirst] at hwhole hfits
  obtain ⟨hready, hgot⟩ := rpc_ready hs rfl hwhole hfits
  obtain ⟨N, hN⟩ := @stepLoop_ends (logged S) J lost id floats s f c _ _ (encode script.toList) 0
    script.toList hS' hcodes' [] [] f c hnul hlen List.drop_zero rfl hs
    ⟨0, fun n _ => ⟨hparts n, hfits' n⟩⟩
  refine ⟨N, fun n hn => ?_⟩
  obtain ⟨rc, f₂, c₂, hrc, hready₂, hends⟩ := hN n hn
  obtain ⟨hok, hview⟩ := execute_ends hsql hends
  refine ⟨rc, hrc, _, c₂, hfirst ▸ hready.conn, hready₂.conn, ?_, ?_, ?_⟩
  · exact (Prod.ext_iff.mp hview).2
  · rw [hfirst, hready.file, hready₂.file]
    exact (Prod.ext_iff.mp hview).1
  · rw [hcode, hgot]
    have hokay : (runOn (S := logged S) f c (.exec script [])).result.ok =
        decide (rc = sqliteOk) := hok
    constructor
    · rintro ⟨resp, hresp⟩
      by_contra hfailed
      rw [hokay, if_neg (by simpa using hfailed)] at hresp
      cases hresp
    · intro hgood
      rw [hokay, if_pos (decide_eq_true hgood)]
      exact ⟨_, rfl⟩

section Panicked

/-- A text that does not fit stops the worker after its call on the connection, and the
client is told of a failure. -/
theorem rpc_stopped (hs : Ready id s f c) (hreq : req.isClose = false) (hcarries : Carries J req)
    (hbrief : sqlBrief (sqlOf req) = none) :
    (s.rpc J lost id req).1.asked = s.asked ++ [req] ∧ (s.rpc J lost id req).1.told = s.told ∧
      (s.rpc J lost id req).1.worker.sessions id = some (runOn f c req).conn ∧
      (s.rpc J lost id req).2 = .error sqliteError := by
  let p : Pending := ⟨id, req, 0⟩
  obtain ⟨bytes, hwrite, hdecode⟩ := hcarries
  have hread := readMsg_carried hwrite ⟨bytes, hwrite, hdecode⟩
  obtain ⟨w, hw⟩ : ∃ w, (s.worker.noteDispatch p false).dispatch p = .error w := by
    cases hdispatch : (s.worker.noteDispatch p false).dispatch p with
    | error w => exact ⟨w, rfl⟩
    | ok w =>
      have hfits := (dispatch_ok_iff _ p hreq).mp ⟨w, hdispatch⟩
      rw [← sqlBrief_isSome_iff, hbrief] at hfits
      cases hfits
  have hworker := (answer_eq (w := s.worker.noteDispatch p false) (p := p) hs.conn hreq).2
  rw [show (s.worker.noteDispatch p false).file = f from hs.file] at hworker
  have hconn : w.sessions id = some (runOn f c req).conn := by
    rw [(dispatch_error hw).sessions, hworker]
    exact Function.update_self ..
  have hexchange : ({ s with asked := s.asked ++ [req] } : Session S).exchange J lost id req =
      ({ s with asked := s.asked ++ [req], worker := w, linked := false }, .error lost) := by
    unfold exchange
    rw [hwrite]
    dsimp only
    rw [if_pos hs.linked, hread]
    unfold serve
    dsimp only
    rw [hw]
  rw [rpc_open hs.opened]
  dsimp only
  rw [hexchange]
  unfold answer
  dsimp only
  rw [if_neg (by rw [hs.opened]; decide)]
  exact ⟨rfl, rfl, hconn, rfl⟩

end Panicked

section Differ

open Exchanges (talk)
open MessageTexts (ascii execText okText responseText length_ascii sized_of_length exec_sized
  prepare_sized response_sized)
open ClientCalls (Spoken spoken_sizes)

/-- The session of the examples, on an empty file. -/
def fresh : Session (logged ScriptSqlite.engine) where
  worker := (Worker.new []).openSession 1 0
  linked := true
  db := .connected
  asked := []
  told := []

theorem fresh_ready : Ready 1 fresh [] ((), []) := ⟨rfl, rfl, rfl, rfl, rfl⟩

/-- A statement and a comment: 121 bytes, and a character of two bytes at byte 119. -/
def longScript : String :=
  String.ofList ("INSERT;".toList ++ (List.replicate 112 '-' ++ ['é']))

/-- Its statement and its comment. -/
def longStmt : List Char := "INSERT;".toList

def longComment : List Char := List.replicate 112 '-' ++ ['é']

theorem longScript_chars : longScript.toList = longStmt ++ longComment := String.toList_ofList

theorem longScript_panics : sqlBrief longScript = none := by
  unfold sqlBrief oneLine longScript
  rw [String.toList_ofList]
  decide +kernel

def longRequests : List (Request × Bytes) :=
  [(.exec longScript [], execText (ascii longScript)),
   (.prepare longScript, MessageTexts.prepareText (ascii longScript))]

theorem long_spoken : Spoken longRequests [] where
  requests := ⟨by decide, by decide⟩
  responses := ⟨by decide, by decide⟩
  texts := by decide
  sizes := by
    have hscript : (ascii longScript).length ≤ 1024 := by
      have hstmt : byteLen longStmt = 7 := rfl
      have hcomment : byteLen longComment = 112 * 1 + 2 := by
        rw [longComment, byteLen_append, byteLen, List.map_replicate, List.sum_replicate_nat]
        rfl
      rw [ascii, length_encode, longScript_chars, byteLen_append, hstmt, hcomment]
      decide
    refine spoken_sizes ?_ (List.forall_mem_nil _)
    exact List.forall_mem_cons.mpr
      ⟨exec_sized hscript, List.forall_mem_singleton.mpr (prepare_sized hscript)⟩

/-- The broker's own loop runs a statement that a comment follows. -/
theorem commented_steps {script : String} {own comment : List Char}
    (hscript : cString script = .ok (encode (own ++ comment))) (hown : own ≠ [])
    (hmore : comment ≠ [])
    (hstmt : ScriptSqlite.isBlank (own ++ comment) = false)
    (hfirst : ScriptSqlite.firstStmt (own ++ comment) = own)
    (hcomment : ScriptSqlite.isBlank comment = true) :
    (execute (logged ScriptSqlite.engine) [] ((), []) script []).conn.2 = [own] := by
  let view : List (List Char) → Unit → List (List Char) := fun f _ => f
  have hS := (ScriptSqlite.deterministic : Deterministic ScriptSqlite.engine view).withLog
  have hfull : (logged ScriptSqlite.engine).prepareV2 [] ((), []) (encode (own ++ comment)) =
      ⟨sqliteOk, some own, some (byteLen own), [], ((), [])⟩ := by
    have hprep := ScriptSqlite.prepareV2_encode [] () (own ++ comment)
    rw [if_neg (by rw [hstmt]; decide), hfirst] at hprep
    exact logged_prepareV2 hprep
  have hrest : (logged ScriptSqlite.engine).prepareV2 [own] ((), [own]) (encode comment) =
      ⟨sqliteOk, none, some (encode comment).length, [own], ((), [own])⟩ := by
    have hprep := ScriptSqlite.prepareV2_encode [own] () comment
    rw [if_pos hcomment] at hprep
    exact logged_prepareV2 hprep
  have hran : runStmt (S := logged ScriptSqlite.engine)
      ⟨sqliteOk, some own, some (byteLen own), [], ((), [])⟩ own = ⟨true, [own], ((), [own])⟩ := by
    unfold runStmt
    rw [stepRows]
    rfl
  have hround := @executeLoop_stmt (logged ScriptSqlite.engine) _ _ [] [] ((), []) ((), [])
    (encode (own ++ comment)) 0 [] [] _ own comment own hS List.drop_zero rfl
    (by rw [hfull]) (by rw [hfull]) (by rw [hfull]) hown rfl
  rw [hfull, hran] at hround
  dsimp only at hround
  rw [if_pos ⟨rfl, hmore⟩] at hround
  obtain ⟨f₁, c₁, columns, rows, hview, hloop⟩ := hround
  have hend := @executeLoop_blank (logged ScriptSqlite.engine) _ _ f₁ [own] c₁ ((), [own])
    (encode (own ++ comment)) (0 + byteLen own) columns rows comment hS
    (by rw [Nat.zero_add, encode_append, ← length_encode, List.drop_left]) hview
    (by rw [hrest]) (by rw [hrest])
  rw [← hloop] at hend
  exact (Prod.ext_iff.mp (execute_ends hscript hend).2).2

/-- A script that the claim's condition excludes: sent whole, its statement is stepped and
the worker stops behind it; statement by statement, the worker stops before it. -/
theorem long_script_differs :
    let J := talk longRequests []
    let script := encode longScript.toList
    let whole := fresh.execSql J "" 1 script
    let parts := fun n => stepLoop J "" 1 StepCycle.noFloats script n fresh 0
    Deterministic ScriptSqlite.engine (fun f _ => f) ∧ FailureCodes ScriptSqlite.engine ∧
      '\x00' ∉ longScript.toList ∧ byteLen longScript.toList < 2 ^ 64 ∧
      Ready 1 fresh [] ((), []) ∧ Carried J whole.1 ∧ (∀ n, Carried J (parts n).1) ∧
      ¬ ∃ N, ∀ n, N ≤ n → ∃ rc, (parts n).2 = some rc ∧
        Alike (fun f _ => f) 1 whole ((parts n).1, rc) := by
  intro J script whole parts
  have hnul : '\x00' ∉ longScript.toList := by
    rw [longScript_chars]
    decide
  have hsent : sqlFrom (some script) (-1) = longScript :=
    (prepareText_rest hnul).trans String.ofList_toList
  have hsteps := @commented_steps longScript longStmt longComment
    (by rw [← longScript_chars]; exact cString_of_no_nul hnul) (by decide) (by decide) (by decide)
    (by decide) (by decide)
  obtain ⟨hasked, htold, hconn, _⟩ := @rpc_stopped _ J "" 1 fresh (.exec longScript []) [] _
    fresh_ready rfl (long_spoken.request (List.mem_cons_self ..)) longScript_panics
  obtain ⟨hasked', htold', hconn', hgot'⟩ := @rpc_stopped _ J "" 1 fresh (.prepare longScript) [] _
    fresh_ready rfl (long_spoken.request (List.mem_cons_of_mem _ (List.mem_cons_self ..)))
    longScript_panics
  have hwhole := (@execSql_rpc (logged ScriptSqlite.engine) J "" 1 fresh script).1
  rw [hsent] at hwhole
  have hparts : ∀ n, stepLoop J "" 1 StepCycle.noFloats script (n + 1) fresh 0 =
      ((fresh.rpc J "" 1 (.prepare longScript)).1, some sqliteError) := by
    intro n
    refine stepLoop_failed ?_ (by decide)
    rw [List.drop_zero, show prepareText (some script) (-1) = longScript from hsent]
    exact Prod.ext rfl hgot'
  have hlen : byteLen longScript.toList < 2 ^ 64 := by
    rw [longScript_chars]
    decide +kernel
  refine ⟨ScriptSqlite.deterministic, ScriptSqlite.failureCodes, hnul, hlen, fresh_ready, ?_,
    fun n => ?_, ?_⟩
  · rw [show whole.1 = _ from hwhole]
    constructor
    · rw [hasked]
      intro req hreq
      rw [List.mem_singleton.mp hreq]
      exact long_spoken.request (List.mem_cons_self ..)
    · rw [htold]
      nofun
  · cases n with
    | zero => exact ⟨nofun, nofun⟩
    | succ n =>
      rw [show parts (n + 1) = _ from hparts n]
      constructor
      · rw [hasked']
        intro req hreq
        rw [List.mem_singleton.mp hreq]
        exact long_spoken.request (List.mem_cons_of_mem _ (List.mem_cons_self ..))
      · rw [htold']
        nofun
  · rintro ⟨N, hN⟩
    obtain ⟨rc, _, c, c', hc, hc', hlog, _⟩ := hN (N + 1) (Nat.le_succ N)
    rw [show whole.1 = _ from hwhole, hconn] at hc
    rw [show parts (N + 1) = _ from hparts N, hconn'] at hc'
    have hc₁ := Option.some.inj hc
    have hc₂ := Option.some.inj hc'
    rw [← hc₁, ← hc₂] at hlog
    rw [show (runOn (S := logged ScriptSqlite.engine) [] ((), []) (.exec longScript [])).conn.2 = _
      from hsteps] at hlog
    rw [show runOn (S := logged ScriptSqlite.engine) [] ((), []) (.prepare longScript) = _
      from @prepareMeta_logged ScriptSqlite.engine [] ((), []) longScript] at hlog
    cases hlog

/-- A session that has said one request and one response more, both of them in order. -/
theorem said_one {resp : Response} (h : Carried J s ∧ Fitting s)
    (hasked : s'.asked = s.asked ++ [req]) (htold : s'.told = s.told ++ [resp])
    (hreq : Carries J req) (hresp : Carries J resp) (hfits : Fits (sqlOf req)) :
    Carried J s' ∧ Fitting s' := by
  refine ⟨⟨fun r hr => ?_, fun r hr => ?_⟩, fun r hr => ?_⟩
  · rw [hasked] at hr
    rcases List.mem_append.mp hr with hold | hnew
    · exact h.1.1 r hold
    · exact List.mem_singleton.mp hnew ▸ hreq
  · rw [htold] at hr
    rcases List.mem_append.mp hr with hold | hnew
    · exact h.1.2 r hold
    · exact List.mem_singleton.mp hnew ▸ hresp
  · rw [hasked] at hr
    rcases List.mem_append.mp hr with hold | hnew
    · exact h.2 r hold
    · exact List.mem_singleton.mp hnew ▸ hfits

/-- One round of the loop on the engine for scripts, message by message. -/
theorem script_round {s : Session (logged ScriptSqlite.engine)} {f log : List (List Char)}
    {sql : Bytes} {pos : ℕ} {text rest : List Char} (hs : Ready id s f ((), log))
    (hgood : Carried J s ∧ Fitting s) (hsql : sql.drop pos = encode text) (hnul : '\x00' ∉ text)
    (hblank : ScriptSqlite.isBlank text = false)
    (htext : text = ScriptSqlite.firstStmt text ++ rest) (hlen : byteLen text < 2 ^ 64)
    (hfits : Fits (String.ofList text))
    (hfits' : Fits (String.ofList (ScriptSqlite.firstStmt text)))
    (hprepare : Carries J (Request.prepare (String.ofList text)))
    (hexec : Carries J (Request.exec (String.ofList (ScriptSqlite.firstStmt text)) []))
    (hprepared : Carries J (ScriptSqlite.compiled (ScriptSqlite.firstStmt text)))
    (hdone : Carries J okClosed) :
    ∃ s₁ s₂ log', Ready id s₂ (f ++ [ScriptSqlite.firstStmt text]) ((), log') ∧
      (Carried J s₁ ∧ Fitting s₁) ∧ (Carried J s₂ ∧ Fitting s₂) ∧
      stepLoop J lost id floats sql 1 s pos = (s₁, none) ∧
      ∀ n, stepLoop J lost id floats sql (n + 2) s pos =
        if rest = [] then (s₂, some sqliteOk)
        else stepLoop J lost id floats sql (n + 1) s₂
          (pos + byteLen (ScriptSqlite.firstStmt text)) := by
  have hscript : ∀ part : List Char, '\x00' ∉ part →
      cString (String.ofList part) = .ok (encode part) := by
    intro part hpart
    rw [cString_of_no_nul (by rwa [String.toList_ofList]), String.toList_ofList]
  have hsent : prepareText (some (sql.drop pos)) (-1) = String.ofList text := by
    rw [hsql, prepareText_rest hnul]
  have hmade : runOn (S := logged ScriptSqlite.engine) f ((), log) (.prepare (String.ofList text)) =
      ⟨ScriptSqlite.compiled (ScriptSqlite.firstStmt text), f, ((), log)⟩ := by
    have hmeta := @prepareMeta_logged ScriptSqlite.engine f ((), log) (String.ofList text)
    rw [ScriptSqlite.prepareMeta_one (hscript text hnul) hblank] at hmeta
    exact hmeta
  have hnul' : '\x00' ∉ ScriptSqlite.firstStmt text := by
    rw [htext] at hnul
    exact fun h => hnul (List.mem_append_left _ h)
  have hblank' := ScriptSqlite.isBlank_firstStmt hblank
  have hfirst := ScriptSqlite.firstStmt_firstStmt text
  have hshort : byteLen (ScriptSqlite.firstStmt text) < 2 ^ 64 := by
    rw [htext, byteLen_append] at hlen
    omega
  generalize ScriptSqlite.firstStmt text = own at *
  have hown : own ≠ [] := by
    rintro rfl
    cases hblank'
  obtain ⟨log', hran⟩ : ∃ log', runOn (S := logged ScriptSqlite.engine) f ((), log)
      (.exec (String.ofList own) []) = ⟨okClosed, f ++ [own], ((), log')⟩ := by
    have hloop := @ScriptSqlite.executeLoop_first f () own (encode own) 0 [] List.drop_zero hblank'
      (by rw [hfirst, List.append_nil])
    rw [if_pos rfl, hfirst] at hloop
    obtain ⟨log', hlog'⟩ :=
      @execute_logged ScriptSqlite.engine f ((), log) (String.ofList own) []
    rw [ScriptSqlite.execute_script (hscript own hnul') hloop] at hlog'
    exact ⟨log', hlog'⟩
  obtain ⟨hasked₁, htold₁, hanswer₁⟩ := @rpc_eq _ J lost id s (.prepare (String.ofList text)) f
    ((), log) hs rfl hprepare hfits
  rw [hmade] at htold₁ hanswer₁
  obtain ⟨hready₁, hgot₁⟩ := hanswer₁ hprepared
  generalize hrpc₁ : s.rpc J lost id (.prepare (String.ofList text)) = out₁ at *
  obtain ⟨s₁, got₁⟩ := out₁
  obtain ⟨hasked₂, htold₂, hanswer₂⟩ := @rpc_eq _ J lost id s₁ (.exec (String.ofList own) []) f
    ((), log) hready₁ rfl hexec hfits'
  rw [hran] at htold₂ hanswer₂
  obtain ⟨hready₂, hgot₂⟩ := hanswer₂ hdone
  generalize hrpc₂ : s₁.rpc J lost id (.exec (String.ofList own) []) = out₂ at *
  obtain ⟨s₂, got₂⟩ := out₂
  have hgood₁ := said_one hgood hasked₁ htold₁ hprepare hprepared hfits
  rw [← hsent] at hrpc₁
  rw [show got₁ = .ok (ScriptSqlite.compiled own) from hgot₁] at hrpc₁
  rw [show got₂ = .ok okClosed from hgot₂] at hrpc₂
  have hround := fun n => @stepLoop_stmt _ J lost id floats s sql n pos text own rest s₁ _ hrpc₁
    hsql hnul htext hown rfl (UInt64.toNat_ofNat_of_lt' hshort)
  refine ⟨s₁, s₂, log', hready₂, hgood₁, said_one hgood₁ hasked₂ htold₂ hexec hdone hfits',
    hround 0, fun n => ?_⟩
  rw [hround (n + 1), stepAll_fresh hrpc₂ (Nat.zero_le n)]
  dsimp only
  rw [if_neg (not_not_intro rfl)]

def pairScript : String := "a;b"

def pairRequests : List (Request × Bytes) :=
  [(.exec "a;b" [], execText (ascii "a;b")),
    (.prepare "a;b", MessageTexts.prepareText (ascii "a;b")),
   (.exec "a;" [], execText (ascii "a;")), (.prepare "b", MessageTexts.prepareText (ascii "b")),
   (.exec "b" [], execText (ascii "b"))]

/-- The text of a response to a prepare, with its tail. -/
def compiledText (tail : Bytes) : Bytes :=
  ascii "\x7b" ++ okText ++ ascii ",\"columns\":[],\"rows\":[],\"changes\":0" ++
    ascii ",\"last_insert_rowid\":0,\"autocommit\":true,\"tail\":" ++ tail ++
    ascii ",\"param_count\":0,\"param_names\":[],\"decltypes\":[],\"total_changes\":0" ++
    ascii ",\"empty\":false\x7d"

theorem compiled_sized {tail : Bytes} (h : tail.length ≤ 1024) :
    compiledText tail ≠ [] ∧ (compiledText tail).length ≤ frameLimit := by
  have hlen : (compiledText tail).length = 1 + 31 + 35 + 48 + tail.length + 66 + 15 := by
    simp only [compiledText, okText, List.length_append, length_ascii]
    rfl
  exact sized_of_length hlen (by omega) (by omega)

def pairResponses : List (Response × Bytes) :=
  [(okClosed, responseText okText (ascii "[]") (ascii "[]") (ascii "0") (ascii "true") (ascii "0")),
   (ScriptSqlite.compiled ['a', ';'], compiledText (ascii "2")),
   (ScriptSqlite.compiled ['b'], compiledText (ascii "1"))]

theorem pair_spoken : Spoken pairRequests pairResponses where
  requests := ⟨by decide, by decide⟩
  responses := ⟨by decide, by decide⟩
  texts := by decide +kernel
  sizes := by
    refine spoken_sizes ?_ ?_
    · simp only [pairRequests, List.forall_mem_cons]
      exact ⟨exec_sized (by decide), prepare_sized (by decide), exec_sized (by decide),
        prepare_sized (by decide), exec_sized (by decide), List.forall_mem_nil _⟩
    · simp only [pairResponses, List.forall_mem_cons]
      exact ⟨response_sized (by decide), compiled_sized (by decide), compiled_sized (by decide),
        List.forall_mem_nil _⟩

theorem pair_fits : ∀ text ∈ ["a;b", "a;", "b"], Fits text := by
  have hshort : ∀ text ∈ ["a;b", "a;", "b"], byteLen (oneLine text) ≤ 120 := by decide
  exact fun text htext => .inl (hshort text htext)

/-- Both statements of `a;b`, one script and one loop. -/
theorem two_statements_agree :
    ∃ N, ∀ n, N ≤ n → ∃ rc,
      (stepLoop (talk pairRequests pairResponses) "" 1 StepCycle.noFloats
        (encode pairScript.toList) n fresh 0).2 = some rc ∧
      Alike (fun f _ => f) 1
        (fresh.execSql (talk pairRequests pairResponses) "" 1 (encode pairScript.toList))
        ((stepLoop (talk pairRequests pairResponses) "" 1 StepCycle.noFloats
          (encode pairScript.toList) n fresh 0).1, rc) := by
  have hreq : ∀ req ∈ pairRequests.map Prod.fst, Carries (talk pairRequests pairResponses) req := by
    intro req hmem
    obtain ⟨⟨_, text⟩, hin, rfl⟩ := List.mem_map.mp hmem
    exact pair_spoken.request hin
  have hresp : ∀ resp ∈ pairResponses.map Prod.fst,
      Carries (talk pairRequests pairResponses) resp := by
    intro resp hmem
    obtain ⟨⟨_, text⟩, hin, rfl⟩ := List.mem_map.mp hmem
    exact pair_spoken.response hin
  have hgood : Carried (talk pairRequests pairResponses) fresh ∧ Fitting fresh :=
    ⟨⟨nofun, nofun⟩, nofun⟩
  obtain ⟨s₁, s₂, log₂, hready₂, hgood₁, hgood₂, hone, hmore⟩ :=
    @script_round (talk pairRequests pairResponses) "" 1 StepCycle.noFloats fresh [] []
      (encode pairScript.toList) 0 pairScript.toList ['b'] fresh_ready hgood List.drop_zero
      (by decide) (by decide) (by decide) (by decide) (pair_fits _ (by decide))
      (pair_fits _ (by decide)) (hreq _ (by decide)) (hreq _ (by decide)) (hresp _ (by decide))
      (hresp _ (by decide))
  obtain ⟨s₃, s₄, log₄, hready₄, hgood₃, hgood₄, hone', hmore'⟩ :=
    @script_round (talk pairRequests pairResponses) "" 1 StepCycle.noFloats s₂ _ log₂
      (encode pairScript.toList) 2 ['b'] [] hready₂ hgood₂ (by decide)
      (by decide) (by decide) (by decide) (by decide) (pair_fits _ (by decide))
      (pair_fits _ (by decide)) (hreq _ (by decide)) (hreq _ (by decide)) (hresp _ (by decide))
      (hresp _ (by decide))
  have hall : ∀ n, Carried (talk pairRequests pairResponses) (stepLoop
        (talk pairRequests pairResponses) "" 1 StepCycle.noFloats (encode pairScript.toList) n
        fresh 0).1 ∧
      Fitting (stepLoop (talk pairRequests pairResponses) "" 1 StepCycle.noFloats
        (encode pairScript.toList) n fresh 0).1 := by
    intro n
    rcases n with _ | _ | _ | n
    · exact hgood
    · exact hone ▸ hgood₁
    · rw [hmore 0, if_neg (by decide)]
      exact hone' ▸ hgood₃
    · rw [hmore (n + 1), if_neg (by decide)]
      exact hmore' n ▸ hgood₄
  have hran : (runOn (S := logged ScriptSqlite.engine) [] ((), []) (.exec "a;b" [])).result =
      okClosed := by
    have hsecond := @ScriptSqlite.executeLoop_first [['a', ';']] () ['b'] (encode pairScript.toList)
      2 [] (by decide) (by decide) (by decide)
    have hfirst := @ScriptSqlite.executeLoop_first [] () pairScript.toList
      (encode pairScript.toList) 0 ['b'] List.drop_zero (by decide) (by decide)
    rw [if_neg (by decide)] at hfirst
    have hscript : cString "a;b" = .ok (encode pairScript.toList) := cString_of_no_nul (by decide)
    obtain ⟨log, hlog⟩ := @execute_logged ScriptSqlite.engine [] ((), []) "a;b" []
    dsimp only at hlog
    rw [ScriptSqlite.execute_script hscript (hfirst.trans hsecond)] at hlog
    change (execute (logged ScriptSqlite.engine) [] ((), []) "a;b" []).result = okClosed
    rw [hlog]
  obtain ⟨hasked, htold, _⟩ := @rpc_eq _ (talk pairRequests pairResponses) "" 1 fresh
    (.exec "a;b" []) [] ((), []) fresh_ready rfl (hreq _ (by decide)) (pair_fits _ (by decide))
  rw [hran] at htold
  have hwhole := said_one hgood hasked htold (hreq _ (by decide)) (hresp _ (by decide))
    (pair_fits _ (by decide))
  have hsame := (@execSql_rpc _ (talk pairRequests pairResponses) "" 1 fresh
    (encode pairScript.toList)).1
  rw [show sqlFrom (some (encode pairScript.toList)) (-1) = "a;b" by decide] at hsame
  rw [← hsame] at hwhole
  exact script_runs_agree (fun f _ => f) ScriptSqlite.deterministic ScriptSqlite.failureCodes
    pairScript (by decide) (by decide) fresh [] ((), []) fresh_ready hwhole.1
    (fun n => (hall n).1) hwhole.2 (fun n => (hall n).2)

end Differ

end Session

end SqliteBroker.Scripts
