import SqliteBroker.ClientCalls

/-!
The row id and the change count that a handle caches, against those of its connection at
the broker. Every response carries the live values but one: the response to a Prepare
that does not compile carries zeros.
-/
namespace SqliteBroker.CounterMirror

open Utf8 Messages Serde Wire RealValues Blank Engine Execution Frames MessageTexts Runs
  BrokerWorker WorkerLog Threads Discipline CurrentReplies ShimConnection Network Lockstep Exchanges
  ClientCalls

variable {S : Sqlite} {J : SerdeJson}

/-- Compiling a text runs nothing, so it leaves the counters alone. -/
def CompilesQuietly (S : Sqlite) : Prop :=
  ∀ f c sql, S.lastInsertRowid (S.prepareV2 f c sql).conn = S.lastInsertRowid c ∧
    S.totalChanges (S.prepareV2 f c sql).conn = S.totalChanges c

def Compiles (f : S.File) (c : S.Conn) (sql : String) : Prop :=
  ∃ cSql, cString sql = .ok cSql ∧ (S.prepareV2 f c cSql).rc = sqliteOk

def CountersZero (c : S.Conn) : Prop := S.lastInsertRowid c = 0 ∧ S.totalChanges c = 0

/-- A response with the counters of the connection. -/
def Counts (resp : Response) (c : S.Conn) : Prop :=
  resp.lastInsertRowid = S.lastInsertRowid c ∧ resp.totalChanges = S.totalChanges c

theorem counts_of_blank {resp resp' : Response} {c : S.Conn} (h : blank resp = blank resp') :
    Counts resp c ↔ Counts resp' c := by
  rw [Counts, (counters_of_blank h).1, (counters_of_blank h).2]
  exact Iff.rfl

theorem counts_errorResponse {autocommit : Bool} {code : Int32} {message : String} {c : S.Conn} :
    Counts (errorResponse autocommit code message) c ↔ CountersZero c := by
  unfold Counts CountersZero errorResponse
  exact and_congr eq_comm eq_comm

/-- The response to a Prepare has the live counters if the text compiles, and zeros
otherwise. -/
theorem prepareMeta_counts (hquiet : CompilesQuietly S) (f : S.File) (c : S.Conn)
    (sql : String) : Counts (prepareMeta S f c sql).result (prepareMeta S f c sql).conn ↔
      Compiles f c sql ∨ CountersZero c := by
  unfold prepareMeta
  cases hsql : cString sql with
  | error err =>
    have hfails : ¬ Compiles f c sql := by
      rintro ⟨cSql, hok, _⟩
      rw [hsql] at hok
      cases hok
    simp only [hfails, false_or]
    exact counts_errorResponse
  | ok cSql =>
    by_cases hrc : (S.prepareV2 f c cSql).rc ≠ sqliteOk
    · have hfails : ¬ Compiles f c sql := by
        rintro ⟨cSql', hok, hgood⟩
        obtain rfl := Except.ok.inj (hsql.symm.trans hok)
        exact hrc hgood
      simp only [if_pos hrc, hfails, false_or]
      rw [counts_errorResponse, CountersZero, (hquiet f c cSql).1, (hquiet f c cSql).2]
      exact Iff.rfl
    · have hgood : Compiles f c sql := ⟨cSql, hsql, not_not.mp hrc⟩
      simp only [if_neg hrc, hgood, true_or, iff_true]
      cases (S.prepareV2 f c cSql).stmt with
      | none => exact ⟨rfl, rfl⟩
      | some st => exact ⟨rfl, rfl⟩

/-- An Exec, a Prepare that compiles, or any request of a connection that has not changed
anything. -/
def KeepsCounters (d : Dispatch S) : Prop :=
  ∀ conn sql, d.sessions d.request.id = some conn → d.request.req = .prepare sql →
    Compiles d.file conn sql ∨ CountersZero conn

theorem answerOf_counts (hquiet : CompilesQuietly S) {d : Dispatch S} {resp : Response}
    {conn : S.Conn} (hreq : d.request.req.isClose = false)
    (h : answerOf d = (resp, some conn)) : Counts resp conn ↔ KeepsCounters d := by
  unfold answerOf at h
  cases hsession : d.sessions d.request.id with
  | none =>
    rw [hsession] at h
    cases h
  | some before =>
    rw [hsession] at h
    cases hd : d.request.req with
    | exec sql params =>
      rw [hd] at h
      cases h
      have hlive := execute_live d.file before sql params
      have hkeeps : KeepsCounters d := by
        intro conn' sql' _ hprepare
        rw [hd] at hprepare
        cases hprepare
      exact iff_of_true ⟨hlive.2.1, hlive.2.2⟩ hkeeps
    | prepare sql =>
      rw [hd] at h
      cases h
      rw [prepareMeta_counts hquiet]
      constructor
      · intro hcompiles conn' sql' hconn hprepare
        rw [hsession] at hconn
        rw [hd] at hprepare
        cases hconn
        cases hprepare
        exact hcompiles
      · intro hkeeps
        exact hkeeps before sql hsession hd
    | close =>
      rw [hd] at hreq
      cases hreq

/-- The cached counters of a handle are those of its connection. -/
def CountersMirror (n : Net S) (id : SessionId) : Prop :=
  ∀ conn, n.broker.worker.sessions id = some conn →
    (n.shims id).db.lastRowid = S.lastInsertRowid conn ∧
      (n.shims id).db.totalChanges = S.totalChanges conn

theorem countersMirror_iff {n : Net S} {id : SessionId} {db : ProxyDb} {resp : Response}
    {conn : S.Conn} (hdb : (n.shims id).db = db.apply resp)
    (hconn : n.broker.worker.sessions id = some conn) :
    CountersMirror n id ↔ Counts resp conn := by
  have hcopied := ProxyDb.apply_counters db resp
  have hone : CountersMirror n id ↔ (n.shims id).db.lastRowid = S.lastInsertRowid conn ∧
      (n.shims id).db.totalChanges = S.totalChanges conn := by
    constructor
    · intro h
      exact h conn hconn
    · intro h conn' hconn'
      obtain rfl := Option.some.inj (hconn.symm.trans hconn')
      exact h
  rw [hone, hdb, hcopied.1, hcopied.2]
  exact Iff.rfl

/-- When a handle decodes a response, its cached counters are those of its connection,
which are still those at the time of the reply, exactly if the request that was answered
keeps them. What the broker has read and answered is what the handle has sent and decoded,
but for the doubles. -/
theorem counters_mirror_iff {f : S.File} {p : Net S → NetAction → Prop} {acts : List NetAction}
    {n n' : Net S} {id : SessionId} {resp : Response} (hJ : J.Faithful)
    (hquiet : CompilesQuietly S) (h : NetRun J f p acts n) (halive : n.broker.alive = true)
    (hstep : n.step J (.recv id) = some n') (hheard : (n'.shims id).heard = some resp) :
    ∃ call, (n.shims id).pc = .awaiting call ∧
      ∃ d ∈ n'.broker.worker.dispatches, d.request.id = id ∧
        blank d.request.req = blank call.request ∧
        (∃ written, blank resp = blank written ∧
          answerOf d = (written, n'.broker.worker.sessions id)) ∧
        (CountersMirror n' id ↔ KeepsCounters d) := by
  obtain ⟨own, hown⟩ := broker_run h
  have hs := run_disciplined hown halive
  have hphase := (run_inStep hJ h halive id).phase
  obtain ⟨sh, rfl, hshim⟩ := shim_step hstep (show clientOf (.recv id) = some id from rfl)
  rw [setShim_own] at hheard
  cases hshim with
  | @recv call got read hpc hgot =>
    rw [hpc] at hphase
    cases got with
    | error err => cases hheard
    | ok got =>
      obtain rfl : got = resp := Option.some.inj hheard
      obtain ⟨_, hcurrent⟩ := phase_respond hJ hphase.2 hgot
      obtain ⟨hreading, asked, ch, written, hcurrent, hasked, hblank⟩ := hcurrent got rfl
      obtain ⟨d, hd, hrequest, hanswer⟩ := hcurrent.answered
      have hexpected := hs.expected id
      rw [hreading] at hexpected
      obtain ⟨conn, hconn⟩ := Option.isSome_iff_exists.mp hexpected.2
      have hreq : d.request.req.isClose = false := by
        rw [hrequest, isClose_of_blank hasked]
        exact request_isClose call
      have hdb : ((n.setShim id ((n.shims id).respond call (.ok got) read)).shims id).db =
          (n.shims id).db.apply got := by
        rw [setShim_own]
        rfl
      refine ⟨call, hpc, d, hd, by rw [hrequest], by rw [hrequest]; exact hasked,
        ⟨written, hblank, hanswer⟩, ?_⟩
      rw [countersMirror_iff hdb hconn, counts_of_blank hblank]
      exact answerOf_counts hquiet hreq (by rw [hanswer, hconn])
  | closed => cases hheard

section Compile

open SmallSqlite (insertedFile insertedConn insertedResponse)

theorem smallSqlite_quiet : CompilesQuietly SmallSqlite.engine := by
  intro f c sql
  change (SmallSqlite.prepareV2 f c sql).conn.lastRowid = c.lastRowid ∧
    (SmallSqlite.prepareV2 f c sql).conn.changed = c.changed
  unfold SmallSqlite.prepareV2
  cases SmallSqlite.parse sql <;> exact ⟨rfl, rfl⟩

def rowRequests : List (Request × Bytes) :=
  [(.exec SmallSqlite.insertSql [], execText (ascii SmallSqlite.insertSql)),
    (.prepare "SELEC", prepareText (ascii "SELEC"))]

def rowResponses : List (Response × Bytes) :=
  [(insertedResponse, insertedText),
   (errorResponse true 1 "SQL logic error",
    responseText (ascii "\"ok\":false,\"message\":\"SQL logic error\",\"code\":1") (ascii "[]")
      (ascii "[]") (ascii "0") (ascii "true") (ascii "0"))]

theorem row_spoken : Spoken rowRequests rowResponses where
  requests := ⟨by decide, by decide⟩
  responses := ⟨by decide, by decide⟩
  texts := by decide
  sizes := by
    refine spoken_sizes ?_ ?_
    · exact List.forall_mem_cons.mpr
        ⟨exec_sized (by decide), List.forall_mem_singleton.mpr (prepare_sized (by decide))⟩
    · exact List.forall_mem_cons.mpr
        ⟨response_sized (by decide), List.forall_mem_singleton.mpr (response_sized (by decide))⟩

theorem run_inserted : ∃ n n' : Net SmallSqlite.engine,
    Trace (fun n a n' => Net.step (talk rowRequests rowResponses) n a = some n')
      (Net.init SmallSqlite.newFile) (joining ++ calling 1 (.exec SmallSqlite.insertSql false)) n ∧
    n.step (talk rowRequests rowResponses) (.recv 1) = some n' ∧ n'.broker = n.broker ∧
    Connected n' 1 insertedFile insertedConn ∧ (n'.shims 1).heard = some insertedResponse := by
  have hopen : openStorage SmallSqlite.engine SmallSqlite.newFile =
      (.ok SmallSqlite.newConn, SmallSqlite.newFile) := rfl
  have hinsert : runOn (S := SmallSqlite.engine) SmallSqlite.newFile SmallSqlite.newConn
      (ApiCall.exec SmallSqlite.insertSql false).request =
        ⟨insertedResponse, insertedFile, insertedConn⟩ :=
    SmallSqlite.execute_insert
  obtain ⟨n₀, hjoined, hconn₀, _⟩ := run_joined hopen row_spoken.hello
  obtain ⟨n, n', hcall, hrecv, hbroker, hconn, _, _, _, hheard⟩ :=
    run_call hconn₀ (Or.inl (by decide)) hinsert
      (row_spoken.request (List.mem_cons_self ..)) (row_spoken.response (List.mem_cons_self ..))
  exact ⟨n, n', hjoined.append hcall, hrecv, hbroker, hconn, hheard⟩

/-- The counters after the `INSERT`. -/
theorem insert_counts : ∃ n n' : Net SmallSqlite.engine,
    NetRun (talk rowRequests rowResponses) SmallSqlite.newFile (fun _ _ => True)
      (joining ++ calling 1 (.exec SmallSqlite.insertSql false)) n ∧
    n.step (talk rowRequests rowResponses) (.recv 1) = some n' ∧
    (n'.shims 1).heard = some insertedResponse ∧
    ∃ d ∈ n'.broker.worker.dispatches, d.request.id = 1 ∧
      (CountersMirror n' 1 ↔ KeepsCounters d) := by
  obtain ⟨n, n', htrace, hrecv, hbroker, hconn, hheard⟩ := run_inserted
  have hrun := htrace.restrict (p := fun _ _ => True) (fun _ _ _ => trivial)
  have halive : n.broker.alive = true := by
    rw [← hbroker]
    exact hconn.idle.alive
  obtain ⟨call, _, d, hd, hid, _, _, hiff⟩ :=
    counters_mirror_iff row_spoken.faithful smallSqlite_quiet hrun halive hrecv hheard
  exact ⟨n, n', hrun, hrecv, hheard, d, hd, hid, hiff⟩

/-- A Prepare that does not compile changes nothing and resets both cached counters. -/
theorem failed_prepare_resets : ∃ n n' : Net SmallSqlite.engine,
    (talk rowRequests rowResponses).Faithful ∧
    NetRun (talk rowRequests rowResponses) SmallSqlite.newFile (fun _ _ => True)
      (joining ++ calling 1 (.exec SmallSqlite.insertSql false) ++ [.recv 1] ++
        calling 1 (.prepare "SELEC")) n ∧
    n.broker.alive = true ∧ n.step (talk rowRequests rowResponses) (.recv 1) = some n' ∧
    (n'.shims 1).heard = some (errorResponse true 1 "SQL logic error") ∧
    ¬ CountersMirror n' 1 := by
  obtain ⟨n₁, n₁', htrace, hrecv₁, _, hconn₁, _⟩ := run_inserted
  have hmeta : prepareMeta SmallSqlite.engine insertedFile insertedConn "SELEC" =
      ⟨errorResponse true 1 "SQL logic error", insertedFile, ⟨true, 1, 1, 1⟩⟩ :=
    SmallSqlite.prepareMeta_invalid
      (show cString "SELEC" = .ok (SmallSqlite.bytesOf "SELEC") from rfl) (by decide)
  have hprepare : runOn (S := SmallSqlite.engine) insertedFile insertedConn
      (ApiCall.prepare "SELEC").request =
        ⟨errorResponse true 1 "SQL logic error", insertedFile, ⟨true, 1, 1, 1⟩⟩ := hmeta
  obtain ⟨n, n', hcall, hrecv, hbroker, hconn, _, hdb, _, hheard⟩ :=
    run_call hconn₁ (Or.inl (by decide)) hprepare
      (row_spoken.request (List.mem_cons_of_mem _ (List.mem_cons_self ..)))
      (row_spoken.response (List.mem_cons_of_mem _ (List.mem_cons_self ..)))
  have hrun := ((htrace.snoc hrecv₁).append hcall).restrict (p := fun _ _ => True)
    (fun _ _ _ => trivial)
  have halive : n.broker.alive = true := by
    rw [← hbroker]
    exact hconn.idle.alive
  refine ⟨n, n', row_spoken.faithful, hrun, halive, hrecv, hheard, ?_⟩
  rw [countersMirror_iff hdb hconn.idle.session]
  exact fun hcounts => absurd hcounts.1 (by decide)

end Compile

end SqliteBroker.CounterMirror
