import SqliteBroker.Linearization
import SqliteBroker.Exchanges

/-!
The broker serves its sessions one after the other. What it is for is a database that serves one
operation at a time, keeps a session from its opening until it goes, and lets nobody run a
statement while another session is inside a transaction.
Every history of calls that client threads hand to the worker, and of replies they receive, is one
of that database: each operation takes effect at one moment between its call and its return. An
operation in service when the worker panics has taken effect and never returns.
-/
namespace SqliteBroker.SerialBroker

open Messages Engine Execution BrokerWorker Isolation Linearization

variable {S : Sqlite}

inductive Op
  | openConn (id : SessionId)
  | request (id : SessionId) (req : Request)
  | leave (id : SessionId)

inductive Out
  | opened (result : Except String Unit)
  | response (resp : Response)
  | left

abbrev History := List (Event Chan Op Out)

structure Database (S : Sqlite) where
  file : S.File
  sessions : SessionId → Option S.Conn

namespace Database

def new (f : S.File) : Database S := ⟨f, fun _ => none⟩

def put (d : Database S) (id : SessionId) (f : S.File) (conn : Option S.Conn) : Database S :=
  ⟨f, Function.update d.sessions id conn⟩

def connect (d : Database S) (id : SessionId) : Except String Unit × Database S :=
  match openStorage S d.file with
  | (.ok conn, f) => (.ok (), d.put id f (some conn))
  | (.error err, f) => (.error err, ⟨f, d.sessions⟩)

def disconnect (d : Database S) (id : SessionId) : Database S :=
  match d.sessions id with
  | some conn => d.put id (S.closeConnection d.file conn) none
  | none => d.put id d.file none

/-- The call of a connection, if there is one. -/
def onConn (d : Database S) (id : SessionId) (call : S.File → S.Conn → Outcome S Response) :
    Response × Database S :=
  match d.sessions id with
  | some conn => ((call d.file conn).result,
      d.put id (call d.file conn).file (some (call d.file conn).conn))
  | none => (errorResponse true 1 "no session", d)

def request (d : Database S) (id : SessionId) : Request → Response × Database S
  | .exec sql params => d.onConn id (fun f conn => execute S f conn sql params)
  | .prepare sql => d.onConn id (fun f conn => prepareMeta S f conn sql)
  | .close => (okClosed, d.disconnect id)

def serve (d : Database S) : Op → Out × Database S
  | .openConn id => (.opened (d.connect id).1, (d.connect id).2)
  | .request id req => (.response (d.request id req).1, (d.request id req).2)
  | .leave id => (.left, d.disconnect id)

/-- A session is opened once and is there until it goes, and nobody but the caller is inside a
transaction when a statement runs. -/
def Admits (d : Database S) : Op → Prop
  | .openConn id => d.sessions id = none
  | .request id req => (d.sessions id).isSome = true ∧
      (req.isClose = false → ∀ i, InTransaction d.sessions i → i = id)
  | .leave id => (d.sessions id).isSome = true

def Step (d : Database S) (op : Op) (out : Out) (d' : Database S) : Prop :=
  d.Admits op ∧ d.serve op = (out, d')

end Database

end SqliteBroker.SerialBroker

namespace SqliteBroker.BrokerWorker

open Engine WorkerLog SerialBroker

variable {S : Sqlite}

def Job.op : Job → Op
  | .openConn id _ => .openConn id
  | .req id r _ => .request id r
  | .drop id _ => .leave id

namespace Worker

def database (w : Worker S) : Database S := ⟨w.file, w.sessions⟩

/-- The messages sent so far. -/
def outs (w : Worker S) : List (Chan × Out) :=
  w.opens.map (fun x => (x.1, .opened x.2)) ++ w.responses.map (fun x => (x.1, .response x.2)) ++
    w.drops.map (fun ch => (ch, .left))

end Worker

end SqliteBroker.BrokerWorker

namespace SqliteBroker.SerialBroker

open Messages Engine Execution BrokerWorker Turnstile WorkerLog Runs Frames ArrivalOrder
  Isolation Accounting Sessions Threads Discipline Exchanges Linearization

variable {S : Sqlite}

section Observed

/-- What the step of a thread lets it receive. -/
def returns (s : Broker S) : Action → History
  | .recvOpen id =>
    match (s.clients id).pc with
    | .opening ch => ((s.worker.opens.lookup ch).map (fun r => .ret ch (.opened r))).toList
    | _ => []
  | .recvReply id =>
    match (s.clients id).pc with
    | .waiting ch _ => ((s.worker.responses.lookup ch).map (fun r => .ret ch (.response r))).toList
    | _ => []
  | .recvDrop id =>
    match (s.clients id).pc with
    | .dropping ch => if ch ∈ s.worker.drops then [.ret ch .left] else []
    | _ => []
  | _ => []

/-- The jobs that a step puts on the channel. -/
def calls (s s' : Broker S) : History :=
  (s'.jobs.drop s.jobs.length).map (fun j => .call j.reply j.op)

def history (J : SerdeJson) : Broker S → List Action → History
  | _, [] => []
  | s, a :: rest =>
    match Broker.step J s a with
    | some s' => returns s a ++ calls s s' ++ history J s' rest
    | none => []

theorem history_snoc {J : SerdeJson} {s t t' : Broker S} {past : List Action} {a : Action}
    (h : Trace (fun s a s' => Broker.step J s a = some s') s past t)
    (hstep : Broker.step J t a = some t') :
    history J s (past ++ [a]) = history J s past ++ (returns t a ++ calls t t') := by
  induction h with
  | nil s => simp [history, hstep]
  | cons hab _ ih => simp [history, hab, ih hstep]

end Observed

section Served

variable {w w' : Worker S} {p : Pending}

theorem database_dropSession (w : Worker S) (id : SessionId) :
    (w.dropSession id).database = w.database.disconnect id := by
  have hfile : (w.dropSession id).file = w.closeFile id := by simp [Worker.dropSession]
  rw [Worker.database, hfile, Worker.dropSession_sessions, Worker.closeFile, Database.disconnect]
  cases hs : w.sessions id <;> simp [Worker.database, hs, Database.put]

/-- The worker answers as the database does. -/
theorem request_answer (w : Worker S) (p : Pending) :
    w.database.request p.id p.req = ((w.answer p).1, (w.answer p).2.database) := by
  cases hp : p.req with
  | exec sql params =>
    rw [answer_exec hp, Worker.execResponse, Database.request, Database.onConn]
    cases hs : w.sessions p.id <;> simp [Worker.database, hs, Database.put]
  | prepare sql =>
    rw [answer_prepare hp, Worker.prepareResponse, Database.request, Database.onConn]
    cases hs : w.sessions p.id <;> simp [Worker.database, hs, Database.put]
  | close =>
    rw [Worker.answer, hp, Database.request, database_dropSession]

theorem openSession_connect (w : Worker S) (id : SessionId) (reply : Chan) :
    (w.openSession id reply).database = (w.database.connect id).2 ∧
      (w.openSession id reply).opens = w.opens ++ [(reply, (w.database.connect id).1)] := by
  have hopen : openStorage S w.database.file = openStorage S w.file := rfl
  unfold Worker.openSession Database.connect
  rw [hopen]
  rcases openStorage S w.file with ⟨err | conn, f⟩
  · exact ⟨rfl, opens_note _ _⟩
  · exact ⟨rfl, opens_note _ _⟩

/-- What a dispatch has done, whether it returns or panics after the call. -/
structure Ran (w : Worker S) (p : Pending) (w' : Worker S) : Prop where
  database : w'.database = (w.answer p).2.database
  pending : w'.pending = w.pending
  outs : ∀ x ∈ w'.outs, x ∈ w.outs ∨ x = (p.reply, .response (w.answer p).1)

theorem ran_of_served (h : Served w p w') : Ran w p w' where
  database := by rw [Worker.database, h.file, h.sessions, Worker.database]
  pending := h.pending
  outs := by
    intro x hx
    simp only [Worker.outs, h.opens, h.responses, h.drops, List.map_append, List.map_cons,
      List.map_nil, List.mem_append, List.mem_singleton] at hx ⊢
    tauto

theorem ran_of_stopped (hreq : p.req.isClose = false) (h : w.dispatch p = .error w') :
    Ran w p w' := by
  have hstop := dispatch_error h
  have hfile : w'.file = (w.answer p).2.file := by
    unfold Worker.dispatch at h
    cases hp : p.req with
    | exec sql params =>
      have hbrief : sqlBrief sql = none := by simpa [hp, sqlOf] using hstop.panics
      simp only [hp, Worker.runExec, hbrief, Except.error.injEq] at h
      rw [← h, answer_exec hp]
    | prepare sql =>
      have hbrief : sqlBrief sql = none := by simpa [hp, sqlOf] using hstop.panics
      simp only [hp, Worker.runPrepare, hbrief, Except.error.injEq] at h
      rw [← h, answer_prepare hp]
    | close => simp [hp, Request.isClose] at hreq
  refine ⟨by rw [Worker.database, hfile, hstop.sessions, Worker.database], hstop.pending, ?_⟩
  intro x hx
  rw [Worker.outs, Worker.opens, Worker.responses, Worker.drops, hstop.log] at hx
  exact Or.inl hx

end Served

/-- The operations served so far are those of the jobs taken so far, but for the requests that
wait, and every message tells what its operation has been answered. -/
structure Serves (f : S.File) (h : History) (handled : List Job) (l : List (Entry Chan Op Out))
    (w : Worker S) : Prop where
  linearizes : Linearizes Database.Step (Database.new f) h l w.database
  fates : (l.map Entry.id ++ w.pending.map Pending.reply).Perm (handled.map Job.reply)
  waiting : ∀ p ∈ w.pending, p.job ∈ handled
  outs : ∀ x ∈ w.outs, ∃ e ∈ l, (e.id, e.out) = x

section Serving

variable {f : S.File} {h : History} {handled handled' : List Job} {l : List (Entry Chan Op Out)}
  {e : Entry Chan Op Out} {w w' v : Worker S} {p : Pending} {j : Job}

theorem serves_new (f : S.File) : Serves f [] [] [] (Worker.new f) where
  linearizes := .nil
  fates := .refl _
  waiting := fun _ hp => absurd hp List.not_mem_nil
  outs := fun _ hx => absurd hx List.not_mem_nil

/-- The worker serves one more operation. -/
theorem Serves.serve (hw : Serves f h handled l w) (hstep : w.database.Step e.op e.out w'.database)
    (hcall : .call e.id e.op ∈ h) (hnodup : (handled'.map Job.reply).Nodup)
    (hfates : (l.map Entry.id ++ e.id :: w'.pending.map Pending.reply).Perm
      (handled'.map Job.reply))
    (hwaiting : ∀ p ∈ w'.pending, p.job ∈ handled')
    (houts : ∀ x ∈ w'.outs, x ∈ w.outs ∨ x = (e.id, e.out)) :
    Serves f h handled' (l ++ [e]) w' := by
  have hnew : e.id ∉ l.map Entry.id := by
    intro hold
    exact (List.nodup_append.mp (hfates.symm.nodup hnodup)).2.2 _ hold _
      (List.mem_cons_self ..) rfl
  refine ⟨hw.linearizes.serve hstep hcall hnew, ?_, hwaiting, ?_⟩
  · simpa using hfates
  · intro x hx
    rcases houts x hx with hold | hlast
    · obtain ⟨e', he', heq⟩ := hw.outs x hold
      exact ⟨e', List.mem_append_left _ he', heq⟩
    · exact ⟨e, List.mem_append_right _ (List.mem_singleton.mpr rfl), hlast.symm⟩

/-- Who is dispatched finds its session, and nobody else inside a transaction. -/
theorem admits_of_holder (hex : Exclusive w) (hpresent : w.present p.id = true)
    (hfree : w.holder = none ∨ w.holder = some p.id) :
    w.database.Admits (.request p.id p.req) := by
  refine ⟨hpresent, fun _ i hi => ?_⟩
  have hheld : w.holder = some i := (hex i).mpr hi
  rcases hfree with hnone | hown
  · rw [hnone] at hheld
    cases hheld
  · rw [hown] at hheld
    exact (Option.some.inj hheld).symm

/-- A request that is dispatched at `v` is served. -/
theorem Serves.ran (hw : Serves f h handled l w) (hdatabase : v.database = w.database)
    (houts : v.outs = w.outs) (hex : Exclusive v) (hpresent : v.present p.id = true)
    (hfree : v.holder = none ∨ v.holder = some p.id) (hran : Ran v p w')
    (hcall : .call p.reply (.request p.id p.req) ∈ h) (hnodup : (handled'.map Job.reply).Nodup)
    (hfates : (l.map Entry.id ++ p.reply :: v.pending.map Pending.reply).Perm
      (handled'.map Job.reply))
    (hwaiting : ∀ q ∈ v.pending, q.job ∈ handled') : ∃ l', Serves f h handled' l' w' := by
  have hstep : w.database.Step (.request p.id p.req) (.response (v.answer p).1) w'.database := by
    rw [← hdatabase, hran.database]
    refine ⟨admits_of_holder hex hpresent hfree, ?_⟩
    rw [Database.serve, request_answer]
  refine ⟨_, hw.serve (e := ⟨p.reply, _, _⟩) hstep hcall hnodup ?_ ?_ ?_⟩
  · rw [hran.pending]
    exact hfates
  · rw [hran.pending]
    exact hwaiting
  · rw [← houts]
    exact hran.outs

theorem outs_noteDispatch (w : Worker S) (p : Pending) (resumed : Bool) :
    (w.noteDispatch p resumed).outs = w.outs := by
  simp [Worker.outs, Worker.noteDispatch, List.filterMap_cons, Mark.opened, Mark.response,
    Mark.dropped]

/-- The head of the queue is served. -/
theorem Serves.next {rest : List Pending} (hw : Serves f h handled l w) (hex : Exclusive w)
    (horderly : Orderly w) (hnone : w.holder = none) (hpending : w.pending = p :: rest)
    (hcalls : ∀ k ∈ handled, .call k.reply k.op ∈ h) (hnodup : (handled.map Job.reply).Nodup)
    (hran : Ran (resume w p rest) p w') : ∃ l', Serves f h handled l' w' := by
  have hfirst : p ∈ w.pending := by rw [hpending]; exact List.mem_cons_self ..
  have hmem : p.job ∈ handled := hw.waiting p hfirst
  refine hw.ran (v := resume w p rest) rfl (outs_noteDispatch { w with pending := rest } p true)
    (hex.unseen rfl rfl) (horderly.waits p hfirst).2 (Or.inl hnone) hran (hcalls _ hmem) hnodup
    ?_ ?_
  · have hfates := hw.fates
    rw [hpending] at hfates
    exact hfates
  · intro q hq
    exact hw.waiting q (by rw [hpending]; exact List.mem_cons_of_mem p hq)

theorem fates_job (hw : Serves f h handled l w) (j : Job) :
    (l.map Entry.id ++ j.reply :: w.pending.map Pending.reply).Perm
      ((handled ++ [j]).map Job.reply) := by
  rw [List.map_append]
  exact List.perm_middle.trans ((hw.fates.cons j.reply).trans (List.perm_append_singleton _ _).symm)

theorem waiting_job (hw : Serves f h handled l w) (j : Job) :
    ∀ p ∈ w.pending, p.job ∈ handled ++ [j] :=
  fun p hp => List.mem_append_left _ (hw.waiting p hp)

theorem serves_openSession {id : SessionId} {reply : Chan} (hw : Serves f h handled l w)
    (hnone : w.sessions id = none) (hcall : .call reply (.openConn id) ∈ h)
    (hnodup : ((handled ++ [Job.openConn id reply]).map Job.reply).Nodup) :
    ∃ l', Serves f h (handled ++ [.openConn id reply]) l' (w.openSession id reply) := by
  have hopen := openSession_unmoved w id reply
  obtain ⟨hdatabase, hopens⟩ := openSession_connect w id reply
  have hstep : w.database.Step (.openConn id) (.opened (w.database.connect id).1)
      (w.openSession id reply).database := by
    rw [hdatabase]
    exact ⟨hnone, rfl⟩
  refine ⟨_, hw.serve (e := ⟨reply, _, _⟩) hstep hcall hnodup ?_ ?_ ?_⟩
  · rw [hopen.pending]
    exact fates_job hw (.openConn id reply)
  · rw [hopen.pending]
    exact waiting_job hw _
  · intro x hx
    simp only [Worker.outs, hopens, hopen.responses, hopen.drops, List.map_append, List.map_cons,
      List.map_nil, List.mem_append, List.mem_singleton] at hx ⊢
    tauto

/-- A session without a request in the queue goes, with a last message. -/
theorem serves_dropSession {id : SessionId} {m : Mark S} (hw : Serves f h handled l w)
    (halone : ofSession w id = []) (hop : w.database.serve j.op = (e.out, w.database.disconnect id))
    (hadmits : w.database.Admits j.op) (he : e = ⟨j.reply, j.op, e.out⟩)
    (hcall : .call j.reply j.op ∈ h) (hnodup : ((handled ++ [j]).map Job.reply).Nodup)
    (houts : ∀ v : Worker S, ∀ x ∈ (v.note [m]).outs, x ∈ v.outs ∨ x = (e.id, e.out)) :
    ∃ l', Serves f h (handled ++ [j]) l' ((w.dropSession id).note [m]) := by
  have hpending : ((w.dropSession id).note [m]).pending = w.pending := by
    have hkept : (w.dropSession id).pending = w.pending := by
      rw [Worker.dropSession_pending, List.filter_eq_self]
      intro p hp
      have hne : p ∉ ofSession w id := by rw [halone]; exact List.not_mem_nil
      simpa [ofSession, hp] using hne
    exact hkept
  have hstep : w.database.Step e.op e.out ((w.dropSession id).note [m]).database := by
    have hdatabase : ((w.dropSession id).note [m]).database = w.database.disconnect id :=
      database_dropSession w id
    rw [hdatabase, he]
    exact ⟨hadmits, hop⟩
  refine ⟨_, hw.serve hstep (by rw [he]; exact hcall) hnodup ?_ ?_ ?_⟩
  · rw [hpending, he]
    exact fates_job hw j
  · rw [hpending]
    exact waiting_job hw j
  · intro x hx
    refine (houts _ x hx).imp_left ?_
    intro hold
    simpa [Worker.outs, opens_dropSession, drops_dropSession, responses_dropSession, halone]
      using hold

theorem serves_enqueue (hw : Serves f h handled l w) (p : Pending) :
    Serves f h (handled ++ [p.job]) l (enqueue w p) where
  linearizes := hw.linearizes
  fates := by
    change (l.map Entry.id ++ (w.pending ++ [p]).map Pending.reply).Perm _
    rw [List.map_append, List.map_append, ← List.append_assoc]
    exact hw.fates.append_right [p.reply]
  waiting := by
    intro q hq
    rcases List.mem_append.mp hq with hold | hnew
    · exact List.mem_append_left _ (hw.waiting q hold)
    · rw [List.mem_singleton.mp hnew]
      exact List.mem_append_right _ (List.mem_singleton.mpr rfl)
  outs := by
    intro x hx
    refine hw.outs x ?_
    simpa [Worker.outs, enqueue, List.filterMap_cons, Mark.opened, Mark.response, Mark.dropped,
      Worker.opens, Worker.responses, Worker.drops] using hx

/-- The session of a job is there unless the job opens it. -/
def There (w : Worker S) : Job → Prop
  | .openConn id _ => w.sessions id = none
  | .req id _ _ => w.present id = true
  | .drop id _ => w.present id = true

/-- A job that has been called and is not served yet; a session that goes waits for nothing. -/
structure Taken (h : History) (handled : List Job) (w : Worker S) (j : Job) : Prop where
  calls : ∀ k ∈ handled ++ [j], .call k.reply k.op ∈ h
  nodup : ((handled ++ [j]).map Job.reply).Nodup
  alone : j.ends = true → ofSession w j.session = []
  there : There w j

theorem Taken.call (hj : Taken h handled w j) : .call j.reply j.op ∈ h :=
  hj.calls j (List.mem_append_right _ (List.mem_singleton.mpr rfl))

/-- A request that finds the turnstile free is served at once. -/
theorem serves_pass (hw : Serves f h handled l w) (hex : Exclusive w)
    (hj : Taken h handled w p.job) (hfree : w.holder = none ∨ w.holder = some p.id)
    (hran : Ran (w.noteDispatch p false) p w') : ∃ l', Serves f h (handled ++ [p.job]) l' w' :=
  hw.ran (v := w.noteDispatch p false) rfl (outs_noteDispatch w p false) (hex.unseen rfl rfl)
    hj.there hfree hran hj.call hj.nodup (fates_job hw p.job) (waiting_job hw p.job)

theorem enters_serves (hw : Serves f h handled l w) (hex : Exclusive w)
    (hj : Taken h handled w j) (henter : Enters w j w') :
    ∃ l', Serves f h (handled ++ [j]) l' w' := by
  cases henter with
  | openConn id reply => exact serves_openSession hw hj.there hj.call hj.nodup
  | drop id reply =>
    refine serves_dropSession (e := ⟨reply, .leave id, .left⟩) hw (hj.alone rfl) rfl hj.there rfl
      hj.call hj.nodup ?_
    intro v x hx
    simp only [Worker.outs, opens_note, responses_note, drops_note, Mark.opened, Mark.response,
      Mark.dropped, List.filterMap_cons, List.filterMap_nil, List.map_append, List.map_cons,
      List.map_nil, List.append_nil, List.mem_append, List.mem_singleton] at hx ⊢
    tauto
  | close id reply =>
    refine serves_dropSession (e := ⟨reply, .request id .close, .response okClosed⟩) hw
      (hj.alone rfl) rfl ⟨hj.there, fun hreq => Bool.noConfusion hreq⟩ rfl hj.call hj.nodup ?_
    intro v x hx
    simp only [Worker.outs, opens_note, responses_note, drops_note, Mark.opened, Mark.response,
      Mark.dropped, List.filterMap_cons, List.filterMap_nil, List.map_append, List.map_cons,
      List.map_nil, List.append_nil, List.mem_append, List.mem_singleton] at hx ⊢
    tauto
  | queue p i hreq hheld hne => exact ⟨l, serves_enqueue hw p⟩
  | pass p _ hreq hfree hdispatch =>
    exact serves_pass hw hex hj hfree (ran_of_served (dispatch_ok hreq hdispatch))

/-- One call of the worker serves its job, or lets it wait, and then those that wait as far as
it gets. -/
theorem handle_serves (hw : Serves f h handled l w) (hsound : Sound handled w)
    (hproper : Proper w j) (hj : Taken h handled w j) :
    ∃ l', Serves f h (handled ++ [j]) l' (Worker.memory (w.handle j)) := by
  have hcalls : ∀ k ∈ handled ++ [j], .call k.reply k.op ∈ h := hj.calls
  have henters : ∀ {v}, Enters w j v →
      (Isolated v ∧ Orderly v) ∧ ∃ l', Serves f h (handled ++ [j]) l' v := fun henter =>
    ⟨⟨isolated_enters hsound.isolated hsound.rest hproper.fresh henter,
      orderly_enters hsound.orderly hproper henter⟩,
      enters_serves hw hsound.isolated.exclusive hj henter⟩
  have hnext : ∀ v p rest v',
      ((Isolated v ∧ Orderly v) ∧ ∃ l', Serves f h (handled ++ [j]) l' v) →
      v.holder = none → v.pending = p :: rest → (resume v p rest).dispatch p = .ok v' →
      (Isolated v' ∧ Orderly v') ∧ ∃ l', Serves f h (handled ++ [j]) l' v' := by
    rintro v p rest v' ⟨⟨hv, horderly⟩, l', hserves⟩ hnone hpending hdispatch
    have hreq := hv.queued.head hpending
    exact ⟨⟨isolated_next hv hnone hpending hdispatch,
      orderly_next horderly hnone hpending hreq hdispatch⟩,
      hserves.next hv.exclusive horderly hnone hpending hcalls hj.nodup
        (ran_of_served (dispatch_ok hreq hdispatch))⟩
  cases hhandle : w.handle j with
  | ok w' =>
    obtain ⟨w₁, henter, hpump⟩ := handle_ok hhandle
    exact (pump_rule hnext (henters henter) hpump).1.2
  | error w' =>
    rcases handle_error hhandle with ⟨w₁, henter, hpump⟩ | ⟨p, rfl, hreq, hfree, hdispatch⟩
    · obtain ⟨v, p, rest, ⟨⟨hv, horderly⟩, l', hserves⟩, hnone, hpending, hpanic⟩ :=
        pump_error hnext (henters henter) hpump
      exact hserves.next hv.exclusive horderly hnone hpending hcalls hj.nodup
        (ran_of_stopped (hv.queued.head hpending) hpanic)
    · exact serves_pass hw hsound.isolated.exclusive hj hfree (ran_of_stopped hreq hdispatch)

end Serving

section Channel

variable {J : SerdeJson} {s s' : Broker S} {a : Action} {id : SessionId}

/-- A thread puts at most one job on the channel, with the next reply channel. -/
def Sends (s s' : Broker S) : Prop :=
  (s'.jobs = s.jobs ∧ s'.nextChan = s.nextChan) ∨
    ∃ j, j.reply = s.nextChan ∧ s'.jobs = s.jobs ++ [j] ∧ s'.nextChan = s.nextChan + 1

theorem sends_sendJob {job : Chan → Job} {pc : Chan → ClientPc}
    (hreply : ∀ ch, (job ch).reply = ch) : Sends s (s.sendJob id job pc) := by
  unfold Broker.sendJob
  split
  · exact Or.inr ⟨_, hreply s.nextChan, rfl, rfl⟩
  · exact Or.inl ⟨rfl, rfl⟩

theorem sends_dropRemote (s : Broker S) (id : SessionId) : Sends s (s.dropRemote id) :=
  sends_sendJob (fun _ => rfl)

theorem sends_receive {α : Type} {got : Option α} {pc : α → ClientPc}
    (h : s.receive id got pc = some s') : Sends s s' := by
  unfold Broker.receive at h
  split at h
  · cases h
    exact Or.inl ⟨rfl, rfl⟩
  · split at h
    · cases h
    · cases h
      exact Or.inl ⟨rfl, rfl⟩

theorem sends_writeFrame {α : Type} [Serde.Wire α] {msg : α} {accepts : Bool} {c : ClientPc}
    (h : s.writeFrame J id msg accepts = some s') : Sends s (s'.enter id c) := by
  obtain ⟨_, _, _, rfl⟩ := writeFrame_some h
  exact Or.inl ⟨rfl, rfl⟩

theorem sends_greet (opened : Except String Unit) (accepts : Bool) :
    Sends s (s.greet J id opened accepts) := by
  unfold Broker.greet
  split
  · next hwrite => exact sends_writeFrame hwrite
  · exact sends_dropRemote s id
  · next hwrite => exact sends_writeFrame hwrite
  · exact Or.inl ⟨rfl, rfl⟩

theorem sends_reply (resp : Response) (isClose accepts : Bool) :
    Sends s (s.reply J id resp isClose accepts) := by
  unfold Broker.reply
  split
  · split
    · exact sends_dropRemote s id
    · exact Or.inl ⟨rfl, rfl⟩
  · next hwrite => split <;> exact sends_writeFrame hwrite

theorem sends_forward (req : Request) : Sends s (s.forward id req) := by
  have hsent : Sends s (s.sendJob id (.req id req) (fun ch => .waiting ch req.isClose)) :=
    sends_sendJob (fun _ => rfl)
  unfold Broker.forward
  dsimp only
  split <;> exact hsent

theorem ThreadStep.sends (h : ThreadStep J s id a s') : Sends s s' := by
  cases h with
  | accept => exact Or.inl ⟨rfl, rfl⟩
  | sendOpen => exact sends_sendJob (fun _ => rfl)
  | recvOpen _ h => exact sends_receive h
  | writeHello => exact sends_greet _ _
  | read => exact sends_forward _
  | readFails => exact sends_dropRemote s id
  | recvReply _ h => exact sends_receive h
  | writeReply => exact sends_reply _ _ _
  | recvDrop _ h => exact sends_receive h

end Channel

section Linear

variable {J : SerdeJson} {f : S.File} {h : History} {s s' : Broker S} {a : Action}

/-- What a history and the broker at its end have to do with each other. -/
structure Linear (f : S.File) (h : History) (s : Broker S) : Prop where
  disciplined : s.alive = true → Disciplined s
  serves : ∃ l, Serves f h s.handled l s.worker
  calls : ∀ j ∈ s.handled ++ s.jobs, .call j.reply j.op ∈ h
  numbered : ∀ i ∈ h.filterMap Event.called, i < s.nextChan

theorem linear_init (f : S.File) : Linear f [] (Broker.init f) where
  disciplined := fun _ => disciplined_init f
  serves := ⟨[], serves_new f⟩
  calls := fun _ hj => absurd hj List.not_mem_nil
  numbered := fun _ hi => absurd hi List.not_mem_nil

/-- A step returns at most one message, which the worker has sent. -/
theorem returns_cases (s : Broker S) (a : Action) :
    returns s a = [] ∨ ∃ x ∈ s.worker.outs, returns s a = [.ret x.1 x.2] := by
  cases a with
  | recvOpen id =>
    simp only [returns]
    split
    · next ch _ =>
      cases hlookup : s.worker.opens.lookup ch with
      | none => exact Or.inl rfl
      | some r => exact Or.inr ⟨(ch, .opened r), by simp [Worker.outs, mem_of_lookup hlookup], rfl⟩
    · exact Or.inl rfl
  | recvReply id =>
    simp only [returns]
    split
    · next ch _ _ =>
      cases hlookup : s.worker.responses.lookup ch with
      | none => exact Or.inl rfl
      | some r =>
        exact Or.inr ⟨(ch, .response r), by simp [Worker.outs, mem_of_lookup hlookup], rfl⟩
    · exact Or.inl rfl
  | recvDrop id =>
    simp only [returns]
    split
    · next ch _ =>
      split
      · next hmem => exact Or.inr ⟨(ch, .left), by simp [Worker.outs, hmem], rfl⟩
      · exact Or.inl rfl
    · exact Or.inl rfl
  | _ => exact Or.inl rfl

theorem linearizes_returns {l : List (Entry Chan Op Out)} {handled : List Job}
    (hw : Serves f h handled l s.worker) (a : Action) :
    Linearizes Database.Step (Database.new f) (h ++ returns s a) l s.worker.database := by
  rcases returns_cases s a with hnone | ⟨x, hx, hret⟩
  · rw [hnone, List.append_nil]
    exact hw.linearizes
  · obtain ⟨e, he, rfl⟩ := hw.outs x hx
    rw [hret]
    exact hw.linearizes.ret he

theorem called_returns (s : Broker S) (a : Action) :
    (returns s a).filterMap Event.called = [] := by
  rcases returns_cases s a with hnone | ⟨x, _, hret⟩
  · rw [hnone]
    rfl
  · rw [hret]
    rfl

theorem Serves.linearized {h' : History} {handled : List Job} {l : List (Entry Chan Op Out)}
    {w : Worker S} (hw : Serves f h handled l w)
    (hl : Linearizes Database.Step (Database.new f) h' l w.database) : Serves f h' handled l w :=
  ⟨hl, hw.fates, hw.waiting, hw.outs⟩

/-- A step of a thread. -/
theorem linear_thread (hs : Linear f h s) (hstep : Broker.step J s a = some s') {id : SessionId}
    (hid : s.actor a = some id) : Linear f (h ++ (returns s a ++ calls s s')) s' := by
  have hthread := thread_step hstep hid
  have hframe := hthread.frame
  obtain ⟨l, hl⟩ := hs.serves
  have hreturns := linearizes_returns hl a
  have hdisciplined : s'.alive = true → Disciplined s' := fun halive' =>
    have halive := alive_of_step hstep halive'
    step_disciplined (hs.disciplined halive) halive hstep halive'
  have hsame : ∀ {h'}, Linearizes Database.Step (Database.new f) h' l s.worker.database →
      ∃ l, Serves f h' s'.handled l s'.worker := by
    intro h' hlinear
    rw [hframe.worker, hframe.handled]
    exact ⟨l, hl.linearized hlinear⟩
  rcases ThreadStep.sends hthread with ⟨hjobs, hchan⟩ | ⟨j, hreply, hjobs, hchan⟩
  · have hcalls : calls s s' = [] := by rw [calls, hjobs, List.drop_length]; rfl
    rw [hcalls, List.append_nil]
    refine ⟨hdisciplined, hsame hreturns, ?_, ?_⟩
    · rw [hframe.handled, hjobs]
      exact fun k hk => List.mem_append_left _ (hs.calls k hk)
    · rw [hchan, List.filterMap_append, called_returns, List.append_nil]
      exact hs.numbered
  · have hcalls : calls s s' = [.call j.reply j.op] := by
      rw [calls, hjobs, List.drop_left]
      rfl
    have hnumbers : (h ++ returns s a).filterMap Event.called = h.filterMap Event.called := by
      rw [List.filterMap_append, called_returns, List.append_nil]
    rw [hcalls, ← List.append_assoc]
    refine ⟨hdisciplined, hsame (hreturns.call ?_), ?_, ?_⟩
    · rw [hnumbers, hreply]
      exact fun hmem => Nat.lt_irrefl _ (hs.numbered _ hmem)
    · rw [hframe.handled, hjobs, ← List.append_assoc]
      intro k hk
      rcases List.mem_append.mp hk with hold | hnew
      · exact List.mem_append_left _ (List.mem_append_left _ (hs.calls k hold))
      · rw [List.mem_singleton.mp hnew]
        exact List.mem_append_right _ (List.mem_singleton.mpr rfl)
    · rw [List.filterMap_append, hnumbers, hchan]
      intro i hi
      rcases List.mem_append.mp hi with hold | hnew
      · exact Nat.lt_succ_of_lt (hs.numbered i hold)
      · obtain rfl : i = j.reply := List.mem_singleton.mp hnew
        rw [hreply]
        exact Nat.lt_succ_self _

/-- The session of the next job is there unless the job opens it. -/
theorem head_there {j : Job} {rest : List Job} (hs : Disciplined s) (hjobs : s.jobs = j :: rest) :
    There s.worker j := by
  rcases head_cases hs hjobs with ⟨id, ch, rfl, _⟩ | ⟨id, r, ch, rfl, _, hp⟩ | ⟨id, ch, rfl, _, hp⟩
  · exact head_proper hs hjobs
  · exact hp
  · exact hp

/-- A step of the worker. -/
theorem linear_work (hs : Linear f h s) (hstep : Broker.step J s .work = some s') :
    Linear f h s' := by
  obtain ⟨halive, j, rest, hjobs, hcases⟩ := step_work hstep
  have hdisciplined := hs.disciplined halive
  have hhead := head_alone hdisciplined hjobs
  have hall : (s.handled ++ [j]) ++ rest = s.handled ++ s.jobs := by
    rw [hjobs, List.append_assoc]
    rfl
  have hcalls := hs.calls
  have hnodup := hdisciplined.channels
  rw [← hall] at hcalls hnodup
  have htaken : Taken h s.handled s.worker j := by
    refine ⟨fun k hk => hcalls k (List.mem_append_left _ hk), ?_, fun _ => hhead.2.1,
      head_there hdisciplined hjobs⟩
    rw [List.map_append] at hnodup
    exact hnodup.of_append_left
  obtain ⟨l, hl⟩ := hs.serves
  have hserves := handle_serves hl hdisciplined.sound (head_proper hdisciplined hjobs) htaken
  rcases hcases with ⟨w, hhandle, rfl⟩ | ⟨w, hhandle, rfl⟩
  · rw [hhandle] at hserves
    exact ⟨fun halive' => step_disciplined hdisciplined halive hstep halive', hserves, hcalls,
      hs.numbered⟩
  · rw [hhandle] at hserves
    refine ⟨fun hdead => absurd hdead Bool.false_ne_true, hserves, ?_, hs.numbered⟩
    intro k hk
    exact hcalls k (List.mem_append_left _ (by simpa using hk))

theorem step_linear (hs : Linear f h s) (hstep : Broker.step J s a = some s') :
    Linear f (h ++ (returns s a ++ calls s s')) s' := by
  rcases actor_cases s a with rfl | ⟨id, hid⟩
  · have hcalls : calls s s' = [] := by
      obtain ⟨_, j, rest, hjobs, hcases⟩ := step_work hstep
      rcases hcases with ⟨w, _, rfl⟩ | ⟨w, _, rfl⟩
      · simp [calls, hjobs]
      · simp [calls]
    rw [hcalls]
    simpa [returns] using linear_work hs hstep
  · exact linear_thread hs hstep hid

/-- Every run of the broker is linearizable: also one whose worker panics, and with connections
that fail at any point. -/
theorem broker_linearizable {acts : List Action} (h : Run J f acts s) :
    ∃ l, Linearizes Database.Step (Database.new f) (history J (Broker.init f) acts) l
      s.worker.database := by
  have hlinear : Run J f acts s ∧ Linear f (history J (Broker.init f) acts) s := by
    refine Trace.history (P := fun past s => Run J f past s ∧
      Linear f (history J (Broker.init f) past) s) (m := []) ?_ h ⟨.nil _, linear_init f⟩
    rintro past t a t' ⟨hrun, hs⟩ hstep
    refine ⟨Trace.snoc hrun hstep, ?_⟩
    rw [history_snoc hrun hstep]
    exact step_linear hs hstep
  obtain ⟨l, hl⟩ := hlinear.2.serves
  exact ⟨l, hl.linearizes⟩

/-- A client that connects and begins a transaction. -/
theorem begin_linearizable : ∃ (s : Broker SmallSqlite.engine) (l : List (Entry Chan Op Out)),
    Linearizes (Database.Step (S := SmallSqlite.engine)) (Database.new SmallSqlite.newFile)
      (history begunJson (Broker.init (S := SmallSqlite.engine) SmallSqlite.newFile)
        (connecting ++ exchange 1 (.exec "BEGIN" []))) l s.worker.database ∧
      InTransaction s.worker.sessions 1 := by
  obtain ⟨s, hrun, hidle, _⟩ := run_begun SmallSqlite.newFile
  obtain ⟨l, hl⟩ := broker_linearizable hrun
  exact ⟨s, l, hl, begunConn, hidle.session, rfl⟩

end Linear

end SqliteBroker.SerialBroker
