import SqliteBroker.Discipline
import SqliteBroker.MessageTexts
import SqliteBroker.Panics

/-!
One client of a broker that is otherwise idle: it connects, gets its Hello and sends
requests one at a time. Each result gives the steps and what they leave.
-/
namespace SqliteBroker.Exchanges

open Utf8 Messages Serde Wire Engine Execution Frames MessageTexts BrokerWorker Turnstile
  WorkerLog Runs ArrivalOrder Threads Discipline Panics

variable {S : Sqlite} {J : SerdeJson} {w : Worker S} {s : Broker S} {id : SessionId}
  {req : Request} {f : S.File} {conn : S.Conn} {ch : Chan}

/-- One request on one connection. -/
def runOn (f : S.File) (conn : S.Conn) : Request → Outcome S Response
  | .exec sql params => execute S f conn sql params
  | .prepare sql => prepareMeta S f conn sql
  | .close => ⟨okClosed, f, conn⟩

theorem answer_eq {p : Pending} (hconn : w.sessions p.id = some conn)
    (hreq : p.req.isClose = false) :
    (w.answer p).1 = (runOn w.file conn p.req).result ∧
      (w.answer p).2 = w.setConn p.id (runOn w.file conn p.req).file
        (some (runOn w.file conn p.req).conn) := by
  cases hp : p.req with
  | exec sql params =>
    rw [answer_exec hp, Worker.execResponse, hconn]
    exact ⟨rfl, rfl⟩
  | prepare sql =>
    rw [answer_prepare hp, Worker.prepareResponse, hconn]
    exact ⟨rfl, rfl⟩
  | close =>
    rw [hp] at hreq
    cases hreq

/-- A session that has been let through is let through again. -/
theorem served_free {w' : Worker S} {p : Pending} (hfree : w.heldByOther p.id = false)
    (h : Served w p w') : w'.heldByOther p.id = false := by
  rcases heldByOther_false hfree with hnone | hown
  · rw [Worker.heldByOther, h.holder, hnone, settled]
    cases isExec p.req <;> cases w.keeps p <;> simp
  · rw [Worker.heldByOther, h.holder, hown, settled]
    cases isExec p.req <;> cases w.keeps p <;> simp

/-- The worker's call for a request when nobody else is there. -/
theorem handle_served (ch : Chan) (hreq : req.isClose = false)
    (hheld : w.heldByOther id = false) (hpending : w.pending = []) (hfits : Fits (sqlOf req)) :
    ∃ w', w.handle (.req id req ch) = .ok w' ∧
      Served (w.noteDispatch ⟨id, req, ch⟩ false) ⟨id, req, ch⟩ w' := by
  have hcall := handle_request w ⟨id, req, ch⟩ hreq
  rw [if_neg (by simp [hheld])] at hcall
  cases hdispatch : (w.noteDispatch ⟨id, req, ch⟩ false).dispatch ⟨id, req, ch⟩ with
  | error w' =>
    obtain ⟨w₁, hw₁⟩ :=
      (dispatch_ok_iff (w.noteDispatch ⟨id, req, ch⟩ false) ⟨id, req, ch⟩ hreq).mpr hfits
    rw [hdispatch] at hw₁
    cases hw₁
  | ok w' =>
    have hserved := dispatch_ok hreq hdispatch
    have hempty : w'.pending = [] := hserved.pending.trans hpending
    refine ⟨w', ?_, hserved⟩
    rw [hcall, hdispatch]
    exact pump_of_empty hempty

/-- The same call with a statement that does not fit its event line. -/
theorem handle_stopped (ch : Chan) (hreq : req.isClose = false)
    (hheld : w.heldByOther id = false) (hbrief : sqlBrief (sqlOf req) = none) :
    ∃ w', w.handle (.req id req ch) = .error w' ∧
      Stopped (w.noteDispatch ⟨id, req, ch⟩ false) ⟨id, req, ch⟩ w' := by
  have hcall := handle_request w ⟨id, req, ch⟩ hreq
  rw [if_neg (by simp [hheld])] at hcall
  cases hdispatch : (w.noteDispatch ⟨id, req, ch⟩ false).dispatch ⟨id, req, ch⟩ with
  | ok w' =>
    have hfits := (dispatch_ok_iff _ ⟨id, req, ch⟩ hreq).mp ⟨w', hdispatch⟩
    rw [← sqlBrief_isSome_iff] at hfits
    rw [show sqlBrief (sqlOf req) = none from hbrief] at hfits
    cases hfits
  | error w' =>
    refine ⟨w', ?_, dispatch_error hdispatch⟩
    rw [hcall, hdispatch]

/-- Session `id` is open on `conn`, its thread is at its read, and nothing else goes on. -/
structure Idle (s : Broker S) (id : SessionId) (f : S.File) (conn : S.Conn) : Prop where
  alive : s.alive = true
  jobs : s.jobs = []
  reading : (s.clients id).pc = .reading
  free : s.worker.heldByOther id = false
  pending : s.worker.pending = []
  file : s.worker.file = f
  session : s.worker.sessions id = some conn
  fresh : ∀ r ∈ s.worker.responses, r.1 < s.nextChan

/-- The broker after the Hello of its first client. -/
def greeted (f : S.File) (hello : Bytes) : Broker S where
  worker := (Worker.new f).openSession 1 0
  alive := true
  jobs := []
  nextSession := 2
  nextChan := 1
  clients := Function.update (fun _ => ⟨.absent, [], []⟩) 1 ⟨.reading, [hello], []⟩
  handled := [.openConn 1 0]

theorem openSession_ok {f' : S.File} (hopen : openStorage S f = (.ok conn, f')) :
    (Worker.new f).openSession 1 0 =
      ((Worker.new f).setConn 1 f' (some conn)).note [.sentOpen 0 (.ok ())] := by
  unfold Worker.openSession
  rw [show (Worker.new f).file = f from rfl, hopen]

theorem greeted_idle {f' : S.File} (hello : Bytes) (hopen : openStorage S f = (.ok conn, f')) :
    Idle (greeted f hello) 1 f' conn := by
  have hworker : (greeted f hello).worker =
      ((Worker.new f).setConn 1 f' (some conn)).note [.sentOpen 0 (.ok ())] := openSession_ok hopen
  refine ⟨rfl, rfl, rfl, ?_, ?_, ?_, ?_, ?_⟩
  · rw [hworker]
    rfl
  · rw [hworker]
    rfl
  · rw [hworker]
    rfl
  · rw [hworker]
    rfl
  · rw [hworker, responses_note]
    simp [Worker.responses, Worker.new, Mark.response]

/-- The steps up to the Hello. -/
def connecting : List Action := [.accept, .sendOpen 1, .work, .recvOpen 1, .writeHello 1 true]

theorem run_greeted {f' : S.File} {hello : Bytes} (hopen : openStorage S f = (.ok conn, f'))
    (hhello : writeMsg J (Broker.hello 1 (.ok ())) = .ok hello) :
    Run J f connecting (greeted f hello) := by
  have hwork : ((Worker.new f).openSession 1 0).pump = .ok ((Worker.new f).openSession 1 0) := by
    refine pump_of_empty ?_
    rw [(openSession_unmoved _ 1 0).pending]
    rfl
  have hlookup : ((Worker.new f).openSession 1 0).opens.lookup 0 = some (.ok ()) := by
    rw [openSession_ok hopen, opens_note]
    rfl
  let s₁ : Broker S := { Broker.init f with
    nextSession := 2, clients := Function.update (Broker.init f).clients 1 ⟨.starting, [], []⟩ }
  let s₂ : Broker S := { s₁ with
    jobs := [.openConn 1 0], nextChan := 1
    clients := Function.update s₁.clients 1 ⟨.opening 0, [], []⟩ }
  let s₃ : Broker S := { s₂ with
    worker := (Worker.new f).openSession 1 0, jobs := [], handled := [.openConn 1 0] }
  let s₄ : Broker S := { s₃ with
    clients := Function.update s₃.clients 1 ⟨.greeting (.ok ()), [], []⟩ }
  have h₁ : Broker.step J (Broker.init f) .accept = some s₁ := rfl
  have h₂ : Broker.step J s₁ (.sendOpen 1) = some s₂ := rfl
  have h₃ : Broker.step J s₂ .work = some s₃ := by
    have hhandle : s₂.worker.handle (.openConn 1 0) = .ok ((Worker.new f).openSession 1 0) := hwork
    have hjobs : s₂.jobs = [.openConn 1 0] := rfl
    have halive : s₂.alive = true := rfl
    simp only [Broker.step, Broker.takeJob, halive, hjobs, hhandle]
    rfl
  have h₄ : Broker.step J s₃ (.recvOpen 1) = some s₄ := by
    change s₃.receive 1 (((Worker.new f).openSession 1 0).opens.lookup 0) .greeting = _
    rw [hlookup]
    rfl
  have h₅ : Broker.step J s₄ (.writeHello 1 true) = some (greeted f hello) := by
    change some (s₄.greet J 1 (.ok ()) true) = _
    simp [s₁, s₂, s₃, s₄, greeted, Broker.greet, Broker.writeFrame, hhello, Broker.setClient,
      Broker.enter, Broker.init, Worker.new]
  exact .cons h₁ (.cons h₂ (.cons h₃ (.cons h₄ (.cons h₅ (.nil _)))))

/-- The state in which the request of session `id` is on the channel. -/
theorem forward_eq (id : SessionId) (req : Request) (halive : s.alive = true) (hjobs : s.jobs = [])
    (hreq : req.isClose = false) :
    s.forward id req = { s with
      jobs := [.req id req s.nextChan]
      nextChan := s.nextChan + 1
      clients := Function.update s.clients id { s.clients id with
        pc := .waiting s.nextChan false
        requests := (s.clients id).requests ++ [(req, s.nextChan)] } } := by
  unfold Broker.forward Broker.sendJob Broker.enter Broker.setClient
  simp only [halive, if_true, hjobs, List.nil_append, Function.update_self, hreq,
    Function.update_idem]

/-- The response `out` to the request that thread `id` read in state `s` is ready to be
written. -/
structure Ready (s s' : Broker S) (id : SessionId) (req : Request) (out : Outcome S Response) :
    Prop where
  alive : s'.alive = true
  jobs : s'.jobs = []
  client : s'.clients id = ⟨.writing out.result false, (s.clients id).sent,
    (s.clients id).requests ++ [(req, s.nextChan)]⟩
  free : s'.worker.heldByOther id = false
  pending : s'.worker.pending = []
  file : s'.worker.file = out.file
  session : s'.worker.sessions id = some out.conn
  fresh : ∀ r ∈ s'.worker.responses, r.1 < s'.nextChan
  holder : s'.worker.holder = if isExec req then
    settled s.worker.holder id (!out.result.autocommit) else s.worker.holder

/-- The worker runs the request just read and the thread gets the response. -/
theorem run_ready (hs : Idle s id f conn) (hreq : req.isClose = false)
    (hfits : Fits (sqlOf req)) :
    ∃ s₂ s₃, Broker.step J (s.forward id req) .work = some s₂ ∧
      Broker.step J s₂ (.recvReply id) = some s₃ ∧
      Ready s s₃ id req (runOn f conn req) := by
  obtain ⟨w', hhandle, hserved⟩ :=
    handle_served s.nextChan hreq hs.free hs.pending hfits
  set p : Pending := ⟨id, req, s.nextChan⟩
  have hanswer := answer_eq (w := s.worker.noteDispatch p false) (p := p) hs.session hreq
  rw [show (s.worker.noteDispatch p false).file = f from hs.file] at hanswer
  have hresponses : w'.responses = s.worker.responses ++
      [(s.nextChan, (runOn f conn req).result)] := by
    rw [hserved.responses, hanswer.1, Worker.noteDispatch, responses_note]
    simp [Mark.response, p]
  have hlookup : w'.responses.lookup s.nextChan = some (runOn f conn req).result := by
    have hnone : s.worker.responses.lookup s.nextChan = none := by
      refine lookup_of_not_mem (fun hmem => ?_)
      obtain ⟨r, hr, hch⟩ := List.mem_map.mp hmem
      exact absurd (hs.fresh r hr) (by rw [hch]; exact Nat.lt_irrefl _)
    rw [hresponses, List.lookup_append, hnone]
    simp
  have hholder : w'.holder = if isExec req then
      settled s.worker.holder id (!(runOn f conn req).result.autocommit)
      else s.worker.holder := by
    rw [hserved.holder, Worker.keeps, hanswer.1]
    rfl
  let s₂ : Broker S := { s.forward id req with
    worker := w', jobs := [], handled := s.handled ++ [.req id req s.nextChan] }
  let s₃ := s₂.enter id (.writing (runOn f conn req).result false)
  have hforward := forward_eq id req hs.alive hs.jobs hreq
  have h₂ : Broker.step J (s.forward id req) .work = some s₂ := by
    rw [hforward]
    simp only [Broker.step, Broker.takeJob, s₂, hforward, hs.alive, hhandle]
  have h₃ : Broker.step J s₂ (.recvReply id) = some s₃ := by
    simp only [Broker.step, s₃, s₂, hforward, Function.update_self, Broker.receive, hlookup]
  refine ⟨s₂, s₃, h₂, h₃, ?_⟩
  constructor
  · change (s.forward id req).alive = true
    rw [hforward]
    exact hs.alive
  · rfl
  · simp [s₃, s₂, hforward, Broker.enter, Broker.setClient]
  · exact served_free (w := s.worker.noteDispatch p false) (p := p) hs.free hserved
  · exact hserved.pending.trans hs.pending
  · change w'.file = _
    rw [hserved.file, hanswer.2]
    rfl
  · change w'.sessions id = _
    rw [hserved.sessions, hanswer.2]
    exact Function.update_self _ _ _
  · change ∀ r ∈ w'.responses, r.1 < (s.forward id req).nextChan
    rw [hforward, hresponses]
    intro r hr
    rcases List.mem_append.mp hr with hold | hnew
    · exact Nat.lt_succ_of_lt (hs.fresh r hold)
    · rw [List.mem_singleton.mp hnew]
      exact Nat.lt_succ_self _
  · exact hholder

/-- The thread writes the frame of the response and reads on. -/
theorem ready_written {s' : Broker S} {out : Outcome S Response} {bytes : Bytes}
    (h : Ready s s' id req out) (hwrite : writeMsg J out.result = .ok bytes) :
    ∃ s'', Broker.step J s' (.writeReply id true) = some s'' ∧ Idle s'' id out.file out.conn ∧
      s''.clients id = ⟨.reading, (s.clients id).sent ++ [bytes],
        (s.clients id).requests ++ [(req, s.nextChan)]⟩ ∧
      s''.worker = s'.worker := by
  have hreply : Broker.step J s' (.writeReply id true) =
      some (s'.reply J id out.result false true) := by
    simp only [Broker.step, h.client]
  have hclient : (s'.reply J id out.result false true).clients id = ⟨.reading,
      (s.clients id).sent ++ [bytes], (s.clients id).requests ++ [(req, s.nextChan)]⟩ := by
    simp [Broker.reply, Broker.writeFrame, hwrite, Broker.enter, Broker.setClient, h.client]
  have hframe : ClientStep id (fun _ => False) s' (s'.reply J id out.result false true) :=
    clientStep_reply _ _ _
  have hworker := hframe.worker
  have hrest : (s'.reply J id out.result false true).jobs = [] ∧
      (s'.reply J id out.result false true).nextChan = s'.nextChan := by
    simp [Broker.reply, Broker.writeFrame, hwrite, Broker.enter, Broker.setClient, h.jobs]
  refine ⟨_, hreply, ?_, hclient, hworker⟩
  refine ⟨hframe.alive.trans h.alive, hrest.1, by rw [hclient], ?_, ?_, ?_, ?_, ?_⟩
  · rw [hworker]
    exact h.free
  · rw [hworker]
    exact h.pending
  · rw [hworker]
    exact h.file
  · rw [hworker]
    exact h.session
  · rw [hworker, hrest.2]
    exact h.fresh

/-- The steps of one request. -/
def exchange (id : SessionId) (req : Request) : List Action :=
  [.readReq id (some req), .work, .recvReply id, .writeReply id true]

theorem step_read (hs : Idle s id f conn) (req : Request) :
    Broker.step J s (.readReq id (some req)) = some (s.forward id req) := by
  simp only [Broker.step, hs.reading]

/-- One request from its frame to the frame of its response. -/
theorem run_exchange {bytes : Bytes} (hs : Idle s id f conn)
    (hreq : req.isClose = false) (hfits : Fits (sqlOf req))
    (hwrite : writeMsg J (runOn f conn req).result = .ok bytes) :
    ∃ s', Trace (fun s a s' => Broker.step J s a = some s') s (exchange id req) s' ∧
      Idle s' id (runOn f conn req).file (runOn f conn req).conn ∧
      s'.worker.holder = (if isExec req then
        settled s.worker.holder id (!(runOn f conn req).result.autocommit)
        else s.worker.holder) ∧
      s'.clients id = ⟨.reading, (s.clients id).sent ++ [bytes],
        (s.clients id).requests ++ [(req, s.nextChan)]⟩ := by
  obtain ⟨s₂, s₃, hwork, hrecv, hready⟩ := run_ready (J := J) hs hreq hfits
  obtain ⟨s', hreply, hidle, hclient, hworker⟩ := ready_written hready hwrite
  have hheld := hready.holder
  rw [← hworker] at hheld
  exact ⟨s', .cons (step_read hs req) (.cons hwork (.cons hrecv (.single hreply))), hidle, hheld,
    hclient⟩

/-- A thread that gives up its open session. -/
theorem run_dropped (id : SessionId) (halive : s.alive = true) (hjobs : s.jobs = [])
    (hpending : s.worker.pending = []) :
    ∃ s', Trace (fun s a s' => Broker.step J s a = some s') (s.dropRemote id)
      [.work, .recvDrop id] s' ∧ s'.alive = true ∧ s'.worker.sessions id = none ∧
      s'.clients id = { s.clients id with pc := .returned } := by
  let ch := s.nextChan
  let w' := (s.worker.dropSession id).note [.sentDrop ch]
  have hhandle : s.worker.handle (.drop id ch) = .ok w' := by
    refine pump_of_empty ?_
    rw [Worker.note_pending, Worker.dropSession_pending, hpending]
    rfl
  have hdrop : ch ∈ w'.drops := by
    rw [drops_note]
    exact List.mem_append_right _ (List.mem_singleton.mpr rfl)
  have hsent : s.dropRemote id = { s with
      jobs := [.drop id ch]
      nextChan := s.nextChan + 1
      clients := Function.update s.clients id { s.clients id with pc := .dropping ch } } := by
    simp only [Broker.dropRemote, Broker.sendJob, halive, if_true, hjobs, List.nil_append,
      Broker.enter, Broker.setClient, ch]
  let s₁ : Broker S := { s.dropRemote id with
    worker := w', jobs := [], handled := s.handled ++ [.drop id ch] }
  have h₁ : Broker.step J (s.dropRemote id) .work = some s₁ := by
    rw [hsent]
    simp only [Broker.step, Broker.takeJob, s₁, hsent, halive, hhandle]
  have h₂ : Broker.step J s₁ (.recvDrop id) = some (s₁.enter id .returned) := by
    simp only [Broker.step, s₁, hsent, Function.update_self, Broker.receive, if_pos hdrop]
  refine ⟨_, .cons h₁ (.single h₂), ?_, ?_, ?_⟩
  · change (s.dropRemote id).alive = true
    rw [hsent]
    exact halive
  · change w'.sessions id = none
    rw [Worker.note_sessions, Worker.dropSession_sessions]
    exact Function.update_self _ _ _
  · simp [s₁, hsent, Broker.enter, Broker.setClient]

/-- A statement that does not fit its event line stops the worker after it has run. -/
theorem run_stopped (hs : Idle s id f conn) (req : Request) (hreq : req.isClose = false)
    (hbrief : sqlBrief (sqlOf req) = none) :
    ∃ s', Broker.step J (s.forward id req) .work = some s' ∧ s'.alive = false ∧
      s'.handled = s.handled ++ [.req id req s.nextChan] ∧
      s'.worker.pending = [] ∧ s'.worker.responses = s.worker.responses ∧
      s'.worker.dispatches = s.worker.dispatches ++
        [⟨⟨id, req, s.nextChan⟩, s.worker.file, s.worker.sessions⟩] := by
  obtain ⟨w', hhandle, hstopped⟩ :=
    handle_stopped s.nextChan hreq hs.free hbrief
  have hforward := forward_eq id req hs.alive hs.jobs hreq
  refine ⟨{ s.forward id req with
    worker := w', alive := false, jobs := [], handled := s.handled ++ [.req id req s.nextChan] },
    ?_, rfl, rfl, hstopped.pending.trans hs.pending, ?_, ?_⟩
  · rw [hforward]
    simp only [Broker.step, Broker.takeJob, hs.alive, hhandle]
  · change w'.responses = _
    rw [Worker.responses, hstopped.log, Worker.noteDispatch, Worker.note_log,
      List.filterMap_append]
    exact List.append_nil _
  · change w'.dispatches = _
    rw [Worker.dispatches, hstopped.log]
    exact dispatches_noteDispatch _ _ _

section Texts

def framed (text : Bytes) : Bytes := toLeBytes text.length ++ text

/-- The Hello of the first session. -/
def helloText : Bytes := ascii "\x7b\"ok\":true,\"session\":1,\"error\":null\x7d"

theorem hello_sized : helloText ≠ [] ∧ helloText.length ≤ frameLimit :=
  sized_of_length (length_ascii _) (by decide) (by decide)

variable {reqs : List (Request × Bytes)} {resps : List (Response × Bytes)}

/-- The messages of one client with their texts. -/
def messages (reqs : List (Request × Bytes)) (resps : List (Response × Bytes)) :
    List (Json × Bytes) :=
  (toJson (Broker.hello 1 (.ok ())), helloText) ::
    (reqs.map (fun m => (toJson m.1, m.2)) ++ resps.map (fun m => (toJson m.1, m.2)))

noncomputable def talk (reqs : List (Request × Bytes)) (resps : List (Response × Bytes)) :
    SerdeJson :=
  .table (messages reqs resps)

theorem nodup_keys {α : Type} [Wire α] {msgs : List (α × Bytes)}
    (hnd : (msgs.map Prod.fst).Nodup) (hloss : ∀ m ∈ msgs, lossless m.1 = true) :
    ((msgs.map (fun m => (toJson m.1, m.2))).map Prod.fst).Nodup := by
  rw [List.map_map, show (Prod.fst ∘ fun m : α × Bytes => (toJson m.1, m.2)) =
    toJson ∘ Prod.fst from rfl, ← List.map_map]
  refine hnd.map_on ?_
  intro m hm m' _ heq
  obtain ⟨e, he, rfl⟩ := List.mem_map.mp hm
  exact toJson_injective (hloss e he) heq

theorem messages_keys (hreqs : (reqs.map Prod.fst).Nodup) (hresps : (resps.map Prod.fst).Nodup)
    (hreqs' : ∀ m ∈ reqs, lossless m.1 = true) (hresps' : ∀ m ∈ resps, lossless m.1 = true) :
    ((messages reqs resps).map Prod.fst).Nodup := by
  rw [messages, List.map_cons, List.map_append, List.nodup_cons]
  refine ⟨?_, (nodup_keys hreqs hreqs').append (nodup_keys hresps hresps') ?_⟩
  · intro hmem
    rcases List.mem_append.mp hmem with hreq | hresp
    · simp only [List.map_map, List.mem_map] at hreq
      obtain ⟨e, _, heq⟩ := hreq
      exact hello_ne_request _ _ heq.symm
    · simp only [List.map_map, List.mem_map] at hresp
      obtain ⟨e, _, heq⟩ := hresp
      exact hello_ne_response _ _ heq.symm
  · intro j hreq hresp
    simp only [List.map_map, List.mem_map] at hreq hresp
    obtain ⟨e, _, rfl⟩ := hreq
    obtain ⟨e', _, heq⟩ := hresp
    exact request_ne_response _ _ heq.symm

theorem request_mem {req : Request} {text : Bytes} (h : (req, text) ∈ reqs) :
    (toJson req, text) ∈ messages reqs resps :=
  List.mem_cons_of_mem _ (List.mem_append_left _ (List.mem_map.mpr ⟨_, h, rfl⟩))

theorem response_mem {resp : Response} {text : Bytes} (h : (resp, text) ∈ resps) :
    (toJson resp, text) ∈ messages reqs resps :=
  List.mem_cons_of_mem _ (List.mem_append_right _ (List.mem_map.mpr ⟨_, h, rfl⟩))

theorem talk_hello (reqs : List (Request × Bytes)) (resps : List (Response × Bytes)) :
    writeMsg (talk reqs resps) (Broker.hello 1 (.ok ())) = .ok (framed helloText) := by
  have htext : (talk reqs resps).toVec (toJson (Broker.hello 1 (.ok ()))) = helloText := by
    simp [talk, messages, SerdeJson.table]
  refine writeMsg_ok_iff.mpr ⟨?_, ?_⟩
  · rw [htext]
    decide
  · rw [htext]
    rfl

theorem writes_of_toVec {α : Type} [Wire α] {msg : α} {text : Bytes}
    (htext : J.toVec (toJson msg) = text) (hfits : text.length ≤ frameLimit) :
    writeMsg J msg = .ok (framed text) := by
  refine writeMsg_ok_iff.mpr ⟨?_, ?_⟩
  · rw [htext]
    exact hfits
  · rw [htext]
    rfl

end Texts

section Begun

/-- The connection of a session that has begun a transaction. -/
def begunConn : SmallSqlite.Conn := { SmallSqlite.newConn with autocommit := false }

def begunText : Bytes :=
  responseText okText (ascii "[]") (ascii "[]") (ascii "0") (ascii "false") (ascii "0")

/-- The text of the response when one row has been inserted. -/
def insertedText : Bytes :=
  responseText okText (ascii "[]") (ascii "[]") (ascii "1") (ascii "true") (ascii "1")

theorem begun_sized : begunText ≠ [] ∧ begunText.length ≤ frameLimit :=
  response_sized (by decide)

def begunResponse : Response := SmallSqlite.okResponse begunConn [] []

noncomputable def begunJson : SerdeJson :=
  talk [(.exec "BEGIN" [], execText (ascii "BEGIN"))] [(begunResponse, begunText)]

/-- One client of the small engine connects and takes the transaction. -/
theorem run_begun (f : SmallSqlite.File) : ∃ s : Broker SmallSqlite.engine,
    Run begunJson f (connecting ++ exchange 1 (.exec "BEGIN" [])) s ∧
      Idle s 1 f begunConn ∧ s.worker.holder = some 1 ∧
      s.clients 1 = ⟨.reading, [framed helloText, framed begunText],
        [(.exec "BEGIN" [], 1)]⟩ := by
  have hopen : openStorage SmallSqlite.engine f = (.ok SmallSqlite.newConn, f) := rfl
  have hrun : runOn (S := SmallSqlite.engine) f SmallSqlite.newConn (.exec "BEGIN" []) =
      ⟨begunResponse, f, begunConn⟩ := SmallSqlite.execute_begin rfl
  have htext : begunJson.toVec (toJson begunResponse) = begunText := by
    refine table_toVec (messages_keys (List.nodup_singleton _) (List.nodup_singleton _) ?_ ?_)
      (response_mem (List.mem_singleton.mpr rfl))
    · exact List.forall_mem_singleton.mpr rfl
    · exact List.forall_mem_singleton.mpr rfl
  have hwrite := writes_of_toVec htext begun_sized.2
  have hfits : Fits (sqlOf (.exec "BEGIN" [])) := Or.inl (by decide)
  obtain ⟨s, hexchange, hidle, hheld, hclient⟩ := run_exchange
    (greeted_idle (framed helloText) hopen) rfl hfits (by rw [hrun]; exact hwrite)
  rw [hrun] at hidle hheld
  exact ⟨s, (run_greeted hopen (talk_hello _ _)).append hexchange, hidle, hheld, hclient⟩

end Begun

end SqliteBroker.Exchanges
