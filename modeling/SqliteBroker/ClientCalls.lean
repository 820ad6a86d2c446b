import SqliteBroker.Lockstep
import SqliteBroker.Exchanges

/-!
One client with its shim at a broker that is otherwise idle: it connects and makes calls
that send a request each.
-/
namespace SqliteBroker.ClientCalls

open Utf8 Messages Serde Wire Engine Execution Frames BrokerWorker Turnstile WorkerLog Runs
  ArrivalOrder Threads Discipline Panics ShimConnection Network Lockstep Exchanges

variable {S : Sqlite} {J : SerdeJson} {n : Net S} {id : SessionId} {f : S.File} {conn : S.Conn}

/-- A step of the broker that needs nothing of a connection. -/
def Inner : Action → Prop
  | .accept => False
  | .readReq _ _ => False
  | .writeHello _ accepts => accepts = true
  | .writeReply _ accepts => accepts = true
  | _ => True

theorem socket_inner {a : Action} (h : Inner a) : n.socket J a = some n := by
  cases a with
  | accept => cases h
  | readReq i req => cases h
  | writeHello i accepts =>
    obtain rfl : accepts = true := h
    rfl
  | writeReply i accepts =>
    obtain rfl : accepts = true := h
    rfl
  | _ => rfl

theorem run_inner {b : Broker S} {acts : List Action}
    (h : Trace (fun s a s' => Broker.step J s a = some s') n.broker acts b)
    (hacts : ∀ a ∈ acts, Inner a) :
    Trace (fun n a n' => Net.step J n a = some n') n (acts.map .broker)
      { n with broker := b } := by
  generalize hb : n.broker = b₀ at h
  induction h generalizing n with
  | nil =>
    rw [← hb]
    exact .nil n
  | @cons b₀ b₁ b₂ a rest hstep _ ih =>
    subst hb
    have hfirst : n.step J (.broker a) = some { n with broker := b₁ } := by
      simp only [Net.step, socket_inner (hacts a (List.mem_cons_self ..)), hstep]
    exact .cons hfirst
      (ih (n := { n with broker := b₁ }) (fun a' ha' => hacts a' (List.mem_cons_of_mem a ha')) rfl)

/-- Session `id` is open on `conn`, its shim is between two calls, and nothing else goes
on. -/
structure Connected (n : Net S) (id : SessionId) (f : S.File) (conn : S.Conn) : Prop where
  idle : Idle n.broker id f conn
  pc : (n.shims id).pc = .idle
  wire : OnWire (n.broker.clients id) (n.shims id) []
  outbox : (n.shims id).outbox = []
  usable : (n.shims id).db.closed = false

def joining : List NetAction := connecting.map .broker ++ [.hello 1]

theorem run_joined {f' : S.File} (hopen : openStorage S f = (.ok conn, f'))
    (hhello : Carries J (Broker.hello 1 (.ok ()))) :
    ∃ n, Trace (fun n a n' => Net.step J n a = some n') (Net.init f) joining n ∧
      Connected n 1 f' conn ∧ (n.shims 1).db = .connected ∧ (n.shims 1).loops = [] := by
  obtain ⟨bytes, hwrite, hdecode⟩ := hhello
  have hrun := run_greeted hopen hwrite
  cases hrun with
  | @cons _ b _ _ _ haccept hrest =>
    let sh : Shim := .new .connecting
    let n₀ : Net S := { (Net.init f).setShim 1 sh with broker := b }
    let n₁ : Net S := { n₀ with broker := greeted f bytes }
    have h₀ : (Net.init f).step J (.broker .accept) = some n₀ := by
      have hbroker : Broker.step J (Net.init f).broker .accept = some b := haccept
      simp only [Net.step, Net.socket, hbroker]
      rfl
    have h₁ := run_inner (n := n₀) hrest (by simp [Inner])
    have hshim : n₁.shims 1 = sh := by
      change ((Net.init f).setShim 1 sh).shims 1 = sh
      exact setShim_own
    have hwire : OnWire (n₁.broker.clients 1) (n₁.shims 1) bytes := by
      rw [hshim]
      exact ⟨[], by simp [n₁, greeted], rfl⟩
    have hincoming := incoming_frame (J := J) hwrite hwire
    rw [hdecode] at hincoming
    let sh' : Shim := { sh with pc := .idle, db := .connected, seen := 0 + bytes.length }
    have h₂ : n₁.step J (.hello 1) = some (n₁.setShim 1 sh') := by
      simp only [Net.step, hincoming, hshim]
      rfl
    have hshim' : (n₁.setShim 1 sh').shims 1 = sh' := setShim_own
    refine ⟨_, .cons h₀ (h₁.snoc h₂), ⟨greeted_idle bytes hopen, ?_, ?_, ?_, ?_⟩, ?_, ?_⟩
    · rw [hshim']
    · rw [hshim']
      exact ⟨bytes, by simp [n₁, greeted, Net.setShim], by simp [sh']⟩
    · rw [hshim']
      rfl
    · rw [hshim']
      rfl
    · rw [hshim']
    · rw [hshim']
      rfl

/-- The steps of a call up to its response. -/
def calling (id : SessionId) (call : ApiCall) : List NetAction :=
  [.call id call, .broker (.readReq id (some call.request)), .broker .work,
    .broker (.recvReply id), .broker (.writeReply id true)]

/-- The request is on its way to the worker and the shim waits for the response. -/
def sending (n : Net S) (id : SessionId) (call : ApiCall) : Net S :=
  { n.setShim id { n.shims id with pc := .awaiting call, outbox := [], heard := none } with
    broker := n.broker.forward id call.request }

theorem sending_own {call : ApiCall} : (sending n id call).shims id =
    { n.shims id with pc := .awaiting call, outbox := [], heard := none } :=
  setShim_own

theorem run_sent {call : ApiCall} (hn : Connected n id f conn) (hreq : Carries J call.request) :
    Trace (fun n a n' => Net.step J n a = some n') n
      [.call id call, .broker (.readReq id (some call.request))] (sending n id call) := by
  obtain ⟨bytes, hwrite, hdecode⟩ := hreq
  let sh : Shim := { n.shims id with pc := .awaiting call, outbox := bytes, heard := none }
  have hcall : n.step J (.call id call) = some (n.setShim id sh) := by
    simp only [Net.step, hn.pc, Shim.send, hn.usable, hwrite, Bool.false_eq_true, if_false]
    simp [sh, hn.outbox]
  have hread := readMsg_writeMsg hwrite []
  rw [List.append_nil, hdecode] at hread
  have hdelivered : ((n.setShim id sh).shims id).delivered J (some call.request) =
      some { sh with outbox := [] } := by
    rw [setShim_own]
    simp [Shim.delivered, sh, hread]
  have hsocket : (n.setShim id sh).socket J (.readReq id (some call.request)) =
      some (n.setShim id { sh with outbox := [] }) := by
    rw [Net.socket, hdelivered]
    simp [Net.setShim]
  have hbroker : Broker.step J (n.setShim id sh).broker (.readReq id (some call.request)) =
      some (n.broker.forward id call.request) := step_read hn.idle _
  refine .cons hcall (.single ?_)
  simp only [Net.step, hsocket, hbroker]
  rfl

theorem apply_closed (db : ProxyDb) (resp : Response) : (db.apply resp).closed = db.closed := by
  unfold ProxyDb.apply
  cases resp.ok <;> rfl

theorem run_call {call : ApiCall} {out : Outcome S Response}
    (hn : Connected n id f conn) (hfits : Fits (sqlOf call.request))
    (hout : runOn f conn call.request = out) (hreq : Carries J call.request)
    (hresp : Carries J out.result) :
    ∃ n₁ n', Trace (fun n a n' => Net.step J n a = some n') n (calling id call) n₁ ∧
      n₁.step J (.recv id) = some n' ∧ n'.broker = n₁.broker ∧
      Connected n' id out.file out.conn ∧
      n'.broker.worker.holder = (if isExec call.request then
        settled n.broker.worker.holder id (!out.result.autocommit)
        else n.broker.worker.holder) ∧
      (n'.shims id).db = (n.shims id).db.apply out.result ∧
      (n'.shims id).loops = call.rowLoop (.ok out.result) ++ (n.shims id).loops ∧
      (n'.shims id).heard = some out.result := by
  obtain ⟨bytes, hwrite, hdecode⟩ := hresp
  subst hout
  set out := runOn f conn call.request
  obtain ⟨s₂, s₃, hwork, hrecv, hready⟩ :=
    run_ready (J := J) hn.idle (request_isClose call) hfits
  obtain ⟨s', hreply, hidle, hclient, hworker⟩ := ready_written hready hwrite
  have hserved := run_inner (n := sending n id call)
    (.cons hwork (.cons hrecv (.single hreply))) (by simp [Inner])
  let n₁ : Net S := { sending n id call with broker := s' }
  -- the frame of the response is all that the shim has not read
  obtain ⟨before, hsent, hseen⟩ := hn.wire
  have hsent' : (n₁.broker.clients id).sent.flatten = before ++ bytes := by
    change (s'.clients id).sent.flatten = _
    rw [hclient]
    simpa using hsent
  have hwire : OnWire (n₁.broker.clients id) (n₁.shims id) bytes :=
    ⟨before, hsent', by rw [show n₁.shims id = _ from sending_own]; exact hseen⟩
  have hincoming := incoming_frame (J := J) hwrite hwire
  rw [hdecode] at hincoming
  let sh : Shim := (n₁.shims id).respond call (.ok out.result) bytes.length
  have hstep : n₁.step J (.recv id) = some (n₁.setShim id sh) := by
    have hpc : (n₁.shims id).pc = .awaiting call := by
      rw [show n₁.shims id = _ from sending_own]
    simp only [Net.step, hincoming, hpc, sh]
  have hshim : (n₁.setShim id sh).shims id = { n.shims id with
      pc := .idle, db := (n.shims id).db.apply out.result, outbox := []
      loops := call.rowLoop (.ok out.result) ++ (n.shims id).loops
      seen := (n.shims id).seen + bytes.length, heard := some out.result } := by
    rw [setShim_own]
    simp only [sh, show n₁.shims id = _ from sending_own]
    rfl
  have hheld := hready.holder
  rw [← hworker] at hheld
  refine ⟨n₁, _, (run_sent hn hreq).append hserved, hstep, rfl, ⟨hidle, ?_, ?_, ?_, ?_⟩, hheld,
    ?_, ?_, ?_⟩
  · rw [hshim]
  · rw [hshim]
    exact ⟨before ++ bytes, hsent'.trans (List.append_nil _).symm, by simp [hseen]⟩
  · rw [hshim]
  · rw [hshim]
    exact (apply_closed _ _).trans hn.usable
  all_goals rw [hshim]

section Talk

variable {reqs : List (Request × Bytes)} {resps : List (Response × Bytes)}

/-- Messages that all cross a connection. -/
structure Spoken (reqs : List (Request × Bytes)) (resps : List (Response × Bytes)) : Prop where
  requests : (reqs.map Prod.fst).Nodup ∧ ∀ m ∈ reqs, lossless m.1 = true
  responses : (resps.map Prod.fst).Nodup ∧ ∀ m ∈ resps, lossless m.1 = true
  texts : (helloText :: (reqs.map Prod.snd ++ resps.map Prod.snd)).Nodup
  sizes : ∀ text ∈ helloText :: (reqs.map Prod.snd ++ resps.map Prod.snd),
    text ≠ [] ∧ text.length ≤ frameLimit

theorem messages_texts : (messages reqs resps).map Prod.snd =
    helloText :: (reqs.map Prod.snd ++ resps.map Prod.snd) := by
  simp [messages, Function.comp_def]

/-- The sizes of a talk whose requests and responses fit a frame. -/
theorem spoken_sizes (hreqs : ∀ m ∈ reqs, m.2 ≠ [] ∧ m.2.length ≤ frameLimit)
    (hresps : ∀ m ∈ resps, m.2 ≠ [] ∧ m.2.length ≤ frameLimit) :
    ∀ text ∈ helloText :: (reqs.map Prod.snd ++ resps.map Prod.snd),
      text ≠ [] ∧ text.length ≤ frameLimit := by
  refine List.forall_mem_cons.mpr ⟨hello_sized, List.forall_mem_append.mpr ⟨?_, ?_⟩⟩
  · exact List.forall_mem_map.mpr hreqs
  · exact List.forall_mem_map.mpr hresps

theorem Spoken.faithful (h : Spoken reqs resps) : (talk reqs resps).Faithful := by
  refine table_faithful ?_ ?_
  · rw [messages_texts]
    exact h.texts
  · rw [messages_texts]
    intro hnil
    exact (h.sizes [] hnil).1 rfl

theorem Spoken.carries {α : Type} [Wire α] {msg : α} {text : Bytes} (h : Spoken reqs resps)
    (hmsg : lossless msg = true) (he : (toJson msg, text) ∈ messages reqs resps) :
    Carries (talk reqs resps) msg := by
  have hkeys := messages_keys h.requests.1 h.responses.1 h.requests.2 h.responses.2
  have hmem : text ∈ (messages reqs resps).map Prod.snd := List.mem_map.mpr ⟨_, he, rfl⟩
  rw [messages_texts] at hmem
  refine table_carries hkeys ?_ (h.sizes text hmem).2 hmsg he
  rw [messages_texts]
  exact h.texts

theorem Spoken.hello (h : Spoken reqs resps) :
    Carries (talk reqs resps) (Broker.hello 1 (.ok ())) :=
  h.carries rfl (List.mem_cons_self ..)

theorem Spoken.request {req : Request} {text : Bytes} (h : Spoken reqs resps)
    (hreq : (req, text) ∈ reqs) : Carries (talk reqs resps) req :=
  h.carries (h.requests.2 _ hreq) (request_mem hreq)

theorem Spoken.response {resp : Response} {text : Bytes} (h : Spoken reqs resps)
    (hresp : (resp, text) ∈ resps) : Carries (talk reqs resps) resp :=
  h.carries (h.responses.2 _ hresp) (response_mem hresp)

end Talk

end SqliteBroker.ClientCalls
