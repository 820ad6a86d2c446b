import SqliteBroker.Sessions
import SqliteBroker.Frames

/-!
The broker as a whole: the worker, its job channel and one `client_loop` thread for
each connection. An action is one step of one thread between two operations that
other threads can see; the environment chooses the order of actions, the requests on
the wire and when a socket fails. A call that does not return, a write to a client that
does not read or a statement with rows without end, is an action that never comes. A
panic of the worker closes all its channels.
-/
namespace SqliteBroker.Threads

open Utf8 Messages Engine Serde Frames BrokerWorker WorkerLog ArrivalOrder

/-- Where a `client_loop` thread stands. -/
inductive ClientPc
  | absent
  | starting
  | opening (reply : Chan)
  | greeting (opened : Except String Unit)
  | reading
  | waiting (reply : Chan) (isClose : Bool)
  | writing (resp : Response) (isClose : Bool)
  | dropping (reply : Chan)
  | returned

/-- `sent` holds the frames written so far; `requests`, as ghost state, the requests
read so far with their reply channels. -/
structure Client where
  pc : ClientPc
  sent : List Bytes
  requests : List (Request × Chan)

/-- `handled` is ghost state: the jobs the worker has taken. Session numbers do not
wrap around here; `NEXT_SESSION` has 64 bits. -/
structure Broker (S : Sqlite) where
  worker : Worker S
  alive : Bool
  jobs : List Job
  nextSession : SessionId
  nextChan : Chan
  clients : SessionId → Client
  handled : List Job

inductive Action
  | accept
  | sendOpen (id : SessionId)
  | recvOpen (id : SessionId)
  | writeHello (id : SessionId) (accepts : Bool)
  | readReq (id : SessionId) (req : Option Request)
  | recvReply (id : SessionId)
  | writeReply (id : SessionId) (accepts : Bool)
  | recvDrop (id : SessionId)
  | work

variable {S : Sqlite}

namespace Broker

def init (f : S.File) : Broker S :=
  ⟨Worker.new f, true, [], 1, 0, fun _ => ⟨.absent, [], []⟩, []⟩

def setClient (s : Broker S) (id : SessionId) (c : Client) : Broker S :=
  { s with clients := Function.update s.clients id c }

def enter (s : Broker S) (id : SessionId) (pc : ClientPc) : Broker S :=
  s.setClient id { s.clients id with pc := pc }

/-- A job on the channel, with a new reply channel; the send fails without a worker. -/
def sendJob (s : Broker S) (id : SessionId) (job : Chan → Job) (pc : Chan → ClientPc) :
    Broker S :=
  if s.alive then
    let sent : Broker S := { s with jobs := s.jobs ++ [job s.nextChan], nextChan := s.nextChan + 1 }
    sent.enter id (pc s.nextChan)
  else s.enter id .returned

def dropRemote (s : Broker S) (id : SessionId) : Broker S :=
  s.sendJob id (.drop id) .dropping

/-- A receive: it waits while the channel is empty and fails when its sender is gone. -/
def receive {α : Type} (s : Broker S) (id : SessionId) (got : Option α) (pc : α → ClientPc) :
    Option (Broker S) :=
  match got with
  | some a => some (s.enter id (pc a))
  | none => if s.alive then none else some (s.enter id .returned)

/-- `write_msg` on a socket: it fails when the message is too large for a frame or
the socket does not accept it. -/
def writeFrame {α : Type} [Wire α] (J : SerdeJson) (s : Broker S) (id : SessionId) (msg : α)
    (accepts : Bool) : Option (Broker S) :=
  match writeMsg J msg with
  | .ok bytes =>
    if accepts then
      some (s.setClient id { s.clients id with sent := (s.clients id).sent ++ [bytes] })
    else none
  | .error _ => none

def hello (id : SessionId) : Except String Unit → Hello
  | .ok () => ⟨true, .ofNat id, none⟩
  | .error err => ⟨false, .ofNat id, some err⟩

/-- The Hello frame and what follows it. -/
def greet (J : SerdeJson) (s : Broker S) (id : SessionId) (opened : Except String Unit)
    (accepts : Bool) : Broker S :=
  match opened, s.writeFrame J id (hello id opened) accepts with
  | .ok _, some s' => s'.enter id .reading
  | .ok _, none => s.dropRemote id
  | .error _, some s' => s'.enter id .returned
  | .error _, none => s.enter id .returned

/-- The Response frame and what follows it. -/
def reply (J : SerdeJson) (s : Broker S) (id : SessionId) (resp : Response)
    (isClose accepts : Bool) : Broker S :=
  match s.writeFrame J id resp accepts with
  | none => if !isClose then s.dropRemote id else s.enter id .returned
  | some s' => if isClose then s'.enter id .returned else s'.enter id .reading

/-- The request just read goes to the worker. -/
def forward (s : Broker S) (id : SessionId) (req : Request) : Broker S :=
  let s' := s.sendJob id (.req id req) (fun ch => .waiting ch req.isClose)
  if s.alive then
    s'.setClient id
      { s'.clients id with requests := (s.clients id).requests ++ [(req, s.nextChan)] }
  else s'

/-- The worker takes the next job. -/
def takeJob (s : Broker S) : Option (Broker S) :=
  match s.alive, s.jobs with
  | true, j :: rest =>
    match s.worker.handle j with
    | .ok w => some { s with worker := w, jobs := rest, handled := s.handled ++ [j] }
    | .error w =>
      some { s with worker := w, alive := false, jobs := [], handled := s.handled ++ [j] }
  | _, _ => none

def step (J : SerdeJson) (s : Broker S) : Action → Option (Broker S)
  | .accept =>
    let numbered : Broker S := { s with nextSession := s.nextSession + 1 }
    some (numbered.enter s.nextSession .starting)
  | .sendOpen id =>
    match (s.clients id).pc with
    | .starting => some (s.sendJob id (.openConn id) .opening)
    | _ => none
  | .recvOpen id =>
    match (s.clients id).pc with
    | .opening ch => s.receive id (s.worker.opens.lookup ch) .greeting
    | _ => none
  | .writeHello id accepts =>
    match (s.clients id).pc with
    | .greeting opened => some (s.greet J id opened accepts)
    | _ => none
  | .readReq id req =>
    match (s.clients id).pc, req with
    | .reading, some req => some (s.forward id req)
    | .reading, none => some (s.dropRemote id)
    | _, _ => none
  | .recvReply id =>
    match (s.clients id).pc with
    | .waiting ch isClose =>
      s.receive id (s.worker.responses.lookup ch) (fun resp => .writing resp isClose)
    | _ => none
  | .writeReply id accepts =>
    match (s.clients id).pc with
    | .writing resp isClose => some (s.reply J id resp isClose accepts)
    | _ => none
  | .recvDrop id =>
    match (s.clients id).pc with
    | .dropping ch =>
      s.receive id (if ch ∈ s.worker.drops then some () else none) (fun _ => .returned)
    | _ => none
  | .work => s.takeJob

end Broker

/-- A run of the system from its start. -/
def Run (J : SerdeJson) (f : S.File) (acts : List Action) (s : Broker S) : Prop :=
  Runs.Trace (fun s a s' => Broker.step J s a = some s') (Broker.init f) acts s

section Frame

variable {J : SerdeJson} {s s' : Broker S} {a : Action} {id : SessionId} {sends : Pending → Prop}

/-- What a step of thread `id` may change: its own client and the end of the job
channel, where `sends` tells which requests it may send. -/
structure ClientStep (id : SessionId) (sends : Pending → Prop) (s s' : Broker S) : Prop where
  worker : s'.worker = s.worker
  alive : s'.alive = s.alive
  handled : s'.handled = s.handled
  jobs : s'.jobs = s.jobs ∨
    ∃ j, s'.jobs = s.jobs ++ [j] ∧ ∀ p, j.request = some p → sends p
  others : ∀ i, i ≠ id → s'.clients i = s.clients i
  grows : s.nextSession ≤ s'.nextSession

theorem clientStep_refl (s : Broker S) : ClientStep id sends s s :=
  ⟨rfl, rfl, rfl, Or.inl rfl, fun _ _ => rfl, Nat.le_refl _⟩

theorem ClientStep.setClient (h : ClientStep id sends s s') (c : Client) :
    ClientStep id sends s (s'.setClient id c) := by
  refine ⟨h.worker, h.alive, h.handled, h.jobs, ?_, h.grows⟩
  intro i hi
  rw [← h.others i hi]
  exact Function.update_of_ne hi _ _

theorem clientStep_sendJob {job : Chan → Job} {pc : Chan → ClientPc}
    (hjob : ∀ p, (job s.nextChan).request = some p → sends p) :
    ClientStep id sends s (s.sendJob id job pc) := by
  unfold Broker.sendJob
  split
  · refine ⟨rfl, rfl, rfl, Or.inr ⟨job s.nextChan, rfl, hjob⟩, ?_, Nat.le_refl _⟩
    intro i hi
    exact Function.update_of_ne hi _ _
  · exact (clientStep_refl s).setClient _

theorem clientStep_dropRemote (s : Broker S) (id : SessionId) :
    ClientStep id sends s (s.dropRemote id) :=
  clientStep_sendJob (fun _ hp => by cases hp)

theorem clientStep_receive {α : Type} {got : Option α} {pc : α → ClientPc}
    (h : s.receive id got pc = some s') : ClientStep id sends s s' := by
  unfold Broker.receive at h
  cases got with
  | some a =>
    cases h
    exact (clientStep_refl s).setClient _
  | none =>
    dsimp only at h
    split at h
    · cases h
    · cases h
      exact (clientStep_refl s).setClient _

theorem writeFrame_some {α : Type} [Wire α] {msg : α} {accepts : Bool}
    (h : s.writeFrame J id msg accepts = some s') : ∃ bytes, writeMsg J msg = .ok bytes ∧
      accepts = true ∧
      s' = s.setClient id { s.clients id with sent := (s.clients id).sent ++ [bytes] } := by
  unfold Broker.writeFrame at h
  cases hwrite : writeMsg J msg with
  | error err => simp [hwrite] at h
  | ok bytes =>
    cases accepts with
    | false => simp [hwrite] at h
    | true =>
      simp only [hwrite, if_true, Option.some.injEq] at h
      exact ⟨bytes, rfl, rfl, h.symm⟩

theorem clientStep_writeFrame {α : Type} [Wire α] {msg : α} {accepts : Bool}
    (h : s.writeFrame J id msg accepts = some s') : ClientStep id sends s s' := by
  obtain ⟨bytes, _, _, rfl⟩ := writeFrame_some h
  exact (clientStep_refl s).setClient _

theorem clientStep_greet (opened : Except String Unit) (accepts : Bool) :
    ClientStep id sends s (s.greet J id opened accepts) := by
  unfold Broker.greet
  split
  · next hwrite => exact (clientStep_writeFrame hwrite).setClient _
  · exact clientStep_dropRemote s id
  · next hwrite => exact (clientStep_writeFrame hwrite).setClient _
  · exact (clientStep_refl s).setClient _

theorem clientStep_reply (resp : Response) (isClose accepts : Bool) :
    ClientStep id sends s (s.reply J id resp isClose accepts) := by
  unfold Broker.reply
  split
  · split
    · exact clientStep_dropRemote s id
    · exact (clientStep_refl s).setClient _
  · next hwrite => split <;> exact (clientStep_writeFrame hwrite).setClient _

theorem clientStep_forward {req : Request}
    (hreq : ∀ p, (Job.req id req s.nextChan).request = some p → sends p) :
    ClientStep id sends s (s.forward id req) := by
  unfold Broker.forward
  dsimp only
  split
  · exact (clientStep_sendJob hreq).setClient _
  · exact clientStep_sendJob hreq

/-- The thread that takes a step. -/
def Broker.actor (s : Broker S) : Action → Option SessionId
  | .accept => some s.nextSession
  | .sendOpen id => some id
  | .recvOpen id => some id
  | .writeHello id _ => some id
  | .readReq id _ => some id
  | .recvReply id => some id
  | .writeReply id _ => some id
  | .recvDrop id => some id
  | .work => none

/-- The steps of thread `id`, each from its place. -/
inductive ThreadStep (J : SerdeJson) (s : Broker S) (id : SessionId) : Action → Broker S → Prop
  | accept (hid : s.nextSession = id) : ThreadStep J s id .accept
      (Broker.enter { s with nextSession := s.nextSession + 1 } id .starting)
  | sendOpen (hpc : (s.clients id).pc = .starting) :
      ThreadStep J s id (.sendOpen id) (s.sendJob id (.openConn id) .opening)
  | recvOpen {ch : Chan} {s' : Broker S} (hpc : (s.clients id).pc = .opening ch)
      (h : s.receive id (s.worker.opens.lookup ch) .greeting = some s') :
      ThreadStep J s id (.recvOpen id) s'
  | writeHello {opened : Except String Unit} {accepts : Bool}
      (hpc : (s.clients id).pc = .greeting opened) :
      ThreadStep J s id (.writeHello id accepts) (s.greet J id opened accepts)
  | read {req : Request} (hpc : (s.clients id).pc = .reading) :
      ThreadStep J s id (.readReq id (some req)) (s.forward id req)
  | readFails (hpc : (s.clients id).pc = .reading) :
      ThreadStep J s id (.readReq id none) (s.dropRemote id)
  | recvReply {ch : Chan} {isClose : Bool} {s' : Broker S}
      (hpc : (s.clients id).pc = .waiting ch isClose)
      (h : s.receive id (s.worker.responses.lookup ch) (fun resp => .writing resp isClose) =
        some s') : ThreadStep J s id (.recvReply id) s'
  | writeReply {resp : Response} {isClose accepts : Bool}
      (hpc : (s.clients id).pc = .writing resp isClose) :
      ThreadStep J s id (.writeReply id accepts) (s.reply J id resp isClose accepts)
  | recvDrop {ch : Chan} {s' : Broker S} (hpc : (s.clients id).pc = .dropping ch)
      (h : s.receive id (if ch ∈ s.worker.drops then some () else none) (fun _ => .returned) =
        some s') : ThreadStep J s id (.recvDrop id) s'

theorem thread_step (h : Broker.step J s a = some s') (hid : s.actor a = some id) :
    ThreadStep J s id a s' := by
  cases a with
  | accept =>
    cases hid
    cases h
    exact .accept rfl
  | work => cases hid
  | sendOpen i =>
    cases hid
    simp only [Broker.step] at h
    split at h
    · next hpc =>
      cases h
      exact .sendOpen hpc
    · cases h
  | recvOpen i =>
    cases hid
    simp only [Broker.step] at h
    split at h
    · next hpc => exact .recvOpen hpc h
    · cases h
  | writeHello i accepts =>
    cases hid
    simp only [Broker.step] at h
    split at h
    · next hpc =>
      cases h
      exact .writeHello hpc
    · cases h
  | readReq i req =>
    cases hid
    simp only [Broker.step] at h
    split at h
    · next hpc =>
      cases h
      exact .read hpc
    · next hpc =>
      cases h
      exact .readFails hpc
    · cases h
  | recvReply i =>
    cases hid
    simp only [Broker.step] at h
    split at h
    · next hpc => exact .recvReply hpc h
    · cases h
  | writeReply i accepts =>
    cases hid
    simp only [Broker.step] at h
    split at h
    · next hpc =>
      cases h
      exact .writeReply hpc
    · cases h
  | recvDrop i =>
    cases hid
    simp only [Broker.step] at h
    split at h
    · next hpc => exact .recvDrop hpc h
    · cases h

/-- Only an accept makes a thread. -/
theorem ThreadStep.born (h : ThreadStep J s id a s') (haccept : a ≠ .accept) :
    (s.clients id).pc ≠ .absent := by
  intro habsent
  cases h with
  | accept => exact haccept rfl
  | sendOpen hpc => cases habsent.symm.trans hpc
  | recvOpen hpc => cases habsent.symm.trans hpc
  | writeHello hpc => cases habsent.symm.trans hpc
  | read hpc => cases habsent.symm.trans hpc
  | readFails hpc => cases habsent.symm.trans hpc
  | recvReply hpc => cases habsent.symm.trans hpc
  | writeReply hpc => cases habsent.symm.trans hpc
  | recvDrop hpc => cases habsent.symm.trans hpc

/-- A client thread leaves the worker and all other threads to themselves, and it
sends on what it has read. -/
theorem ThreadStep.frame (h : ThreadStep J s id a s') :
    ClientStep id (fun p => a = .readReq p.id (some p.req)) s s' := by
  cases h with
  | accept =>
    refine ⟨rfl, rfl, rfl, Or.inl rfl, ?_, Nat.le_succ _⟩
    intro i hi
    exact Function.update_of_ne hi _ _
  | sendOpen => exact clientStep_sendJob (fun _ hp => by cases hp)
  | recvOpen _ h => exact clientStep_receive h
  | writeHello => exact clientStep_greet _ _
  | read =>
    refine clientStep_forward (fun p hp => ?_)
    injection job_of_request hp with hid hreq _
    rw [hid, hreq]
  | readFails => exact clientStep_dropRemote s id
  | recvReply _ h => exact clientStep_receive h
  | writeReply => exact clientStep_reply _ _ _
  | recvDrop _ h => exact clientStep_receive h

theorem step_client (h : Broker.step J s a = some s') (hid : s.actor a = some id) :
    ClientStep id (fun p => a = .readReq p.id (some p.req)) s s' :=
  (thread_step h hid).frame

/-- The two outcomes of the worker's step. -/
theorem step_work (h : Broker.step J s .work = some s') :
    s.alive = true ∧ ∃ j rest, s.jobs = j :: rest ∧ ((∃ w, s.worker.handle j = .ok w ∧
        s' = { s with worker := w, jobs := rest, handled := s.handled ++ [j] }) ∨
      ∃ w, s.worker.handle j = .error w ∧
        s' = { s with worker := w, alive := false, jobs := [], handled := s.handled ++ [j] }) := by
  simp only [Broker.step, Broker.takeJob] at h
  split at h
  · next j rest halive hjobs =>
    refine ⟨halive, j, rest, hjobs, ?_⟩
    split at h
    · next w hw =>
      cases h
      exact Or.inl ⟨w, hw, rfl⟩
    · next w hw =>
      cases h
      exact Or.inr ⟨w, hw, rfl⟩
  · cases h

theorem actor_cases (s : Broker S) (a : Action) : a = .work ∨ ∃ id, s.actor a = some id := by
  cases a with
  | work => exact Or.inl rfl
  | _ => exact Or.inr ⟨_, rfl⟩

/-- A broker that lives after a step lived before it. -/
theorem alive_of_step (h : Broker.step J s a = some s') (halive : s'.alive = true) :
    s.alive = true := by
  rcases actor_cases s a with rfl | ⟨id, hid⟩
  · exact (step_work h).1
  · rw [← (step_client h hid).alive]
    exact halive

end Frame

section Own

variable {J : SerdeJson} {s s' : Broker S} {id : SessionId}

theorem enter_own (s : Broker S) (id : SessionId) (pc : ClientPc) :
    (s.enter id pc).clients id = { s.clients id with pc := pc } :=
  Function.update_self _ _ _

theorem sendJob_own (s : Broker S) (id : SessionId) (job : Chan → Job) (pc : Chan → ClientPc) :
    (s.sendJob id job pc).clients id =
      { s.clients id with pc := if s.alive then pc s.nextChan else .returned } := by
  unfold Broker.sendJob
  cases s.alive
  · exact enter_own s id _
  · exact enter_own { s with jobs := _, nextChan := _ } id _

theorem receive_own {α : Type} {got : Option α} {pc : α → ClientPc}
    (h : s.receive id got pc = some s') :
    (∃ x, got = some x ∧ s'.clients id = { s.clients id with pc := pc x }) ∨
      (s.alive = false ∧ s'.clients id = { s.clients id with pc := .returned }) := by
  unfold Broker.receive at h
  cases got with
  | some x =>
    cases h
    exact Or.inl ⟨x, rfl, enter_own s id _⟩
  | none =>
    cases halive : s.alive with
    | true => simp [halive] at h
    | false =>
      simp only [halive, Bool.false_eq_true, if_false, Option.some.injEq] at h
      rw [← h]
      exact Or.inr ⟨rfl, enter_own s id _⟩

/-- A frame that is written, and the place after it. -/
theorem writeFrame_own {α : Type} [Wire α] {msg : α} {accepts : Bool} {t : Broker S}
    (h : s.writeFrame J id msg accepts = some t) (pc : ClientPc) :
    ∃ bytes, writeMsg J msg = .ok bytes ∧ (t.enter id pc).clients id =
      { s.clients id with pc := pc, sent := (s.clients id).sent ++ [bytes] } := by
  obtain ⟨bytes, hwrite, _, rfl⟩ := writeFrame_some h
  refine ⟨bytes, hwrite, ?_⟩
  rw [enter_own]
  simp [Broker.setClient]

theorem forward_own (s : Broker S) (id : SessionId) (req : Request) :
    (s.forward id req).clients id = if s.alive then { s.clients id with
      pc := .waiting s.nextChan req.isClose
      requests := (s.clients id).requests ++ [(req, s.nextChan)] }
    else { s.clients id with pc := .returned } := by
  unfold Broker.forward
  dsimp only
  cases halive : s.alive with
  | true =>
    simp only [if_true]
    change Function.update _ id _ id = _
    rw [Function.update_self, sendJob_own, halive]
    rfl
  | false =>
    simp only [Bool.false_eq_true, if_false]
    rw [sendJob_own, halive]
    rfl

end Own

end SqliteBroker.Threads
