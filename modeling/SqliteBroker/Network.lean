import SqliteBroker.CurrentReplies
import SqliteBroker.ShimConnection

/-!
The broker with its clients: every connection has a shim at its other end. A connection
delivers bytes in order and fails only when its shim is gone. Each action is a step of
the broker, with what it does to the connection, or a step of one client.
-/
namespace SqliteBroker.Network

open Utf8 Messages Engine Frames Runs BrokerWorker Threads ShimConnection

variable {S : Sqlite}

structure Net (S : Sqlite) where
  broker : Broker S
  shims : SessionId → Shim

inductive NetAction
  | broker (a : Action)
  | hello (id : SessionId)
  | call (id : SessionId) (call : ApiCall)
  | recv (id : SessionId)
  | callback (id : SessionId) (rc : Int32)
  | close (id : SessionId) (lastStatement : Bool)
  | vanish (id : SessionId)

/-- The thread has left its loop and its end of the connection is closed. -/
def hasReturned : ClientPc → Bool
  | .returned => true
  | _ => false

/-- What the broker has written and the shim has not read. -/
def unread (c : Client) (sh : Shim) : Bytes := c.sent.flatten.drop sh.seen

namespace Net

def init (f : S.File) : Net S := ⟨Broker.init f, fun _ => .new .absent⟩

def setShim (n : Net S) (id : SessionId) (sh : Shim) : Net S :=
  { n with shims := Function.update n.shims id sh }

/-- What a step of the broker needs of a connection and does to it. -/
def socket (J : SerdeJson) (n : Net S) : Action → Option (Net S)
  | .accept => some (n.setShim n.broker.nextSession (.new .connecting))
  | .writeHello id accepts => if accepts || (n.shims id).isGone then some n else none
  | .writeReply id accepts => if accepts || (n.shims id).isGone then some n else none
  | .readReq id req => ((n.shims id).delivered J req).map (n.setShim id)
  | _ => some n

/-- A message from the broker: `none` as long as it may still come. -/
def incoming {α : Type} [Serde.Wire α] (J : SerdeJson) (n : Net S) (id : SessionId) :
    Option (Except String α × ℕ) :=
  let stream := unread (n.broker.clients id) (n.shims id)
  match readMsg (α := α) J stream with
  | some (got, rest) => some (got, stream.length - rest.length)
  | none =>
    if hasReturned (n.broker.clients id).pc then some (.error unexpectedEof, stream.length)
    else none

def step (J : SerdeJson) (n : Net S) : NetAction → Option (Net S)
  | .broker a =>
    match n.socket J a, Broker.step J n.broker a with
    | some n', some b => some { n' with broker := b }
    | _, _ => none
  | .hello id =>
    match (n.shims id).pc, n.incoming (α := Hello) J id with
    | .connecting, some (got, read) => some (n.setShim id ((n.shims id).greeted got read))
    | _, _ => none
  | .call id call =>
    match (n.shims id).pc with
    | .idle => some (n.setShim id ((n.shims id).send J call))
    | _ => none
  | .recv id =>
    match (n.shims id).pc, n.incoming (α := Response) J id with
    | .awaiting call, some (got, read) =>
      some (n.setShim id ((n.shims id).respond call got read))
    | .closing, some _ => some (n.setShim id (n.shims id).leave)
    | _, _ => none
  | .callback id rc => ((n.shims id).callback rc).map (n.setShim id)
  | .close id lastStatement => ((n.shims id).close J lastStatement).map (n.setShim id)
  | .vanish id =>
    match (n.shims id).pc with
    | .absent => none
    | _ => some (n.setShim id (n.shims id).leave)

end Net

/-- A run of the broker and its clients from the start, with steps that meet `p`. -/
def NetRun (J : SerdeJson) (f : S.File) (p : Net S → NetAction → Prop)
    (acts : List NetAction) (n : Net S) : Prop :=
  Trace (fun n a n' => p n a ∧ Net.step J n a = some n') (Net.init f) acts n

section Projection

variable {J : SerdeJson} {n n' : Net S} {f : S.File}

theorem step_broker {a : Action} (h : n.step J (.broker a) = some n') :
    Broker.step J n.broker a = some n'.broker ∧
      ∃ m, n.socket J a = some m ∧ n'.shims = m.shims := by
  simp only [Net.step] at h
  split at h
  · next m b hsocket hb =>
    cases h
    exact ⟨hb, m, hsocket, rfl⟩
  · cases h

theorem setShim_own {id : SessionId} {sh : Shim} : (n.setShim id sh).shims id = sh :=
  Function.update_self _ _ _

/-- The session of an action of the client. -/
def clientOf : NetAction → Option SessionId
  | .broker _ => none
  | .hello id => some id
  | .call id _ => some id
  | .recv id => some id
  | .callback id _ => some id
  | .close id _ => some id
  | .vanish id => some id

/-- The steps of client `id`, each from its place, and what they make of its shim. -/
inductive ShimStep (J : SerdeJson) (n : Net S) (id : SessionId) : NetAction → Shim → Prop
  | hello {got : Except String Hello} {read : ℕ} (hpc : (n.shims id).pc = .connecting)
      (hgot : n.incoming (α := Hello) J id = some (got, read)) :
      ShimStep J n id (.hello id) ((n.shims id).greeted got read)
  | call {call : ApiCall} (hpc : (n.shims id).pc = .idle) :
      ShimStep J n id (.call id call) ((n.shims id).send J call)
  | recv {call : ApiCall} {got : Except String Response} {read : ℕ}
      (hpc : (n.shims id).pc = .awaiting call)
      (hgot : n.incoming (α := Response) J id = some (got, read)) :
      ShimStep J n id (.recv id) ((n.shims id).respond call got read)
  | closed (hpc : (n.shims id).pc = .closing) : ShimStep J n id (.recv id) (n.shims id).leave
  | abort {rc : Int32} {loop : RowLoop} {outer : List RowLoop} (hpc : (n.shims id).pc = .idle)
      (hloops : (n.shims id).loops = loop :: outer) (hrc : rc ≠ 0) :
      ShimStep J n id (.callback id rc) { n.shims id with
        db := (n.shims id).db.apply (callbackAborted loop.resp), loops := outer }
  | nextRow {loop : RowLoop} {outer : List RowLoop} (hpc : (n.shims id).pc = .idle)
      (hloops : (n.shims id).loops = loop :: outer) :
      ShimStep J n id (.callback id 0) { n.shims id with loops := loop.next ++ outer }
  | close {sent : Bytes} (hpc : (n.shims id).pc = .idle) (hloops : (n.shims id).loops = [])
      (hsent : sent = (n.shims id).outbox ∨
        ∃ bytes, writeMsg J Request.close = .ok bytes ∧ sent = (n.shims id).outbox ++ bytes) :
      ShimStep J n id (.close id true) { n.shims id with
        pc := .closing
        db := { (n.shims id).db with closed := true }
        outbox := sent
        heard := none }
  | closeLater (hpc : (n.shims id).pc = .idle) :
      ShimStep J n id (.close id false) { n.shims id with
        db := { (n.shims id).db with closed := true } }
  | vanish (hpc : (n.shims id).pc ≠ .absent) : ShimStep J n id (.vanish id) (n.shims id).leave

theorem shim_step {a : NetAction} {id : SessionId} (h : n.step J a = some n')
    (hid : clientOf a = some id) : ∃ sh, n' = n.setShim id sh ∧ ShimStep J n id a sh := by
  cases a with
  | broker a => cases hid
  | hello i =>
    cases hid
    simp only [Net.step] at h
    split at h
    · next hpc hgot =>
      cases h
      exact ⟨_, rfl, .hello hpc hgot⟩
    · cases h
  | call i call =>
    cases hid
    simp only [Net.step] at h
    split at h
    · next hpc =>
      cases h
      exact ⟨_, rfl, .call hpc⟩
    · cases h
  | recv i =>
    cases hid
    simp only [Net.step] at h
    split at h
    · next hpc hgot =>
      cases h
      exact ⟨_, rfl, .recv hpc hgot⟩
    · next hpc _ =>
      cases h
      exact ⟨_, rfl, .closed hpc⟩
    · cases h
  | callback i rc =>
    cases hid
    obtain ⟨sh, hsh, rfl⟩ := Option.map_eq_some_iff.mp h
    refine ⟨sh, rfl, ?_⟩
    unfold Shim.callback at hsh
    split at hsh
    · next hpc hloops =>
      split at hsh
      · next hrc =>
        cases hsh
        exact .abort hpc hloops hrc
      · next hrc =>
        cases hsh
        obtain rfl : rc = 0 := not_not.mp hrc
        exact .nextRow hpc hloops
    · cases hsh
  | close i lastStatement =>
    cases hid
    obtain ⟨sh, hsh, rfl⟩ := Option.map_eq_some_iff.mp h
    refine ⟨sh, rfl, ?_⟩
    unfold Shim.close at hsh
    split at hsh
    · next hpc hloops =>
      cases hsh
      refine .close hpc hloops ?_
      cases hwrite : writeMsg J Request.close with
      | ok bytes => exact Or.inr ⟨bytes, rfl, rfl⟩
      | error err => exact Or.inl rfl
    · next hpc =>
      cases hsh
      exact .closeLater hpc
    · cases hsh
  | vanish i =>
    cases hid
    simp only [Net.step] at h
    split at h
    · cases h
    · next hpc =>
      cases h
      exact ⟨_, rfl, .vanish hpc⟩

theorem action_cases (a : NetAction) : (∃ b, a = .broker b) ∨ ∃ id, clientOf a = some id := by
  cases a with
  | broker b => exact Or.inl ⟨b, rfl⟩
  | _ => exact Or.inr ⟨_, rfl⟩

/-- To the broker a step of a client is no step. -/
theorem step_cases {a : NetAction} (h : n.step J a = some n') :
    n'.broker = n.broker ∨ ∃ b, Broker.step J n.broker b = some n'.broker := by
  rcases action_cases a with ⟨b, rfl⟩ | ⟨id, hid⟩
  · exact Or.inr ⟨b, (step_broker h).1⟩
  · obtain ⟨sh, rfl, _⟩ := shim_step h hid
    exact Or.inl rfl

theorem broker_alive_of_step {a : NetAction} (h : n.step J a = some n')
    (halive : n'.broker.alive = true) : n.broker.alive = true := by
  rcases step_cases h with hsame | ⟨b, hb⟩
  · rw [← hsame]
    exact halive
  · exact alive_of_step hb halive

/-- The broker's part of a run is a run of the broker. -/
theorem broker_run {p : Net S → NetAction → Prop} {acts : List NetAction}
    (h : NetRun J f p acts n) : ∃ own, Run J f own n.broker := by
  refine Trace.invariant (P := fun n : Net S => ∃ own, Run J f own n.broker) ?_ h ⟨[], .nil _⟩
  rintro n a n' ⟨own, hrun⟩ ⟨_, hstep⟩
  rcases step_cases hstep with hsame | ⟨b, hb⟩
  · exact ⟨own, by rw [hsame]; exact hrun⟩
  · exact ⟨own ++ [b], Trace.snoc hrun hb⟩

end Projection

end SqliteBroker.Network
