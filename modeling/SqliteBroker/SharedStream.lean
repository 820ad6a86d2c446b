import SqliteBroker.Lockstep
import SqliteBroker.NumberedReplies
import SqliteBroker.SharedHandle

/-!
The threads of a shared handle at the broker. The connection of their session delivers
bytes in order; the lock of the stream is held from a request to its response, so a
request and a response are one step each. Every call has a ticket of its own, and as ghost
state the requests on the stream and the response frames taken from it are kept with the
tickets of their calls.
-/
namespace SqliteBroker.SharedStream

open Utf8 Messages Engine Serde Frames BrokerWorker WorkerLog Runs Threads ShimConnection
  SharedHandle Lockstep ReplyFrames NumberedReplies

variable {S : Sqlite}

/-- A thread, and how many calls it has started. -/
abbrev Ticket := ThreadId × ℕ

/-- A request that a call has written. -/
structure Question where
  ticket : Ticket
  call : ApiCall
  frame : Bytes

/-- A response frame that a call has consumed. -/
structure Consumed where
  ticket : Ticket
  frame : Bytes

/-- `outbox` is what the broker has yet to read from the session `id`, and `seen` what has
been read of its frames. -/
structure SharedNet (S : Sqlite) where
  broker : Broker S
  shared : Shared
  connected : Bool
  outbox : Bytes
  seen : ℕ
  begun : ThreadId → ℕ
  asked : List Question
  heard : List Consumed

/-- `work` is a step of a thread outside the stream. -/
inductive SharedAction
  | broker (a : Action)
  | connect
  | write (t : ThreadId)
  | read (t : ThreadId)
  | work (a : Act)

namespace SharedNet

def init (f : S.File) : SharedNet S :=
  ⟨Broker.init f, .init, false, [], 0, fun _ => 0, [], []⟩

/-- The broker reads the next request from the connection. -/
def delivered (J : SerdeJson) (n : SharedNet S) (req : Option Request) : Option (SharedNet S) :=
  match readMsg (α := Request) J n.outbox, req with
  | some (.ok r, rest), some req => if r = req then some { n with outbox := rest } else none
  | some (.error _, rest), none => some { n with outbox := rest }
  | _, _ => none

/-- What a step of the broker needs of the connection of session `id`. -/
def socket (J : SerdeJson) (id : SessionId) (n : SharedNet S) : Action → Option (SharedNet S)
  | .readReq i req => if i = id then n.delivered J req else some n
  | .writeHello i accepts => if i = id ∧ accepts = false then none else some n
  | .writeReply i accepts => if i = id ∧ accepts = false then none else some n
  | _ => some n

/-- What the broker has written to session `id` and nobody has read. -/
def unread (n : SharedNet S) (id : SessionId) : Bytes :=
  (n.broker.clients id).sent.flatten.drop n.seen

/-- The thread of the session has left its loop and closed the connection. -/
def hungUp (n : SharedNet S) (id : SessionId) : Bool :=
  match (n.broker.clients id).pc with
  | .returned => true
  | _ => false

/-- `connect` returns a handle on a good Hello. -/
def connect (J : SerdeJson) (id : SessionId) (n : SharedNet S) : Option (SharedNet S) :=
  match n.connected, readMsg (α := Hello) J (n.unread id) with
  | false, some (.ok hello, rest) =>
    if hello.ok then
      some { n with connected := true, seen := n.seen + ((n.unread id).length - rest.length) }
    else none
  | _, _ => none

/-- The request of a call under the lock of the stream; it is written whole or not at all. -/
def write (J : SerdeJson) (n : SharedNet S) (t : ThreadId) : Option (SharedNet S) :=
  match n.shared.pcs t with
  | .unsent call =>
    match writeMsg J call.request with
    | .ok bytes =>
      (n.shared.step (.write t (.ok ()))).map (fun shared =>
        { n with
          shared
          outbox := n.outbox ++ bytes
          asked := n.asked ++ [⟨(t, n.begun t), call, bytes⟩] })
    | .error err => (n.shared.step (.write t (.error err))).map (fun shared => { n with shared })
  | _ => none

/-- The response frame of a call; without one the read waits until the broker hangs up. -/
def read (J : SerdeJson) (id : SessionId) (n : SharedNet S) (t : ThreadId) :
    Option (SharedNet S) :=
  let stream := n.unread id
  match readMsg (α := Response) J stream with
  | some (got, rest) =>
    let len := stream.length - rest.length
    (n.shared.step (.read t got)).map (fun shared =>
      { n with
        shared
        seen := n.seen + len
        heard := n.heard ++ [⟨(t, n.begun t), stream.take len⟩] })
  | none =>
    if n.hungUp id then
      (n.shared.step (.read t (.error unexpectedEof))).map (fun shared =>
        { n with shared, seen := n.seen + stream.length })
    else none

def work (n : SharedNet S) (a : Act) : Option (SharedNet S) :=
  match a with
  | .write _ _ => none
  | .read _ _ => none
  | .start t _ =>
    (n.shared.step a).map (fun shared =>
      { n with shared, begun := Function.update n.begun t (n.begun t + 1) })
  | _ => (n.shared.step a).map (fun shared => { n with shared })

def step (J : SerdeJson) (id : SessionId) (n : SharedNet S) : SharedAction → Option (SharedNet S)
  | .broker a =>
    match n.socket J id a, Broker.step J n.broker a with
    | some n', some b => some { n' with broker := b }
    | _, _ => none
  | .connect => n.connect J id
  | .write t => if n.connected then n.write J t else none
  | .read t => if n.connected then n.read J id t else none
  | .work a => if n.connected then n.work a else none

end SharedNet

variable {J : SerdeJson} {id : SessionId} {n n' : SharedNet S}

section Threads

variable {s s' : Shared} {a : Act}

def awaits : CallPc → Option ApiCall
  | .awaiting call => some call
  | _ => none

/-- A call that has not reached the stream. -/
def Asking : CallPc → Prop
  | .checking _ => True
  | .unsent _ => True
  | _ => False

/-- A step outside the stream leaves its lock alone, and no call gets to it or leaves it. -/
structure Outside (a : Act) (s s' : Shared) : Prop where
  holder : s'.holder = s.holder
  awaits : ∀ t, awaits (s'.pcs t) = awaits (s.pcs t)
  asking : ∀ t, Asking (s'.pcs t) → Asking (s.pcs t) ∨ ∃ call, a = .start t call

/-- One thread goes from one place outside the stream to another. -/
theorem outside_of_pcs {t : ThreadId} {pc : CallPc} (hpcs : s'.pcs = Function.update s.pcs t pc)
    (hholder : s'.holder = s.holder) (hold : awaits (s.pcs t) = none) (hnew : awaits pc = none)
    (hasking : Asking pc → Asking (s.pcs t) ∨ ∃ call, a = .start t call) : Outside a s s' := by
  have hpcs' : ∀ i, s'.pcs i = if i = t then pc else s.pcs i := by
    intro i
    rw [hpcs]
    exact Function.update_apply ..
  refine ⟨hholder, fun i => ?_, fun i hi => ?_⟩
  · rw [hpcs']
    split
    · next heq => rw [hnew, heq, hold]
    · rfl
  · rw [hpcs'] at hi
    split at hi
    · next heq => exact heq ▸ hasking hi
    · exact .inl hi

theorem settled_quiet (call : ApiCall) (got : Except String Response) :
    awaits (Shared.settled call got) = none ∧ ¬ Asking (Shared.settled call got) := by
  unfold Shared.settled
  cases got with
  | error err => exact ⟨rfl, fun h => h⟩
  | ok resp =>
    dsimp only
    split
    · split <;> exact ⟨rfl, fun h => h⟩
    · exact ⟨rfl, fun h => h⟩

theorem step_outside (hwrite : ∀ t sent, a ≠ .write t sent) (hread : ∀ t got, a ≠ .read t got)
    (h : s.step a = some s') : Outside a s s' := by
  cases Shared.handle_step h with
  | write | writeFails => exact absurd rfl (hwrite _ _)
  | read => exact absurd rfl (hread _ _)
  | start hpc => exact outside_of_pcs rfl rfl (by rw [hpc]; rfl) rfl (fun _ => .inr ⟨_, rfl⟩)
  | check hpc =>
    exact outside_of_pcs rfl rfl (by rw [hpc]; rfl) rfl (fun _ => .inl (by rw [hpc]; trivial))
  | settle hpc =>
    exact outside_of_pcs rfl rfl (by rw [hpc]; rfl) (settled_quiet _ _).1
      (fun h => ((settled_quiet _ _).2 h).elim)
  | close => exact ⟨rfl, fun _ => rfl, fun _ hi => .inl hi⟩
  | _ hpc => exact outside_of_pcs rfl rfl (by rw [hpc]; rfl) rfl (fun h => h.elim)

end Threads

section Actions

/-- The steps of the network; those on the stream tell what they make of the handle. -/
inductive NetStep (J : SerdeJson) (id : SessionId) (n : SharedNet S) :
    SharedAction → SharedNet S → Prop
  | deliver {req : Request} {rest : Bytes} {b : Broker S}
      (hread : readMsg (α := Request) J n.outbox = some (.ok req, rest))
      (hb : Broker.step J n.broker (.readReq id (some req)) = some b) :
      NetStep J id n (.broker (.readReq id (some req))) { n with outbox := rest, broker := b }
  | garble {err : String} {rest : Bytes} {b : Broker S}
      (hread : readMsg (α := Request) J n.outbox = some (.error err, rest))
      (hb : Broker.step J n.broker (.readReq id none) = some b) :
      NetStep J id n (.broker (.readReq id none)) { n with outbox := rest, broker := b }
  | calm {a : Action} {b : Broker S} (ha : ∀ req, a ≠ .readReq id req)
      (hb : Broker.step J n.broker a = some b) :
      NetStep J id n (.broker a) { n with broker := b }
  | connect {hello : Hello} {rest : Bytes} (hno : n.connected = false)
      (hread : readMsg (α := Hello) J (n.unread id) = some (.ok hello, rest)) :
      NetStep J id n .connect
        { n with connected := true, seen := n.seen + ((n.unread id).length - rest.length) }
  | write {t : ThreadId} {call : ApiCall} {bytes : Bytes} (hc : n.connected = true)
      (hpc : n.shared.pcs t = .unsent call) (hfree : n.shared.holder = none)
      (hwrite : writeMsg J call.request = .ok bytes) : NetStep J id n (.write t) { n with
        shared := { n.shared.enter t (.awaiting call) with holder := some t }
        outbox := n.outbox ++ bytes
        asked := n.asked ++ [⟨(t, n.begun t), call, bytes⟩] }
  | writeFails {t : ThreadId} {call : ApiCall} {err : String} (hc : n.connected = true)
      (hpc : n.shared.pcs t = .unsent call) (hwrite : writeMsg J call.request = .error err) :
      NetStep J id n (.write t) { n with
        shared := n.shared.enter t (.storing call (.error err) (failStores err)) }
  | read {t : ThreadId} {call : ApiCall} {got : Except String Response} {rest : Bytes}
      (hc : n.connected = true) (hpc : n.shared.pcs t = .awaiting call)
      (hread : readMsg (α := Response) J (n.unread id) = some (got, rest)) :
      NetStep J id n (.read t) { n with
        shared := { n.shared.enter t (.storing call got (heardStores got)) with holder := none }
        seen := n.seen + ((n.unread id).length - rest.length)
        heard := n.heard ++ [⟨(t, n.begun t),
          (n.unread id).take ((n.unread id).length - rest.length)⟩] }
  | readEnds {t : ThreadId} {call : ApiCall} (hc : n.connected = true)
      (hpc : n.shared.pcs t = .awaiting call)
      (hread : readMsg (α := Response) J (n.unread id) = none)
      (hreturned : (n.broker.clients id).pc = .returned) : NetStep J id n (.read t) { n with
        shared := { n.shared.enter t
          (.storing call (.error unexpectedEof) (failStores unexpectedEof)) with holder := none }
        seen := n.seen + (n.unread id).length }
  | start {t : ThreadId} {call : ApiCall} {shared : Shared} (hc : n.connected = true)
      (hstep : n.shared.step (.start t call) = some shared) :
      NetStep J id n (.work (.start t call))
        { n with shared, begun := Function.update n.begun t (n.begun t + 1) }
  | work {a : Act} {shared : Shared} (hc : n.connected = true)
      (hstart : ∀ t call, a ≠ .start t call) (hwrite : ∀ t sent, a ≠ .write t sent)
      (hread : ∀ t got, a ≠ .read t got) (hstep : n.shared.step a = some shared) :
      NetStep J id n (.work a) { n with shared }

theorem net_broker {a : Action} (h : n.step J id (.broker a) = some n') :
    NetStep J id n (.broker a) n' := by
  simp only [SharedNet.step] at h
  split at h
  · next n₁ b hsocket hb =>
    cases h
    cases a with
    | readReq i req =>
      by_cases hi : i = id
      · subst hi
        rw [SharedNet.socket, if_pos rfl] at hsocket
        unfold SharedNet.delivered at hsocket
        split at hsocket
        · next hread =>
          split at hsocket
          · next heq =>
            cases hsocket
            exact .deliver (heq ▸ hread) hb
          · cases hsocket
        · next hread =>
          cases hsocket
          exact .garble hread hb
        · cases hsocket
      · rw [SharedNet.socket, if_neg hi] at hsocket
        cases hsocket
        exact .calm (fun _ heq => hi (Action.readReq.inj heq).1) hb
    | writeHello i accepts =>
      rw [SharedNet.socket] at hsocket
      split at hsocket <;> cases hsocket
      exact .calm (by simp) hb
    | writeReply i accepts =>
      rw [SharedNet.socket] at hsocket
      split at hsocket <;> cases hsocket
      exact .calm (by simp) hb
    | _ =>
      cases hsocket
      exact .calm (by simp) hb
  · cases h

theorem net_write {t : ThreadId} (h : n.step J id (.write t) = some n') :
    NetStep J id n (.write t) n' := by
  simp only [SharedNet.step] at h
  split at h
  · next hc =>
    unfold SharedNet.write at h
    split at h
    · next call hpc =>
      split at h
      · next bytes hwrite =>
        obtain ⟨shared, hshared, rfl⟩ := Option.map_eq_some_iff.mp h
        cases Shared.handle_step hshared with
        | write hpc' hfree =>
          cases hpc.symm.trans hpc'
          exact .write hc hpc hfree hwrite
      · next err hwrite =>
        obtain ⟨shared, hshared, rfl⟩ := Option.map_eq_some_iff.mp h
        cases Shared.handle_step hshared with
        | writeFails hpc' =>
          cases hpc.symm.trans hpc'
          exact .writeFails hc hpc hwrite
    · cases h
  · cases h

theorem net_read {t : ThreadId} (h : n.step J id (.read t) = some n') :
    NetStep J id n (.read t) n' := by
  simp only [SharedNet.step] at h
  split at h
  · next hc =>
    unfold SharedNet.read at h
    dsimp only at h
    split at h
    · next hread =>
      obtain ⟨shared, hshared, rfl⟩ := Option.map_eq_some_iff.mp h
      cases Shared.handle_step hshared with
      | read hpc => exact .read hc hpc hread
    · next hread =>
      split at h
      · next hhung =>
        have hreturned : (n.broker.clients id).pc = .returned := by
          unfold SharedNet.hungUp at hhung
          split at hhung
          · assumption
          · cases hhung
        obtain ⟨shared, hshared, rfl⟩ := Option.map_eq_some_iff.mp h
        cases Shared.handle_step hshared with
        | read hpc => exact .readEnds hc hpc hread hreturned
      · cases h
  · cases h

theorem net_step {a : SharedAction} (h : n.step J id a = some n') : NetStep J id n a n' := by
  cases a with
  | broker a => exact net_broker h
  | connect =>
    simp only [SharedNet.step, SharedNet.connect] at h
    split at h
    · next hno hread =>
      split at h
      · cases h
        exact .connect hno hread
      · cases h
    · cases h
  | write t => exact net_write h
  | read t => exact net_read h
  | work a =>
    simp only [SharedNet.step] at h
    split at h
    · next hc =>
      unfold SharedNet.work at h
      split at h
      · cases h
      · cases h
      · obtain ⟨shared, hshared, rfl⟩ := Option.map_eq_some_iff.mp h
        exact .start hc hshared
      · next hwrite hread hstart =>
        obtain ⟨shared, hshared, rfl⟩ := Option.map_eq_some_iff.mp h
        exact .work hc hstart hwrite hread hshared
    · cases h

end Actions

section Locks

/-- Who has the lock of the stream, and whose the requests are that have been written. -/
structure Locked (J : SerdeJson) (n : SharedNet S) : Prop where
  holder : ∀ t, n.shared.holder = some t ↔ (awaits (n.shared.pcs t)).isSome
  last : ∀ t call, awaits (n.shared.pcs t) = some call →
    ∃ frame, n.asked.getLast? = some ⟨(t, n.begun t), call, frame⟩
  frames : ∀ q ∈ n.asked, writeMsg J q.call.request = .ok q.frame
  bound : ∀ q ∈ n.asked, q.ticket.2 ≤ n.begun q.ticket.1
  fresh : ∀ t, Asking (n.shared.pcs t) → ∀ q ∈ n.asked, q.ticket ≠ (t, n.begun t)
  nodup : (n.asked.map Question.ticket).Nodup

theorem locked_init (f : S.File) : Locked J (SharedNet.init f) where
  holder _ := ⟨fun h => (nomatch h), fun h => (nomatch h)⟩
  last _ _ h := nomatch h
  frames := by simp [SharedNet.init]
  bound := by simp [SharedNet.init]
  fresh _ h := h.elim
  nodup := .nil

/-- The broker and the bytes on the connection have no part in it. -/
theorem Locked.frame (h : Locked J n) (hshared : n'.shared = n.shared)
    (hbegun : n'.begun = n.begun) (hasked : n'.asked = n.asked) : Locked J n' := by
  obtain ⟨hholder, hlast, hframes, hbound, hfresh, hnodup⟩ := h
  constructor <;> simp_all

theorem Locked.outside {a : Act} {shared : Shared} (h : Locked J n)
    (hout : Outside a n.shared shared) (hstart : ∀ t call, a ≠ .start t call) :
    Locked J { n with shared } where
  holder t := by
    rw [hout.awaits, ← h.holder t, ← hout.holder]
  last t call hcall := h.last t call (hout.awaits t ▸ hcall)
  frames := h.frames
  bound := h.bound
  fresh t ht := by
    rcases hout.asking t ht with hold | ⟨call, rfl⟩
    · exact h.fresh t hold
    · exact absurd rfl (hstart t call)
  nodup := h.nodup

/-- A new call has a ticket that no request bears. -/
theorem Locked.start {t : ThreadId} {call : ApiCall} {shared : Shared} (h : Locked J n)
    (hstep : n.shared.step (.start t call) = some shared) :
    Locked J { n with shared, begun := Function.update n.begun t (n.begun t + 1) } := by
  have hout := step_outside (by simp) (by simp) hstep
  have hquiet : awaits (shared.pcs t) = none := by
    cases Shared.handle_step hstep
    rw [show (n.shared.enter t (.checking call)).pcs t = .checking call by simp]
    rfl
  have hbegun : ∀ i, Function.update n.begun t (n.begun t + 1) i =
      if i = t then n.begun t + 1 else n.begun i := fun i => Function.update_apply ..
  refine ⟨fun i => ?_, fun i call' hcall => ?_, h.frames, fun q hq => ?_, fun i hi q hq => ?_,
    h.nodup⟩
  · rw [hout.awaits, ← h.holder i, ← hout.holder]
  · have hne : i ≠ t := by
      rintro rfl
      rw [hquiet] at hcall
      cases hcall
    obtain ⟨frame, hlast⟩ := h.last i call' (hout.awaits i ▸ hcall)
    refine ⟨frame, ?_⟩
    dsimp only
    rw [hbegun, if_neg hne]
    exact hlast
  · have hle := h.bound q hq
    dsimp only
    rw [hbegun]
    split
    · next heq =>
      rw [heq] at hle
      omega
    · exact hle
  · have hle := h.bound q hq
    dsimp only
    rw [hbegun]
    by_cases hit : i = t
    · rw [if_pos hit]
      rintro heq
      rw [heq] at hle
      rw [hit] at hle
      exact absurd hle (Nat.not_succ_le_self _)
    · rw [if_neg hit]
      rcases hout.asking i hi with hold | ⟨call', hcall⟩
      · exact h.fresh i hold q hq
      · cases hcall
        exact absurd rfl hit

theorem Locked.written {t : ThreadId} {call : ApiCall} {bytes : Bytes} (h : Locked J n)
    (hpc : n.shared.pcs t = .unsent call) (hfree : n.shared.holder = none)
    (hwrite : writeMsg J call.request = .ok bytes) {outbox : Bytes} :
    Locked J { n with
      shared := { n.shared.enter t (.awaiting call) with holder := some t }
      outbox
      asked := n.asked ++ [⟨(t, n.begun t), call, bytes⟩] } := by
  have hpcs : ∀ i, (n.shared.enter t (.awaiting call)).pcs i =
      if i = t then .awaiting call else n.shared.pcs i := fun i => Function.update_apply ..
  have hnone : ∀ i, awaits (n.shared.pcs i) = none := by
    intro i
    have hholder := h.holder i
    rw [hfree] at hholder
    simpa using hholder
  have hfresh := h.fresh t (by rw [hpc]; trivial)
  refine ⟨fun i => ?_, fun i call' hcall => ?_, ?_, ?_, fun i hi q hq => ?_, ?_⟩
  · dsimp only
    rw [hpcs]
    by_cases hit : i = t
    · simp [hit, awaits]
    · rw [if_neg hit, hnone i]
      simp [Ne.symm hit]
  · dsimp only at hcall ⊢
    rw [hpcs] at hcall
    split at hcall
    · next heq =>
      cases hcall
      exact ⟨bytes, by rw [List.getLast?_concat, heq]⟩
    · rw [hnone i] at hcall
      cases hcall
  · intro q hq
    rcases List.mem_append.mp hq with hq | hq
    · exact h.frames q hq
    · rw [List.mem_singleton.mp hq]
      exact hwrite
  · intro q hq
    rcases List.mem_append.mp hq with hq | hq
    · exact h.bound q hq
    · rw [List.mem_singleton.mp hq]
  · dsimp only at hi hq
    rw [hpcs] at hi
    split at hi
    · exact hi.elim
    · next hne =>
      rw [List.mem_append, List.mem_singleton] at hq
      rcases hq with hq | rfl
      · exact h.fresh i hi q hq
      · rintro heq
        exact hne (Prod.mk.inj heq).1.symm
  · rw [List.map_append, List.nodup_append]
    refine ⟨h.nodup, List.nodup_singleton _, ?_⟩
    intro tk htk tk' htk'
    obtain ⟨q, hq, rfl⟩ := List.mem_map.mp htk
    obtain rfl : tk' = (t, n.begun t) := by simpa using htk'
    exact hfresh q hq

/-- After a response nobody has the lock. -/
theorem Locked.consumed {t : ThreadId} {call : ApiCall} {got : Except String Response}
    (h : Locked J n) (hpc : n.shared.pcs t = .awaiting call) {seen : ℕ} {heard : List Consumed} :
    Locked J { n with
      shared := { n.shared.enter t (.storing call got (heardStores got)) with holder := none }
      seen
      heard } := by
  have hpcs : ∀ i, (n.shared.enter t (.storing call got (heardStores got))).pcs i =
      if i = t then .storing call got (heardStores got) else n.shared.pcs i :=
    fun i => Function.update_apply ..
  have hheld : n.shared.holder = some t := (h.holder t).mpr (by rw [hpc]; rfl)
  have hnone : ∀ i, i ≠ t → awaits (n.shared.pcs i) = none := by
    intro i hit
    have hholder := h.holder i
    rw [hheld] at hholder
    simpa [Ne.symm hit] using hholder
  refine ⟨fun i => ?_, fun i call' hcall => ?_, h.frames, h.bound, fun i hi => ?_, h.nodup⟩
  · dsimp only
    rw [hpcs]
    by_cases hit : i = t
    · simp [hit, awaits]
    · rw [if_neg hit, hnone i hit]
      simp
  · dsimp only at hcall
    rw [hpcs] at hcall
    split at hcall
    · cases hcall
    · next hne =>
      rw [hnone i hne] at hcall
      cases hcall
  · dsimp only at hi
    rw [hpcs] at hi
    split at hi
    · exact hi.elim
    · exact h.fresh i hi

end Locks

section Pipes

variable {b b' : Broker S} {a : Action} {c c' : Client}

/-- A thread of the broker that has returned takes no more steps. -/
theorem returned_still (hunborn : b.nextSession ≤ id → (b.clients id).pc = .absent)
    (hpc : (b.clients id).pc = .returned) (h : ThreadStep J b id a b') : False := by
  cases h with
  | accept hnew => simp [hunborn (Nat.le_of_eq hnew)] at hpc
  | _ => simp_all

/-- What a thread of the broker that reads no request keeps. -/
structure Quiet (c c' : Client) : Prop where
  requests : c'.requests = c.requests
  sent : c.sent <+: c'.sent
  lost : Lost c.pc → Lost c'.pc

theorem quiet_dropRemote : Quiet (b.clients id) ((b.dropRemote id).clients id) := by
  rw [Broker.dropRemote, sendJob_own]
  refine ⟨rfl, List.prefix_rfl, fun _ => ?_⟩
  cases b.alive <;> trivial

theorem step_quiet (hunborn : b.nextSession ≤ id → (b.clients id).pc = .absent)
    (hread : ∀ req, a ≠ .readReq id req) (h : ThreadStep J b id a b') :
    Quiet (b.clients id) (b'.clients id) := by
  cases h with
  | accept hnew =>
    rw [enter_own]
    refine ⟨rfl, List.prefix_rfl, fun hlost => ?_⟩
    change Lost (b.clients id).pc at hlost
    rw [hunborn (Nat.le_of_eq hnew)] at hlost
    exact hlost.elim
  | sendOpen hpc =>
    rw [sendJob_own]
    exact ⟨rfl, List.prefix_rfl, fun hlost => by rw [hpc] at hlost; exact hlost.elim⟩
  | recvOpen hpc hrecv =>
    rcases receive_own hrecv with ⟨_, _, hown⟩ | ⟨_, hown⟩ <;>
    · rw [hown]
      exact ⟨rfl, List.prefix_rfl, fun hlost => by rw [hpc] at hlost; exact hlost.elim⟩
  | writeHello hpc =>
    have hlost : ¬ Lost (b.clients id).pc := by
      rw [hpc]
      exact fun h => h
    unfold Broker.greet
    split
    · next hwrite =>
      obtain ⟨bytes, _, hown⟩ := writeFrame_own hwrite .reading
      rw [hown]
      exact ⟨rfl, List.prefix_append _ _, fun h => absurd h hlost⟩
    · exact quiet_dropRemote
    · next hwrite =>
      obtain ⟨bytes, _, hown⟩ := writeFrame_own hwrite .returned
      rw [hown]
      exact ⟨rfl, List.prefix_append _ _, fun h => absurd h hlost⟩
    · rw [enter_own]
      exact ⟨rfl, List.prefix_rfl, fun _ => trivial⟩
  | read => exact absurd rfl (hread _)
  | readFails => exact absurd rfl (hread _)
  | recvReply hpc hrecv =>
    rcases receive_own hrecv with ⟨_, _, hown⟩ | ⟨_, hown⟩ <;>
    · rw [hown]
      exact ⟨rfl, List.prefix_rfl, fun hlost => by rw [hpc] at hlost; exact hlost.elim⟩
  | writeReply hpc =>
    have hlost : ¬ Lost (b.clients id).pc := by
      rw [hpc]
      exact fun h => h
    unfold Broker.reply
    split
    · split
      · exact quiet_dropRemote
      · rw [enter_own]
        exact ⟨rfl, List.prefix_rfl, fun _ => trivial⟩
    · next hwrite =>
      split
      · obtain ⟨bytes, _, hown⟩ := writeFrame_own hwrite .returned
        rw [hown]
        exact ⟨rfl, List.prefix_append _ _, fun h => absurd h hlost⟩
      · obtain ⟨bytes, _, hown⟩ := writeFrame_own hwrite .reading
        rw [hown]
        exact ⟨rfl, List.prefix_append _ _, fun h => absurd h hlost⟩
  | recvDrop hpc hrecv =>
    rcases receive_own hrecv with ⟨_, _, hown⟩ | ⟨_, hown⟩ <;>
    · rw [hown]
      exact ⟨rfl, List.prefix_rfl, fun _ => trivial⟩

/-- The frame on the outbox that the thread reads next is that of the question. -/
def Decodes (J : SerdeJson) (q : Question) (req : Request × Chan) : Prop :=
  readMsg (α := Request) J q.frame = some (.ok req.1, [])

/-- The bytes between the threads of the handle and their thread of the broker. -/
structure Piped (J : SerdeJson) (id : SessionId) (n : SharedNet S) : Prop where
  taken : ∃ k, (k = (n.broker.clients id).requests.length ∨
      (k = (n.broker.clients id).requests.length + 1 ∧ Lost (n.broker.clients id).pc)) ∧
    k ≤ n.asked.length ∧ n.outbox = ((n.asked.drop k).map Question.frame).flatten
  decoded : List.Forall₂ (Decodes J) (n.asked.take (n.broker.clients id).requests.length)
    (n.broker.clients id).requests
  frames : n.heard.map Consumed.frame = ((n.broker.clients id).sent.drop 1).take n.heard.length
  tickets : n.heard.map Consumed.ticket = (n.asked.map Question.ticket).take n.heard.length
  joined : n.connected = true → (n.broker.clients id).sent ≠ []
  seen : n.connected = true →
    n.seen = ((n.broker.clients id).sent.take (n.heard.length + 1)).flatten.length
  apart : n.connected = false → n.seen = 0 ∧ n.asked = [] ∧ n.heard = [] ∧ n.shared.holder = none
  count : n.asked.length = n.heard.length + (if n.shared.holder.isSome then 1 else 0) ∨
    ((n.broker.clients id).pc = .returned ∧
      (n.broker.clients id).sent.length = n.heard.length + 1)

theorem piped_init (f : S.File) : Piped J id (SharedNet.init f) where
  taken := ⟨0, .inl rfl, Nat.le_refl _, rfl⟩
  decoded := .nil
  frames := rfl
  tickets := rfl
  joined h := nomatch h
  seen h := nomatch h
  apart _ := ⟨rfl, rfl, rfl, rfl⟩
  count := .inl rfl

theorem Piped.heard_le (h : Piped J id n) :
    n.heard.length ≤ (n.broker.clients id).sent.length - 1 := by
  have hlen := congrArg List.length h.frames
  rw [List.length_map, List.length_take, List.length_drop] at hlen
  omega

theorem Piped.heard_le_asked (h : Piped J id n) : n.heard.length ≤ n.asked.length := by
  have hlen := congrArg List.length h.tickets
  rw [List.length_map, List.length_take, List.length_map] at hlen
  omega

/-- The bytes that nobody has read are the frames after those consumed. -/
theorem Piped.unread_eq (h : Piped J id n) (hc : n.connected = true) :
    n.unread id = ((n.broker.clients id).sent.drop (n.heard.length + 1)).flatten := by
  have hsplit := congrArg List.flatten
    (List.take_append_drop (n.heard.length + 1) (n.broker.clients id).sent)
  rw [List.flatten_append] at hsplit
  rw [SharedNet.unread, h.seen hc, ← hsplit, List.drop_left]

/-- A step of the broker in which the thread reads nothing. -/
theorem Piped.quiet (h : Piped J id n) (hq : Quiet (n.broker.clients id) (b'.clients id))
    (hreturned : (n.broker.clients id).pc = .returned →
      b'.clients id = n.broker.clients id) : Piped J id { n with broker := b' } := by
  obtain ⟨more, hmore⟩ := hq.sent
  have hheard := h.heard_le
  have hgrown : ∀ m ≤ (n.broker.clients id).sent.length,
      (b'.clients id).sent.take m = (n.broker.clients id).sent.take m := by
    intro m hm
    rw [← hmore, List.take_append_of_le_length hm]
  refine ⟨?_, ?_, ?_, h.tickets, fun hc => ?_, fun hc => ?_, h.apart, ?_⟩
  · obtain ⟨k, hk, hle, hout⟩ := h.taken
    refine ⟨k, ?_, hle, hout⟩
    dsimp only
    rw [hq.requests]
    exact hk.imp_right (fun hk => ⟨hk.1, hq.lost hk.2⟩)
  · dsimp only
    rw [hq.requests]
    exact h.decoded
  · dsimp only
    rw [h.frames, ← hmore]
    cases hsent : (n.broker.clients id).sent with
    | nil =>
      have hnone : n.heard.length = 0 := by simpa [hsent] using hheard
      rw [hnone, List.take_zero, List.take_zero]
    | cons first rest =>
      rw [List.cons_append, List.drop_one, List.drop_one, List.tail_cons, List.tail_cons,
        List.take_append_of_le_length (by simpa [hsent] using hheard)]
  · dsimp only
    rw [← hmore]
    exact fun hnil => h.joined hc (List.append_eq_nil_iff.mp hnil).1
  · dsimp only
    have hpos := List.length_pos_iff.mpr (h.joined hc)
    rw [h.seen hc, hgrown _ (by omega)]
  · refine h.count.imp_right (fun hdeaf => ?_)
    dsimp only
    rw [hreturned hdeaf.1]
    exact hdeaf

/-- A thread at its read has taken as many requests as it has read. -/
theorem Piped.reading (h : Piped J id n) (hpc : (n.broker.clients id).pc = .reading) :
    (n.broker.clients id).requests.length ≤ n.asked.length ∧ n.outbox =
      ((n.asked.drop (n.broker.clients id).requests.length).map Question.frame).flatten := by
  obtain ⟨k, rfl | ⟨_, hlost⟩, hle, hout⟩ := h.taken
  · exact ⟨hle, hout⟩
  · rw [hpc] at hlost
    exact hlost.elim

/-- The next request that a thread reads is a whole frame of a call. -/
theorem next_question {got : Except String Request} {rest : Bytes} (h : Piped J id n)
    (hl : Locked J n) (hpc : (n.broker.clients id).pc = .reading)
    (hread : readMsg (α := Request) J n.outbox = some (got, rest)) :
    ∃ q, n.asked[(n.broker.clients id).requests.length]? = some q ∧
      readMsg (α := Request) J q.frame = some (got, []) ∧
      rest = ((n.asked.drop ((n.broker.clients id).requests.length + 1)).map
        Question.frame).flatten := by
  obtain ⟨-, hout⟩ := h.reading hpc
  set k := (n.broker.clients id).requests.length
  cases hdrop : n.asked.drop k with
  | nil =>
    rw [hout, hdrop] at hread
    cases hread
  | cons q later =>
    have hq : n.asked[k]? = some q := by
      rw [← List.head?_drop, hdrop]
      rfl
    have hlater : n.asked.drop (k + 1) = later := by
      rw [← List.drop_drop, hdrop]
      rfl
    have hwrite := hl.frames q (List.mem_of_getElem? hq)
    have hall := readMsg_writeMsg hwrite (later.map Question.frame).flatten
    rw [hout, hdrop, List.map_cons, List.flatten_cons, hall] at hread
    cases hread
    refine ⟨q, hq, ?_, by rw [hlater]⟩
    have hone := readMsg_writeMsg hwrite []
    rwa [List.append_nil] at hone

/-- The thread takes the next request from the connection; it may lose its session over it. -/
theorem Piped.take {q : Question} (h : Piped J id n)
    (hpc : (n.broker.clients id).pc = .reading)
    (hq : n.asked[(n.broker.clients id).requests.length]? = some q)
    (hsent : (b'.clients id).sent = (n.broker.clients id).sent)
    (htaken : (∃ req, (b'.clients id).requests = (n.broker.clients id).requests ++ [req] ∧
        Decodes J q req) ∨
      ((b'.clients id).requests = (n.broker.clients id).requests ∧ Lost (b'.clients id).pc)) :
    Piped J id { n with
      broker := b'
      outbox := ((n.asked.drop ((n.broker.clients id).requests.length + 1)).map
        Question.frame).flatten } := by
  have hlt : (n.broker.clients id).requests.length < n.asked.length :=
    (List.getElem?_eq_some_iff.mp hq).1
  have hcount := h.count.resolve_right (fun hdeaf => by rw [hpc] at hdeaf; cases hdeaf.1)
  refine ⟨?_, ?_, ?_, h.tickets, fun hc => ?_, fun hc => ?_, fun hc => ?_, .inl hcount⟩
  · refine ⟨_, ?_, hlt, rfl⟩
    rcases htaken with ⟨req, hreqs, -⟩ | ⟨hreqs, hlost⟩
    · exact .inl (by simp [hreqs])
    · exact .inr ⟨by simp [hreqs], hlost⟩
  · rcases htaken with ⟨req, hreqs, hdecodes⟩ | ⟨hreqs, -⟩
    · dsimp only
      rw [hreqs, List.length_append, List.length_singleton, List.take_add_one, hq]
      exact List.rel_append h.decoded (.cons hdecodes .nil)
    · dsimp only
      rw [hreqs]
      exact h.decoded
  · dsimp only
    rw [hsent]
    exact h.frames
  · dsimp only
    rw [hsent]
    exact h.joined hc
  · dsimp only
    rw [hsent]
    exact h.seen hc
  · obtain ⟨-, hnone, -⟩ := h.apart hc
    rw [hnone] at hq
    cases hq

/-- The thread reads the next request. -/
theorem Piped.deliver {req : Request} {rest : Bytes} (h : Piped J id n) (hl : Locked J n)
    (hread : readMsg (α := Request) J n.outbox = some (.ok req, rest))
    (hstep : ThreadStep J n.broker id (.readReq id (some req)) b') :
    Piped J id { n with outbox := rest, broker := b' } := by
  cases hstep with
  | read hpc =>
    obtain ⟨q, hq, hdecodes, rfl⟩ := next_question h hl hpc hread
    refine h.take hpc hq ?_ ?_
    · rw [forward_own]
      split <;> rfl
    · rw [forward_own]
      split
      · exact .inl ⟨_, rfl, hdecodes⟩
      · exact .inr ⟨rfl, trivial⟩

/-- The thread reads a frame that is no request. -/
theorem Piped.garble {err : String} {rest : Bytes} (h : Piped J id n) (hl : Locked J n)
    (hread : readMsg (α := Request) J n.outbox = some (.error err, rest))
    (hstep : ThreadStep J n.broker id (.readReq id none) b') :
    Piped J id { n with outbox := rest, broker := b' } := by
  cases hstep with
  | readFails hpc =>
    obtain ⟨q, hq, -, rfl⟩ := next_question h hl hpc hread
    obtain ⟨hlost, hsent⟩ : Lost ((n.broker.dropRemote id).clients id).pc ∧
        ((n.broker.dropRemote id).clients id).sent = (n.broker.clients id).sent := dropRemote_own
    exact h.take hpc hq hsent (.inr ⟨quiet_dropRemote.requests, hlost⟩)

theorem Piped.written {t : ThreadId} {call : ApiCall} {bytes : Bytes} (h : Piped J id n)
    (hc : n.connected = true) (hfree : n.shared.holder = none) :
    Piped J id { n with
      shared := { n.shared.enter t (.awaiting call) with holder := some t }
      outbox := n.outbox ++ bytes
      asked := n.asked ++ [⟨(t, n.begun t), call, bytes⟩] } := by
  have hheard := h.heard_le_asked
  refine ⟨?_, ?_, h.frames, ?_, h.joined, h.seen, fun hno => ?_, ?_⟩
  · obtain ⟨k, hk, hle, hout⟩ := h.taken
    refine ⟨k, hk, ?_, ?_⟩
    · dsimp only
      rw [List.length_append]
      omega
    · dsimp only
      rw [List.drop_append_of_le_length hle, List.map_append, List.flatten_append, hout]
      simp
  · obtain ⟨k, hk, hle, -⟩ := h.taken
    dsimp only
    rw [List.take_append_of_le_length (by omega)]
    exact h.decoded
  · dsimp only
    rw [List.map_append, List.take_append_of_le_length (by simpa using hheard)]
    exact h.tickets
  · rw [hc] at hno
    cases hno
  · refine h.count.imp_left (fun hcount => ?_)
    rw [hfree] at hcount
    simpa using hcount

/-- The steps of the threads outside the stream. -/
theorem Piped.outside {shared : Shared} {begun : ThreadId → ℕ} (h : Piped J id n)
    (hholder : shared.holder = n.shared.holder) : Piped J id { n with shared, begun } := by
  refine ⟨h.taken, h.decoded, h.frames, h.tickets, h.joined, h.seen, fun hc => ?_, ?_⟩
  · dsimp only
    rw [hholder]
    exact h.apart hc
  · dsimp only
    rw [hholder]
    exact h.count

end Pipes

end SqliteBroker.SharedStream
