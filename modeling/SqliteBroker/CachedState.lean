import SqliteBroker.Pairing

/-!
The cached connection state of a shared handle. A call stores its response after it has
given up the stream, one field at a time, so an earlier response can be stored over a later
one. As long as that never happens, every field of the cache is the one of the last
response, or the call that has read this response is still to store it.
-/
namespace SqliteBroker.CachedState

open Utf8 Messages Engine Serde RealValues Blank Frames BrokerWorker WorkerLog Runs Threads
  ShimConnection SharedHandle Lockstep ReplyFrames NumberedReplies SharedStream Pairing

/-- The fields of the handle that describe its connection. -/
inductive Field
  | changes
  | totalChanges
  | lastRowid
  | autocommit
  deriving DecidableEq

/-- The handle has in this field what the response says. -/
def Shows (db : ProxyDb) (resp : Response) : Field → Prop
  | .changes => db.changes = resp.changes
  | .totalChanges => db.totalChanges = resp.totalChanges
  | .lastRowid => db.lastRowid = resp.lastInsertRowid
  | .autocommit => db.autocommit = if resp.autocommit then 1 else 0

def fieldOf : Store → Option Field
  | .changes _ => some .changes
  | .totalChanges _ => some .totalChanges
  | .lastRowid _ => some .lastRowid
  | .autocommit _ => some .autocommit
  | .errcode _ => none
  | .errmsg _ => none

/-- The stores that a thread is still to make. -/
def storesLeft : CallPc → List Store
  | .storing _ _ left => left
  | .aborting _ _ left => left
  | _ => []

def Unstored (pc : CallPc) (field : Field) : Prop :=
  ∃ store ∈ storesLeft pc, fieldOf store = some field

/-- What these stores put into the fields is what the response says. -/
def Copies (resp : Response) (stores : List Store) : Prop :=
  ∀ store ∈ stores, ∀ field, fieldOf store = some field → ∀ db, Shows (store.run db) resp field

section Stores

variable {db : ProxyDb} {resp : Response} {store : Store} {stores : List Store} {field : Field}

theorem applyStores_copies (resp : Response) : Copies resp (applyStores resp) := by
  intro store hmem field hfield db
  have hcases : store ∈ [Store.changes resp.changes, .totalChanges resp.totalChanges,
      .lastRowid resp.lastInsertRowid, .autocommit (if resp.autocommit then 1 else 0)] := by
    rcases List.mem_append.mp hmem with hstate | hcode
    · exact hstate
    · exfalso
      split at hcode <;>
      · rcases List.mem_pair.mp hcode with rfl | rfl <;> cases hfield
  simp only [List.mem_cons, List.not_mem_nil, or_false] at hcases
  rcases hcases with rfl | rfl | rfl | rfl <;> cases hfield <;> rfl

theorem unstored_applyStores (call : ApiCall) (got : Except String Response) (resp : Response)
    (field : Field) : Unstored (.storing call got (applyStores resp)) field := by
  cases field with
  | changes => exact ⟨.changes resp.changes, by simp [storesLeft, applyStores], rfl⟩
  | totalChanges => exact ⟨.totalChanges resp.totalChanges, by simp [storesLeft, applyStores], rfl⟩
  | lastRowid => exact ⟨.lastRowid resp.lastInsertRowid, by simp [storesLeft, applyStores], rfl⟩
  | autocommit =>
    exact ⟨.autocommit (if resp.autocommit then 1 else 0), by simp [storesLeft, applyStores], rfl⟩

/-- What an aborted callback stores is from the response of its own call. -/
theorem abortedStores_copies (resp : Response) :
    Copies resp (applyStores (callbackAborted resp)) := by
  intro store hmem field hfield db
  have h := applyStores_copies (callbackAborted resp) store hmem field hfield db
  cases field <;> exact h

theorem failStores_copies (resp : Response) (message : String) :
    Copies resp (failStores message) := by
  intro store hmem field hfield
  rcases List.mem_pair.mp hmem with rfl | rfl <;> cases hfield

/-- A store leaves the other fields alone. -/
theorem shows_run (h : Shows db resp field) (hother : fieldOf store ≠ some field) :
    Shows (store.run db) resp field := by
  cases store <;> cases field <;> first | exact h | exact absurd rfl hother

end Stores

/-- The stores and the callbacks of the call that has read this response are about it. -/
def Own (resp : Response) : CallPc → Prop
  | .storing _ got left => (∀ resp', got = .ok resp' → resp' = resp) ∧ Copies resp left
  | .looping _ _ loop => loop.resp = resp
  | .aborting _ _ left => Copies resp left
  | _ => True

section Threads

variable {s s' : Shared} {t t₀ : ThreadId} {resp : Response} {current : Prop} {pc : CallPc}

/-- Every field shows the response, or thread `t₀`, which is `current`ly in the call that has
read it, is to store it. -/
structure Held (s : Shared) (t₀ : ThreadId) (current : Prop) (resp : Response) : Prop where
  fields : ∀ field, Shows s.db resp field ∨ (current ∧ Unstored (s.pcs t₀) field)
  own : current → Own resp (s.pcs t₀)

/-- Between two calls, or done with one. -/
def Resting : CallPc → Prop
  | .idle => True
  | .returned _ _ _ => True
  | _ => False

theorem Held.shows (h : Held s t₀ current resp) (hrest : storesLeft (s.pcs t₀) = [])
    (field : Field) : Shows s.db resp field := by
  rcases h.fields field with hshows | ⟨_, store, hmem, _⟩
  · exact hshows
  · rw [hrest] at hmem
    cases hmem

/-- A thread goes on to a place where no less is to be stored. -/
theorem Held.enter (h : Held s t₀ current resp)
    (hleft : t = t₀ → ∀ field, Unstored (s.pcs t₀) field → Unstored pc field)
    (hown : t = t₀ → Own resp (s.pcs t₀) → Own resp pc) :
    Held (s.enter t pc) t₀ current resp := by
  have hpc : (s.enter t pc).pcs t₀ = if t₀ = t then pc else s.pcs t₀ := Function.update_apply ..
  by_cases heq : t = t₀
  · subst heq
    rw [if_pos rfl] at hpc
    refine ⟨fun field => ?_, fun hc => ?_⟩
    · rw [hpc]
      exact (h.fields field).imp_right (And.imp_right (hleft rfl field))
    · rw [hpc]
      exact hown rfl (h.own hc)
  · rw [if_neg (Ne.symm heq)] at hpc
    refine ⟨fun field => ?_, fun hc => ?_⟩
    · rw [hpc]
      exact h.fields field
    · rw [hpc]
      exact h.own hc

/-- The same from a place where nothing is to be stored. -/
theorem Held.enter_empty (h : Held s t₀ current resp) (hempty : storesLeft (s.pcs t) = [])
    (hown : t = t₀ → Own resp (s.pcs t₀) → Own resp pc) :
    Held (s.enter t pc) t₀ current resp := by
  refine h.enter (fun heq field hun => ?_) hown
  obtain ⟨store, hmem, _⟩ := hun
  rw [← heq, hempty] at hmem
  cases hmem

/-- A call that hears nothing stores nothing of the connection. -/
theorem Held.enter_failed {call : ApiCall} {err : String} (h : Held s t₀ current resp)
    (hempty : storesLeft (s.pcs t) = []) :
    Held (s.enter t (.storing call (.error err) (heardStores (.error err)))) t₀ current resp :=
  h.enter_empty hempty fun _ _ => ⟨nofun, failStores_copies resp err⟩

/-- One store of thread `t`: it is in the call that has read the response, or that call is
still to store the field. -/
theorem Held.put {store : Store} {success : Bool} {rest : List Store}
    (h : Held s t₀ current resp) (hleft : storesLeft (s.pcs t) = store :: rest)
    (hpc : storesLeft pc = rest) (hown : Own resp (s.pcs t) → Own resp pc)
    (hcopies : Own resp (s.pcs t) → Copies resp [store])
    (horder : ∀ field, fieldOf store = some field →
      current ∧ (t = t₀ ∨ Unstored (s.pcs t₀) field)) :
    Held ((s.put store success).enter t pc) t₀ current resp := by
  have hown' : current → Own resp (((s.put store success).enter t pc).pcs t₀) := by
    intro hc
    rw [show ((s.put store success).enter t pc).pcs t₀ = _ from Function.update_apply ..]
    split
    · next heq =>
      subst heq
      exact hown (h.own hc)
    · exact h.own hc
  refine ⟨fun field => ?_, hown'⟩
  change Shows (store.run s.db) resp field ∨ _
  rw [show ((s.put store success).enter t pc).pcs t₀ = _ from Function.update_apply ..]
  by_cases hfield : fieldOf store = some field
  · obtain ⟨hc, hwho⟩ := horder field hfield
    by_cases heq : t = t₀
    · subst heq
      exact .inl (hcopies (h.own hc) store (List.mem_singleton.mpr rfl) field hfield s.db)
    · right
      rw [if_neg (Ne.symm heq)]
      exact ⟨hc, hwho.resolve_left heq⟩
  · refine (h.fields field).imp (fun hshows => shows_run hshows hfield) ?_
    rintro ⟨hc, other, hmem, hother⟩
    refine ⟨hc, ?_⟩
    split
    · next heq =>
      subst heq
      rw [hleft] at hmem
      rcases List.mem_cons.mp hmem with rfl | hrest
      · exact absurd hother hfield
      · exact ⟨other, by rwa [hpc], hother⟩
    · exact ⟨other, hmem, hother⟩

/-- The rows of a call are those of its response. -/
theorem rowLoop_resp {call : ApiCall} {loop : RowLoop} (h : loop ∈ call.rowLoop (.ok resp)) :
    loop.resp = resp := by
  cases call with
  | exec sql callback =>
    cases callback with
    | true =>
      simp only [ApiCall.rowLoop] at h
      split at h
      · rw [List.mem_singleton.mp h]
      · cases h
    | false => cases h
  | _ => cases h

theorem next_resp {loop loop' : RowLoop} (h : loop' ∈ loop.next) : loop'.resp = loop.resp := by
  unfold RowLoop.next at h
  split at h
  · cases h
  · rw [List.mem_singleton.mp h]

theorem settled_own {call : ApiCall} {got : Except String Response}
    (h : ∀ resp', got = .ok resp' → resp' = resp) : Own resp (Shared.settled call got) := by
  cases got with
  | error err => trivial
  | ok resp' =>
    obtain rfl := h resp' rfl
    simp only [Shared.settled]
    split
    · split
      · next hloop => exact rowLoop_resp (hloop ▸ List.mem_cons_self ..)
      · trivial
    · trivial

/-- The store that thread `t` makes next does not undo the last response. -/
def StoresInOrder (s : Shared) (t₀ : ThreadId) (current : Prop) (t : ThreadId) : Prop :=
  ∀ store rest, storesLeft (s.pcs t) = store :: rest → ∀ field, fieldOf store = some field →
    current ∧ (t = t₀ ∨ Unstored (s.pcs t₀) field)

theorem held_step {a : Act} (h : Held s t₀ current resp) (hread : ∀ t got, a ≠ .read t got)
    (horder : ∀ t, a = .store t → StoresInOrder s t₀ current t) (hstep : s.step a = some s') :
    Held s' t₀ current resp := by
  cases Shared.handle_step hstep with
  | read => exact absurd rfl (hread _ _)
  | closed hpc | writeFails hpc => exact h.enter_failed (by rw [hpc]; rfl)
  | @write t call hpc =>
    have hentered : Held (s.enter t (.awaiting call)) t₀ current resp :=
      h.enter_empty (by rw [hpc]; rfl) fun _ _ => trivial
    exact ⟨hentered.fields, hentered.own⟩
  | @store t call got next left hpc =>
    have hleft : storesLeft (s.pcs t) = next :: left := by rw [hpc]; rfl
    refine h.put hleft rfl ?_ ?_ (horder t rfl next left hleft)
    · rw [hpc]
      exact fun hown => ⟨hown.1, fun other hmem => hown.2 other (List.mem_cons_of_mem _ hmem)⟩
    · rw [hpc]
      intro hown other hmem
      obtain rfl := List.mem_singleton.mp hmem
      exact hown.2 other (List.mem_cons_self ..)
  | @storeAbort t call got next left hpc =>
    have hleft : storesLeft (s.pcs t) = next :: left := by rw [hpc]; rfl
    refine h.put hleft rfl ?_ ?_ (horder t rfl next left hleft)
    · rw [hpc]
      exact fun hown other hmem => hown other (List.mem_cons_of_mem _ hmem)
    · rw [hpc]
      intro hown other hmem
      obtain rfl := List.mem_singleton.mp hmem
      exact hown other (List.mem_cons_self ..)
  | settle hpc =>
    refine h.enter_empty (by rw [hpc]; rfl) fun heq hown => ?_
    rw [← heq, hpc] at hown
    exact settled_own hown.1
  | @abort t call got loop rc hpc hrc =>
    refine h.enter_empty (by rw [hpc]; rfl) fun heq hown => ?_
    rw [← heq, hpc] at hown
    obtain rfl : loop.resp = resp := hown
    exact abortedStores_copies loop.resp
  | nextRow hpc hnext =>
    refine h.enter_empty (by rw [hpc]; rfl) fun heq hown => ?_
    rw [← heq, hpc] at hown
    exact (next_resp (hnext ▸ List.mem_cons_self ..)).trans hown
  | close =>
    refine ⟨fun field => (h.fields field).imp_left fun hshows => ?_, h.own⟩
    cases field <;> exact hshows
  | _ hpc => exact h.enter_empty (by rw [hpc]; rfl) fun _ _ => trivial

/-- A thread that starts a call has stored the response of its last one. -/
theorem held_start {call : ApiCall} {current' : Prop} (h : Held s t₀ current resp)
    (hstep : s.step (.start t call) = some s') (hsame : t ≠ t₀ → (current' ↔ current)) :
    Held s' t₀ current' resp := by
  have hstart := held_step h (by simp) (by simp) hstep
  by_cases heq : t = t₀
  · subst heq
    cases Shared.handle_step hstep with
    | start hpc =>
      refine ⟨fun field => .inl (h.shows (by rw [hpc]; rfl) field), fun _ => ?_⟩
      rw [show (s.enter t (.checking call)).pcs t = .checking call by simp [Shared.enter]]
      trivial
  · exact ⟨fun field => (hstart.fields field).imp_right (And.imp_left (hsame heq).mpr),
      fun hc => hstart.own ((hsame heq).mp hc)⟩

end Threads

section Runs

variable {S : Sqlite} {J : SerdeJson} {id : SessionId} {n n' : SharedNet S}

/-- The thread is still in the call that has read this frame. -/
def Current (n : SharedNet S) (r : Consumed) : Prop := r.ticket.2 = n.begun r.ticket.1

/-- A call reads a response that it can decode, or the end of a stream on which every
request has been answered. A field is stored by the call that has read the last response, or
while this call is still to store it. -/
def InOrder (J : SerdeJson) (id : SessionId) (n : SharedNet S) : SharedAction → Prop
  | .read _ =>
    (∃ resp rest, readMsg (α := Response) J (n.unread id) = some (.ok resp, rest)) ∨
      (readMsg (α := Response) J (n.unread id) = none ∧
        (n.broker.clients id).requests.length = n.heard.length)
  | .work (.store t) => ∀ r, n.heard.getLast? = some r →
    StoresInOrder n.shared r.ticket.1 (Current n r) t
  | _ => True

/-- The cache has the last response that was read, as far as its call has stored it; no other
request of the session has been answered. -/
structure Tracked (J : SerdeJson) (id : SessionId) (n : SharedNet S) : Prop where
  held : ∀ r, n.heard.getLast? = some r → ∃ resp,
    readMsg (α := Response) J r.frame = some (.ok resp, []) ∧
    Held n.shared r.ticket.1 (Current n r) resp
  answered : n.asked.length = n.heard.length + (if n.shared.holder.isSome then 1 else 0) ∨
    ((n.broker.clients id).pc = .returned ∧
      (n.broker.clients id).requests.length = n.heard.length)

theorem tracked_init (f : S.File) : Tracked J id (SharedNet.init f) :=
  ⟨nofun, .inl rfl⟩

theorem sent_le_requests {w : Worker S} {c : Client} (h : Numbered J w c) :
    c.sent.length - 1 ≤ c.requests.length := by
  have hlen := h.framed.length_eq
  rw [List.length_take, List.length_drop] at hlen
  omega

theorem Tracked.broker {a : Action} {b' : Broker S} {outbox : Bytes} (hs : Sound J id n)
    (ht : Tracked J id n) (hb : Broker.step J n.broker a = some b') :
    Tracked J id { n with broker := b', outbox } := by
  refine ⟨ht.held, ht.answered.imp_right ?_⟩
  rintro ⟨hpc, hlen⟩
  dsimp only
  rw [client_of_returned hb hs.tidy hpc]
  exact ⟨hpc, hlen⟩

/-- A step on the handle that reads nothing. -/
theorem Tracked.shared {a : Act} {shared : Shared} {outbox : Bytes} {asked : List Question}
    (ht : Tracked J id n) (hread : ∀ t got, a ≠ .read t got)
    (horder : InOrder J id n (.work a)) (hstep : n.shared.step a = some shared)
    (hcount : asked.length + (if n.shared.holder.isSome then 1 else 0) =
      n.asked.length + if shared.holder.isSome then 1 else 0) :
    Tracked J id { n with shared, outbox, asked } := by
  refine ⟨fun r hr => ?_, ht.answered.imp_left fun hlen => ?_⟩
  · obtain ⟨resp, hframe, hheld⟩ := ht.held r hr
    refine ⟨resp, hframe, held_step hheld hread ?_ hstep⟩
    rintro t rfl
    exact horder r hr
  · dsimp only
    omega

/-- The next frame of the session, read alone. -/
theorem next_frame_read {resp : Response} {rest : Bytes} (hs : Sound J id n)
    (hc : n.connected = true)
    (hread : readMsg (α := Response) J (n.unread id) = some (.ok resp, rest)) :
    ∃ frame, (n.broker.clients id).sent[n.heard.length + 1]? = some frame ∧
      n.unread id = frame ++ rest ∧
      readMsg (α := Response) J frame = some (.ok resp, []) := by
  have hn := hs.tidy.numbered id
  obtain ⟨frame, hframe, hunread⟩ := next_frame hs.piped hn hc hread
  have hmem : frame ∈ (n.broker.clients id).sent.drop 1 := by
    refine List.mem_of_getElem? (i := n.heard.length) ?_
    rw [List.getElem?_drop, Nat.add_comm]
    exact hframe
  obtain ⟨written, hwrite⟩ := frame_written hn.framed hmem
  have hall := readMsg_writeMsg hwrite rest
  have hone := readMsg_writeMsg hwrite []
  rw [hunread, hall] at hread
  rw [List.append_nil, (Prod.mk.inj (Option.some.inj hread)).1] at hone
  exact ⟨frame, hframe, hunread, hone⟩

theorem Tracked.consumed {t : ThreadId} {call : ApiCall} {resp : Response} {rest : Bytes}
    (hs : Sound J id n) (ht : Tracked J id n) (hc : n.connected = true)
    (hpc : n.shared.pcs t = .awaiting call)
    (hread : readMsg (α := Response) J (n.unread id) = some (.ok resp, rest)) :
    Tracked J id { n with
      shared := { n.shared.enter t (.storing call (.ok resp) (heardStores (.ok resp))) with
        holder := none }
      seen := n.seen + ((n.unread id).length - rest.length)
      heard := n.heard ++ [⟨(t, n.begun t),
        (n.unread id).take ((n.unread id).length - rest.length)⟩] } := by
  obtain ⟨frame, hframe, hunread, hone⟩ := next_frame_read hs hc hread
  have hlen : (n.unread id).take ((n.unread id).length - rest.length) = frame := by
    rw [hunread, List.length_append, Nat.add_sub_cancel, List.take_left]
  have hheld : n.shared.holder = some t := (hs.locked.holder t).mpr (by rw [hpc]; rfl)
  refine ⟨fun r hr => ⟨resp, ?_⟩, .inl ?_⟩
  · obtain rfl : (⟨(t, n.begun t), frame⟩ : Consumed) = r := by simpa [hlen] using hr
    have hpcs : (n.shared.enter t (.storing call (.ok resp) (applyStores resp))).pcs t =
        .storing call (.ok resp) (applyStores resp) := by simp [Shared.enter]
    refine ⟨hone, fun field => .inr ⟨rfl, ?_⟩, fun _ => ?_⟩
    · exact (congrArg (fun pc => Unstored pc field) hpcs).mpr
        (unstored_applyStores call (.ok resp) resp field)
    · refine (congrArg (Own resp) hpcs).mpr ⟨?_, applyStores_copies resp⟩
      rintro resp' ⟨⟩
      rfl
  · have hsent := (List.getElem?_eq_some_iff.mp hframe).1
    have hle := sent_le_requests (hs.tidy.numbered id)
    rcases ht.answered with hcount | ⟨_, hcount⟩
    · rw [hheld] at hcount
      simpa using hcount
    · omega

/-- A call that reads the end of the stream, when every request has been answered. -/
theorem Tracked.ended {t : ThreadId} {call : ApiCall} {err : String} {seen : ℕ}
    (ht : Tracked J id n) (hpc : n.shared.pcs t = .awaiting call)
    (hreturned : (n.broker.clients id).pc = .returned)
    (hanswered : (n.broker.clients id).requests.length = n.heard.length) :
    Tracked J id { n with
      shared := { n.shared.enter t (.storing call (.error err) (failStores err)) with
        holder := none }
      seen } := by
  refine ⟨fun r hr => ?_, .inr ⟨hreturned, hanswered⟩⟩
  obtain ⟨resp, hframe, hheld⟩ := ht.held r hr
  have hfailed : Held (n.shared.enter t (.storing call (.error err) (failStores err)))
      r.ticket.1 (Current n r) resp := hheld.enter_failed (by rw [hpc]; rfl)
  exact ⟨resp, hframe, hfailed.fields, hfailed.own⟩

theorem Tracked.start {t : ThreadId} {call : ApiCall} {shared : Shared} (ht : Tracked J id n)
    (hstep : n.shared.step (.start t call) = some shared) :
    Tracked J id { n with shared, begun := Function.update n.begun t (n.begun t + 1) } := by
  refine ⟨fun r hr => ?_, ?_⟩
  · obtain ⟨resp, hread, hheld⟩ := ht.held r hr
    refine ⟨resp, hread, held_start hheld hstep fun hne => ?_⟩
    dsimp only [Current]
    rw [Function.update_of_ne (Ne.symm hne)]
  · dsimp only
    rw [(step_outside (by simp) (by simp) hstep).holder]
    exact ht.answered

theorem step_tracked {a : SharedAction} (hs : Sound J id n) (ht : Tracked J id n)
    (horder : InOrder J id n a) (h : n.step J id a = some n') : Tracked J id n' := by
  cases net_step h with
  | deliver _ hb | garble _ hb | calm _ hb => exact ht.broker hs hb
  | connect => exact ⟨ht.held, ht.answered⟩
  | @write t call bytes hc hpc hfree hwrite =>
    have hstep : n.shared.step (.write t (.ok ())) =
        some { n.shared.enter t (.awaiting call) with holder := some t } := by
      simp only [Shared.step, hpc, hfree]
    exact ht.shared (a := .write t (.ok ())) (by simp) trivial hstep (by simp [hfree])
  | @writeFails t call err hc hpc =>
    refine ⟨fun r hr => ?_, ht.answered⟩
    obtain ⟨resp, hread, hheld⟩ := ht.held r hr
    exact ⟨resp, hread, hheld.enter_failed (by rw [hpc]; rfl)⟩
  | read hc hpc hread =>
    rcases horder with ⟨resp, rest', hgood⟩ | ⟨hnone, _⟩
    · cases hread.symm.trans hgood
      exact ht.consumed hs hc hpc hread
    · cases hread.symm.trans hnone
  | readEnds hc hpc hread hreturned =>
    rcases horder with ⟨resp, rest, hgood⟩ | ⟨_, hanswered⟩
    · cases hread.symm.trans hgood
    · exact ht.ended hpc hreturned hanswered
  | start hc hstep => exact ht.start hstep
  | work hc hstart hwrite hread hstep =>
    refine ht.shared hread horder hstep ?_
    rw [(step_outside hwrite hread hstep).holder]

/-- A run in which every step is in order. -/
def OrderedRun (J : SerdeJson) (f : S.File) (id : SessionId) (acts : List SharedAction)
    (n : SharedNet S) : Prop :=
  Trace (fun n a n' => InOrder J id n a ∧ n.step J id a = some n') (SharedNet.init f) acts n

theorem run_tracked {f : S.File} {acts : List SharedAction} (h : OrderedRun J f id acts n) :
    Sound J id n ∧ Tracked J id n := by
  refine h.invariant (P := fun n => Sound J id n ∧ Tracked J id n) ?_
    ⟨sound_init f, tracked_init f⟩
  rintro n a n' ⟨hs, ht⟩ ⟨horder, hstep⟩
  exact ⟨step_sound hs hstep, step_tracked hs ht horder hstep⟩

/-- The broker has answered the last request of the session with this response. -/
def Latest (J : SerdeJson) (id : SessionId) (n : SharedNet S) (resp : Response) : Prop :=
  ∃ req frame, (n.broker.clients id).requests.getLast? = some req ∧
    (n.broker.clients id).sent[(n.broker.clients id).requests.length]? = some frame ∧
    (req.2, resp) ∈ n.broker.worker.responses ∧ writeMsg J resp = .ok frame

/-- Between two calls the frame read last is that of the last response. -/
theorem latest_of_heard {r : Consumed} (hs : Sound J id n) (hr : n.heard.getLast? = some r)
    (hcount : (n.broker.clients id).requests.length = n.heard.length) :
    ∃ resp, Latest J id n resp ∧ writeMsg J resp = .ok r.frame := by
  rw [List.getLast?_eq_getElem?] at hr
  have hpos := (List.getElem?_eq_some_iff.mp hr).1
  obtain ⟨q, req, _, _, _, _, hreq, hframe, resp, hresp, hwrite⟩ := hs.paired.paired _ r hr
  refine ⟨resp, ⟨req, r.frame, ?_, ?_, hresp, hwrite⟩, hwrite⟩
  · rw [List.getLast?_eq_getElem?, hcount]
    exact hreq
  · rw [hcount]
    rwa [Nat.sub_add_cancel (by omega)] at hframe

/-- A response is read as it was written, but for its doubles. -/
theorem blank_of_read {frame : Bytes} {got resp : Response} (hJ : J.Faithful)
    (hread : readMsg (α := Response) J frame = some (.ok got, []))
    (hwrite : writeMsg J resp = .ok frame) : blank got = blank resp := by
  have hone := readMsg_writeMsg hwrite []
  rw [List.append_nil, hread] at hone
  exact decodeBody_sound (hJ.response resp) (Prod.mk.inj (Option.some.inj hone)).1.symm

/-- The cached state has nothing of the rows. -/
theorem shows_of_blank {db : ProxyDb} {got resp : Response} {field : Field}
    (h : blank got = blank resp) (hshows : Shows db got field) : Shows db resp field := by
  rw [rows_of_blank h] at hshows
  cases field <;> exact hshows

/-- After a run in order, between the calls, the cached state is that of the response to the
request that the broker has executed last. -/
theorem cached_state_latest (hJ : J.Faithful) {f : S.File} {acts : List SharedAction}
    (h : OrderedRun J f id acts n) (hrest : ∀ t, Resting (n.shared.pcs t))
    (hsome : (n.broker.clients id).requests ≠ []) :
    (∃ resp, Latest J id n resp) ∧
      ∀ resp, Latest J id n resp → ∀ field, Shows n.shared.db resp field := by
  obtain ⟨hs, ht⟩ := run_tracked h
  have hempty : ∀ t, storesLeft (n.shared.pcs t) = [] ∧ awaits (n.shared.pcs t) = none := by
    intro t
    have hrest := hrest t
    cases hpc : n.shared.pcs t <;> rw [hpc] at hrest <;> first | exact ⟨rfl, rfl⟩ | exact hrest.elim
  have hfree : n.shared.holder = none := by
    cases hheld : n.shared.holder with
    | none => rfl
    | some t =>
      have hawaits := (hs.locked.holder t).mp hheld
      rw [(hempty t).2] at hawaits
      cases hawaits
  have hcount : (n.broker.clients id).requests.length = n.heard.length := by
    rcases ht.answered with hasked | ⟨_, hlen⟩
    · have hforwarded := hs.piped.decoded.length_eq
      have hheard := hs.piped.heard_le
      have hsent := sent_le_requests (hs.tidy.numbered id)
      rw [List.length_take] at hforwarded
      rw [hfree] at hasked
      have : n.asked.length = n.heard.length := by simpa using hasked
      omega
    · exact hlen
  have hpos := List.length_pos_iff.mpr hsome
  obtain ⟨r, hr⟩ : ∃ r, n.heard.getLast? = some r := by
    refine ⟨n.heard.getLast (List.length_pos_iff.mp (by omega)), List.getLast?_eq_some_getLast _⟩
  obtain ⟨resp, hlatest, hwrite⟩ := latest_of_heard hs hr hcount
  refine ⟨⟨resp, hlatest⟩, ?_⟩
  rintro resp' ⟨req', frame', _, hframe', _, hwrite'⟩ field
  obtain ⟨got, hread, hheld⟩ := ht.held r hr
  obtain ⟨_, frame, _, hframe, _, hwritten⟩ := hlatest
  obtain rfl := Option.some.inj (hframe.symm.trans hframe')
  have hsame : readMsg (α := Response) J frame = some (.ok got, []) := by
    rwa [Except.ok.inj (hwritten.symm.trans hwrite)]
  exact shows_of_blank (blank_of_read hJ hsame hwrite') (hheld.shows (hempty r.ticket.1).1 field)

end Runs

section Examples

open Execution hiding sqliteError
open MessageTexts Exchanges ClientCalls Panics
open SmallSqlite (insertedConn insertedResponse)

variable {S : Sqlite} {J : SerdeJson} {id : SessionId} {n : SharedNet S}

/-- Steps of the threads on the handle alone. -/
theorem run_offStream {p : SharedNet S → SharedAction → Prop} {acts : List Act} {s : Shared}
    (hc : n.connected = true) (hacts : ∀ a ∈ acts, OffStream a)
    (hp : ∀ a ∈ acts, ∀ s, p { n with shared := s } (.work a))
    (h : Trace (fun s a s' => Shared.step s a = some s') n.shared acts s) :
    Trace (fun n a n' => p n a ∧ n.step J id a = some n') n (acts.map .work)
      { n with shared := s } := by
  generalize hs : n.shared = s₀ at h
  induction h generalizing n with
  | nil =>
    rw [← hs]
    exact .nil n
  | @cons s₀ s₁ s₂ a rest hstep _ ih =>
    subst hs
    refine .cons ⟨hp a (List.mem_cons_self ..) n.shared,
      step_offStream hc (hacts a (List.mem_cons_self ..)) hstep⟩ ?_
    exact ih (n := { n with shared := s₁ }) hc
      (fun b hb => hacts b (List.mem_cons_of_mem a hb))
      (fun b hb => hp b (List.mem_cons_of_mem a hb)) rfl

/-- A thread stores its response and settles its call. -/
def storing (t : ThreadId) : List Act := List.replicate 6 (.store t) ++ [.settle t]

theorem run_storing {s : Shared} (t : ThreadId) (sql : String) {resp : Response}
    (hok : resp.ok = true)
    (hpc : s.pcs t = .storing (.exec sql false) (.ok resp) (applyStores resp)) :
    ∃ s', Trace (fun s a s' => Shared.step s a = some s') s (storing t) s' ∧
      s'.pcs = Function.update s.pcs t (.returned (.exec sql false) (.ok resp) sqliteOk) ∧
      s'.db = s.db.apply resp := by
  have hsix : (applyStores resp).length = 6 := by simp [applyStores, hok]
  obtain ⟨s₁, hstores, hpcs, hdb, _⟩ :=
    Shared.run_stores (p := fun _ _ => True) (fun _ => trivial) hpc
  rw [hsix] at hstores
  have hsettled : Shared.settled (.exec sql false) (.ok resp) =
      .returned (.exec sql false) (.ok resp) sqliteOk := by
    simp [Shared.settled, hok, ApiCall.rowLoop, doneCode]
  have hpc₁ : s₁.pcs t = .storing (.exec sql false) (.ok resp) [] := by
    rw [hpcs, Function.update_self]
  have hstep : s₁.step (.settle t) =
      some (s₁.enter t (.returned (.exec sql false) (.ok resp) sqliteOk)) := by
    simp only [Shared.step, hpc₁, hsettled]
  refine ⟨_, (hstores.weaken fun _ _ _ h => h.2.2).snoc hstep, ?_, ?_⟩
  · rw [Shared.enter_pcs, hpcs, Function.update_idem]
  · exact hdb.trans (heardStores_run s.db (.ok resp))

/-- The steps that are always in order. -/
def Free : SharedAction → Prop
  | .read _ => False
  | .work (.store _) => False
  | _ => True

theorem Free.inOrder {a : SharedAction} (ha : Free a) (n : SharedNet S) : InOrder J id n a := by
  cases a with
  | read t => exact ha.elim
  | work a => cases a <;> first | exact ha.elim | trivial
  | _ => trivial

/-- After the `BEGIN` of a single thread the cache has the response to it. -/
theorem begin_cached : ∃ n : SharedNet SmallSqlite.engine,
    OrderedRun begunJson SmallSqlite.newFile 1 (beginActs ++ (storing 0).map .work) n ∧
    n.shared.db.autocommit = 0 ∧
    ∀ resp, Latest begunJson 1 n resp → ∀ field, Shows n.shared.db resp field := by
  have hout : runOn (S := SmallSqlite.engine) SmallSqlite.newFile SmallSqlite.newConn
      beginCall.request = ⟨begunResponse, SmallSqlite.newFile, begunConn⟩ :=
    SmallSqlite.execute_begin rfl
  obtain ⟨n₀, hlink, hlinked, hshared, hbegun, hheard, _⟩ :=
    run_linked (S := SmallSqlite.engine) (f := SmallSqlite.newFile) rfl begun_spoken.hello
  obtain ⟨n₁, n₂, frame, hcall, hunread, hread, hlinked₂, hshared₂, hbegun₂, hheard₂, _, hreqs⟩ :=
    run_sharedCall (t := 0) hlinked (by rw [hshared]; rfl) (Or.inl (by decide)) hout
      (begun_spoken.request (List.mem_singleton.mpr rfl))
      (begun_spoken.response (List.mem_singleton.mpr rfl))
  rw [hshared] at hshared₂
  rw [hbegun] at hbegun₂
  rw [hheard, hbegun] at hheard₂
  have hpc : n₂.shared.pcs 0 =
      .storing beginCall (.ok begunResponse) (applyStores begunResponse) := by
    rw [hshared₂]
    rfl
  obtain ⟨s, hstores, hpcs, hdb⟩ := run_storing 0 "BEGIN" rfl hpc
  have hfree : ∀ a ∈ linking ++ sharedCall 1 0 beginCall, ∀ n : SharedNet SmallSqlite.engine,
      InOrder begunJson 1 n a := by
    intro a ha n
    refine Free.inOrder ?_ n
    revert a
    simp [linking, connecting, sharedCall, exchange, Free]
  have hrun : OrderedRun begunJson SmallSqlite.newFile 1
      (beginActs ++ (storing 0).map .work) { n₂ with shared := s } := by
    have hordered : InOrder begunJson 1 n₁ (.read 0) := Or.inl ⟨_, _, hunread⟩
    refine (((hlink.append hcall).restrict hfree).snoc ⟨hordered, hread⟩).append ?_
    refine run_offStream hlinked₂.connected (by simp [storing, OffStream]) ?_ hstores
    intro a ha s
    rcases List.mem_append.mp ha with hstore | hsettle
    · obtain rfl := List.eq_of_mem_replicate hstore
      intro r hr
      obtain rfl : (⟨(0, 1), frame⟩ : Consumed) = r := by simpa [hheard₂] using hr
      intro store rest _ field _
      exact ⟨by simp [Current, hbegun₂], .inl rfl⟩
    · obtain rfl := List.mem_singleton.mp hsettle
      trivial
  have hrest : ∀ t, Resting (s.pcs t) := by
    intro t
    rw [hpcs, hshared₂]
    by_cases ht : t = 0
    · subst ht
      simp [Resting]
    · simp [Function.update_of_ne ht, Shared.enter, Shared.init, Resting]
  have hlatest := cached_state_latest begun_spoken.faithful hrun hrest (by simp [hreqs])
  exact ⟨_, hrun, by rw [hdb]; rfl, hlatest.2⟩

/-- Both threads of `pairActs` store their responses, the second one first. -/
def swapActs : List SharedAction := pairActs ++ (storing 1 ++ storing 0).map .work

/-- The last request has begun a transaction, and the cache is in autocommit mode. -/
theorem swapped_stores_stale : (talk twoRequests twoResponses).Faithful ∧
    ∃ n : SharedNet SmallSqlite.engine,
      SharedRun (talk twoRequests twoResponses) SmallSqlite.newFile 1 swapActs n ∧
      (∀ t, Resting (n.shared.pcs t)) ∧ n.shared.db.autocommit = 1 ∧
      Latest (talk twoRequests twoResponses) 1 n openedResponse ∧
      openedResponse.autocommit = false := by
  refine ⟨two_spoken.faithful, ?_⟩
  obtain ⟨n, first, second, hpair, hlinked, hshared, _, hwrite, hheard, hreqs⟩ := run_pair
  obtain ⟨s₁, hstores₁, hpcs₁, hdb₁⟩ := run_storing 1 "BEGIN" rfl
    (show n.shared.pcs 1 = .storing (.exec "BEGIN" false) (.ok openedResponse)
      (applyStores openedResponse) by rw [hshared]; rfl)
  obtain ⟨s₂, hstores₂, hpcs₂, hdb₂⟩ := run_storing 0 SmallSqlite.insertSql rfl
    (show s₁.pcs 0 = .storing (.exec SmallSqlite.insertSql false) (.ok insertedResponse)
      (applyStores insertedResponse) by rw [hpcs₁, hshared]; rfl)
  have hstored := (@run_offStream _ (talk twoRequests twoResponses) 1 n (fun _ _ => True)
    _ _ hlinked.connected (by simp [storing, OffStream]) (fun _ _ _ => trivial)
    (hstores₁.append hstores₂)).weaken fun _ _ _ h => h.2
  have hrun : SharedRun (talk twoRequests twoResponses) SmallSqlite.newFile 1 swapActs
      { n with shared := s₂ } := hpair.append hstored
  obtain ⟨resp, hlatest, hwritten⟩ := latest_of_heard (run_sound hrun)
    (show n.heard.getLast? = some ⟨(1, 1), second⟩ by rw [hheard]; rfl)
    (show (n.broker.clients 1).requests.length = n.heard.length by rw [hreqs, hheard]; rfl)
  obtain rfl : openedResponse = resp := by
    obtain ⟨_, hcarried, hdecode⟩ :=
      two_spoken.response (List.mem_cons_of_mem _ (List.mem_cons_self ..))
    have hread := readMsg_writeMsg hwrite []
    rw [List.append_nil, hdecode] at hread
    have hblank := (blank_of_read two_spoken.faithful hread hwritten).symm
    have hrows : resp.rows = [] := List.map_eq_nil_iff.mp (congrArg Response.rows hblank)
    rw [rows_of_blank hblank, hrows]
    rfl
  refine ⟨_, hrun, fun t => ?_, ?_, hlatest, rfl⟩
  · rw [hpcs₂, hpcs₁, hshared]
    by_cases h₀ : t = 0
    · subst h₀
      simp [Resting]
    · by_cases h₁ : t = 1
      · subst h₁
        simp [Resting]
      · simp [Function.update_of_ne h₀, Function.update_of_ne h₁, Shared.enter, Shared.init,
          Resting]
  · rw [hdb₂, hdb₁, hshared]
    rfl

end Examples

end SqliteBroker.CachedState
