import SqliteBroker.ClientCalls
import SqliteBroker.SharedStream

/-!
Requests and responses stay paired on a shared handle: the frame that a call consumes as
number `i` is the one that the broker wrote for the request it read as number `i`, and
that request is the one of the same call.
-/
namespace SqliteBroker.Pairing

open Utf8 Messages Engine Serde Frames BrokerWorker WorkerLog Runs Threads ShimConnection
  SharedHandle Lockstep ReplyFrames NumberedReplies SharedStream

variable {S : Sqlite} {J : SerdeJson} {id : SessionId} {n n' : SharedNet S}

section Responses

variable {w : Worker S}

theorem frame_written {reqs : List (Request × Chan)} {frames : List Bytes} {frame : Bytes}
    (h : List.Forall₂ (FrameOf J w) reqs frames) (hframe : frame ∈ frames) :
    ∃ resp : Response, writeMsg J resp = .ok frame := by
  induction h with
  | nil => cases hframe
  | cons hfirst _ ih =>
    rcases List.mem_cons.mp hframe with rfl | hlater
    · obtain ⟨resp, -, hwrite⟩ := hfirst
      exact ⟨resp, hwrite⟩
    · exact ih hlater

/-- A response that can be read is the whole next frame of the thread. -/
theorem next_frame {got : Except String Response} {rest : Bytes} (h : Piped J id n)
    (hn : Numbered J w (n.broker.clients id)) (hc : n.connected = true)
    (hread : readMsg (α := Response) J (n.unread id) = some (got, rest)) :
    ∃ frame, (n.broker.clients id).sent[n.heard.length + 1]? = some frame ∧
      n.unread id = frame ++ rest := by
  cases hdrop : (n.broker.clients id).sent.drop (n.heard.length + 1) with
  | nil =>
    rw [h.unread_eq hc, hdrop] at hread
    cases hread
  | cons frame later =>
    have hframe : (n.broker.clients id).sent[n.heard.length + 1]? = some frame := by
      rw [← List.head?_drop, hdrop]
      rfl
    have hmem : frame ∈ (n.broker.clients id).sent.drop 1 := by
      refine List.mem_of_getElem? (i := n.heard.length) ?_
      rw [List.getElem?_drop, Nat.add_comm]
      exact hframe
    obtain ⟨resp, hwrite⟩ := frame_written hn.framed hmem
    have hall := readMsg_writeMsg hwrite later.flatten
    rw [h.unread_eq hc, hdrop, List.flatten_cons] at hread ⊢
    rw [hall] at hread
    cases hread
    exact ⟨frame, hframe, rfl⟩

/-- Without a response the thread has written no frame that nobody has consumed. -/
theorem no_frame (h : Piped J id n) (hn : Numbered J w (n.broker.clients id))
    (hc : n.connected = true) (hread : readMsg (α := Response) J (n.unread id) = none) :
    n.unread id = [] ∧ (n.broker.clients id).sent.length = n.heard.length + 1 := by
  cases hdrop : (n.broker.clients id).sent.drop (n.heard.length + 1) with
  | nil =>
    refine ⟨by rw [h.unread_eq hc, hdrop]; rfl, ?_⟩
    have hpos := List.length_pos_iff.mpr (h.joined hc)
    have hle := h.heard_le
    have hend := List.drop_eq_nil_iff.mp hdrop
    omega
  | cons frame later =>
    have hmem : frame ∈ (n.broker.clients id).sent.drop 1 := by
      refine List.mem_of_getElem? (i := n.heard.length) ?_
      rw [List.getElem?_drop, Nat.add_comm, ← List.head?_drop, hdrop]
      rfl
    obtain ⟨resp, hwrite⟩ := frame_written hn.framed hmem
    have hall := readMsg_writeMsg hwrite later.flatten
    rw [h.unread_eq hc, hdrop, List.flatten_cons, hall] at hread
    cases hread

/-- The call that holds the lock consumes the frame of its own number. -/
theorem piped_consumed {t : ThreadId} {call : ApiCall} {got : Except String Response}
    {frame : Bytes} (h : Piped J id n) (hl : Locked J n) (hc : n.connected = true)
    (hframe : (n.broker.clients id).sent[n.heard.length + 1]? = some frame)
    (hpc : n.shared.pcs t = .awaiting call) :
    Piped J id { n with
      shared := { n.shared.enter t (.storing call got (heardStores got)) with holder := none }
      seen := n.seen + frame.length
      heard := n.heard ++ [⟨(t, n.begun t), frame⟩] } := by
  have hheld : n.shared.holder = some t := (hl.holder t).mpr (by rw [hpc]; rfl)
  obtain ⟨bytes, hlast⟩ := hl.last t call (by rw [hpc]; rfl)
  have hlt := (List.getElem?_eq_some_iff.mp hframe).1
  have hcount : n.asked.length = n.heard.length + 1 := by
    rcases h.count with hcount | hdeaf
    · rwa [hheld] at hcount
    · omega
  refine ⟨h.taken, h.decoded, ?_, ?_, h.joined, fun _ => ?_, fun hno => ?_, .inl ?_⟩
  · dsimp only
    rw [List.map_append, List.length_append, List.length_singleton, List.take_add_one,
      List.getElem?_drop, Nat.add_comm 1, hframe, h.frames]
    rfl
  · dsimp only
    rw [List.map_append, List.length_append, List.length_singleton, List.take_add_one,
      List.getElem?_map, h.tickets]
    rw [List.getLast?_eq_getElem?, hcount, Nat.add_sub_cancel] at hlast
    rw [hlast]
    rfl
  · dsimp only
    rw [h.seen hc, List.length_append, List.length_singleton,
      List.take_add_one (i := n.heard.length + 1), hframe]
    simp
  · rw [hc] at hno
    cases hno
  · simp [hcount]

/-- A call that reads the end of the stream. -/
theorem piped_ended {shared : Shared} (h : Piped J id n) (hc : n.connected = true)
    (hreturned : (n.broker.clients id).pc = .returned)
    (hsent : (n.broker.clients id).sent.length = n.heard.length + 1) :
    Piped J id { n with shared } := by
  refine ⟨h.taken, h.decoded, h.frames, h.tickets, h.joined, h.seen, fun hno => ?_,
    .inr ⟨hreturned, hsent⟩⟩
  rw [hc] at hno
  cases hno

/-- The Hello frame. -/
theorem piped_connect {hello : Hello} {rest : Bytes} (h : Piped J id n)
    (hn : Numbered J w (n.broker.clients id)) (hno : n.connected = false)
    (hread : readMsg (α := Hello) J (n.unread id) = some (.ok hello, rest)) :
    Piped J id { n with
      connected := true, seen := n.seen + ((n.unread id).length - rest.length) } := by
  obtain ⟨hseen, hasked, hheard, hfree⟩ := h.apart hno
  have hunread : n.unread id = (n.broker.clients id).sent.flatten := by
    rw [SharedNet.unread, hseen, List.drop_zero]
  cases hsent : (n.broker.clients id).sent with
  | nil =>
    rw [hunread, hsent] at hread
    cases hread
  | cons first later =>
    obtain ⟨msg, hwrite⟩ := hn.hello first (by rw [hsent]; simp)
    have hall := readMsg_writeMsg hwrite later.flatten
    rw [hunread, hsent, List.flatten_cons, hall] at hread
    obtain ⟨-, rfl⟩ := Prod.mk.inj (Option.some.inj hread)
    have hjoined : true ≠ false := by decide
    refine ⟨h.taken, h.decoded, h.frames, h.tickets, fun _ => ?_, fun _ => ?_,
      fun hc => (hjoined hc).elim, h.count⟩
    · dsimp only
      rw [hsent]
      exact List.cons_ne_nil _ _
    · dsimp only
      rw [hunread, hseen, hheard, hsent]
      simp

end Responses

section Steps

/-- A state in which every call is paired with its own frame. -/
structure Sound (J : SerdeJson) (id : SessionId) (n : SharedNet S) : Prop where
  tidy : Tidy J n.broker
  locked : Locked J n
  piped : Piped J id n

theorem sound_init (f : S.File) : Sound J id (SharedNet.init f) :=
  ⟨tidy_init f, locked_init f, piped_init f⟩

/-- A step of the broker that is not one of this thread. -/
theorem client_of_other {b b' : Broker S} {a : Action} (hb : Broker.step J b a = some b')
    (hother : b.actor a ≠ some id) : b'.clients id = b.clients id := by
  rcases actor_cases b a with rfl | ⟨i, hi⟩
  · obtain ⟨_, j, rest, _, ⟨w, _, rfl⟩ | ⟨w, _, rfl⟩⟩ := step_work hb <;> rfl
  · refine (step_client hb hi).others id ?_
    rintro rfl
    exact hother hi

/-- A thread of the broker that has returned stays as it is. -/
theorem client_of_returned {b b' : Broker S} {a : Action} (hb : Broker.step J b a = some b')
    (ht : Tidy J b) (hpc : (b.clients id).pc = .returned) : b'.clients id = b.clients id :=
  client_of_other hb fun hactor => returned_still (ht.unborn id) hpc (thread_step hb hactor)

/-- A step of the broker in which the thread of the session reads nothing. -/
theorem sound_calm {a : Action} {b' : Broker S} (hs : Sound J id n)
    (ha : ∀ req, a ≠ .readReq id req) (hb : Broker.step J n.broker a = some b') :
    Sound J id { n with broker := b' } := by
  obtain ⟨htidy, hl, hp⟩ := hs
  refine ⟨step_tidy htidy hb, hl.frame rfl rfl rfl, ?_⟩
  by_cases hactor : n.broker.actor a = some id
  · have hstep := thread_step hb hactor
    exact hp.quiet (step_quiet (htidy.unborn id) ha hstep)
      (fun hpc => (returned_still (htidy.unborn id) hpc hstep).elim)
  · have hclient : b'.clients id = n.broker.clients id := client_of_other hb hactor
    refine hp.quiet ?_ (fun _ => hclient)
    rw [hclient]
    exact ⟨rfl, List.prefix_rfl, fun hlost => hlost⟩

theorem sound_read {t : ThreadId} {call : ApiCall} {got : Except String Response} {rest : Bytes}
    (hs : Sound J id n) (hc : n.connected = true) (hpc : n.shared.pcs t = .awaiting call)
    (hread : readMsg (α := Response) J (n.unread id) = some (got, rest)) :
    Sound J id { n with
      shared := { n.shared.enter t (.storing call got (heardStores got)) with holder := none }
      seen := n.seen + ((n.unread id).length - rest.length)
      heard := n.heard ++ [⟨(t, n.begun t),
        (n.unread id).take ((n.unread id).length - rest.length)⟩] } := by
  obtain ⟨frame, hframe, hunread⟩ := next_frame hs.piped (hs.tidy.numbered id) hc hread
  have hlen : (n.unread id).length - rest.length = frame.length := by
    rw [hunread, List.length_append, Nat.add_sub_cancel]
  rw [hlen, hunread, List.take_left]
  exact ⟨hs.tidy, hs.locked.consumed hpc, piped_consumed hs.piped hs.locked hc hframe hpc⟩

theorem step_sound {a : SharedAction} (hs : Sound J id n) (h : n.step J id a = some n') :
    Sound J id n' := by
  cases net_step h with
  | deliver hread hb =>
    exact ⟨step_tidy hs.tidy hb, hs.locked.frame rfl rfl rfl,
      hs.piped.deliver hs.locked hread (thread_step hb rfl)⟩
  | garble hread hb =>
    exact ⟨step_tidy hs.tidy hb, hs.locked.frame rfl rfl rfl,
      hs.piped.garble hs.locked hread (thread_step hb rfl)⟩
  | calm ha hb => exact sound_calm hs ha hb
  | connect hno hread =>
    exact ⟨hs.tidy, hs.locked.frame rfl rfl rfl,
      piped_connect hs.piped (hs.tidy.numbered id) hno hread⟩
  | write hc hpc hfree hwrite =>
    exact ⟨hs.tidy, hs.locked.written hpc hfree hwrite, hs.piped.written hc hfree⟩
  | @writeFails t call err hc hpc =>
    have hout : Outside (.check t) n.shared
        (n.shared.enter t (.storing call (.error err) (failStores err))) :=
      outside_of_pcs rfl rfl (by rw [hpc]; rfl) rfl (fun h => h.elim)
    exact ⟨hs.tidy, hs.locked.outside hout (by simp), hs.piped.outside rfl⟩
  | read hc hpc hread => exact sound_read hs hc hpc hread
  | readEnds hc hpc hread hreturned =>
    obtain ⟨hunread, hsent⟩ := no_frame hs.piped (hs.tidy.numbered id) hc hread
    rw [hunread, List.length_nil, Nat.add_zero]
    exact ⟨hs.tidy, hs.locked.consumed hpc, piped_ended hs.piped hc hreturned hsent⟩
  | start hc hstep =>
    exact ⟨hs.tidy, hs.locked.start hstep,
      hs.piped.outside (step_outside (by simp) (by simp) hstep).holder⟩
  | work hc hstart hwrite hread hstep =>
    have hout := step_outside hwrite hread hstep
    exact ⟨hs.tidy, hs.locked.outside hout hstart, hs.piped.outside hout.holder⟩

/-- A run of the threads of the handle at session `id`, with the broker and all its other
clients. -/
def SharedRun (J : SerdeJson) (f : S.File) (id : SessionId) (acts : List SharedAction)
    (n : SharedNet S) : Prop :=
  Trace (fun n a n' => n.step J id a = some n') (SharedNet.init f) acts n

theorem run_sound {f : S.File} {acts : List SharedAction} (h : SharedRun J f id acts n) :
    Sound J id n :=
  h.invariant (fun _ _ _ => step_sound) (sound_init f)

end Steps

section Claim

/-- A call outside the stream, or one that fails before it has written a byte. -/
def Unwritten (J : SerdeJson) (n : SharedNet S) : SharedAction → Prop
  | .write t => ∃ call err, n.shared.pcs t = .unsent call ∧ writeMsg J call.request = .error err
  | .work _ => True
  | _ => False

structure SameStream (n n' : SharedNet S) : Prop where
  broker : n'.broker = n.broker
  outbox : n'.outbox = n.outbox
  seen : n'.seen = n.seen
  holder : n'.shared.holder = n.shared.holder
  asked : n'.asked = n.asked
  heard : n'.heard = n.heard

theorem unwritten_same {a : SharedAction} (ha : Unwritten J n a) (h : n.step J id a = some n') :
    SameStream n n' := by
  cases net_step h with
  | write hc hpc hfree hwrite =>
    obtain ⟨call, err, hpc', hfails⟩ := ha
    cases hpc.symm.trans hpc'
    cases hwrite.symm.trans hfails
  | writeFails => exact ⟨rfl, rfl, rfl, rfl, rfl, rfl⟩
  | start hc hstep =>
    exact ⟨rfl, rfl, rfl, (step_outside (by simp) (by simp) hstep).holder, rfl, rfl⟩
  | work hc hstart hwrite hread hstep =>
    exact ⟨rfl, rfl, rfl, (step_outside hwrite hread hstep).holder, rfl, rfl⟩
  | _ => exact ha.elim

/-- The frame that a call has consumed is the one that the broker wrote for its request:
both have the same number in their streams, and no two calls share a ticket. -/
structure Paired (J : SerdeJson) (id : SessionId) (n : SharedNet S) : Prop where
  tickets : (n.asked.map Question.ticket).Nodup
  paired : ∀ (i : ℕ) (r : Consumed), n.heard[i]? = some r → ∃ (q : Question) (req : Request × Chan),
    n.asked[i]? = some q ∧ q.ticket = r.ticket ∧ writeMsg J q.call.request = .ok q.frame ∧
    readMsg (α := Request) J q.frame = some (.ok req.1, []) ∧
    (n.broker.clients id).requests[i]? = some req ∧
    (n.broker.clients id).sent[i + 1]? = some r.frame ∧
    FrameOf J n.broker.worker req r.frame

theorem getElem?_of_forall₂ {α β : Type} {R : α → β → Prop} {l : List α} {m : List β} {i : ℕ}
    {b : β} (h : List.Forall₂ R l m) (hb : m[i]? = some b) : ∃ a, l[i]? = some a ∧ R a b := by
  induction h generalizing i with
  | nil => cases hb
  | cons hfirst _ ih =>
    cases i with
    | zero =>
      cases hb
      exact ⟨_, rfl, hfirst⟩
    | succ i => exact ih hb

theorem Sound.paired (hs : Sound J id n) : Paired J id n := by
  refine ⟨hs.locked.nodup, fun i r hr => ?_⟩
  have hlt := (List.getElem?_eq_some_iff.mp hr).1
  have hframe : (n.broker.clients id).sent[i + 1]? = some r.frame := by
    have hmap : (n.heard.map Consumed.frame)[i]? = some r.frame := by
      rw [List.getElem?_map, hr]
      rfl
    rw [hs.piped.frames, List.getElem?_take_of_lt hlt, List.getElem?_drop, Nat.add_comm] at hmap
    exact hmap
  obtain ⟨req, hreq, hof⟩ := getElem?_of_forall₂ (i := i) (b := r.frame)
    (hs.tidy.numbered id).framed (by rw [List.getElem?_drop, Nat.add_comm]; exact hframe)
  have hreq' : (n.broker.clients id).requests[i]? = some req := by
    rw [List.getElem?_take] at hreq
    split at hreq
    · exact hreq
    · cases hreq
  obtain ⟨q, hq, hdecodes⟩ := getElem?_of_forall₂ hs.piped.decoded hreq'
  have hq' : n.asked[i]? = some q := by
    rw [List.getElem?_take] at hq
    split at hq
    · exact hq
    · cases hq
  have hticket : q.ticket = r.ticket := by
    have hmap : (n.heard.map Consumed.ticket)[i]? = some r.ticket := by
      rw [List.getElem?_map, hr]
      rfl
    rw [hs.piped.tickets, List.getElem?_take_of_lt hlt, List.getElem?_map, hq'] at hmap
    exact Option.some.inj hmap
  exact ⟨q, req, hq', hticket, hs.locked.frames q (List.mem_of_getElem? hq'), hdecodes, hreq',
    hframe, hof⟩

/-- In every run each response frame that a call consumes is that of its own request, and a
call that fails before it writes leaves the stream as it was. -/
theorem responses_paired {f : S.File} {acts : List SharedAction} (h : SharedRun J f id acts n) :
    Paired J id n ∧
      ∀ a n', Unwritten J n a → n.step J id a = some n' → SameStream n n' :=
  ⟨(run_sound h).paired, fun _ _ ha hstep => unwritten_same ha hstep⟩

end Claim

section Begun

open Execution MessageTexts Exchanges ClientCalls Panics
open SmallSqlite (insertedFile insertedConn insertedResponse)

/-- Steps of the broker that ask nothing of the connection. -/
theorem run_calm {b : Broker S} {acts : List Action}
    (hacts : ∀ a ∈ acts, ∀ m : SharedNet S, m.socket J id a = some m)
    (h : Trace (fun s a s' => Broker.step J s a = some s') n.broker acts b) :
    Trace (fun n a n' => n.step J id a = some n') n (acts.map .broker) { n with broker := b } := by
  generalize hb : n.broker = b₀ at h
  induction h generalizing n with
  | nil =>
    rw [← hb]
    exact .nil n
  | @cons b₀ b₁ b₂ a rest hstep _ ih =>
    subst hb
    have hfirst : n.step J id (.broker a) = some { n with broker := b₁ } := by
      simp only [SharedNet.step, hacts a (List.mem_cons_self ..), hstep]
    exact .cons hfirst (ih (n := { n with broker := b₁ })
      (fun a' ha' => hacts a' (List.mem_cons_of_mem a ha')) rfl)

theorem enter_enter (s : Shared) (t : ThreadId) (pc pc' : CallPc) :
    (s.enter t pc).enter t pc' = s.enter t pc' := by
  simp only [Shared.enter, Function.update_idem]

theorem step_start {t : ThreadId} {call : ApiCall} {s : Shared} (hc : n.connected = true)
    (h : n.shared.step (.start t call) = some s) : n.step J id (.work (.start t call)) =
      some { n with shared := s, begun := Function.update n.begun t (n.begun t + 1) } := by
  simp only [SharedNet.step, SharedNet.work, if_pos hc, h, Option.map_some]

/-- A thread on the handle, and neither on the stream nor at the start of a call. -/
def OffStream : Act → Prop
  | .start _ _ => False
  | .write _ _ => False
  | .read _ _ => False
  | _ => True

theorem step_offStream {a : Act} {s : Shared} (hc : n.connected = true) (ha : OffStream a)
    (h : n.shared.step a = some s) :
    n.step J id (.work a) = some { n with shared := s } := by
  cases a <;> first | exact ha.elim | simp only [SharedNet.step, SharedNet.work, if_pos hc, h,
    Option.map_some]

/-- Session `id` is open on `conn`, its thread is at its read, and no call is on the stream. -/
structure Linked (n : SharedNet S) (id : SessionId) (f : S.File) (conn : S.Conn) : Prop where
  idle : Idle n.broker id f conn
  connected : n.connected = true
  outbox : n.outbox = []
  seen : n.seen = (n.broker.clients id).sent.flatten.length
  free : n.shared.holder = none
  usable : n.shared.db.closed = false

def linking : List SharedAction := connecting.map .broker ++ [.connect]

theorem run_linked {f f' : S.File} {conn : S.Conn} (hopen : openStorage S f = (.ok conn, f'))
    (hhello : Carries J (Broker.hello 1 (.ok ()))) :
    ∃ n : SharedNet S, SharedRun J f 1 linking n ∧ Linked n 1 f' conn ∧ n.shared = .init ∧
      n.begun = (fun _ => 0) ∧ n.heard = [] ∧ (n.broker.clients 1).requests = [] := by
  obtain ⟨hello, hwrite, hdecode⟩ := hhello
  let n₀ : SharedNet S := { SharedNet.init f with broker := greeted f hello }
  let n₁ : SharedNet S := { n₀ with connected := true, seen := hello.length }
  have hrun : SharedRun J f 1 (connecting.map .broker) n₀ :=
    run_calm (n := SharedNet.init f) (by simp [connecting, SharedNet.socket])
      (run_greeted hopen hwrite)
  have hconnect : n₀.step J 1 .connect = some n₁ := by
    have hunread : n₀.unread 1 = hello := by simp [SharedNet.unread, n₀, greeted, SharedNet.init]
    have hread : readMsg (α := Hello) J hello = some (.ok (Broker.hello 1 (.ok ())), []) := by
      rw [← hdecode, ← List.append_nil hello]
      exact readMsg_writeMsg hwrite []
    have hno : n₀.connected = false := rfl
    simp only [SharedNet.step, SharedNet.connect, hread, hno, hunread]
    simp [n₀, n₁, SharedNet.init, Broker.hello]
  exact ⟨n₁, hrun.snoc hconnect,
    ⟨greeted_idle hello hopen, rfl, rfl, by simp [n₁, n₀, greeted], rfl, rfl⟩, rfl, rfl, rfl, rfl⟩

/-- A call of thread `t` has written its request and waits on the stream. -/
def waiting (n : SharedNet S) (t : ThreadId) (call : ApiCall) (bytes : Bytes) : SharedNet S :=
  { n with
    shared := { n.shared.enter t (.awaiting call) with holder := some t }
    outbox := bytes
    begun := Function.update n.begun t (n.begun t + 1)
    asked := n.asked ++ [⟨(t, n.begun t + 1), call, bytes⟩] }

theorem run_waiting {f : S.File} {conn : S.Conn} {t : ThreadId} {call : ApiCall} {bytes : Bytes}
    (hn : Linked n id f conn) (hidle : n.shared.pcs t = .idle)
    (hwrite : writeMsg J call.request = .ok bytes) :
    Trace (fun n a n' => n.step J id a = some n') n
      [.work (.start t call), .work (.check t), .write t] (waiting n t call bytes) := by
  let n₁ : SharedNet S := { n with
    shared := n.shared.enter t (.checking call)
    begun := Function.update n.begun t (n.begun t + 1) }
  let n₂ : SharedNet S := { n₁ with shared := n.shared.enter t (.unsent call) }
  have hstart : n.step J id (.work (.start t call)) = some n₁ :=
    step_start hn.connected (by simp only [Shared.step, hidle])
  have hcheck : n₁.step J id (.work (.check t)) = some n₂ := by
    have hpc : n₁.shared.pcs t = .checking call := Function.update_self ..
    have husable : n₁.shared.db.closed = false := hn.usable
    refine step_offStream hn.connected trivial ?_
    simp only [Shared.step, hpc, husable, Bool.false_eq_true, if_false]
    exact congrArg some (enter_enter ..)
  have hsent : n₂.step J id (.write t) = some (waiting n t call bytes) := by
    have hpc : n₂.shared.pcs t = .unsent call := Function.update_self ..
    have hstep : n₂.shared.step (.write t (.ok ())) = some (waiting n t call bytes).shared := by
      have hfree : n₂.shared.holder = none := hn.free
      simp only [Shared.step, hpc, hfree]
      exact congrArg (fun s : Shared => some { s with holder := some t }) (enter_enter ..)
    have hc : n₂.connected = true := hn.connected
    have hticket : n₂.begun t = n.begun t + 1 := Function.update_self ..
    have hbox : n₂.outbox = [] := hn.outbox
    simp only [SharedNet.step, SharedNet.write, if_pos hc, hpc, hwrite, hstep, hticket, hbox,
      Option.map_some, List.nil_append]
    rfl
  exact .cons hstart (.cons hcheck (.single hsent))

/-- The broker reads a request that stands alone on the connection. -/
theorem step_delivered {f : S.File} {conn : S.Conn} {req : Request}
    (hidle : Idle n.broker id f conn)
    (hread : readMsg (α := Request) J n.outbox = some (.ok req, [])) :
    n.step J id (.broker (.readReq id (some req))) =
      some { n with outbox := [], broker := n.broker.forward id req } := by
  have hsocket : n.socket J id (.readReq id (some req)) = some { n with outbox := [] } := by
    simp [SharedNet.socket, SharedNet.delivered, hread]
  simp only [SharedNet.step, hsocket, step_read hidle]

/-- A call reads a response that stands alone on the connection. -/
theorem step_answered {t : ThreadId} {call : ApiCall} {resp : Response}
    (hc : n.connected = true) (hpc : n.shared.pcs t = .awaiting call)
    (hread : readMsg (α := Response) J (n.unread id) = some (.ok resp, [])) :
    n.step J id (.read t) = some { n with
      shared := { n.shared.enter t (.storing call (.ok resp) (applyStores resp)) with
        holder := none }
      seen := n.seen + (n.unread id).length
      heard := n.heard ++ [⟨(t, n.begun t), n.unread id⟩] } := by
  have hstep : n.shared.step (.read t (.ok resp)) = some
      { n.shared.enter t (.storing call (.ok resp) (applyStores resp)) with holder := none } := by
    simp only [Shared.step, hpc]
    rfl
  simp only [SharedNet.step, SharedNet.read, if_pos hc, hread, hstep, Option.map_some,
    List.length_nil, Nat.sub_zero, List.take_length]

/-- The steps of a call of thread `t` until its response is there. -/
def sharedCall (id : SessionId) (t : ThreadId) (call : ApiCall) : List SharedAction :=
  [.work (.start t call), .work (.check t), .write t] ++ (exchange id call.request).map .broker

/-- One call up to its read: the handle and the ghost state change for its thread alone. -/
theorem run_sharedCall {f : S.File} {conn : S.Conn} {t : ThreadId} {call : ApiCall}
    {out : Outcome S Response} (hn : Linked n id f conn) (hidle : n.shared.pcs t = .idle)
    (hfits : Fits (sqlOf call.request)) (hout : runOn f conn call.request = out)
    (hreq : Carries J call.request) (hresp : Carries J out.result) :
    ∃ n₁ n' frame,
      Trace (fun n a n' => n.step J id a = some n') n (sharedCall id t call) n₁ ∧
      readMsg (α := Response) J (n₁.unread id) = some (.ok out.result, []) ∧
      n₁.step J id (.read t) = some n' ∧ Linked n' id out.file out.conn ∧
      n'.shared = n.shared.enter t (.storing call (.ok out.result) (applyStores out.result)) ∧
      n'.begun = Function.update n.begun t (n.begun t + 1) ∧
      n'.heard = n.heard ++ [⟨(t, n.begun t + 1), frame⟩] ∧
      writeMsg J out.result = .ok frame ∧
      (n'.broker.clients id).requests =
        (n.broker.clients id).requests ++ [(call.request, n.broker.nextChan)] := by
  subst hout
  obtain ⟨asked, hasked, hdecodeReq⟩ := hreq
  obtain ⟨reply, hreply, hdecodeResp⟩ := hresp
  obtain ⟨s₂, s₃, hwork, hrecv, hready⟩ := run_ready (J := J) hn.idle (request_isClose call) hfits
  obtain ⟨s₄, hwritten, hidle₄, hclient, -⟩ := ready_written hready hreply
  let n₁ : SharedNet S := { waiting n t call asked with
    outbox := [], broker := n.broker.forward id call.request }
  let n₂ : SharedNet S := { n₁ with broker := s₄ }
  have hdeliver : (waiting n t call asked).step J id
      (.broker (.readReq id (some call.request))) = some n₁ := by
    have hnext := readMsg_writeMsg hasked []
    rw [List.append_nil, hdecodeReq] at hnext
    exact step_delivered (n := waiting n t call asked) hn.idle hnext
  have hserved : Trace (fun n a n' => n.step J id a = some n') n₁
      ([.work, .recvReply id, .writeReply id true].map .broker) n₂ :=
    run_calm (by simp [SharedNet.socket]) (.cons hwork (.cons hrecv (.single hwritten)))
  have hsent : (n₂.broker.clients id).sent = (n.broker.clients id).sent ++ [reply] := by
    change (s₄.clients id).sent = _
    rw [hclient]
  have hunread : n₂.unread id = reply := by
    rw [SharedNet.unread, hsent, List.flatten_append, show n₂.seen = _ from hn.seen,
      List.drop_left, List.flatten_singleton]
  have hnext : readMsg (α := Response) J (n₂.unread id) =
      some (.ok (runOn f conn call.request).result, []) := by
    rw [hunread, ← hdecodeResp, ← List.append_nil reply]
    exact readMsg_writeMsg hreply []
  have hread := step_answered (n := n₂) hn.connected (Function.update_self ..) hnext
  refine ⟨n₂, _, reply, (run_waiting hn hidle hasked).append (.cons hdeliver hserved), hnext,
    hread, ⟨hidle₄, hn.connected, rfl, ?_, rfl, hn.usable⟩, ?_, rfl, ?_, hreply, ?_⟩
  · change n₂.seen + (n₂.unread id).length = (n₂.broker.clients id).sent.flatten.length
    rw [hunread, hsent, List.flatten_append, List.length_append, List.flatten_singleton,
      show n₂.seen = _ from hn.seen]
  · refine (Shared.mk.injEq ..).mpr ⟨rfl, ?_, hn.free.symm, rfl⟩
    exact congrArg Shared.pcs (enter_enter ..)
  · change n.heard ++ [⟨(t, n₂.begun t), n₂.unread id⟩] = _
    rw [hunread, show n₂.begun t = n.begun t + 1 from Function.update_self ..]
  · change (s₄.clients id).requests = _
    rw [hclient]

def begunRequests : List (Request × Bytes) := [(.exec "BEGIN" [], execText (ascii "BEGIN"))]

def begunResponses : List (Response × Bytes) := [(begunResponse, begunText)]

theorem begun_spoken : Spoken begunRequests begunResponses where
  requests := ⟨by decide, by decide⟩
  responses := ⟨by decide, by decide⟩
  texts := by decide
  sizes := spoken_sizes (List.forall_mem_singleton.mpr (exec_sized (by decide)))
    (List.forall_mem_singleton.mpr begun_sized)

def beginCall : ApiCall := .exec "BEGIN" false

/-- One thread takes the transaction. -/
def beginActs : List SharedAction :=
  connecting.map .broker ++ [.connect, .work (.start 0 beginCall), .work (.check 0), .write 0] ++
    (exchange 1 beginCall.request).map .broker ++ [.read 0]

def twoRequests : List (Request × Bytes) :=
  [(.exec SmallSqlite.insertSql [], execText (ascii SmallSqlite.insertSql)),
    (.exec "BEGIN" [], execText (ascii "BEGIN"))]

def openedConn : SmallSqlite.Conn := ⟨false, 1, 1, 0⟩

def openedResponse : Response := SmallSqlite.okResponse openedConn [] []

def twoResponses : List (Response × Bytes) :=
  [(insertedResponse, insertedText),
   (openedResponse,
    responseText okText (ascii "[]") (ascii "[]") (ascii "1") (ascii "false") (ascii "1"))]

theorem two_spoken : Spoken twoRequests twoResponses where
  requests := ⟨by decide, by decide⟩
  responses := ⟨by decide, by decide⟩
  texts := by decide
  sizes := by
    refine spoken_sizes ?_ ?_
    · exact List.forall_mem_cons.mpr
        ⟨exec_sized (by decide), List.forall_mem_singleton.mpr (exec_sized (by decide))⟩
    · exact List.forall_mem_cons.mpr
        ⟨response_sized (by decide), List.forall_mem_singleton.mpr (response_sized (by decide))⟩

/-- One thread inserts and another takes the transaction. -/
def pairActs : List SharedAction :=
  linking ++ sharedCall 1 0 (.exec SmallSqlite.insertSql false) ++ [.read 0] ++
    sharedCall 1 1 (.exec "BEGIN" false) ++ [.read 1]

theorem run_pair : ∃ (n : SharedNet SmallSqlite.engine) (first second : Bytes),
    SharedRun (talk twoRequests twoResponses) SmallSqlite.newFile 1 pairActs n ∧
    Linked n 1 insertedFile openedConn ∧
    n.shared = (Shared.init.enter 0 (.storing (.exec SmallSqlite.insertSql false)
      (.ok insertedResponse) (applyStores insertedResponse))).enter 1
        (.storing (.exec "BEGIN" false) (.ok openedResponse) (applyStores openedResponse)) ∧
    writeMsg (talk twoRequests twoResponses) insertedResponse = .ok first ∧
    writeMsg (talk twoRequests twoResponses) openedResponse = .ok second ∧
    n.heard = [⟨(0, 1), first⟩, ⟨(1, 1), second⟩] ∧
    (n.broker.clients 1).requests.length = 2 := by
  have hinsert : runOn (S := SmallSqlite.engine) SmallSqlite.newFile SmallSqlite.newConn
      (ApiCall.exec SmallSqlite.insertSql false).request =
        ⟨insertedResponse, insertedFile, insertedConn⟩ :=
    SmallSqlite.execute_insert
  have hbegin : runOn (S := SmallSqlite.engine) insertedFile insertedConn
      (ApiCall.exec "BEGIN" false).request = ⟨openedResponse, insertedFile, openedConn⟩ :=
    SmallSqlite.execute_begin rfl
  obtain ⟨n₀, hlink, hlinked, hshared, hbegun, hheard, hreqs⟩ :=
    run_linked (S := SmallSqlite.engine) (f := SmallSqlite.newFile) rfl two_spoken.hello
  obtain ⟨n₁, n₂, first, hcall₁, _, hread₁, hlinked₂, hshared₂, hbegun₂, hheard₂, hfirst, hreqs₂⟩ :=
    run_sharedCall (t := 0) hlinked (by rw [hshared]; rfl) (Or.inl (by decide)) hinsert
      (two_spoken.request (List.mem_cons_self ..)) (two_spoken.response (List.mem_cons_self ..))
  rw [hshared] at hshared₂
  obtain ⟨n₃, n₄, second, hcall₂, _, hread₂, hlinked₄, hshared₄, _, hheard₄, hsecond, hreqs₄⟩ :=
    run_sharedCall (t := 1) hlinked₂ (by rw [hshared₂]; rfl) (Or.inl (by decide)) hbegin
      (two_spoken.request (List.mem_cons_of_mem _ (List.mem_cons_self ..)))
      (two_spoken.response (List.mem_cons_of_mem _ (List.mem_cons_self ..)))
  refine ⟨n₄, first, second, (((hlink.append hcall₁).snoc hread₁).append hcall₂).snoc hread₂,
    hlinked₄, by rw [hshared₄, hshared₂], hfirst, hsecond, ?_, ?_⟩
  · rw [hheard₄, hheard₂, hheard, hbegun₂, hbegun]
    rfl
  · rw [hreqs₄, hreqs₂, hreqs]
    rfl

/-- Each thread has consumed the frame of its own response. -/
theorem two_threads_paired : ∃ (n : SharedNet SmallSqlite.engine) (first second : Bytes),
    SharedRun (talk twoRequests twoResponses) SmallSqlite.newFile 1 pairActs n ∧
    writeMsg (talk twoRequests twoResponses) insertedResponse = .ok first ∧
    writeMsg (talk twoRequests twoResponses) openedResponse = .ok second ∧
    n.heard = [⟨(0, 1), first⟩, ⟨(1, 1), second⟩] ∧
    Paired (talk twoRequests twoResponses) 1 n := by
  obtain ⟨n, first, second, hrun, _, _, hfirst, hsecond, hheard, _⟩ := run_pair
  exact ⟨n, first, second, hrun, hfirst, hsecond, hheard, (responses_paired hrun).1⟩

end Begun

end SqliteBroker.Pairing
