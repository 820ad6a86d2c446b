import SqliteBroker.Tickets
import SqliteBroker.AutocommitMirror
import SqliteBroker.SharedStream

/-!
The clients see a serial database, too. A call of the application takes effect at one moment
between the moment it has written its request and the moment it has decoded its response, in the
order of these moments: frames, channels and threads in between change nothing. A session that is
given up leaves the database at some moment of its own, and nothing of it is served after that.
-/
namespace SqliteBroker.SerialClients

open Utf8 Messages Engine Serde RealValues Blank Frames BrokerWorker Isolation Runs Threads
  ShimConnection Network Lockstep NumberedReplies Linearization SerialBroker Tickets
open Relation (ReflTransGen)
open SharedStream (returned_still step_quiet)

variable {S : Sqlite}

/-- What `connect` makes of the Hello. -/
def greeting (hello : Hello) : Except String Unit :=
  if hello.ok then .ok () else .error (hello.error.getD "broker rejected session")

theorem greeting_hello (id : SessionId) (opened : Except String Unit) :
    greeting (Broker.hello id opened) = opened := by
  cases opened <;> rfl

/-- The request that an event puts on the connection of `id`. -/
def question (id : SessionId) : Event Ticket Op Out → Option Request
  | .call (i, _ + 1) (.request _ req) => if i = id then some req else none
  | _ => none

/-- The requests that client `id` has put on its connection. -/
def asked (H : ClientHistory) (id : SessionId) : List Request := H.filterMap (question id)

/-- What a client does and sees in a step. -/
def observed (J : SerdeJson) (n : Net S) (H : ClientHistory) : NetAction → ClientHistory
  | .broker .accept => [.call (n.broker.nextSession, 0) (.openConn n.broker.nextSession)]
  | .hello id =>
    match n.incoming (α := Hello) J id with
    | some (.ok hello, _) => [.ret (id, 0) (.opened (greeting hello))]
    | _ => []
  | .call id call =>
    match (n.shims id).db.closed, writeMsg J call.request with
    | false, .ok _ => [.call (id, (asked H id).length + 1) (.request id call.request)]
    | _, _ => []
  | .recv id =>
    match n.incoming (α := Response) J id with
    | some (.ok resp, _) => [.ret (id, (asked H id).length) (.response resp)]
    | _ => []
  | .close id true =>
    match writeMsg J Request.close with
    | .ok _ => [.call (id, (asked H id).length + 1) (.request id .close)]
    | .error _ => []
  | _ => []

def clientHistory (J : SerdeJson) : Net S → ClientHistory → List NetAction → ClientHistory
  | _, H, [] => H
  | n, H, a :: rest =>
    match n.step J a with
    | some n' => clientHistory J n' (H ++ observed J n H a) rest
    | none => H

theorem clientHistory_snoc {J : SerdeJson} {n t t' : Net S} {H : ClientHistory}
    {past : List NetAction} {a : NetAction}
    (h : Trace (fun n a n' => n.step J a = some n') n past t) (hstep : t.step J a = some t') :
    clientHistory J n H (past ++ [a]) =
      clientHistory J n H past ++ observed J t (clientHistory J n H past) a := by
  induction h generalizing H with
  | nil n => simp [clientHistory, hstep]
  | cons hab _ ih => simp [clientHistory, hab, ih hstep]

section Conversation

variable {J : SerdeJson} {s s' : Broker S} {a : Action} {id : SessionId} {k : ℕ}
  {H E : ClientHistory} {c c' : Client} {sh sh' : Shim}

/-- The shim has read the first `k` frames of the thread. -/
def Reads (c : Client) (sh : Shim) (k : ℕ) : Prop :=
  k ≤ c.sent.length ∧ sh.seen = (c.sent.take k).flatten.length

/-- It has read as many, or all that there will ever be. -/
def Reaches (c : Client) (sh : Shim) (k : ℕ) : Prop :=
  ∃ m, Reads c sh m ∧ (m = k ∨ (hasReturned c.pc = true ∧ m = c.sent.length))

/-- The frames that a shim has read after `count` requests. A Close that does not fit into a frame
is never sent, and its response is waited for. -/
def Expects (count : ℕ) (c : Client) (sh : Shim) : Pc → Prop
  | .connecting => count = 0 ∧ Reads c sh 0
  | .idle => Reaches c sh (count + 1)
  | .awaiting _ => 0 < count ∧ Reaches c sh count
  | .closing => Reaches c sh (count + 1) ∨ (0 < count ∧ Reaches c sh count)
  | _ => True

/-- The thread has read a first part of the requests, but for their doubles, and its connection
holds the others, as long as it reads requests at all. -/
def Queues (J : SerdeJson) (reqs : List Request) (c : Client) (sh : Shim) : Prop :=
  ∃ read rest, reqs = read ++ rest ∧
    List.Forall₂ (fun asked req => blank asked = blank req) read (c.requests.map Prod.fst) ∧
    (Lost c.pc ∨ ∃ frames,
      List.Forall₂ (fun req bytes => writeMsg J req = .ok bytes) rest frames ∧
        sh.outbox = frames.flatten)

/-- A client and its thread, after the history `H` of all clients. -/
structure Converses (J : SerdeJson) (H : ClientHistory) (id : SessionId) (c : Client) (sh : Shim) :
    Prop where
  asks : ∀ (k : ℕ) (req : Request), (asked H id)[k]? = some req →
    .call (id, k + 1) (.request id req) ∈ H
  bound : ∀ k op, .call (id, k) op ∈ H → k ≤ (asked H id).length
  queues : Queues J (asked H id) c sh
  expects : Expects (asked H id).length c sh sh.pc

theorem asked_append (H E : ClientHistory) (id : SessionId) :
    asked (H ++ E) id = asked H id ++ asked E id := List.filterMap_append

theorem asked_eq_nil (hE : ∀ k op, .call (id, k) op ∉ E) : asked E id = [] := by
  refine List.filterMap_eq_nil_iff.mpr ?_
  intro ev hev
  cases ev with
  | ret t out => rfl
  | call t op =>
    obtain ⟨i, k⟩ := t
    cases k with
    | zero => rfl
    | succ k =>
      cases op with
      | request j req =>
        refine if_neg ?_
        rintro rfl
        exact hE _ _ hev
      | _ => rfl

/-- What is not asked by this client. -/
theorem Converses.extend (hc : Converses J H id c sh) (hE : ∀ k op, .call (id, k) op ∉ E) :
    Converses J (H ++ E) id c sh := by
  have hsame : asked (H ++ E) id = asked H id := by
    rw [asked_append, asked_eq_nil hE, List.append_nil]
  refine ⟨?_, ?_, ?_, ?_⟩
  · rw [hsame]
    exact fun k req hreq => List.mem_append_left _ (hc.asks k req hreq)
  · rw [hsame]
    intro k op hmem
    rcases List.mem_append.mp hmem with hold | hnew
    · exact hc.bound k op hold
    · exact absurd hnew (hE k op)
  · rw [hsame]
    exact hc.queues
  · rw [hsame]
    exact hc.expects

/-- A new connection. -/
theorem converses_accept (hnone : ∀ k op, .call (id, k) op ∉ H) (hrequests : c.requests = []) :
    Converses J (H ++ [.call (id, 0) (.openConn id)]) id c (.new .connecting) := by
  have hempty : asked (H ++ [.call (id, 0) (.openConn id)]) id = [] := by
    rw [asked_append, asked_eq_nil hnone]
    rfl
  refine ⟨?_, ?_, ?_, ?_⟩
  · rw [hempty]
    intro k req hreq
    cases hreq
  · intro k op hmem
    rcases List.mem_append.mp hmem with hold | hnew
    · exact absurd hold (hnone k op)
    · cases List.mem_singleton.mp hnew
      exact Nat.zero_le _
  · rw [hempty, Queues, hrequests]
    exact ⟨[], [], rfl, .nil, Or.inr ⟨[], .nil, rfl⟩⟩
  · rw [hempty]
    exact ⟨rfl, Nat.zero_le _, rfl⟩

theorem Reads.grow (hr : Reads c sh k) (hsent : c.sent <+: c'.sent) (hseen : sh'.seen = sh.seen) :
    Reads c' sh' k := by
  obtain ⟨more, hmore⟩ := hsent
  obtain ⟨hle, hlen⟩ := hr
  refine ⟨?_, ?_⟩
  · rw [← hmore, List.length_append]
    exact Nat.le_add_right_of_le hle
  · rw [hseen, hlen, ← hmore, List.take_append_of_le_length hle]

theorem Reaches.grow (hr : Reaches c sh k) (hreturned : hasReturned c.pc = false)
    (hsent : c.sent <+: c'.sent) (hseen : sh'.seen = sh.seen) : Reaches c' sh' k := by
  obtain ⟨m, hm, hcase | ⟨hyes, _⟩⟩ := hr
  · exact ⟨m, hm.grow hsent hseen, Or.inl hcase⟩
  · rw [hreturned] at hyes
    cases hyes

theorem Expects.grow {pc : Pc} (he : Expects k c sh pc) (hreturned : hasReturned c.pc = false)
    (hsent : c.sent <+: c'.sent) (hseen : sh'.seen = sh.seen) : Expects k c' sh' pc := by
  cases pc with
  | connecting => exact ⟨he.1, he.2.grow hsent hseen⟩
  | idle => exact Reaches.grow he hreturned hsent hseen
  | awaiting call => exact ⟨he.1, he.2.grow hreturned hsent hseen⟩
  | closing =>
    exact he.imp (fun hr => hr.grow hreturned hsent hseen)
      (fun hr => ⟨hr.1, hr.2.grow hreturned hsent hseen⟩)
  | _ => trivial

/-- The thread reads the next request of its connection. -/
theorem queues_delivered {reqs : List Request} {req : Request} (hJ : J.Faithful)
    (hq : Queues J reqs c sh) (hpc : c.pc = .reading) (hd : sh.delivered J (some req) = some sh') :
    ∃ read asked rest frames, reqs = read ++ asked :: rest ∧ blank asked = blank req ∧
      List.Forall₂ (fun asked req => blank asked = blank req) read (c.requests.map Prod.fst) ∧
      List.Forall₂ (fun req bytes => writeMsg J req = .ok bytes) rest frames ∧
      sh'.outbox = frames.flatten := by
  obtain ⟨read, rest, hreqs, hread, hlost | ⟨frames, hframes, hout⟩⟩ := hq
  · rw [hpc] at hlost
    exact hlost.elim
  · unfold Shim.delivered at hd
    cases hframes with
    | nil =>
      rw [hout] at hd
      cases hd
    | @cons r frame rest frames hwrite hrest =>
      rw [hout, List.flatten_cons, readMsg_writeMsg hwrite] at hd
      cases hbody : decodeBody (α := Request) J (J.toVec (Wire.toJson r)) with
      | error err =>
        rw [hbody] at hd
        cases hd
      | ok r' =>
        rw [hbody] at hd
        dsimp only at hd
        split at hd
        · next heq =>
          cases hd
          have hblank := decodeBody_sound (hJ.request r) hbody
          exact ⟨read, r, rest, frames, hreqs, by rw [← heq, hblank], hread, hrest, rfl⟩
        · cases hd

theorem dropRemote_lost : Lost ((s.dropRemote id).clients id).pc ∧
    ((s.dropRemote id).clients id).requests = (s.clients id).requests := by
  refine ⟨dropRemote_own.1, ?_⟩
  rw [Broker.dropRemote, sendJob_own]

/-- A step of the thread. -/
theorem queues_own {reqs : List Request} (hJ : J.Faithful) (htidy : Tidy J s)
    (hq : Queues J reqs (s.clients id) sh) (hsocket : Socket J id sh sh' a)
    (hstep : ThreadStep J s id a s') : Queues J reqs (s'.clients id) sh' := by
  rcases hsocket with ⟨got, rfl, hdelivered⟩ | ⟨hnot, rfl⟩
  · cases hstep with
    | @read req hpc =>
      obtain ⟨read, asked, rest, frames, hreqs, hblank, hread, hframes, hout⟩ :=
        queues_delivered hJ hq hpc hdelivered
      rw [forward_own]
      cases s.alive with
      | true =>
        refine ⟨read ++ [asked], rest, ?_, ?_, Or.inr ⟨frames, hframes, hout⟩⟩
        · rw [hreqs, List.append_assoc]
          rfl
        · rw [if_pos rfl, List.map_append]
          exact List.rel_append hread (.cons hblank .nil)
      | false => exact ⟨read, asked :: rest, hreqs, hread, Or.inl trivial⟩
    | readFails hpc =>
      obtain ⟨read, rest, hreqs, hread, _⟩ := hq
      refine ⟨read, rest, hreqs, ?_, Or.inl dropRemote_lost.1⟩
      rw [dropRemote_lost.2]
      exact hread
  · obtain ⟨hrequests, _, hlost⟩ := step_quiet (htidy.unborn id) hnot hstep
    obtain ⟨read, rest, hreqs, hread, hcase⟩ := hq
    exact ⟨read, rest, hreqs, by rw [hrequests]; exact hread, hcase.imp_left hlost⟩

theorem thread_sent (htidy : Tidy J s) (hstep : ThreadStep J s id a s') :
    (s.clients id).sent <+: (s'.clients id).sent := by
  by_cases hread : ∃ req, a = .readReq id req
  · obtain ⟨req, rfl⟩ := hread
    cases hstep with
    | read hpc =>
      rw [forward_own]
      cases s.alive <;> exact List.prefix_rfl
    | readFails hpc =>
      rw [dropRemote_own.2]
  · exact (step_quiet (htidy.unborn id) (fun req ha => hread ⟨req, ha⟩) hstep).sent

theorem Converses.own (hc : Converses J H id (s.clients id) sh) (hJ : J.Faithful)
    (htidy : Tidy J s) (hsocket : Socket J id sh sh' a) (hstep : ThreadStep J s id a s') :
    Converses J H id (s'.clients id) sh' := by
  have hreturned : hasReturned (s.clients id).pc = false := by
    cases hpc : (s.clients id).pc with
    | returned => exact (returned_still (htidy.unborn id) hpc hstep).elim
    | _ => rfl
  have hsame : sh'.pc = sh.pc ∧ sh'.seen = sh.seen := by
    rcases hsocket with ⟨req, _, hd⟩ | ⟨_, rfl⟩
    · unfold Shim.delivered at hd
      split at hd
      · split at hd <;> cases hd
        exact ⟨rfl, rfl⟩
      · cases hd
        exact ⟨rfl, rfl⟩
      · split at hd <;> cases hd
        exact ⟨rfl, rfl⟩
      · cases hd
      · cases hd
    · exact ⟨rfl, rfl⟩
  refine ⟨hc.asks, hc.bound, queues_own hJ htidy hc.queues hsocket hstep, ?_⟩
  rw [hsame.1]
  exact hc.expects.grow hreturned (thread_sent htidy hstep) hsame.2

/-- The request that the thread reads has been asked under the next number. -/
theorem Converses.read_asked {req : Request} (hc : Converses J H id c sh) (hJ : J.Faithful)
    (hpc : c.pc = .reading) (hd : sh.delivered J (some req) = some sh') :
    ∃ asked, blank asked = blank req ∧
      .call (id, c.requests.length + 1) (.request id asked) ∈ H := by
  obtain ⟨read, asked, rest, _, hreqs, hblank, hread, _⟩ :=
    queues_delivered hJ hc.queues hpc hd
  have hlen := hread.length_eq
  rw [List.length_map] at hlen
  refine ⟨asked, hblank, hc.asks c.requests.length asked ?_⟩
  rw [hreqs, ← hlen, List.getElem?_append_right (Nat.le_refl _), Nat.sub_self]
  rfl

end Conversation

section Frames

variable {J : SerdeJson} {n : Net S} {id : SessionId} {k : ℕ} {name : Chan → Option Ticket}
  {h : History}

/-- A shim reads the next frame of its thread, or the end of the stream behind the last one. -/
theorem incoming_cases {α : Type} [Wire α] {got : Except String α} {read : ℕ}
    (hr : Reads (n.broker.clients id) (n.shims id) k)
    (h : n.incoming (α := α) J id = some (got, read)) :
    (∃ frame, (n.broker.clients id).sent[k]? = some frame ∧ ∀ msg : α, writeMsg J msg = .ok frame →
      got = decodeBody J (J.toVec (Wire.toJson msg)) ∧ read = frame.length) ∨
    (k = (n.broker.clients id).sent.length ∧ hasReturned (n.broker.clients id).pc = true ∧
      got = .error unexpectedEof ∧ read = 0) := by
  obtain ⟨hle, hseen⟩ := hr
  have hunread : unread (n.broker.clients id) (n.shims id) =
      ((n.broker.clients id).sent.drop k).flatten := by
    have hall := congrArg List.flatten (List.take_append_drop k (n.broker.clients id).sent)
    rw [List.flatten_append] at hall
    rw [unread, hseen, ← hall, List.drop_left]
  unfold Net.incoming at h
  rw [hunread] at h
  cases hdrop : (n.broker.clients id).sent.drop k with
  | nil =>
    rw [hdrop] at h
    simp only [List.flatten_nil, readMsg_nil] at h
    split at h
    · next hreturned =>
      obtain ⟨hgot, hread⟩ := Prod.mk.inj (Option.some.inj h)
      exact Or.inr ⟨Nat.le_antisymm hle (List.drop_eq_nil_iff.mp hdrop), hreturned, hgot.symm,
        hread.symm⟩
    · cases h
  | cons frame later =>
    refine Or.inl ⟨frame, ?_, fun msg hwrite => ?_⟩
    · rw [← List.head?_drop, hdrop]
      rfl
    · rw [hdrop, List.flatten_cons] at h
      dsimp only at h
      rw [readMsg_writeMsg hwrite] at h
      obtain ⟨hgot, hread⟩ := Prod.mk.inj (Option.some.inj h)
      refine ⟨hgot.symm, ?_⟩
      rw [← hread, List.length_append, Nat.add_sub_cancel]

theorem Reads.next {c : Client} {sh sh' : Shim} {frame : Bytes} (hr : Reads c sh k)
    (hframe : c.sent[k]? = some frame) (hseen : sh'.seen = sh.seen + frame.length) :
    Reads c sh' (k + 1) := by
  obtain ⟨hlt, _⟩ := List.getElem?_eq_some_iff.mp hframe
  refine ⟨hlt, ?_⟩
  rw [hseen, hr.2, List.take_add_one, hframe, List.flatten_append, List.length_append]
  simp

/-- The Hello that `connect` decodes is the one of its session. -/
theorem hears_hello {hello : Hello} {read : ℕ}
    (ha : Attends J name h id (n.broker.clients id)) (hJ : J.Faithful)
    (hr : Reads (n.broker.clients id) (n.shims id) 0)
    (hin : n.incoming (α := Hello) J id = some (.ok hello, read)) :
    Received name h (id, 0) (.opened (greeting hello)) ∧
      ∀ sh : Shim, sh.seen = (n.shims id).seen + read → Reads (n.broker.clients id) sh 1 := by
  rcases incoming_cases hr hin with ⟨frame, hframe, hmsg⟩ | ⟨_, _, hgot, _⟩
  · obtain ⟨out, hreceived, hcarries⟩ := ha.frames 0 frame hframe
    cases out with
    | opened opened =>
      obtain ⟨hgot, hread⟩ := hmsg _ hcarries
      have hsame : hello = Broker.hello id opened := decodeBody_sound (hJ.hello _) hgot.symm
      rw [hsame, greeting_hello]
      exact ⟨hreceived, fun sh hsh => hr.next hframe (hread ▸ hsh)⟩
    | _ => exact hcarries.elim
  · cases hgot

/-- A response that a shim decodes is the one of its last request, but for its doubles. -/
theorem hears_response {got : Except String Response} {read : ℕ}
    (ha : Attends J name h id (n.broker.clients id)) (hJ : J.Faithful)
    (hr : Reaches (n.broker.clients id) (n.shims id) (k + 1))
    (hin : n.incoming (α := Response) J id = some (got, read)) :
    (∀ resp, got = .ok resp → ∃ written, Received name h (id, k + 1) (.response written) ∧
        blank resp = blank written) ∧
      ∀ sh : Shim, sh.seen = (n.shims id).seen + read →
        Reaches (n.broker.clients id) sh (k + 2) := by
  obtain ⟨m, hm, hcase⟩ := hr
  rcases incoming_cases hm hin with ⟨frame, hframe, hmsg⟩ | ⟨hall, hreturned, rfl, rfl⟩
  · obtain ⟨hlt, _⟩ := List.getElem?_eq_some_iff.mp hframe
    obtain rfl : m = k + 1 := by
      rcases hcase with hcase | ⟨_, hall⟩
      · exact hcase
      · exact absurd hlt (by omega)
    obtain ⟨out, hreceived, hcarries⟩ := ha.frames (k + 1) frame hframe
    cases out with
    | response resp =>
      obtain ⟨hgot, hread⟩ := hmsg resp hcarries
      refine ⟨fun resp' hok => ?_, fun sh hsh => ⟨k + 2, hm.next hframe (hread ▸ hsh), Or.inl rfl⟩⟩
      rw [hok] at hgot
      exact ⟨resp, hreceived, decodeBody_sound (hJ.response resp) hgot.symm⟩
    | _ => exact hcarries.elim
  · refine ⟨?_, fun sh hsh => ⟨m, hm.grow List.prefix_rfl hsh, Or.inr ⟨hreturned, hall⟩⟩⟩
    intro _ hok
    cases hok

/-- Behind the frame of the last request there is none. -/
theorem hears_nothing {got : Except String Response} {read : ℕ}
    (ha : Attends J name h id (n.broker.clients id))
    (hle : (n.broker.clients id).requests.length ≤ k)
    (hr : Reaches (n.broker.clients id) (n.shims id) (k + 1))
    (hin : n.incoming (α := Response) J id = some (got, read)) : got = .error unexpectedEof := by
  obtain ⟨m, hm, hcase⟩ := hr
  rcases incoming_cases hm hin with ⟨frame, hframe, _⟩ | ⟨_, _, hgot, _⟩
  · obtain ⟨hlt, _⟩ := List.getElem?_eq_some_iff.mp hframe
    obtain rfl : m = k + 1 := by
      rcases hcase with hcase | ⟨_, hall⟩
      · exact hcase
      · exact absurd hlt (by omega)
    obtain ⟨_, ⟨ch, hname, _⟩, _⟩ := ha.frames (k + 1) frame hframe
    have hgiven := (ha.given ch (k + 1) hname).1
    omega
  · exact hgot

end Frames

section Steps

variable {J : SerdeJson} {n n' : Net S} {id : SessionId} {name : Chan → Option Ticket}
  {h : History} {H : ClientHistory} {a : NetAction} {c : Client} {sh sh' : Shim}

theorem Queues.requests_le {reqs : List Request} (hq : Queues J reqs c sh) :
    c.requests.length ≤ reqs.length := by
  obtain ⟨read, rest, hreqs, hread, _⟩ := hq
  have hlen := hread.length_eq
  rw [List.length_map] at hlen
  rw [hreqs, List.length_append, hlen]
  exact Nat.le_add_right ..

/-- A step of the client that asks nothing. -/
theorem Converses.quiet (hc : Converses J H id c sh) (hout : sh'.outbox = sh.outbox)
    (hexpects : Expects (asked H id).length c sh' sh'.pc) : Converses J H id c sh' := by
  obtain ⟨read, rest, hreqs, hread, hcase⟩ := hc.queues
  refine ⟨hc.asks, hc.bound, ⟨read, rest, hreqs, hread, ?_⟩, hexpects⟩
  rw [hout]
  exact hcase

/-- A response, or what else a client may hear. -/
theorem Converses.hears {t : Ticket} {out : Out} (hc : Converses J H id c sh) :
    Converses J (H ++ [.ret t out]) id c sh :=
  hc.extend (fun _ _ hmem => by cases List.mem_singleton.mp hmem)

/-- A new request. -/
theorem Converses.asks_more {req : Request} {bytes : Bytes} (hc : Converses J H id c sh)
    (hwrite : writeMsg J req = .ok bytes) (hout : sh'.outbox = sh.outbox ++ bytes)
    (hexpects : Expects ((asked H id).length + 1) c sh' sh'.pc) :
    Converses J (H ++ [.call (id, (asked H id).length + 1) (.request id req)]) id c sh' := by
  have hnew : asked (H ++ [.call (id, (asked H id).length + 1) (.request id req)]) id =
      asked H id ++ [req] := by
    rw [asked_append]
    simp [asked, question]
  refine ⟨?_, ?_, ?_, ?_⟩
  · rw [hnew]
    intro k req' hreq
    by_cases hlt : k < (asked H id).length
    · rw [List.getElem?_append_left hlt] at hreq
      exact List.mem_append_left _ (hc.asks k req' hreq)
    · obtain ⟨hle, _⟩ := List.getElem?_eq_some_iff.mp hreq
      obtain rfl : k = (asked H id).length := by
        simp only [List.length_append, List.length_singleton] at hle
        omega
      rw [List.getElem?_concat_length] at hreq
      cases hreq
      exact List.mem_append_right _ (List.mem_singleton.mpr rfl)
  · rw [hnew, List.length_append, List.length_singleton]
    intro k op hmem
    rcases List.mem_append.mp hmem with hold | hlast
    · exact Nat.le_succ_of_le (hc.bound k op hold)
    · cases List.mem_singleton.mp hlast
      exact Nat.le_refl _
  · obtain ⟨read, rest, hreqs, hread, hcase⟩ := hc.queues
    rw [hnew]
    refine ⟨read, rest ++ [req], by rw [hreqs, List.append_assoc], hread, hcase.imp_right ?_⟩
    rintro ⟨frames, hframes, hold⟩
    refine ⟨frames ++ [bytes], List.rel_append hframes (.cons hwrite .nil), ?_⟩
    rw [hout, hold, List.flatten_append, List.flatten_singleton]
  · rw [hnew, List.length_append, List.length_singleton]
    exact hexpects

theorem fresh_ticket (hc : Converses J H id c sh) :
    (id, (asked H id).length + 1) ∉ H.filterMap Event.called := by
  intro hmem
  obtain ⟨ev, hev, hcalled⟩ := List.mem_filterMap.mp hmem
  cases ev with
  | ret t out => cases hcalled
  | call t op =>
    cases hcalled
    exact Nat.not_succ_le_self _ (hc.bound _ op hev)

theorem Reaches.seen {k : ℕ} (hr : Reaches c sh k) (hseen : sh'.seen = sh.seen) :
    Reaches c sh' k := by
  obtain ⟨m, hm, hcase⟩ := hr
  exact ⟨m, hm.grow List.prefix_rfl hseen, hcase⟩

/-- A step in which the shim takes note of nothing and asks nothing. -/
theorem client_silent (hc : Converses J H id c sh) (he : Follows name H h)
    (hnone : observed J n H a = []) (hout : sh'.outbox = sh.outbox)
    (hexpects : Expects (asked H id).length c sh' sh'.pc) :
    Follows name (H ++ observed J n H a) h ∧
      Converses J (H ++ observed J n H a) id c sh' := by
  rw [hnone, List.append_nil]
  exact ⟨he, hc.quiet hout hexpects⟩

/-- A step in which the client hears what its thread has received. -/
theorem client_hears {t : Ticket} {out out' : Out} (hc : Converses J H id c sh)
    (he : Follows name H h) (hone : observed J n H a = [.ret t out])
    (hr : Received name h t out') (hsame : blankOut out = blankOut out')
    (hout : sh'.outbox = sh.outbox)
    (hexpects : Expects (asked H id).length c sh' sh'.pc) :
    Follows name (H ++ observed J n H a) h ∧
      Converses J (H ++ observed J n H a) id c sh' := by
  obtain ⟨ch, hch, hret⟩ := hr
  rw [hone]
  exact ⟨he.ret hch hret hsame, (hc.quiet hout hexpects).hears⟩

/-- A step in which the client asks. -/
theorem client_asks {req : Request} {bytes : Bytes} (hc : Converses J H id c sh)
    (he : Follows name H h)
    (hone : observed J n H a = [.call (id, (asked H id).length + 1) (.request id req)])
    (hwrite : writeMsg J req = .ok bytes) (hout : sh'.outbox = sh.outbox ++ bytes)
    (hexpects : Expects ((asked H id).length + 1) c sh' sh'.pc) :
    Follows name (H ++ observed J n H a) h ∧
      Converses J (H ++ observed J n H a) id c sh' := by
  rw [hone]
  exact ⟨he.call (fresh_ticket hc), hc.asks_more hwrite hout hexpects⟩

/-- `sqlite3_close` with no statement left. -/
theorem close_step (h : n.step J (.close id true) = some n') : (n.shims id).pc = .idle ∧
    n' = n.setShim id { n.shims id with
      pc := .closing
      db := { (n.shims id).db with closed := true }
      outbox := match writeMsg J Request.close with
        | .ok bytes => (n.shims id).outbox ++ bytes
        | .error _ => (n.shims id).outbox
      heard := none } := by
  obtain ⟨sh, hsh, rfl⟩ := Option.map_eq_some_iff.mp h
  unfold Shim.close at hsh
  split at hsh
  · next hpc _ _ =>
    cases hsh
    exact ⟨hpc, rfl⟩
  · next hno => cases hno
  · cases hsh

variable (hJ : J.Faithful) (hc : Converses J H id (n.broker.clients id) (n.shims id))
  (ha : Attends J name h id (n.broker.clients id)) (he : Follows name H h)
include hJ hc ha he

/-- The connection and its Hello. -/
theorem client_hello {got : Except String Hello} {read : ℕ} (hpc : (n.shims id).pc = .connecting)
    (hgot : n.incoming (α := Hello) J id = some (got, read)) :
    Follows name (H ++ observed J n H (.hello id)) h ∧
      Converses J (H ++ observed J n H (.hello id)) id (n.broker.clients id)
        ((n.shims id).greeted got read) := by
  have hexpects := hc.expects
  rw [hpc] at hexpects
  obtain ⟨hcount, hr⟩ := hexpects
  cases got with
  | error err =>
    refine client_silent hc he ?_ rfl trivial
    simp only [observed, hgot]
  | ok hello =>
    obtain ⟨hreceived, hnext⟩ := hears_hello ha hJ hr hgot
    refine client_hears hc he ?_ hreceived rfl ?_ ?_
    · simp only [observed, hgot]
    · unfold Shim.greeted
      dsimp only
      split <;> rfl
    · unfold Shim.greeted
      dsimp only
      rw [hcount]
      split
      · exact ⟨1, hnext _ rfl, Or.inl rfl⟩
      · trivial

/-- A response, awaited by a call. -/
theorem client_recv {call : ApiCall} {got : Except String Response} {read : ℕ}
    (hpc : (n.shims id).pc = .awaiting call)
    (hgot : n.incoming (α := Response) J id = some (got, read)) :
    Follows name (H ++ observed J n H (.recv id)) h ∧
      Converses J (H ++ observed J n H (.recv id)) id (n.broker.clients id)
        ((n.shims id).respond call got read) := by
  have hexpects := hc.expects
  rw [hpc] at hexpects
  obtain ⟨hpos, hr⟩ := hexpects
  obtain ⟨k, hk⟩ := Nat.exists_eq_succ_of_ne_zero (Nat.ne_of_gt hpos)
  rw [hk] at hr
  obtain ⟨hreceived, hnext⟩ := hears_response ha hJ hr hgot
  have hidle : Expects (asked H id).length (n.broker.clients id)
      ((n.shims id).respond call got read) ((n.shims id).respond call got read).pc := by
    rw [hk]
    exact hnext _ rfl
  cases got with
  | error err =>
    refine client_silent hc he ?_ rfl hidle
    simp only [observed, hgot]
  | ok resp =>
    obtain ⟨written, hwritten, hblank⟩ := hreceived resp rfl
    have hout : blankOut (.response resp) = blankOut (.response written) :=
      congrArg Out.response hblank
    refine client_hears hc he ?_ hwritten hout rfl hidle
    simp only [observed, hgot, hk]

/-- The response to a Close. -/
theorem client_closed (hpc : (n.shims id).pc = .closing) :
    Follows name (H ++ observed J n H (.recv id)) h ∧
      Converses J (H ++ observed J n H (.recv id)) id (n.broker.clients id)
        (n.shims id).leave := by
  have hexpects := hc.expects
  rw [hpc] at hexpects
  by_cases hsome : ∃ resp read, n.incoming (α := Response) J id = some (.ok resp, read)
  · obtain ⟨resp, read, hgot⟩ := hsome
    rcases hexpects with hr | ⟨hpos, hr⟩
    · have hnothing := hears_nothing ha hc.queues.requests_le hr hgot
      cases hnothing
    · obtain ⟨k, hk⟩ := Nat.exists_eq_succ_of_ne_zero (Nat.ne_of_gt hpos)
      rw [hk] at hr
      obtain ⟨written, hwritten, hblank⟩ := (hears_response ha hJ hr hgot).1 resp rfl
      have hout : blankOut (.response resp) = blankOut (.response written) :=
        congrArg Out.response hblank
      refine client_hears hc he ?_ hwritten hout rfl trivial
      simp only [observed, hgot, hk]
  · refine client_silent hc he ?_ rfl trivial
    simp only [observed]
    split
    · next hgot => exact absurd ⟨_, _, hgot⟩ hsome
    · rfl

omit hJ ha in
theorem client_call {call : ApiCall} (hpc : (n.shims id).pc = .idle) :
    Follows name (H ++ observed J n H (.call id call)) h ∧
      Converses J (H ++ observed J n H (.call id call)) id (n.broker.clients id)
        ((n.shims id).send J call) := by
  have hexpects := hc.expects
  rw [hpc] at hexpects
  have hidle : ∀ {db : ProxyDb}, Expects (asked H id).length (n.broker.clients id)
      { n.shims id with db := db } (n.shims id).pc := by
    intro db
    rw [hpc]
    exact Reaches.seen hexpects rfl
  cases hclosed : (n.shims id).db.closed with
  | true =>
    have hsend : (n.shims id).send J call =
        { n.shims id with db := (n.shims id).db.fail "connection is closed" } := by
      rw [Shim.send, if_pos hclosed]
    rw [hsend]
    refine client_silent hc he ?_ rfl hidle
    simp only [observed, hclosed]
  | false =>
    cases hwrite : writeMsg J call.request with
    | error err =>
      have hsend : (n.shims id).send J call =
          { n.shims id with db := (n.shims id).db.fail err } := by
        simp [Shim.send, hclosed, hwrite]
      rw [hsend]
      refine client_silent hc he ?_ rfl hidle
      simp only [observed, hclosed, hwrite]
    | ok bytes =>
      have hsend : (n.shims id).send J call = { n.shims id with
          pc := .awaiting call, outbox := (n.shims id).outbox ++ bytes, heard := none } := by
        simp [Shim.send, hclosed, hwrite]
      rw [hsend]
      refine client_asks hc he ?_ hwrite rfl ⟨Nat.succ_pos _, Reaches.seen hexpects rfl⟩
      simp only [observed, hclosed, hwrite]

omit hJ ha in
theorem client_close (hstep : n.step J (.close id true) = some n') :
    Follows name (H ++ observed J n H (.close id true)) h ∧
      Converses J (H ++ observed J n H (.close id true)) id (n.broker.clients id)
        (n'.shims id) := by
  obtain ⟨hpc, rfl⟩ := close_step hstep
  have hexpects := hc.expects
  rw [hpc] at hexpects
  rw [setShim_own]
  cases hwrite : writeMsg J Request.close with
  | error err =>
    refine client_silent hc he ?_ rfl (Or.inl (Reaches.seen hexpects rfl))
    simp only [observed, hwrite]
  | ok bytes =>
    refine client_asks hc he ?_ hwrite rfl (Or.inr ⟨Nat.succ_pos _, Reaches.seen hexpects rfl⟩)
    simp only [observed, hwrite]

/-- A step of a client. -/
theorem client_step (hid : clientOf a = some id) (hstep : n.step J a = some n') :
    Follows name (H ++ observed J n H a) h ∧
      Converses J (H ++ observed J n H a) id (n.broker.clients id) (n'.shims id) := by
  obtain ⟨sh, rfl, hshim⟩ := shim_step hstep hid
  have hexpects := hc.expects
  have hidle : (n.shims id).pc = .idle → ∀ {db : ProxyDb} {loops : List RowLoop},
      Expects (asked H id).length (n.broker.clients id)
        { n.shims id with db := db, loops := loops } (n.shims id).pc := by
    intro hpc db loops
    rw [hpc] at hexpects ⊢
    exact Reaches.seen hexpects rfl
  rw [setShim_own]
  cases hshim with
  | hello hpc hgot => exact client_hello hJ hc ha he hpc hgot
  | call hpc => exact client_call hc he hpc
  | recv hpc hgot => exact client_recv hJ hc ha he hpc hgot
  | closed hpc => exact client_closed hJ hc ha he hpc
  | abort hpc => exact client_silent hc he rfl rfl (hidle hpc)
  | nextRow hpc => exact client_silent hc he rfl rfl (hidle hpc)
  | close =>
    have hclose := client_close hc he hstep
    rwa [setShim_own] at hclose
  | closeLater hpc => exact client_silent hc he rfl rfl (hidle hpc)
  | vanish => exact client_silent hc he rfl rfl trivial

end Steps

section Runs

variable {J : SerdeJson} {f : S.File} {n n' : Net S} {H : ClientHistory} {id : SessionId}

/-- What a history at the clients and the network at its end have to do with each other. -/
structure Serial (J : SerdeJson) (f : S.File) (H : ClientHistory) (n : Net S) : Prop where
  tidy : Tidy J n.broker
  object : ∃ h name, Linear f h n.broker ∧ Follows name H h ∧
    ∀ id, Attends J name h id (n.broker.clients id)
  opened : ∀ id, (n.broker.clients id).pc ≠ .absent → .call (id, 0) (.openConn id) ∈ H
  unborn : ∀ id, n.broker.nextSession ≤ id →
    (n.shims id).pc = .absent ∧ ∀ k op, .call (id, k) op ∉ H
  clients : ∀ id, Converses J H id (n.broker.clients id) (n.shims id)

theorem attends_init (f : S.File) :
    Attends J (fun _ => none) [] id ((Net.init f).broker.clients id) where
  given := fun _ _ hch => by cases hch
  requests := fun _ _ _ hreq => by cases hreq
  holds := trivial
  frames := fun _ _ hframe => by cases hframe

theorem converses_init (f : S.File) :
    Converses J [] id ((Net.init f).broker.clients id) ((Net.init f).shims id) where
  asks := fun _ _ hreq => by cases hreq
  bound := fun _ _ hmem => absurd hmem List.not_mem_nil
  queues := ⟨[], [], rfl, .nil, Or.inr ⟨[], .nil, rfl⟩⟩
  expects := trivial

theorem serial_init (f : S.File) : Serial J f [] (Net.init f) where
  tidy := tidy_init f
  object := ⟨[], fun _ => none, linear_init f, .nil, fun _ => attends_init f⟩
  opened := fun _ hpc => absurd rfl hpc
  unborn := fun _ _ => ⟨rfl, fun _ _ hmem => absurd hmem List.not_mem_nil⟩
  clients := fun _ => converses_init f

/-- A client acts on its own session only. -/
theorem observed_own {a : NetAction} (hid : clientOf a = some id) {i : SessionId} {k : ℕ} {op : Op}
    (hmem : .call (i, k) op ∈ observed J n H a) : i = id := by
  cases a with
  | broker a => cases hid
  | hello j =>
    simp only [observed] at hmem
    split at hmem
    · cases List.mem_singleton.mp hmem
    · cases hmem
  | call j call =>
    cases hid
    simp only [observed] at hmem
    split at hmem
    · cases List.mem_singleton.mp hmem
      rfl
    · cases hmem
  | recv j =>
    simp only [observed] at hmem
    split at hmem
    · cases List.mem_singleton.mp hmem
    · cases hmem
  | callback j rc => cases hmem
  | close j lastStatement =>
    cases hid
    cases lastStatement with
    | false => cases hmem
    | true =>
      simp only [observed] at hmem
      split at hmem
      · cases List.mem_singleton.mp hmem
        rfl
      · cases hmem
  | vanish j => cases hmem

theorem client_present {a : NetAction} {sh : Shim} (h : ShimStep J n id a sh) :
    (n.shims id).pc ≠ .absent := by
  intro habsent
  cases h with
  | vanish hpc => exact hpc habsent
  | hello hpc => cases hpc.symm.trans habsent
  | call hpc => cases hpc.symm.trans habsent
  | recv hpc => cases hpc.symm.trans habsent
  | closed hpc => cases hpc.symm.trans habsent
  | abort hpc => cases hpc.symm.trans habsent
  | nextRow hpc => cases hpc.symm.trans habsent
  | close hpc => cases hpc.symm.trans habsent
  | closeLater hpc => cases hpc.symm.trans habsent

theorem serial_client {a : NetAction} (hJ : J.Faithful) (hs : Serial J f H n)
    (hid : clientOf a = some id) (hstep : n.step J a = some n') :
    Serial J f (H ++ observed J n H a) n' := by
  obtain ⟨h, name, hlinear, he, ha⟩ := hs.object
  obtain ⟨hfollows, hown⟩ := client_step hJ (hs.clients id) (ha id) he hid hstep
  obtain ⟨sh, rfl, hshim⟩ := shim_step hstep hid
  have hother : ∀ {i : SessionId}, i ≠ id → ∀ k op, .call (i, k) op ∉ observed J n H a :=
    fun hne k op hmem => hne (observed_own hid hmem)
  have hborn : ∀ i, n.broker.nextSession ≤ i → i ≠ id := by
    rintro i hle rfl
    exact client_present hshim (hs.unborn i hle).1
  have hkept : ∀ {i : SessionId}, i ≠ id → (n.setShim id sh).shims i = n.shims i :=
    fun hne => Function.update_of_ne hne _ _
  refine ⟨hs.tidy, ⟨h, name, hlinear, hfollows, ha⟩, ?_, ?_, ?_⟩
  · exact fun i hpc => List.mem_append_left _ (hs.opened i hpc)
  · intro i hle
    obtain ⟨habsent, hnone⟩ := hs.unborn i hle
    refine ⟨by rw [hkept (hborn i hle)]; exact habsent, fun k op hmem => ?_⟩
    rcases List.mem_append.mp hmem with hold | hnew
    · exact hnone k op hold
    · exact hother (hborn i hle) k op hnew
  · intro i
    by_cases hi : i = id
    · rw [hi]
      exact hown
    · rw [hkept hi]
      exact (hs.clients i).extend (hother hi)

theorem serial_work (hs : Serial J f H n) (hstep : n.step J (.broker .work) = some n') :
    Serial J f (H ++ observed J n H (.broker .work)) n' := by
  obtain ⟨hb, m, hsocket, hshims⟩ := step_broker hstep
  obtain rfl := Option.some.inj hsocket
  obtain ⟨h, name, hlinear, he, ha⟩ := hs.object
  have hclients : n'.broker.clients = n.broker.clients ∧
      n'.broker.nextSession = n.broker.nextSession := by
    obtain ⟨_, j, rest, _, ⟨w, _, heq⟩ | ⟨w, _, heq⟩⟩ := step_work hb <;>
    · rw [heq]
      exact ⟨rfl, rfl⟩
  rw [show observed J n H (.broker .work) = [] from rfl, List.append_nil]
  refine ⟨step_tidy hs.tidy hb, ⟨h, name, linear_work hlinear hb, he, ?_⟩, ?_, ?_, ?_⟩
  · rw [hclients.1]
    exact ha
  · rw [hclients.1]
    exact hs.opened
  · rw [hclients.2, hshims]
    exact hs.unborn
  · rw [hclients.1, hshims]
    exact hs.clients

/-- The tickets of other threads stay as they are. -/
theorem naming_other {s s' : Broker S} {a : Action} {name : Chan → Option Ticket}
    (hfresh : name s.nextChan = none) (h : ThreadStep J s id a s') :
    (∀ ch k, name ch = some k → naming s name a ch = some k) ∧
      ∀ ch i k, i ≠ id → naming s name a ch = some (i, k) → name ch = some (i, k) := by
  have hsame : (∀ ch k, name ch = some k → name ch = some k) ∧
      ∀ ch i k, i ≠ id → name ch = some (i, k) → name ch = some (i, k) :=
    ⟨fun _ _ hch => hch, fun _ _ _ _ hch => hch⟩
  have hupdate : ∀ t : ℕ, (∀ ch k, name ch = some k →
      Function.update name s.nextChan (some (id, t)) ch = some k) ∧ ∀ ch i k, i ≠ id →
        Function.update name s.nextChan (some (id, t)) ch = some (i, k) →
          name ch = some (i, k) := by
    refine fun t => ⟨update_keeps hfresh, fun ch i k hne hch => ?_⟩
    rcases update_cases hch with ⟨_, hk⟩ | hold
    · exact absurd (Prod.mk.inj hk).1 hne
    · exact hold
  cases h with
  | sendOpen =>
    simp only [naming]
    cases s.alive
    · exact hsame
    · exact hupdate _
  | read =>
    simp only [naming]
    cases s.alive
    · exact hsame
    · exact hupdate _
  | _ => exact hsame

/-- A new connection. -/
theorem serial_accept (hs : Serial J f H n) (hstep : n.step J (.broker .accept) = some n') :
    Serial J f (H ++ observed J n H (.broker .accept)) n' := by
  obtain ⟨hb, m, hsocket, hshims⟩ := step_broker hstep
  obtain rfl := Option.some.inj hsocket
  obtain ⟨h, name, hlinear, he, ha⟩ := hs.object
  have hthread : ThreadStep J n.broker n.broker.nextSession .accept n'.broker :=
    thread_step hb rfl
  have hsession : n'.broker.nextSession = n.broker.nextSession + 1 := by
    rw [← Option.some.inj hb]
    rfl
  have hnone := (hs.unborn n.broker.nextSession (Nat.le_refl _)).2
  have hnew : n.broker.nextChan ∉ h.filterMap Event.called :=
    fun hmem => Nat.lt_irrefl _ (hlinear.numbered _ hmem)
  have hfresh : name n.broker.nextChan = none := by
    cases hname : name n.broker.nextChan with
    | none => rfl
    | some k => exact absurd (he.named hname) hnew
  have hticket : (n.broker.nextSession, 0) ∉ H.filterMap Event.called := by
    intro hmem
    obtain ⟨ev, hev, hcalled⟩ := List.mem_filterMap.mp hmem
    cases ev with
    | ret t out => cases hcalled
    | call t op =>
      cases hcalled
      exact hnone 0 op hev
  have hothers : ∀ {i : SessionId}, i ≠ n.broker.nextSession →
      n'.broker.clients i = n.broker.clients i ∧ n'.shims i = n.shims i := by
    intro i hi
    rw [hshims]
    exact ⟨(step_client hb rfl).others i hi, Function.update_of_ne hi _ _⟩
  rw [show observed J n H (.broker .accept) =
    [.call (n.broker.nextSession, 0) (.openConn n.broker.nextSession)] from rfl]
  refine ⟨step_tidy hs.tidy hb, ⟨_, name, linear_thread hlinear hb rfl,
    (follows_thread he (ha _) hnew (hs.opened _) (fun _ ha => by cases ha) hthread).call hticket,
    ?_⟩, ?_, ?_, ?_⟩
  · intro i
    by_cases hi : i = n.broker.nextSession
    · rw [hi]
      exact attends_own hs.tidy (ha _) hfresh hthread
    · rw [(hothers hi).1]
      exact (ha i).later
  · intro i hpc
    by_cases hi : i = n.broker.nextSession
    · rw [hi]
      exact List.mem_append_right _ (List.mem_singleton.mpr rfl)
    · exact List.mem_append_left _ (hs.opened i (by rw [← (hothers hi).1]; exact hpc))
  · intro i hle
    rw [hsession] at hle
    have hi : i ≠ n.broker.nextSession := Nat.ne_of_gt hle
    obtain ⟨habsent, hold⟩ := hs.unborn i (Nat.le_of_succ_le hle)
    refine ⟨by rw [(hothers hi).2]; exact habsent, fun k op hmem => ?_⟩
    rcases List.mem_append.mp hmem with hin | hlast
    · exact hold k op hin
    · cases List.mem_singleton.mp hlast
      exact hi rfl
  · intro i
    by_cases hi : i = n.broker.nextSession
    · rw [hi, hshims, setShim_own]
      refine converses_accept hnone ?_
      have hstage := (hs.tidy.numbered n.broker.nextSession).stage
      rw [hs.tidy.unborn _ (Nat.le_refl _)] at hstage
      rw [← Option.some.inj hb, enter_own]
      exact hstage.2
    · rw [(hothers hi).1, (hothers hi).2]
      refine (hs.clients i).extend (fun k op hmem => ?_)
      cases List.mem_singleton.mp hmem
      exact hi rfl

theorem read_place {s s' : Broker S} {req : Option Request}
    (h : ThreadStep J s id (.readReq id req) s') : (s.clients id).pc = .reading := by
  cases h with
  | read hpc => exact hpc
  | readFails hpc => exact hpc

/-- A step of a thread that has been accepted before. -/
theorem serial_thread {a : Action} (hJ : J.Faithful) (hs : Serial J f H n)
    (hid : n.broker.actor a = some id) (haccept : a ≠ .accept)
    (hstep : n.step J (.broker a) = some n') :
    Serial J f (H ++ observed J n H (.broker a)) n' := by
  obtain ⟨hb, m, hsocket, hshims⟩ := step_broker hstep
  obtain ⟨h, name, hlinear, he, ha⟩ := hs.object
  have hthread := thread_step hb hid
  have hown := socket_own hsocket hid haccept
  have hnone : observed J n H (.broker a) = [] := by
    cases a with
    | accept => exact absurd rfl haccept
    | _ => rfl
  have hnew : n.broker.nextChan ∉ h.filterMap Event.called :=
    fun hmem => Nat.lt_irrefl _ (hlinear.numbered _ hmem)
  have hfresh : name n.broker.nextChan = none := by
    cases hname : name n.broker.nextChan with
    | none => rfl
    | some k => exact absurd (he.named hname) hnew
  have hborn := hthread.born haccept
  have hasked : ∀ req, a = .readReq id (some req) → ∃ asked, blank asked = blank req ∧
      .call (id, (n.broker.clients id).requests.length + 1) (.request id asked) ∈ H := by
    rintro req rfl
    rcases hown with ⟨got, hgot, hdelivered⟩ | ⟨hnot, _⟩
    · cases hgot
      exact (hs.clients id).read_asked hJ (read_place hthread) hdelivered
    · exact absurd rfl (hnot _)
  have hothers : ∀ {i : SessionId}, i ≠ id →
      n'.broker.clients i = n.broker.clients i ∧ n'.shims i = n.shims i := by
    intro i hi
    refine ⟨(step_client hb hid).others i hi, ?_⟩
    rw [hshims]
    exact socket_other hsocket (by rw [hid]; exact fun heq => hi (Option.some.inj heq).symm)
  have hnaming := naming_other hfresh hthread
  rw [hnone, List.append_nil]
  refine ⟨step_tidy hs.tidy hb, ⟨_, naming n.broker name a, linear_thread hlinear hb hid,
    follows_thread he (ha id) hnew (hs.opened id) hasked hthread, ?_⟩, ?_, ?_, ?_⟩
  · intro i
    by_cases hi : i = id
    · rw [hi]
      exact attends_own hs.tidy (ha id) hfresh hthread
    · rw [(hothers hi).1]
      exact (ha i).mono hnaming.1 (fun ch k => hnaming.2 ch i k hi)
        (fun _ hmem => List.mem_append_left _ hmem)
  · intro i hpc
    by_cases hi : i = id
    · rw [hi]
      exact hs.opened id hborn
    · exact hs.opened i (by rw [← (hothers hi).1]; exact hpc)
  · intro i hle
    have hle' := Nat.le_trans (step_client hb hid).grows hle
    have hi : i ≠ id := by
      rintro rfl
      exact hborn (hs.tidy.unborn _ hle')
    rw [(hothers hi).2]
    exact hs.unborn i hle'
  · intro i
    by_cases hi : i = id
    · rw [hi, hshims]
      exact (hs.clients id).own hJ hs.tidy hown hthread
    · rw [(hothers hi).1, (hothers hi).2]
      exact hs.clients i

theorem step_serial {a : NetAction} (hJ : J.Faithful) (hs : Serial J f H n)
    (hstep : n.step J a = some n') : Serial J f (H ++ observed J n H a) n' := by
  rcases action_cases a with ⟨b, rfl⟩ | ⟨id, hid⟩
  · rcases actor_cases n.broker b with rfl | ⟨id, hid⟩
    · exact serial_work hs hstep
    · by_cases haccept : b = .accept
      · subst haccept
        exact serial_accept hs hstep
      · exact serial_thread hJ hs hid haccept hstep
  · exact serial_client hJ hs hid hstep

/-- Every run of the network is linearizable at the clients, also one whose worker panics and
whose clients vanish: what they have heard is what a serial database has answered, in the order of
their calls, with sessions that leave in between. Of the values that both sides see, the doubles
are left out: serde_json may read one as another one close to it. -/
theorem clients_linearizable {p : Net S → NetAction → Prop} {acts : List NetAction}
    (hJ : J.Faithful) (h : NetRun J f p acts n) :
    ∃ l d, Linearizes (Image (After Database.Step Leaves) blankOp blankOut) (Database.new f)
        (blanked (clientHistory J (Net.init f) [] acts)) l d ∧
      ReflTransGen (OwnStep Database.Step Leaves) d n.broker.worker.database := by
  have hserial : Trace (fun n a n' => n.step J a = some n') (Net.init f) acts n ∧
      Serial J f (clientHistory J (Net.init f) [] acts) n := by
    refine Trace.history (P := fun past n =>
      Trace (fun n a n' => n.step J a = some n') (Net.init f) past n ∧
        Serial J f (clientHistory J (Net.init f) [] past) n) (m := []) ?_ h
      ⟨.nil _, serial_init f⟩
    rintro past t a t' ⟨hrun, hs⟩ ⟨_, hstep⟩
    refine ⟨Trace.snoc hrun hstep, ?_⟩
    rw [clientHistory_snoc hrun hstep]
    exact step_serial hJ hs hstep
  obtain ⟨h, name, hlinear, he, _⟩ := hserial.2.object
  obtain ⟨l, hl⟩ := hlinear.serves
  obtain ⟨l', d, hl', hd⟩ := hl.linearizes.image.outside he
  exact ⟨l', d, hl'.mono fun _ _ _ _ => after_image leaves_blankOp,
    ReflTransGen.mono (fun _ _ => ownStep_image leaves_blankOp) _ _ hd⟩

section Nested

open AutocommitMirror Exchanges

/-- A client whose callback begins a transaction while its SELECT is running. -/
theorem nested_linearizable : ∃ (n : Net SmallSqlite.engine) (l : List (Entry Ticket Op Out))
    (d : Database SmallSqlite.engine),
    Linearizes (Image (After Database.Step Leaves) blankOp blankOut)
      (Database.new (S := SmallSqlite.engine) letterFile)
      (blanked (clientHistory (talk letterRequests letterResponses)
        (Net.init (S := SmallSqlite.engine) letterFile) [] nested)) l d ∧
      ReflTransGen (OwnStep Database.Step Leaves) d n.broker.worker.database ∧
      InTransaction n.broker.worker.sessions 1 := by
  obtain ⟨n, hrun, hconn, _⟩ := run_nested
  have hnet : NetRun (talk letterRequests letterResponses) letterFile (fun _ _ => True) nested n :=
    hrun.restrict (fun _ _ _ => trivial)
  obtain ⟨l, d, hl, hd⟩ := clients_linearizable letter_spoken.faithful hnet
  exact ⟨n, l, d, hl, hd, begunConn, hconn.idle.session, rfl⟩

end Nested

end Runs

end SqliteBroker.SerialClients
