import SqliteBroker.Network

/-!
A shim and the thread that serves it move in lockstep. While the worker lives, the place
of one tells the place of the other and what is on the wire between them: a request, its
frame, or nothing. A response that reaches the shim is current, and it stays current
until the shim sends its next request.
-/
namespace SqliteBroker.Lockstep

open Utf8 Messages Engine Serde RealValues Blank Frames Runs BrokerWorker WorkerLog Threads
  Discipline CurrentReplies ShimConnection Network

variable {S : Sqlite} {J : SerdeJson} {b b' : Broker S} {id : SessionId} {sh sh' : Shim}
  {a : Action}

/-- A thread that has not written its Hello. -/
def Early : ClientPc → Prop
  | .starting => True
  | .opening _ => True
  | .greeting _ => True
  | _ => False

/-- A thread that gives its session up or has ended. -/
def Lost : ClientPc → Prop
  | .dropping _ => True
  | .returned => True
  | _ => False

/-- A thread with a request that is no Close. -/
def Working : ClientPc → Prop
  | .waiting _ isClose => isClose = false
  | .writing _ isClose => isClose = false
  | _ => False

section Thread

/-- The steps of a thread at its read. -/
theorem step_reading (hpc : (b.clients id).pc = .reading) (haccept : a ≠ .accept)
    (h : ThreadStep J b id a b') : (∃ req, a = .readReq id (some req) ∧ b' = b.forward id req) ∨
      (a = .readReq id none ∧ b' = b.dropRemote id) := by
  cases h with
  | read => exact Or.inl ⟨_, rfl, rfl⟩
  | readFails => exact Or.inr ⟨rfl, rfl⟩
  | _ => simp_all

theorem dropRemote_own : Lost ((b.dropRemote id).clients id).pc ∧
    ((b.dropRemote id).clients id).sent = (b.clients id).sent := by
  have hown := sendJob_own b id (.drop id) .dropping
  have hclient : (b.dropRemote id).clients id = _ := hown
  rw [hclient]
  refine ⟨?_, rfl⟩
  cases b.alive <;> trivial

theorem step_lost (hlost : Lost (b.clients id).pc) (haccept : a ≠ .accept)
    (h : ThreadStep J b id a b') :
    Lost (b'.clients id).pc ∧ (b'.clients id).sent = (b.clients id).sent := by
  cases h with
  | recvDrop _ hrecv =>
    rcases receive_own hrecv with ⟨_, _, hown⟩ | ⟨_, hown⟩ <;>
    · rw [hown]
      exact ⟨trivial, rfl⟩
  | _ => simp_all [Lost]

/-- How a thread comes to its Hello and past it. -/
theorem step_early (halive : b.alive = true) (hearly : Early (b.clients id).pc)
    (haccept : a ≠ .accept) (h : ThreadStep J b id a b') :
    (Early (b'.clients id).pc ∧ (b'.clients id).sent = (b.clients id).sent) ∨
      ((b'.clients id).pc = .reading ∧ ∃ bytes, writeMsg J (Broker.hello id (.ok ())) = .ok bytes ∧
        (b'.clients id).sent = (b.clients id).sent ++ [bytes]) ∨
      (Lost (b'.clients id).pc ∧ ((b'.clients id).sent = (b.clients id).sent ∨
        ∃ err bytes, writeMsg J (Broker.hello id (.error err)) = .ok bytes ∧
          (b'.clients id).sent = (b.clients id).sent ++ [bytes])) := by
  cases h with
  | sendOpen =>
    have hown := sendJob_own b id (.openConn id) .opening
    rw [halive] at hown
    rw [hown]
    exact Or.inl ⟨trivial, rfl⟩
  | recvOpen _ hrecv =>
    rcases receive_own hrecv with ⟨_, _, hown⟩ | ⟨hdead, _⟩
    · rw [hown]
      exact Or.inl ⟨trivial, rfl⟩
    · rw [halive] at hdead
      cases hdead
  | writeHello =>
    unfold Broker.greet
    split
    · next hwrite =>
      obtain ⟨bytes, hok, hown⟩ := writeFrame_own hwrite .reading
      rw [hown]
      exact Or.inr (Or.inl ⟨rfl, bytes, hok, rfl⟩)
    · exact Or.inr (Or.inr ⟨dropRemote_own.1, Or.inl dropRemote_own.2⟩)
    · next err _ hwrite =>
      obtain ⟨bytes, hok, hown⟩ := writeFrame_own hwrite .returned
      rw [hown]
      exact Or.inr (Or.inr ⟨trivial, Or.inr ⟨_, bytes, hok, rfl⟩⟩)
    · rw [enter_own]
      exact Or.inr (Or.inr ⟨trivial, Or.inl rfl⟩)
  | _ => simp_all [Early]

/-- A thread at work on a request goes on, writes the frame of the response or gives up. -/
theorem step_working (halive : b.alive = true) (hworking : Working (b.clients id).pc)
    (haccept : a ≠ .accept) (h : ThreadStep J b id a b') :
    (Working (b'.clients id).pc ∧ (b'.clients id).sent = (b.clients id).sent ∧
        (b'.clients id).requests = (b.clients id).requests) ∨
      (∃ resp bytes, (b.clients id).pc = .writing resp false ∧ writeMsg J resp = .ok bytes ∧
        (b'.clients id).pc = .reading ∧ (b'.clients id).sent = (b.clients id).sent ++ [bytes]) ∨
      (Lost (b'.clients id).pc ∧ (b'.clients id).sent = (b.clients id).sent) := by
  cases h with
  | recvReply hpc hrecv =>
    rw [hpc] at hworking
    rcases receive_own hrecv with ⟨_, _, hown⟩ | ⟨hdead, _⟩
    · rw [hown]
      exact Or.inl ⟨hworking, rfl, rfl⟩
    · rw [halive] at hdead
      cases hdead
  | @writeReply resp isClose accepts hpc =>
    rw [hpc] at hworking
    obtain rfl : isClose = false := hworking
    unfold Broker.reply
    split
    · exact Or.inr (Or.inr dropRemote_own)
    · next hwrite =>
      obtain ⟨bytes, hok, hown⟩ := writeFrame_own hwrite .reading
      simp only [Bool.false_eq_true, if_false]
      rw [hown]
      exact Or.inr (Or.inl ⟨resp, bytes, hpc, hok, rfl, rfl⟩)
  | _ => simp_all [Working]

end Thread

/-- The shim has read all that the thread has written but `bytes`. -/
def OnWire (c : Client) (sh : Shim) (bytes : Bytes) : Prop :=
  ∃ before, c.sent.flatten = before ++ bytes ∧ before.length = sh.seen

/-- What is between a shim that waits for its Hello and its thread. -/
inductive Greeting (J : SerdeJson) (id : SessionId) (c : Client) (sh : Shim) : Prop
  | early : Early c.pc → OnWire c sh [] → sh.outbox = [] → Greeting J id c sh
  | opened (bytes : Bytes) : c.pc = .reading → writeMsg J (Broker.hello id (.ok ())) = .ok bytes →
      OnWire c sh bytes → sh.outbox = [] → Greeting J id c sh
  | refused (bytes : Bytes) : Lost c.pc → OnWire c sh bytes → (bytes = [] ∨
      ∃ err, writeMsg J (Broker.hello id (.error err)) = .ok bytes) → Greeting J id c sh

/-- What is between a shim without a request and its thread. -/
inductive Settled (w : Worker S) (id : SessionId) (c : Client) (sh : Shim) : Prop
  | ready : c.pc = .reading → OnWire c sh [] → sh.outbox = [] →
      (∀ resp, sh.heard = some resp → ∃ req ch written, Current w ⟨id, req, ch⟩ written ∧
        blank resp = blank written) → Settled w id c sh
  | lost : Lost c.pc → OnWire c sh [] → sh.heard = none → Settled w id c sh

/-- What is between a shim that waits for the response to `req` and its thread, which has
read `asked`: the same request but for its doubles. -/
inductive InFlight (J : SerdeJson) (w : Worker S) (id : SessionId) (c : Client) (sh : Shim)
    (req : Request) : Prop
  | sent : c.pc = .reading → OnWire c sh [] → writeMsg J req = .ok sh.outbox →
      InFlight J w id c sh req
  | working (asked : Request) (ch : Chan) : Working c.pc → OnWire c sh [] → sh.outbox = [] →
      c.requests.getLast? = some (asked, ch) → blank asked = blank req → InFlight J w id c sh req
  | answered (asked : Request) (resp : Response) (bytes : Bytes) (ch : Chan) : c.pc = .reading →
      sh.outbox = [] → writeMsg J resp = .ok bytes → OnWire c sh bytes →
      Current w ⟨id, asked, ch⟩ resp → blank asked = blank req → InFlight J w id c sh req
  | lost : Lost c.pc → OnWire c sh [] → InFlight J w id c sh req

def Phase (J : SerdeJson) (w : Worker S) (id : SessionId) (c : Client) (sh : Shim) : Pc → Prop
  | .connecting => sh.heard = none ∧ Greeting J id c sh
  | .idle => Settled w id c sh
  | .awaiting call => sh.heard = none ∧ InFlight J w id c sh call.request
  | _ => sh.heard = none

/-- A shim and its thread in lockstep. -/
structure InStep (J : SerdeJson) (b : Broker S) (id : SessionId) (sh : Shim) : Prop where
  unborn : b.nextSession ≤ id → (b.clients id).sent = []
  phase : Phase J b.worker id (b.clients id) sh sh.pc

theorem inStep_init (f : S.File) : InStep J (Broker.init f) id (.new .absent) :=
  ⟨fun _ => rfl, rfl⟩

section Wire

variable {c c' : Client} {bytes : Bytes}

theorem OnWire.unread_eq (h : OnWire c sh bytes) : unread c sh = bytes := by
  obtain ⟨before, hsent, hlen⟩ := h
  rw [unread, hsent, List.drop_left' hlen]

theorem OnWire.of_sent (h : OnWire c sh bytes) (hsent : c'.sent = c.sent)
    (hseen : sh'.seen = sh.seen) : OnWire c' sh' bytes := by
  obtain ⟨before, hbefore, hlen⟩ := h
  exact ⟨before, by rw [hsent, hbefore], by rw [hseen, hlen]⟩

/-- The next frame of the thread. -/
theorem OnWire.frame (h : OnWire c sh []) (hsent : c'.sent = c.sent ++ [bytes])
    (hseen : sh'.seen = sh.seen) : OnWire c' sh' bytes := by
  obtain ⟨before, hbefore, hlen⟩ := h
  refine ⟨before, ?_, by rw [hseen, hlen]⟩
  rw [hsent, List.flatten_append, hbefore, List.append_nil, List.flatten_singleton]

/-- The shim reads the frame. -/
theorem OnWire.consume (h : OnWire c sh bytes) (hseen : sh'.seen = sh.seen + bytes.length) :
    OnWire c sh' [] := by
  obtain ⟨before, hbefore, hlen⟩ := h
  refine ⟨before ++ bytes, by rw [hbefore, List.append_nil], ?_⟩
  rw [List.length_append, hlen, hseen]

theorem readMsg_nil {α : Type} [Wire α] : readMsg (α := α) J [] = none := rfl

/-- A shim that is there delivers nothing when it has sent nothing. -/
theorem delivered_nil {req : Option Request} (hout : sh.outbox = []) (hgone : sh.isGone = false) :
    sh.delivered J req = none := by
  unfold Shim.delivered
  rw [hout, readMsg_nil]
  cases req with
  | none => simp [hgone]
  | some req => rfl

/-- A request is delivered as it was sent, but for its doubles, or not at all. -/
theorem delivered_frame {req : Request} {got : Option Request} (hJ : J.Faithful)
    (hout : writeMsg J req = .ok sh.outbox) (hgone : sh.isGone = false)
    (h : sh.delivered J got = some sh') :
    sh' = { sh with outbox := [] } ∧
      (got = none ∨ ∃ asked, got = some asked ∧ blank asked = blank req) := by
  have hread := readMsg_writeMsg hout []
  rw [List.append_nil] at hread
  unfold Shim.delivered at h
  rw [hread] at h
  cases hbody : decodeBody (α := Request) J (J.toVec (Wire.toJson req)) with
  | ok r =>
    have hasked : blank r = blank req := decodeBody_sound (hJ.request req) hbody
    rw [hbody] at h
    cases got with
    | none => simp [hgone] at h
    | some r' =>
      dsimp only at h
      split at h
      · next heq =>
        cases h
        exact ⟨rfl, Or.inr ⟨r', rfl, by rw [← heq, hasked]⟩⟩
      · cases h
  | error err =>
    rw [hbody] at h
    cases got with
    | none =>
      cases h
      exact ⟨rfl, Or.inl rfl⟩
    | some r' => cases h

end Wire

section BrokerSteps

/-- A step that the thread of the shim takes no part in. -/
theorem inStep_other (hs : Disciplined b) (hl : InStep J b id sh) (hid : b.actor a ≠ some id)
    (h : Broker.step J b a = some b') (halive : b'.alive = true) : InStep J b' id sh := by
  have hframe : b'.clients id = b.clients id ∧ b.nextSession ≤ b'.nextSession := by
    rcases actor_cases b a with rfl | ⟨i, hi⟩
    · obtain ⟨_, j, rest, _, ⟨w, _, rfl⟩ | ⟨w, _, rfl⟩⟩ := step_work h <;>
        exact ⟨rfl, Nat.le_refl _⟩
    · have hne : id ≠ i := by
        rintro rfl
        exact hid hi
      exact ⟨(step_client h hi).others id hne, (step_client h hi).grows⟩
  obtain ⟨hclient, hgrows⟩ := hframe
  have hcurrent : ∀ {req ch resp}, (b.clients id).pc = .reading →
      Current b.worker ⟨id, req, ch⟩ resp → Current b'.worker ⟨id, req, ch⟩ resp := by
    intro req ch resp hpc hc
    have hexpected := hs.expected id
    rw [hpc] at hexpected
    exact current_step hs hc hexpected.1 h halive
  refine ⟨fun hle => by rw [hclient]; exact hl.unborn (Nat.le_trans hgrows hle), ?_⟩
  have hphase := hl.phase
  rw [hclient]
  cases hpc : sh.pc with
  | idle =>
    rw [hpc] at hphase
    cases hphase with
    | ready hthread hread hout hheard =>
      refine .ready hthread hread hout ?_
      intro resp hresp
      obtain ⟨req, ch, written, hc, hblank⟩ := hheard resp hresp
      exact ⟨req, ch, written, hcurrent hthread hc, hblank⟩
    | lost hlost hread hheard => exact .lost hlost hread hheard
  | awaiting call =>
    rw [hpc] at hphase
    refine ⟨hphase.1, ?_⟩
    cases hphase.2 with
    | sent hthread hread hout => exact .sent hthread hread hout
    | working asked ch hworking hread hout hlast hblank =>
      exact .working asked ch hworking hread hout hlast hblank
    | answered asked resp bytes ch hthread hout hwrite hread hc hblank =>
      exact .answered asked resp bytes ch hthread hout hwrite hread (hcurrent hthread hc) hblank
    | lost hlost hread => exact .lost hlost hread
  | _ =>
    rw [hpc] at hphase
    exact hphase

/-- What a step of the thread needs of the connection and does to it. -/
def Socket (J : SerdeJson) (id : SessionId) (sh sh' : Shim) (a : Action) : Prop :=
  (∃ req, a = .readReq id req ∧ sh.delivered J req = some sh') ∨
    ((∀ req, a ≠ .readReq id req) ∧ sh' = sh)

theorem Socket.frame (h : Socket J id sh sh' a) :
    sh'.heard = sh.heard ∧ sh'.pc = sh.pc ∧ sh'.db = sh.db := by
  rcases h with ⟨req, _, hdelivered⟩ | ⟨_, rfl⟩
  · unfold Shim.delivered at hdelivered
    split at hdelivered
    · split at hdelivered
      · cases hdelivered
        exact ⟨rfl, rfl, rfl⟩
      · cases hdelivered
    · cases hdelivered
      exact ⟨rfl, rfl, rfl⟩
    · split at hdelivered
      · cases hdelivered
        exact ⟨rfl, rfl, rfl⟩
      · cases hdelivered
    · cases hdelivered
    · cases hdelivered
  · exact ⟨rfl, rfl, rfl⟩

/-- A thread at its read stays there while its shim has sent nothing. -/
theorem reading_waits (hpc : (b.clients id).pc = .reading) (haccept : a ≠ .accept)
    (h : ThreadStep J b id a b') (hsocket : Socket J id sh sh' a) (hout : sh.outbox = [])
    (hgone : sh.isGone = false) : False := by
  have hread : ∃ req, a = .readReq id req := by
    rcases step_reading hpc haccept h with ⟨req, ha, _⟩ | ⟨ha, _⟩
    · exact ⟨_, ha⟩
    · exact ⟨_, ha⟩
  obtain ⟨req, rfl⟩ := hread
  rcases hsocket with ⟨req', _, hdelivered⟩ | ⟨hnot, _⟩
  · rw [delivered_nil hout hgone] at hdelivered
    cases hdelivered
  · exact hnot req rfl

/-- A thread that does not read a request leaves the connection alone. -/
theorem Socket.unread (hsocket : Socket J id sh sh' a) (hpc : (b.clients id).pc ≠ .reading)
    (h : ThreadStep J b id a b') : sh' = sh := by
  rcases hsocket with ⟨req, rfl, _⟩ | ⟨_, hsame⟩
  · cases h with
    | read hread => exact absurd hread hpc
    | readFails hread => exact absurd hread hpc
  · exact hsame

variable (halive : b.alive = true) (haccept : a ≠ .accept) (h : ThreadStep J b id a b')
  (hsocket : Socket J id sh sh' a)
include haccept h hsocket

include halive in
theorem greeting_own (hgone : sh.isGone = false) (hg : Greeting J id (b.clients id) sh) :
    Greeting J id (b'.clients id) sh' := by
  cases hg with
  | early hearly hread hout =>
    have hsame := hsocket.unread (by intro hpc; rw [hpc] at hearly; exact hearly) h
    rw [hsame]
    rcases step_early halive hearly haccept h with
      ⟨hearly', hsent⟩ | ⟨hpc, bytes, hwrite, hsent⟩ | ⟨hlost, hsent | ⟨err, bytes, hwrite, hsent⟩⟩
    · exact .early hearly' (hread.of_sent hsent rfl) hout
    · exact .opened bytes hpc hwrite (hread.frame hsent rfl) hout
    · exact .refused [] hlost (hread.of_sent hsent rfl) (Or.inl rfl)
    · exact .refused bytes hlost (hread.frame hsent rfl) (Or.inr ⟨err, hwrite⟩)
  | opened bytes hpc hwrite hread hout =>
    exact (reading_waits hpc haccept h hsocket hout hgone).elim
  | refused bytes hlost hread hwrite =>
    have hsame := hsocket.unread (by intro hpc; rw [hpc] at hlost; exact hlost) h
    obtain ⟨hlost', hsent⟩ := step_lost hlost haccept h
    rw [hsame]
    exact .refused bytes hlost' (hread.of_sent hsent rfl) hwrite

theorem settled_own {w : Worker S} (hgone : sh.isGone = false)
    (hsettled : Settled b.worker id (b.clients id) sh) : Settled w id (b'.clients id) sh' := by
  cases hsettled with
  | ready hpc hread hout hheard =>
    exact (reading_waits hpc haccept h hsocket hout hgone).elim
  | lost hlost hread hheard =>
    have hsame := hsocket.unread (by intro hpc; rw [hpc] at hlost; exact hlost) h
    obtain ⟨hlost', hsent⟩ := step_lost hlost haccept h
    rw [hsame]
    exact .lost hlost' (hread.of_sent hsent rfl) hheard

include halive in
theorem inFlight_own {req : Request} (hJ : J.Faithful) (hreq : req.isClose = false)
    (hgone : sh.isGone = false) (ht : Told b id (b.clients id).pc)
    (hflight : InFlight J b.worker id (b.clients id) sh req) :
    InFlight J b'.worker id (b'.clients id) sh' req := by
  cases hflight with
  | sent hpc hread hout =>
    have hdelivered : ∃ got, a = .readReq id got ∧ sh.delivered J got = some sh' := by
      rcases hsocket with hgot | ⟨hnot, _⟩
      · exact hgot
      · rcases step_reading hpc haccept h with ⟨got, ha, _⟩ | ⟨ha, _⟩
        · exact absurd ha (hnot _)
        · exact absurd ha (hnot _)
    obtain ⟨got, rfl, hgot⟩ := hdelivered
    obtain ⟨rfl, rfl | ⟨asked, rfl, hblank⟩⟩ := delivered_frame hJ hout hgone hgot
    · rcases step_reading hpc haccept h with ⟨got, ha, _⟩ | ⟨_, rfl⟩
      · cases ha
      · exact .lost dropRemote_own.1 (hread.of_sent dropRemote_own.2 rfl)
    · rcases step_reading hpc haccept h with ⟨got, ha, rfl⟩ | ⟨ha, _⟩
      · cases ha
        have hown := forward_own b id asked
        rw [halive, if_pos rfl] at hown
        rw [hown]
        exact .working asked b.nextChan ((isClose_of_blank hblank).trans hreq)
          (hread.of_sent rfl rfl) rfl (List.getLast?_concat ..) hblank
      · cases ha
  | working asked ch hworking hread hout hlast hblank =>
    have hsame := hsocket.unread (by intro hpc; rw [hpc] at hworking; exact hworking) h
    rw [hsame]
    rcases step_working halive hworking haccept h with
      ⟨hworking', hsent, hrequests⟩ | ⟨resp, bytes, hpc, hwrite, hpc', hsent⟩ | ⟨hlost, hsent⟩
    · exact .working asked ch hworking' (hread.of_sent hsent rfl) hout
        (by rw [hrequests]; exact hlast) hblank
    · rw [hpc] at ht
      obtain ⟨r, ch', hlast', _, hcurrent⟩ := ht
      rw [lastRequest, hlast] at hlast'
      obtain ⟨rfl, rfl⟩ := Prod.mk.inj (Option.some.inj hlast')
      have hworker := h.frame.worker
      refine .answered asked resp bytes ch hpc' hout hwrite (hread.frame hsent rfl) ?_ hblank
      rw [hworker]
      exact hcurrent rfl
    · exact .lost hlost (hread.of_sent hsent rfl)
  | answered asked resp bytes ch hpc hout hwrite hread hcurrent =>
    exact (reading_waits hpc haccept h hsocket hout hgone).elim
  | lost hlost hread =>
    have hsame := hsocket.unread (by intro hpc; rw [hpc] at hlost; exact hlost) h
    obtain ⟨hlost', hsent⟩ := step_lost hlost haccept h
    rw [hsame]
    exact .lost hlost' (hread.of_sent hsent rfl)

include halive in
/-- A step of the thread of the shim. -/
theorem inStep_own (hJ : J.Faithful) (hs : Disciplined b) (ht : Told b id (b.clients id).pc)
    (hl : InStep J b id sh) : InStep J b' id sh' := by
  obtain ⟨hheard, hsame, _⟩ := hsocket.frame
  refine ⟨fun hle => ?_, ?_⟩
  · have hgrows := h.frame.grows
    exact absurd (lt_nextSession hs _ (h.born haccept)) (Nat.not_lt.mpr (Nat.le_trans hgrows hle))
  · have hphase := hl.phase
    rw [hsame]
    cases hpc : sh.pc with
    | connecting =>
      rw [hpc] at hphase
      have hgone : sh.isGone = false := by rw [Shim.isGone, hpc]
      exact ⟨by rw [hheard]; exact hphase.1,
        greeting_own halive haccept h hsocket hgone hphase.2⟩
    | idle =>
      rw [hpc] at hphase
      have hgone : sh.isGone = false := by rw [Shim.isGone, hpc]
      exact settled_own haccept h hsocket hgone hphase
    | awaiting call =>
      rw [hpc] at hphase
      have hgone : sh.isGone = false := by rw [Shim.isGone, hpc]
      exact ⟨by rw [hheard]; exact hphase.1, inFlight_own halive haccept h hsocket hJ
        (request_isClose call) hgone ht hphase.2⟩
    | _ =>
      rw [hpc] at hphase
      exact hheard.trans hphase

end BrokerSteps

section ShimSteps

variable {n n' : Net S}

/-- A frame on the wire is read as a whole. -/
theorem incoming_frame {α : Type} [Wire α] {msg : α} {bytes : Bytes}
    (hwrite : writeMsg J msg = .ok bytes)
    (hread : OnWire (n.broker.clients id) (n.shims id) bytes) :
    n.incoming (α := α) J id = some (decodeBody J (J.toVec (Wire.toJson msg)), bytes.length) := by
  have hframe := readMsg_writeMsg hwrite []
  rw [List.append_nil] at hframe
  unfold Net.incoming
  dsimp only
  rw [hread.unread_eq, hframe]
  rfl

/-- With nothing on the wire a read ends only when the thread has returned. -/
theorem incoming_nil {α : Type} [Wire α] {got : Except String α} {read : ℕ}
    (hread : OnWire (n.broker.clients id) (n.shims id) [])
    (h : n.incoming (α := α) J id = some (got, read)) :
    hasReturned (n.broker.clients id).pc = true ∧ got = .error unexpectedEof ∧ read = 0 := by
  unfold Net.incoming at h
  dsimp only at h
  rw [hread.unread_eq, readMsg_nil] at h
  dsimp only at h
  split at h
  · next hreturned =>
    obtain ⟨rfl, rfl⟩ := Prod.mk.inj (Option.some.inj h)
    exact ⟨hreturned, rfl, rfl⟩
  · cases h

theorem settled_congr {w : Worker S} {c : Client} (h : Settled w id c sh)
    (hout : sh'.outbox = sh.outbox) (hseen : sh'.seen = sh.seen) (hheard : sh'.heard = sh.heard) :
    Settled w id c sh' := by
  cases h with
  | ready hpc hread hout' hcurrent =>
    exact .ready hpc (hread.of_sent rfl hseen) (hout.trans hout') (by rw [hheard]; exact hcurrent)
  | lost hlost hread hnone => exact .lost hlost (hread.of_sent rfl hseen) (hheard.trans hnone)

theorem phase_leave {w : Worker S} {c : Client} :
    Phase J w id c sh.leave sh.leave.pc := rfl

/-- The Hello. -/
theorem phase_greeted (hJ : J.Faithful) {got : Except String Hello} {read : ℕ}
    (hg : Greeting J id (n.broker.clients id) (n.shims id)) (hheard : (n.shims id).heard = none)
    (h : n.incoming (α := Hello) J id = some (got, read)) :
    Phase J n.broker.worker id (n.broker.clients id) ((n.shims id).greeted got read)
      ((n.shims id).greeted got read).pc := by
  cases got with
  | error err => exact phase_leave
  | ok hello =>
    cases hok : hello.ok with
    | false =>
      rw [show (n.shims id).greeted (.ok hello) read = (n.shims id).leave by
        simp [Shim.greeted, hok]]
      exact phase_leave
    | true =>
      rw [show (n.shims id).greeted (.ok hello) read = { n.shims id with
          pc := .idle, db := .connected, seen := (n.shims id).seen + read } by
        simp [Shim.greeted, hok]]
      cases hg with
      | early hearly hread hout =>
        obtain ⟨_, hgot, _⟩ := incoming_nil hread h
        cases hgot
      | opened bytes hpc hwrite hread hout =>
        rw [incoming_frame hwrite hread] at h
        obtain ⟨_, rfl⟩ := Prod.mk.inj (Option.some.inj h)
        refine .ready hpc (hread.consume rfl) hout ?_
        intro resp hresp
        rw [hheard] at hresp
        cases hresp
      | refused bytes hlost hread hwrite =>
        rcases hwrite with rfl | ⟨err, hwrite⟩
        · obtain ⟨_, hgot, _⟩ := incoming_nil hread h
          cases hgot
        · rw [incoming_frame hwrite hread] at h
          obtain ⟨hgot, _⟩ := Prod.mk.inj (Option.some.inj h)
          have hsame : hello = Broker.hello id (.error err) :=
            decodeBody_sound (hJ.hello _) hgot
          rw [hsame] at hok
          cases hok

/-- A request on its way. -/
theorem phase_send {w : Worker S} {c : Client} {call : ApiCall} (hpc : sh.pc = .idle)
    (h : Settled w id c sh) : Phase J w id c (sh.send J call) (sh.send J call).pc := by
  unfold Shim.send
  split
  · rw [hpc]
    exact settled_congr h rfl rfl rfl
  · split
    · next bytes hwrite =>
      refine ⟨rfl, ?_⟩
      cases h with
      | ready hthread hread hout _ =>
        exact .sent hthread (hread.of_sent rfl rfl) (by rw [hout]; exact hwrite)
      | lost hlost hread _ => exact .lost hlost (hread.of_sent rfl rfl)
    · rw [hpc]
      exact settled_congr h rfl rfl rfl

/-- A response that is decoded is the one that was written, but for its doubles, and that
one is current. -/
theorem phase_respond (hJ : J.Faithful) {call : ApiCall} {got : Except String Response} {read : ℕ}
    (hflight : InFlight J n.broker.worker id (n.broker.clients id) (n.shims id) call.request)
    (h : n.incoming (α := Response) J id = some (got, read)) :
    Settled n.broker.worker id (n.broker.clients id) ((n.shims id).respond call got read) ∧
      ∀ resp, got = .ok resp → (n.broker.clients id).pc = .reading ∧
        ∃ asked ch written, Current n.broker.worker ⟨id, asked, ch⟩ written ∧
          blank asked = blank call.request ∧ blank resp = blank written := by
  cases hflight with
  | sent hpc hread hout =>
    obtain ⟨hreturned, _⟩ := incoming_nil hread h
    rw [hpc] at hreturned
    cases hreturned
  | working asked ch hworking hread hout hlast =>
    obtain ⟨hreturned, _⟩ := incoming_nil hread h
    cases hpc : (n.broker.clients id).pc with
    | returned =>
      rw [hpc] at hworking
      exact hworking.elim
    | _ =>
      rw [hpc] at hreturned
      cases hreturned
  | answered asked resp bytes ch hpc hout hwrite hread hcurrent hblank =>
    rw [incoming_frame hwrite hread] at h
    obtain ⟨hgot, rfl⟩ := Prod.mk.inj (Option.some.inj h)
    have hsame : ∀ resp', got = .ok resp' → blank resp' = blank resp := by
      intro resp' hresp
      rw [hresp] at hgot
      exact decodeBody_sound (hJ.response resp) hgot
    refine ⟨.ready hpc (hread.consume rfl) hout ?_, ?_⟩
    · intro resp' hresp
      cases got with
      | error err => cases hresp
      | ok got =>
        obtain rfl : got = resp' := Option.some.inj hresp
        exact ⟨asked, ch, resp, hcurrent, hsame got rfl⟩
    · intro resp' hgot'
      exact ⟨hpc, asked, ch, resp, hcurrent, hblank, hsame resp' hgot'⟩
  | lost hlost hread =>
    obtain ⟨_, rfl, rfl⟩ := incoming_nil hread h
    refine ⟨.lost hlost (hread.of_sent rfl rfl) rfl, ?_⟩
    intro resp hresp
    cases hresp

/-- The steps of a client. -/
theorem phase_client (hJ : J.Faithful) {a : NetAction}
    (hphase : Phase J n.broker.worker id (n.broker.clients id) (n.shims id) (n.shims id).pc)
    (h : ShimStep J n id a sh) : Phase J n.broker.worker id (n.broker.clients id) sh sh.pc := by
  cases h with
  | hello hpc hgot =>
    rw [hpc] at hphase
    exact phase_greeted hJ hphase.2 hphase.1 hgot
  | call hpc =>
    rw [hpc] at hphase
    exact phase_send hpc hphase
  | recv hpc hgot =>
    rw [hpc] at hphase
    exact (phase_respond hJ hphase.2 hgot).1
  | closed => exact phase_leave
  | abort hpc =>
    rw [hpc] at hphase
    exact hpc ▸ settled_congr hphase rfl rfl rfl
  | nextRow hpc =>
    rw [hpc] at hphase
    exact hpc ▸ settled_congr hphase rfl rfl rfl
  | close => exact rfl
  | closeLater hpc =>
    rw [hpc] at hphase
    exact hpc ▸ settled_congr hphase rfl rfl rfl
  | vanish => exact phase_leave

end ShimSteps

section Runs

variable {n n' m : Net S}

/-- A broker step changes the connection of its own thread only. -/
theorem socket_other (h : n.socket J a = some m) (hid : n.broker.actor a ≠ some id) :
    m.shims id = n.shims id := by
  cases a with
  | accept =>
    cases h
    have hne : id ≠ n.broker.nextSession := fun heq => hid (by rw [heq]; rfl)
    exact Function.update_of_ne hne _ _
  | readReq i req =>
    obtain ⟨sh, _, rfl⟩ := Option.map_eq_some_iff.mp h
    have hne : id ≠ i := fun heq => hid (by rw [heq]; rfl)
    exact Function.update_of_ne hne _ _
  | writeHello i accepts =>
    simp only [Net.socket] at h
    split at h <;> cases h
    rfl
  | writeReply i accepts =>
    simp only [Net.socket] at h
    split at h <;> cases h
    rfl
  | _ =>
    cases h
    rfl

theorem socket_own (h : n.socket J a = some m) (hid : n.broker.actor a = some id)
    (haccept : a ≠ .accept) : Socket J id (n.shims id) (m.shims id) a := by
  cases a with
  | accept => exact absurd rfl haccept
  | work => cases hid
  | readReq i req =>
    obtain rfl : i = id := Option.some.inj hid
    obtain ⟨sh, hsh, rfl⟩ := Option.map_eq_some_iff.mp h
    rw [setShim_own]
    exact Or.inl ⟨req, rfl, hsh⟩
  | writeHello i accepts =>
    simp only [Net.socket] at h
    split at h <;> cases h
    exact Or.inr ⟨fun _ => by simp, rfl⟩
  | writeReply i accepts =>
    simp only [Net.socket] at h
    split at h <;> cases h
    exact Or.inr ⟨fun _ => by simp, rfl⟩
  | _ =>
    cases h
    exact Or.inr ⟨fun _ => by simp, rfl⟩

/-- A new connection. -/
theorem inStep_accept (hsent : (b.clients b.nextSession).sent = [])
    (h : Broker.step J b .accept = some b') : InStep J b' b.nextSession (.new .connecting) := by
  simp only [Broker.step, Option.some.injEq] at h
  have hown : b'.clients b.nextSession = { b.clients b.nextSession with pc := .starting } := by
    rw [← h]
    exact enter_own _ _ _
  refine ⟨?_, rfl, .early ?_ ⟨[], ?_, rfl⟩ rfl⟩
  · intro hle
    rw [← h] at hle
    exact absurd hle (Nat.not_succ_le_self _)
  · rw [hown]
    trivial
  · rw [hown]
    change (b.clients b.nextSession).sent.flatten = _
    rw [hsent]
    rfl

/-- Every step of the network keeps every shim in lockstep with its thread. -/
theorem step_inStep (hJ : J.Faithful) {a : NetAction} (hs : Disciplined n.broker)
    (ht : ∀ id, Told n.broker id (n.broker.clients id).pc) (halive : n.broker.alive = true)
    (hl : ∀ id, InStep J n.broker id (n.shims id)) (h : n.step J a = some n')
    (halive' : n'.broker.alive = true) : ∀ id, InStep J n'.broker id (n'.shims id) := by
  intro id
  rcases action_cases a with ⟨a, rfl⟩ | ⟨i, hi⟩
  · obtain ⟨hb, m, hsocket, hshims⟩ := step_broker h
    rw [hshims]
    by_cases hid : n.broker.actor a = some id
    · by_cases haccept : a = .accept
      · subst haccept
        obtain rfl : n.broker.nextSession = id := Option.some.inj hid
        obtain rfl := Option.some.inj hsocket
        rw [setShim_own]
        exact inStep_accept ((hl _).unborn (Nat.le_refl _)) hb
      · exact inStep_own halive haccept (thread_step hb hid) (socket_own hsocket hid haccept) hJ hs
          (ht id) (hl id)
    · rw [socket_other hsocket hid]
      exact inStep_other hs (hl id) hid hb halive'
  · obtain ⟨sh, rfl, hstep⟩ := shim_step h hi
    by_cases hid : id = i
    · subst hid
      have hphase := phase_client hJ (hl id).phase hstep
      refine ⟨(hl id).unborn, ?_⟩
      rw [setShim_own]
      exact hphase
    · rw [show (n.setShim i sh).shims id = n.shims id from Function.update_of_ne hid _ _]
      exact hl id

/-- While the worker lives, every shim is in lockstep with its thread. -/
theorem run_inStep {f : S.File} {p : Net S → NetAction → Prop} {acts : List NetAction}
    (hJ : J.Faithful) (h : NetRun J f p acts n) (halive : n.broker.alive = true) :
    ∀ id, InStep J n.broker id (n.shims id) := by
  have hinv := h.history (m := []) (P := fun past n => NetRun J f p past n ∧
    (n.broker.alive = true → ∀ id, InStep J n.broker id (n.shims id))) ?_ ?_
  · exact hinv.2 halive
  · rintro past n a n' ⟨hrun, hl⟩ hstep
    refine ⟨Trace.snoc hrun hstep, fun halive' => ?_⟩
    have halive := broker_alive_of_step hstep.2 halive'
    obtain ⟨own, hown⟩ := broker_run hrun
    obtain ⟨hs, ht⟩ := run_told hown halive
    exact step_inStep hJ hs ht halive (hl halive) hstep.2 halive'
  · exact ⟨.nil _, fun _ _ => inStep_init f⟩

end Runs

end SqliteBroker.Lockstep
