import SqliteBroker.SerialBroker
import SqliteBroker.NumberedReplies

/-!
The operations of a thread of the broker by number: the connection of its session and the requests
it reads have tickets, each for the reply channel of its job, and the frames that the thread writes
carry what it has received under the ticket of the same number. A client and its thread see the
same operations and answers, but for the doubles in them.
-/
namespace SqliteBroker.Tickets

open Utf8 Messages Engine Serde RealValues Frames BrokerWorker Threads NumberedReplies
  Linearization SerialBroker

variable {S : Sqlite}

/-- Number 0 of a session is its connection, number `k + 1` its request number `k`. -/
abbrev Ticket := SessionId × ℕ

abbrev ClientHistory := List (Event Ticket Op Out)

/-- The worker drops a session whose connection has failed. -/
def Leaves (op : Op) : Prop := ∃ id, op = .leave id

/-- An operation with zero in place of every double. -/
def blankOp : Op → Op
  | .request id req => .request id (Blank.blank req)
  | op => op

def blankOut : Out → Out
  | .response resp => .response (Blank.blank resp)
  | out => out

/-- A history with zero in place of every double. -/
abbrev blanked {ι : Type} (h : List (Event ι Op Out)) : List (Event ι Op Out) :=
  h.map (Event.image blankOp blankOut)

/-- The history of the jobs follows from the one of the clients, but for the doubles. -/
def Follows (name : Chan → Option Ticket) (H : ClientHistory) (h : History) : Prop :=
  Encloses name Leaves (blanked H) (blanked h)

theorem leaves_blankOp (op : Op) (h : Leaves (blankOp op)) : Leaves op := by
  obtain ⟨id, hop⟩ := h
  cases op with
  | leave i => exact ⟨i, rfl⟩
  | _ => cases hop

section Follows

variable {name : Chan → Option Ticket} {H : ClientHistory} {h : History} {ch : Chan} {t : Ticket}
  {op op' : Op} {out out' : Out}

theorem Follows.named (he : Follows name H h) (hname : name ch = some t) :
    ch ∈ h.filterMap Event.called := by
  rw [← called_image (p := blankOp) (q := blankOut)]
  exact Encloses.named he ch t hname

theorem Follows.call (he : Follows name H h) (ht : t ∉ H.filterMap Event.called) :
    Follows name (H ++ [.call t op]) h := by
  rw [Follows, blanked, List.map_append]
  refine Encloses.call he ?_
  rw [called_image]
  exact ht

theorem Follows.ret (he : Follows name H h) (hname : name ch = some t)
    (hret : .ret ch out' ∈ h) (hout : blankOut out = blankOut out') :
    Follows name (H ++ [.ret t out]) h := by
  rw [Follows, blanked, List.map_append]
  exact Encloses.ret he hname (ret_mem_image.mpr ⟨out', hret, hout.symm⟩)

theorem Follows.ret_inside (he : Follows name H h) : Follows name H (h ++ [.ret ch out]) := by
  unfold Follows
  rw [blanked, blanked, List.map_append]
  exact Encloses.ret_inside he

theorem Follows.call_own (he : Follows name H h) (hch : ch ∉ h.filterMap Event.called)
    (id : SessionId) : Follows name H (h ++ [.call ch (.leave id)]) := by
  unfold Follows
  rw [blanked, blanked, List.map_append]
  refine Encloses.call_own he ?_ ⟨id, rfl⟩
  rw [called_image]
  exact hch

theorem Follows.arrive (he : Follows name H h) (hch : ch ∉ h.filterMap Event.called)
    (hcall : .call t op' ∈ H) (hop : blankOp op = blankOp op') (ht : ∀ c, name c ≠ some t) :
    Follows (Function.update name ch (some t)) H (h ++ [.call ch op]) := by
  unfold Follows
  rw [blanked, blanked, List.map_append]
  refine Encloses.arrive he ?_ ?_ ht
  · rw [called_image]
    exact hch
  · rw [hop]
    exact List.mem_map_of_mem hcall

end Follows

section Thread

variable {J : SerdeJson} {s s' : Broker S} {a : Action} {id : SessionId}
  {name name' : Chan → Option Ticket} {h : History} {H : ClientHistory} {c : Client}

/-- A thread that has asked the worker for its connection. -/
def Begun : ClientPc → Prop
  | .absent => False
  | .starting => False
  | _ => True

/-- The frame carries the message. -/
def Carries (J : SerdeJson) (id : SessionId) (frame : Bytes) : ℕ → Out → Prop
  | 0, .opened opened => writeMsg J (Broker.hello id opened) = .ok frame
  | _ + 1, .response resp => writeMsg J resp = .ok frame
  | _, _ => False

/-- A message on the channel of the ticket has been received. -/
def Received (name : Chan → Option Ticket) (h : History) (ticket : Ticket) (out : Out) : Prop :=
  ∃ ch, name ch = some ticket ∧ .ret ch out ∈ h

/-- What a thread has received and not written yet. -/
def Holds (name : Chan → Option Ticket) (h : History) (id : SessionId) (requests : ℕ) :
    ClientPc → Prop
  | .opening ch => name ch = some (id, 0)
  | .greeting opened => Received name h (id, 0) (.opened opened)
  | .writing resp _ => Received name h (id, requests) (.response resp)
  | _ => True

/-- The tickets of a thread: each request has one, and each frame that the thread has written
carries what has been received under the ticket of the same number. -/
structure Attends (J : SerdeJson) (name : Chan → Option Ticket) (h : History) (id : SessionId)
    (c : Client) : Prop where
  given : ∀ ch k, name ch = some (id, k) → k ≤ c.requests.length ∧ Begun c.pc
  requests : ∀ (k : ℕ) (req : Request) (ch : Chan), c.requests[k]? = some (req, ch) →
    name ch = some (id, k + 1)
  holds : Holds name h id c.requests.length c.pc
  frames : ∀ (k : ℕ) (frame : Bytes), c.sent[k]? = some frame →
    ∃ out, Received name h (id, k) out ∧ Carries J id frame k out

theorem Received.mono {h' : History} {ticket : Ticket} {out : Out}
    (hr : Received name h ticket out) (hname : ∀ ch k, name ch = some k → name' ch = some k)
    (hmem : ∀ e ∈ h, e ∈ h') : Received name' h' ticket out := by
  obtain ⟨ch, hch, hret⟩ := hr
  exact ⟨ch, hname ch _ hch, hmem _ hret⟩

theorem Holds.mono {h' : History} {requests : ℕ} {pc : ClientPc} (hh : Holds name h id requests pc)
    (hname : ∀ ch k, name ch = some k → name' ch = some k) (hmem : ∀ e ∈ h, e ∈ h') :
    Holds name' h' id requests pc := by
  cases pc with
  | opening ch => exact hname ch _ hh
  | greeting opened => exact Received.mono hh hname hmem
  | writing resp isClose => exact Received.mono hh hname hmem
  | _ => trivial

/-- What others do takes nothing back. -/
theorem Attends.mono {h' : History} (ha : Attends J name h id c)
    (hname : ∀ ch k, name ch = some k → name' ch = some k)
    (hnew : ∀ ch k, name' ch = some (id, k) → name ch = some (id, k)) (hmem : ∀ e ∈ h, e ∈ h') :
    Attends J name' h' id c where
  given := fun ch k hch => ha.given ch k (hnew ch k hch)
  requests := fun k req ch hreq => hname ch _ (ha.requests k req ch hreq)
  holds := ha.holds.mono hname hmem
  frames := fun k frame hframe => by
    obtain ⟨out, hr, hcarries⟩ := ha.frames k frame hframe
    exact ⟨out, hr.mono hname hmem, hcarries⟩

/-- A thread goes to another place. -/
theorem Attends.move {pc : ClientPc} (ha : Attends J name h id c) (hbegun : Begun c.pc → Begun pc)
    (hholds : Holds name h id c.requests.length pc) : Attends J name h id { c with pc := pc } :=
  ⟨fun ch k hch => (ha.given ch k hch).imp_right hbegun, ha.requests, hholds, ha.frames⟩

/-- A thread writes what it has received. -/
theorem Attends.write {pc : ClientPc} {frame : Bytes} {out : Out} (ha : Attends J name h id c)
    (hpc : pc = .reading ∨ pc = .returned) (hr : Received name h (id, c.sent.length) out)
    (hcarries : Carries J id frame c.sent.length out) :
    Attends J name h id { c with pc := pc, sent := c.sent ++ [frame] } := by
  refine ⟨fun ch k hch => (ha.given ch k hch).imp_right (fun _ => ?_), ha.requests, ?_, ?_⟩
  · rcases hpc with rfl | rfl <;> trivial
  · rcases hpc with rfl | rfl <;> trivial
  · intro k frame' hframe
    by_cases hlt : k < c.sent.length
    · exact ha.frames k frame' (by rwa [List.getElem?_append_left hlt] at hframe)
    · obtain ⟨hle, _⟩ := List.getElem?_eq_some_iff.mp hframe
      obtain rfl : k = c.sent.length := by
        simp only [List.length_append, List.length_singleton] at hle
        omega
      rw [List.getElem?_concat_length] at hframe
      obtain rfl := Option.some.inj hframe
      exact ⟨out, hr, hcarries⟩

/-- The tickets after a step: the channel of a new operation gets the next one. -/
def naming (s : Broker S) (name : Chan → Option Ticket) : Action → Chan → Option Ticket
  | .sendOpen id => if s.alive then Function.update name s.nextChan (some (id, 0)) else name
  | .readReq id (some _) =>
    if s.alive then
      Function.update name s.nextChan (some (id, (s.clients id).requests.length + 1))
    else name
  | _ => name

theorem update_keeps {ch₀ : Chan} {t : Ticket} (hfresh : name ch₀ = none) (ch : Chan) (k : Ticket)
    (hname : name ch = some k) : Function.update name ch₀ (some t) ch = some k := by
  have hne : ch ≠ ch₀ := by
    rintro rfl
    rw [hfresh] at hname
    cases hname
  rw [Function.update_of_ne hne, hname]

theorem update_cases {ch₀ ch : Chan} {t k : Ticket}
    (hname : Function.update name ch₀ (some t) ch = some k) :
    (ch = ch₀ ∧ k = t) ∨ name ch = some k := by
  by_cases hch : ch = ch₀
  · rw [hch, Function.update_self] at hname
    exact Or.inl ⟨hch, (Option.some.inj hname).symm⟩
  · rw [Function.update_of_ne hch] at hname
    exact Or.inr hname

theorem Attends.later {more : History} (ha : Attends J name h id c) :
    Attends J name (h ++ more) id c :=
  ha.mono (fun _ _ hch => hch) (fun _ _ hch => hch) (fun _ he => List.mem_append_left _ he)

theorem attends_dropRemote (ha : Attends J name h id (s.clients id)) :
    Attends J name h id ((s.dropRemote id).clients id) := by
  rw [Broker.dropRemote, sendJob_own]
  refine ha.move (fun _ => ?_) ?_ <;> cases s.alive <;> trivial

/-- A new ticket for the connection. -/
theorem attends_sendOpen (ha : Attends J name h id (s.clients id)) (hfresh : name s.nextChan = none)
    (hpc : (s.clients id).pc = .starting) :
    Attends J (Function.update name s.nextChan (some (id, 0))) h id
      { s.clients id with pc := .opening s.nextChan } := by
  have hkeeps := update_keeps (t := (id, 0)) hfresh
  refine ⟨?_, fun k req ch hreq => hkeeps ch _ (ha.requests k req ch hreq),
    Function.update_self .., ?_⟩
  · intro ch k hch
    rcases update_cases hch with ⟨_, hk⟩ | hold
    · cases hk
      exact ⟨Nat.zero_le _, trivial⟩
    · have hbegun := (ha.given ch k hold).2
      rw [hpc] at hbegun
      exact hbegun.elim
  · intro k frame hframe
    obtain ⟨out, hr, hcarries⟩ := ha.frames k frame hframe
    exact ⟨out, hr.mono hkeeps (fun _ he => he), hcarries⟩

/-- A new ticket for a request. -/
theorem attends_forward {req : Request} (ha : Attends J name h id (s.clients id))
    (hfresh : name s.nextChan = none) : Attends J
      (Function.update name s.nextChan (some (id, (s.clients id).requests.length + 1))) h id
      { s.clients id with
        pc := .waiting s.nextChan req.isClose
        requests := (s.clients id).requests ++ [(req, s.nextChan)] } := by
  have hkeeps := update_keeps (t := (id, (s.clients id).requests.length + 1)) hfresh
  refine ⟨?_, ?_, trivial, ?_⟩
  · intro ch k hch
    rw [List.length_append, List.length_singleton]
    rcases update_cases hch with ⟨_, hk⟩ | hold
    · cases hk
      exact ⟨Nat.le_refl _, trivial⟩
    · exact ⟨Nat.le_succ_of_le (ha.given ch k hold).1, trivial⟩
  · intro k req' ch hreq
    by_cases hlt : k < (s.clients id).requests.length
    · rw [List.getElem?_append_left hlt] at hreq
      exact hkeeps ch _ (ha.requests k req' ch hreq)
    · obtain ⟨hle, _⟩ := List.getElem?_eq_some_iff.mp hreq
      obtain rfl : k = (s.clients id).requests.length := by
        simp only [List.length_append, List.length_singleton] at hle
        omega
      rw [List.getElem?_concat_length] at hreq
      cases hreq
      exact Function.update_self ..
  · intro k frame hframe
    obtain ⟨out, hr, hcarries⟩ := ha.frames k frame hframe
    exact ⟨out, hr.mono hkeeps (fun _ he => he), hcarries⟩

theorem attends_greet {opened : Except String Unit} {accepts : Bool}
    (ha : Attends J name h id (s.clients id)) (hpc : (s.clients id).pc = .greeting opened)
    (hsent : (s.clients id).sent = []) :
    Attends J name h id ((s.greet J id opened accepts).clients id) := by
  have hholds := ha.holds
  rw [hpc] at hholds
  have hwritten : ∀ {pc bytes}, pc = .reading ∨ pc = .returned →
      writeMsg J (Broker.hello id opened) = .ok bytes → Attends J name h id
        { s.clients id with pc := pc, sent := (s.clients id).sent ++ [bytes] } := by
    intro pc bytes hnext hbytes
    have hreceived : Received name h (id, (s.clients id).sent.length) (.opened opened) := by
      rw [hsent]
      exact hholds
    refine ha.write hnext hreceived ?_
    rw [hsent]
    exact hbytes
  unfold Broker.greet
  split
  · next hwrite =>
    obtain ⟨bytes, hbytes, hown⟩ := writeFrame_own hwrite .reading
    rw [hown]
    exact hwritten (.inl rfl) hbytes
  · exact attends_dropRemote ha
  · next hwrite =>
    obtain ⟨bytes, hbytes, hown⟩ := writeFrame_own hwrite .returned
    rw [hown]
    exact hwritten (.inr rfl) hbytes
  · rw [enter_own]
    exact ha.move (fun _ => trivial) trivial

theorem attends_reply {resp : Response} {isClose accepts : Bool}
    (ha : Attends J name h id (s.clients id)) (hpc : (s.clients id).pc = .writing resp isClose)
    (hsent : (s.clients id).sent.length = (s.clients id).requests.length)
    (hpos : (s.clients id).sent.length ≠ 0) :
    Attends J name h id ((s.reply J id resp isClose accepts).clients id) := by
  have hholds := ha.holds
  rw [hpc] at hholds
  obtain ⟨k, hk⟩ := Nat.exists_eq_succ_of_ne_zero hpos
  have hwritten : ∀ {pc bytes}, pc = .reading ∨ pc = .returned → writeMsg J resp = .ok bytes →
      Attends J name h id
        { s.clients id with pc := pc, sent := (s.clients id).sent ++ [bytes] } := by
    intro pc bytes hnext hbytes
    have hreceived : Received name h (id, (s.clients id).sent.length) (.response resp) := by
      rw [hsent]
      exact hholds
    refine ha.write hnext hreceived ?_
    rw [hk]
    exact hbytes
  unfold Broker.reply
  split
  · split
    · exact attends_dropRemote ha
    · rw [enter_own]
      exact ha.move (fun _ => trivial) trivial
  · next hwrite =>
    split
    · obtain ⟨bytes, hbytes, hown⟩ := writeFrame_own hwrite .returned
      rw [hown]
      exact hwritten (.inr rfl) hbytes
    · obtain ⟨bytes, hbytes, hown⟩ := writeFrame_own hwrite .reading
      rw [hown]
      exact hwritten (.inl rfl) hbytes

/-- A step of the thread itself. -/
theorem attends_own (htidy : Tidy J s) (ha : Attends J name h id (s.clients id))
    (hfresh : name s.nextChan = none) (hstep : ThreadStep J s id a s') :
    Attends J (naming s name a) (h ++ (returns s a ++ calls s s')) id (s'.clients id) := by
  have hstage := (htidy.numbered id).stage
  have hlater : Attends J name (h ++ (returns s a ++ calls s s')) id (s.clients id) := ha.later
  cases hstep with
  | accept hnew =>
    have habsent := htidy.unborn id (Nat.le_of_eq hnew)
    rw [enter_own]
    refine hlater.move (fun hbegun => ?_) trivial
    change Begun (s.clients id).pc at hbegun
    rw [habsent] at hbegun
    exact hbegun.elim
  | sendOpen hpc =>
    rw [sendJob_own, naming]
    cases s.alive with
    | true => exact attends_sendOpen hlater hfresh hpc
    | false => exact hlater.move (fun _ => trivial) trivial
  | recvOpen hpc hrecv =>
    have hholds := ha.holds
    rw [hpc] at hholds
    rcases receive_own hrecv with ⟨opened, hlookup, hown⟩ | ⟨_, hown⟩
    · rw [hown]
      refine hlater.move (fun _ => trivial) ⟨_, hholds, ?_⟩
      refine List.mem_append_right _ (List.mem_append_left _ ?_)
      simp [returns, hpc, hlookup]
    · rw [hown]
      exact hlater.move (fun _ => trivial) trivial
  | @writeHello opened accepts hpc =>
    rw [hpc] at hstage
    exact attends_greet hlater hpc (List.eq_nil_of_length_eq_zero hstage.1)
  | @read req hpc =>
    rw [forward_own, naming]
    cases s.alive with
    | true => exact attends_forward hlater hfresh
    | false => exact hlater.move (fun _ => trivial) trivial
  | readFails hpc => exact attends_dropRemote hlater
  | @recvReply ch isClose _ hpc hrecv =>
    rcases receive_own hrecv with ⟨resp, hlookup, hown⟩ | ⟨_, hown⟩
    · rw [hpc] at hstage
      obtain ⟨past, req, hreqs, _⟩ := hstage
      have hname : name ch = some (id, (s.clients id).requests.length) := by
        rw [hreqs, List.length_append, List.length_singleton]
        exact ha.requests past.length req ch (by rw [hreqs]; exact List.getElem?_concat_length)
      rw [hown]
      refine hlater.move (fun _ => trivial) ⟨ch, hname, ?_⟩
      refine List.mem_append_right _ (List.mem_append_left _ ?_)
      simp [returns, hpc, hlookup]
    · rw [hown]
      exact hlater.move (fun _ => trivial) trivial
  | writeReply hpc =>
    rw [hpc] at hstage
    obtain ⟨past, req, ch, hreqs, hframes, _⟩ := hstage
    refine attends_reply hlater hpc ?_ ?_
    · rw [hframes, hreqs, List.length_append, List.length_singleton]
    · rw [hframes]
      exact Nat.succ_ne_zero _
  | recvDrop hpc hrecv =>
    rcases receive_own hrecv with ⟨_, _, hown⟩ | ⟨_, hown⟩ <;>
    · rw [hown]
      exact hlater.move (fun _ => trivial) trivial

end Thread

section Object

variable {J : SerdeJson} {s s' : Broker S} {a : Action} {id : SessionId}
  {name : Chan → Option Ticket} {h : History} {H : ClientHistory}

theorem calls_sendJob (s : Broker S) (id : SessionId) (job : Chan → Job)
    (pc : Chan → ClientPc) : calls s (s.sendJob id job pc) =
      if s.alive then [.call (job s.nextChan).reply (job s.nextChan).op] else [] := by
  unfold calls Broker.sendJob
  cases s.alive
  · simp [Broker.enter, Broker.setClient]
  · simp [Broker.enter, Broker.setClient]

theorem calls_same (hjobs : s'.jobs = s.jobs) : calls s s' = [] := by
  rw [calls, hjobs, List.drop_length]
  rfl

theorem follows_returns (he : Follows name H h) (s : Broker S) (a : Action) :
    Follows name H (h ++ returns s a) := by
  rcases returns_cases s a with hnone | ⟨x, _, hret⟩
  · rw [hnone, List.append_nil]
    exact he
  · rw [hret]
    exact he.ret_inside

theorem follows_dropRemote (he : Follows name H h)
    (hnew : s.nextChan ∉ h.filterMap Event.called) :
    Follows name H (h ++ calls s (s.dropRemote id)) := by
  rw [Broker.dropRemote, calls_sendJob]
  cases s.alive with
  | true => exact he.call_own hnew id
  | false =>
    rw [if_neg Bool.false_ne_true, List.append_nil]
    exact he

/-- A step that sends a new job only when it gives its session up. -/
def Keeps (s s' : Broker S) (id : SessionId) : Prop :=
  s'.jobs = s.jobs ∨ s' = s.dropRemote id

theorem keeps_receive {α : Type} {got : Option α} {pc : α → ClientPc}
    (h : s.receive id got pc = some s') : Keeps s s' id := by
  unfold Broker.receive at h
  split at h
  · cases h
    exact Or.inl rfl
  · split at h
    · cases h
    · cases h
      exact Or.inl rfl

theorem keeps_writeFrame {α : Type} [Wire α] {msg : α} {accepts : Bool} {pc : ClientPc}
    (h : s.writeFrame J id msg accepts = some s') : Keeps s (s'.enter id pc) id := by
  obtain ⟨_, _, _, rfl⟩ := writeFrame_some h
  exact Or.inl rfl

theorem keeps_greet (opened : Except String Unit) (accepts : Bool) :
    Keeps s (s.greet J id opened accepts) id := by
  unfold Broker.greet
  split
  · next hwrite => exact keeps_writeFrame hwrite
  · exact Or.inr rfl
  · next hwrite => exact keeps_writeFrame hwrite
  · exact Or.inl rfl

theorem keeps_reply (resp : Response) (isClose accepts : Bool) :
    Keeps s (s.reply J id resp isClose accepts) id := by
  unfold Broker.reply
  split
  · split
    · exact Or.inr rfl
    · exact Or.inl rfl
  · next hwrite => split <;> exact keeps_writeFrame hwrite

theorem Keeps.follows (hk : Keeps s s' id) (he : Follows name H h)
    (hnew : s.nextChan ∉ h.filterMap Event.called) (a : Action) :
    Follows name H (h ++ (returns s a ++ calls s s')) := by
  have hreturns := follows_returns he s a
  rw [← List.append_assoc]
  rcases hk with hjobs | rfl
  · rw [calls_same hjobs, List.append_nil]
    exact hreturns
  · refine follows_dropRemote hreturns ?_
    rw [List.filterMap_append, called_returns, List.append_nil]
    exact hnew

/-- What a step of a thread does at the worker comes from its client. -/
theorem follows_thread (he : Follows name H h) (ha : Attends J name h id (s.clients id))
    (hnew : s.nextChan ∉ h.filterMap Event.called)
    (hopened : (s.clients id).pc ≠ .absent → .call (id, 0) (.openConn id) ∈ H)
    (hasked : ∀ req, a = .readReq id (some req) → ∃ asked, Blank.blank asked = Blank.blank req ∧
      .call (id, (s.clients id).requests.length + 1) (.request id asked) ∈ H)
    (hstep : ThreadStep J s id a s') :
    Follows (naming s name a) H (h ++ (returns s a ++ calls s s')) := by
  cases hstep with
  | accept =>
    have hkeeps : Keeps s (Broker.enter { s with nextSession := s.nextSession + 1 } id .starting)
        id := Or.inl rfl
    exact hkeeps.follows he hnew _
  | sendOpen hpc =>
    rw [show returns s (.sendOpen id) = [] from rfl, calls_sendJob, naming, List.nil_append]
    cases s.alive with
    | true =>
      refine he.arrive hnew (hopened (by rw [hpc]; exact ClientPc.noConfusion)) rfl ?_
      intro ch hch
      have hbegun := (ha.given ch 0 hch).2
      rw [hpc] at hbegun
      exact hbegun
    | false =>
      simp only [Bool.false_eq_true, if_false, List.append_nil]
      exact he
  | recvOpen _ hrecv => exact (keeps_receive hrecv).follows he hnew _
  | writeHello => exact (keeps_greet _ _).follows he hnew _
  | @read req hpc =>
    have hcalls : calls s (s.forward id req) =
        calls s (s.sendJob id (.req id req) (fun ch => .waiting ch req.isClose)) := by
      unfold Broker.forward
      dsimp only
      split <;> rfl
    rw [show returns s (.readReq id (some req)) = [] from rfl, hcalls, calls_sendJob, naming,
      List.nil_append]
    cases s.alive with
    | true =>
      obtain ⟨asked, hblank, hcall⟩ := hasked req rfl
      refine he.arrive hnew hcall (congrArg (Op.request id) hblank.symm) ?_
      intro ch hch
      exact Nat.not_succ_le_self _ (ha.given ch _ hch).1
    | false =>
      simp only [Bool.false_eq_true, if_false, List.append_nil]
      exact he
  | readFails => exact Keeps.follows (Or.inr rfl) he hnew _
  | recvReply _ hrecv => exact (keeps_receive hrecv).follows he hnew _
  | writeReply => exact (keeps_reply _ _ _).follows he hnew _
  | recvDrop _ hrecv => exact (keeps_receive hrecv).follows he hnew _

end Object

end SqliteBroker.Tickets
