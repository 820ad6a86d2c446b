import SqliteBroker.Replies
import SqliteBroker.NumberedReplies
import Mathlib.Algebra.BigOperators.Group.Finset.Basic

/-!
The broker does not get stuck by itself. Two calls may never return: a write to a client that
does not read, and a statement with rows without end. Apart from these, and without new
connections and new requests, the threads and the worker soon have nothing left to do, in
whatever order they take their steps, and then nobody waits except for a transaction whose
owner has to send its next request or to read its answer.
-/
namespace SqliteBroker.Progress

open Messages Engine Execution Frames BrokerWorker Turnstile WorkerLog ArrivalOrder Isolation
  Accounting Sessions Threads Discipline NumberedReplies Runs Exchanges

variable {S : Sqlite} {J : SerdeJson} {s s' : Broker S} {id : SessionId} {a : Action}

/-- The calls that never return: the writes to some clients, which do not read, and perhaps
the worker's, whose statement has rows without end. -/
structure Hangs where
  writes : SessionId → Prop
  worker : Prop

/-- Neither a write nor the worker hangs. -/
def Hangs.none : Hangs := ⟨fun _ => False, False⟩

variable {hangs : Hangs}

/-- The steps that no client causes and that do not hang. -/
def Inner (hangs : Hangs) : Action → Prop
  | .accept => False
  | .readReq _ _ => False
  | .writeHello id _ => ¬ hangs.writes id
  | .writeReply id _ => ¬ hangs.writes id
  | .work => ¬ hangs.worker
  | _ => True

def InnerStep (J : SerdeJson) (hangs : Hangs) (s : Broker S) (a : Action) (s' : Broker S) :
    Prop :=
  Inner hangs a ∧ Broker.step J s a = some s'

/-- The steps a thread at `pc` may still take by itself, with the job it may still send. -/
def toil : ClientPc → ℕ
  | .starting => 6
  | .opening _ => 4
  | .greeting _ => 3
  | .waiting _ _ => 4
  | .writing _ _ => 3
  | .dropping _ => 1
  | _ => 0

/-- What the first threads and the worker have to do. -/
def effort (threads : ℕ) (s : Broker S) : ℕ :=
  ∑ id ∈ Finset.range threads, toil (s.clients id).pc + s.jobs.length

def OnlyFirst (threads : ℕ) (s : Broker S) : Prop :=
  ∀ id, threads ≤ id → (s.clients id).pc = .absent

section Effort

theorem length_sendJob (s : Broker S) (id : SessionId) (job : Chan → Job) (pc : Chan → ClientPc) :
    (s.sendJob id job pc).jobs.length = s.jobs.length + if s.alive then 1 else 0 := by
  unfold Broker.sendJob
  cases s.alive <;> simp [Broker.enter, Broker.setClient]

/-- What a thread and the channel have to do after a step of the thread. -/
def Less (s s' : Broker S) (id : SessionId) : Prop :=
  toil (s'.clients id).pc + s'.jobs.length < toil (s.clients id).pc + s.jobs.length

theorem less_sendJob {job : Chan → Job} {pc : Chan → ClientPc}
    (hpc : toil (pc s.nextChan) + 1 < toil (s.clients id).pc) :
    Less s (s.sendJob id job pc) id := by
  rw [Less, sendJob_own, length_sendJob]
  cases s.alive with
  | true =>
    change toil (pc s.nextChan) + (s.jobs.length + 1) < _
    omega
  | false =>
    change 0 + (s.jobs.length + 0) < _
    omega

theorem less_dropRemote (hpc : 2 < toil (s.clients id).pc) : Less s (s.dropRemote id) id := by
  unfold Broker.dropRemote
  exact less_sendJob hpc

theorem less_receive {α : Type} {got : Option α} {pc : α → ClientPc}
    (hpos : 0 < toil (s.clients id).pc) (hpc : ∀ x, toil (pc x) < toil (s.clients id).pc)
    (h : s.receive id got pc = some s') : Less s s' id := by
  have hjobs : s'.jobs = s.jobs := by
    unfold Broker.receive at h
    split at h
    · cases h
      rfl
    · split at h
      · cases h
      · cases h
        rfl
  rw [Less, hjobs]
  rcases receive_own h with ⟨x, _, hown⟩ | ⟨_, hown⟩
  · rw [hown]
    exact Nat.add_lt_add_right (hpc x) _
  · rw [hown]
    exact Nat.add_lt_add_right hpos _

theorem less_enter {pc : ClientPc} (hpc : toil pc < toil (s.clients id).pc) :
    Less s (s.enter id pc) id := by
  rw [Less, enter_own]
  exact Nat.add_lt_add_right hpc _

theorem less_writeFrame {α : Type} [Serde.Wire α] {msg : α} {accepts : Bool} {pc : ClientPc}
    (hpc : toil pc < toil (s.clients id).pc) (h : s.writeFrame J id msg accepts = some s') :
    Less s (s'.enter id pc) id := by
  obtain ⟨_, _, hown⟩ := writeFrame_own h pc
  obtain ⟨_, _, _, rfl⟩ := writeFrame_some h
  rw [Less, hown]
  exact Nat.add_lt_add_right hpc _

theorem less_greet {opened : Except String Unit} {accepts : Bool}
    (hpc : (s.clients id).pc = .greeting opened) : Less s (s.greet J id opened accepts) id := by
  unfold Broker.greet
  split
  · next hwrite => exact less_writeFrame (by simp [hpc, toil]) hwrite
  · exact less_dropRemote (by simp [hpc, toil])
  · next hwrite => exact less_writeFrame (by simp [hpc, toil]) hwrite
  · exact less_enter (by simp [hpc, toil])

theorem less_reply {resp : Response} {isClose accepts : Bool}
    (hpc : (s.clients id).pc = .writing resp isClose) :
    Less s (s.reply J id resp isClose accepts) id := by
  unfold Broker.reply
  split
  · split
    · exact less_dropRemote (by simp [hpc, toil])
    · exact less_enter (by simp [hpc, toil])
  · next hwrite => split <;> exact less_writeFrame (by simp [hpc, toil]) hwrite

theorem thread_less (ha : Inner hangs a) (h : ThreadStep J s id a s') : Less s s' id := by
  cases h with
  | accept => exact ha.elim
  | sendOpen hpc => exact less_sendJob (by simp [hpc, toil])
  | recvOpen hpc hrecv =>
    exact less_receive (by simp [hpc, toil]) (fun _ => by simp [hpc, toil]) hrecv
  | writeHello hpc => exact less_greet hpc
  | read => exact ha.elim
  | readFails => exact ha.elim
  | recvReply hpc hrecv =>
    exact less_receive (by simp [hpc, toil]) (fun _ => by simp [hpc, toil]) hrecv
  | writeReply hpc => exact less_reply hpc
  | recvDrop hpc hrecv =>
    exact less_receive (by simp [hpc, toil]) (fun _ => by simp [hpc, toil]) hrecv

/-- Every step that no client causes takes from what is left to do. -/
theorem step_effort {threads : ℕ} (honly : OnlyFirst threads s) (h : InnerStep J hangs s a s') :
    OnlyFirst threads s' ∧ effort threads s' < effort threads s := by
  obtain ⟨ha, hstep⟩ := h
  rcases actor_cases s a with rfl | ⟨id, hid⟩
  · obtain ⟨_, j, rest, hjobs, hcases⟩ := step_work hstep
    rcases hcases with ⟨w, _, rfl⟩ | ⟨w, _, rfl⟩
    · exact ⟨honly, by simp [effort, hjobs]⟩
    · exact ⟨honly, by simp [effort, hjobs]⟩
  · have hthread := thread_step hstep hid
    have hless := thread_less ha hthread
    have hframe := step_client hstep hid
    have haccept : a ≠ .accept := by
      rintro rfl
      exact ha
    have hborn : id < threads := by
      by_contra hle
      exact hthread.born haccept (honly id (Nat.not_lt.mp hle))
    refine ⟨fun i hi => ?_, ?_⟩
    · rw [hframe.others i (Nat.ne_of_gt (Nat.lt_of_lt_of_le hborn hi))]
      exact honly i hi
    · have hothers : ∑ i ∈ (Finset.range threads).erase id, toil (s'.clients i).pc =
          ∑ i ∈ (Finset.range threads).erase id, toil (s.clients i).pc := by
        refine Finset.sum_congr rfl (fun i hi => ?_)
        rw [hframe.others i (Finset.ne_of_mem_erase hi)]
      have hsplit : ∀ t : Broker S, ∑ i ∈ Finset.range threads, toil (t.clients i).pc =
          toil (t.clients id).pc +
            ∑ i ∈ (Finset.range threads).erase id, toil (t.clients i).pc := fun t =>
        (Finset.add_sum_erase _ _ (Finset.mem_range.mpr hborn)).symm
      rw [effort, effort, hsplit, hsplit, hothers]
      unfold Less at hless
      omega

end Effort

section Rest

/-- A job that a thread waits for has been sent. -/
def Awaits (s : Broker S) (id : SessionId) : ClientPc → Prop
  | .opening ch => .openConn id ch ∈ s.handled ++ s.jobs
  | .waiting ch isClose => ∃ r : Request, r.isClose = isClose ∧
      .req id r ch ∈ s.handled ++ s.jobs
  | .dropping ch => .drop id ch ∈ s.handled ++ s.jobs
  | _ => True

theorem Awaits.mono {pc : ClientPc} (h : Awaits s id pc)
    (hjobs : ∀ j ∈ s.handled ++ s.jobs, j ∈ s'.handled ++ s'.jobs) : Awaits s' id pc := by
  cases pc with
  | opening ch => exact hjobs _ h
  | waiting ch isClose =>
    obtain ⟨r, hr, hmem⟩ := h
    exact ⟨r, hr, hjobs _ hmem⟩
  | dropping ch => exact hjobs _ h
  | _ => trivial

theorem jobs_mono (h : Broker.step J s a = some s') (halive : s'.alive = true) :
    ∀ j ∈ s.handled ++ s.jobs, j ∈ s'.handled ++ s'.jobs := by
  rcases actor_cases s a with rfl | ⟨i, hi⟩
  · obtain ⟨_, j, rest, hjobs, ⟨w, _, rfl⟩ | ⟨w, _, rfl⟩⟩ := step_work h
    · intro k hk
      rw [hjobs] at hk
      simpa [or_assoc] using hk
    · cases halive
  · have hframe := step_client h hi
    intro j hj
    rw [hframe.handled]
    rcases hframe.jobs with hsame | ⟨k, hadded, _⟩
    · rw [hsame]
      exact hj
    · rw [hadded, ← List.append_assoc]
      exact List.mem_append_left _ hj

theorem awaits_sendJob {job : Chan → Job} {pc : Chan → ClientPc}
    (hpc : ∀ t : Broker S, job s.nextChan ∈ t.handled ++ t.jobs → Awaits t id (pc s.nextChan)) :
    Awaits (s.sendJob id job pc) id ((s.sendJob id job pc).clients id).pc := by
  rw [sendJob_own]
  cases halive : s.alive with
  | false => exact trivial
  | true =>
    refine hpc _ ?_
    simp [Broker.sendJob, halive, Broker.enter, Broker.setClient]

theorem awaits_receive {α : Type} {got : Option α} {pc : α → ClientPc}
    (h : s.receive id got pc = some s') (hpc : ∀ x, Awaits s' id (pc x)) :
    Awaits s' id (s'.clients id).pc := by
  rcases receive_own h with ⟨x, _, hown⟩ | ⟨_, hown⟩
  · rw [hown]
    exact hpc x
  · rw [hown]
    exact trivial

theorem awaits_writeFrame {α : Type} [Serde.Wire α] {msg : α} {accepts : Bool} {pc : ClientPc}
    (hpc : Awaits (s'.enter id pc) id pc) (h : s.writeFrame J id msg accepts = some s') :
    Awaits (s'.enter id pc) id ((s'.enter id pc).clients id).pc := by
  obtain ⟨_, _, hown⟩ := writeFrame_own h pc
  rw [hown]
  exact hpc

theorem awaits_dropRemote (s : Broker S) (id : SessionId) :
    Awaits (s.dropRemote id) id ((s.dropRemote id).clients id).pc :=
  awaits_sendJob (fun _ hmem => hmem)

/-- A step of the thread itself. -/
theorem awaits_own (h : ThreadStep J s id a s') : Awaits s' id (s'.clients id).pc := by
  cases h with
  | accept =>
    rw [enter_own]
    trivial
  | sendOpen => exact awaits_sendJob (fun _ hmem => hmem)
  | recvOpen _ hrecv => exact awaits_receive hrecv (fun _ => trivial)
  | writeHello =>
    unfold Broker.greet
    split
    · next hwrite => exact awaits_writeFrame trivial hwrite
    · exact awaits_dropRemote s id
    · next hwrite => exact awaits_writeFrame trivial hwrite
    · rw [enter_own]
      trivial
  | @read req =>
    rw [forward_own]
    cases halive : s.alive with
    | true =>
      refine ⟨req, rfl, ?_⟩
      simp [Broker.forward, Broker.sendJob, halive, Broker.enter, Broker.setClient]
    | false => exact trivial
  | readFails => exact awaits_dropRemote s id
  | recvReply _ hrecv => exact awaits_receive hrecv (fun _ => trivial)
  | writeReply =>
    unfold Broker.reply
    split
    · split
      · exact awaits_dropRemote s id
      · rw [enter_own]
        trivial
    · next hwrite => split <;> exact awaits_writeFrame trivial hwrite
  | recvDrop _ hrecv => exact awaits_receive hrecv (fun _ => trivial)

theorem step_awaits (hs : ∀ id, Awaits s id (s.clients id).pc)
    (h : Broker.step J s a = some s') (halive : s'.alive = true) :
    ∀ id, Awaits s' id (s'.clients id).pc := by
  have hmono := jobs_mono h halive
  intro id
  rcases actor_cases s a with rfl | ⟨i, hi⟩
  · have hclients : s'.clients = s.clients := by
      obtain ⟨_, j, rest, _, ⟨w, _, rfl⟩ | ⟨w, _, rfl⟩⟩ := step_work h <;> rfl
    rw [hclients]
    exact (hs id).mono hmono
  · by_cases hid : id = i
    · rw [hid]
      exact awaits_own (thread_step h hi)
    · rw [(step_client h hi).others id hid]
      exact (hs id).mono hmono

/-- Everything that is known of a living broker. -/
structure Aware (s : Broker S) : Prop where
  disciplined : Disciplined s
  awaits : ∀ id, Awaits s id (s.clients id).pc

theorem run_aware {f : S.File} {acts : List Action} (h : Run J f acts s)
    (halive : s.alive = true) : Aware s := by
  refine h.invariant (P := fun s => s.alive = true → Aware s) ?_ ?_ halive
  · intro s a s' ih hstep halive'
    have halive := alive_of_step hstep halive'
    obtain ⟨hs, hawaits⟩ := ih halive
    exact ⟨step_disciplined hs halive hstep halive', step_awaits hawaits hstep halive'⟩
  · exact fun _ => ⟨disciplined_init f, fun _ => trivial⟩

/-- No step is left that no client causes. -/
def Quiet (J : SerdeJson) (hangs : Hangs) (s : Broker S) : Prop :=
  ∀ a s', ¬ InnerStep J hangs s a s'

theorem quiet_jobs (hquiet : Quiet J hangs s) (halive : s.alive = true) :
    s.jobs = [] ∨ hangs.worker := by
  cases hjobs : s.jobs with
  | nil => exact Or.inl rfl
  | cons j rest =>
    have hwork : ∃ s', Broker.step J s .work = some s' := by
      simp only [Broker.step, Broker.takeJob, halive, hjobs]
      cases s.worker.handle j with
      | ok w => exact ⟨_, rfl⟩
      | error w => exact ⟨_, rfl⟩
    obtain ⟨s', hstep⟩ := hwork
    refine Or.inr (by_contra fun hends => ?_)
    exact hquiet .work s' ⟨hends, hstep⟩

theorem lookup_of_mem {α : Type} {l : List (Chan × α)} {ch : Chan} (h : ch ∈ l.map Prod.fst) :
    ∃ x, l.lookup ch = some x := by
  obtain ⟨⟨ch', x⟩, hmem, rfl⟩ := List.mem_map.mp h
  cases hlookup : l.lookup ch' with
  | some y => exact ⟨y, rfl⟩
  | none => simpa using List.lookup_eq_none_iff.mp hlookup _ hmem

/-- A receive that nobody has made would find something. -/
theorem quiet_receive {α : Type} {got : Option α} {pc : α → ClientPc} (hquiet : Quiet J hangs s)
    (ha : Inner hangs a) (hstep : Broker.step J s a = s.receive id got pc) :
    s.alive = true ∧ got = none := by
  cases got with
  | some x => exact (hquiet a _ ⟨ha, hstep⟩).elim
  | none =>
    cases halive : s.alive with
    | true => exact ⟨rfl, rfl⟩
    | false =>
      refine (hquiet a (s.enter id .returned) ⟨ha, ?_⟩).elim
      rw [hstep, Broker.receive, halive]
      rfl

/-- A thread that has nothing to do until a client comes or sends. -/
def Idle : ClientPc → Prop
  | .absent => True
  | .reading => True
  | .returned => True
  | _ => False

/-- A thread inside a write. -/
def Writing : ClientPc → Prop
  | .greeting _ => True
  | .writing _ _ => True
  | _ => False

/-- A thread that waits for the worker. -/
def AwaitsWorker : ClientPc → Prop
  | .opening _ => True
  | .waiting _ _ => True
  | .dropping _ => True
  | _ => False

/-- A thread whose write hangs. -/
def Unread (hangs : Hangs) (s : Broker S) (id : SessionId) : Prop :=
  hangs.writes id ∧ Writing (s.clients id).pc

/-- A thread that waits for a reply which has not come. -/
def Unanswered (s : Broker S) (id : SessionId) : Prop :=
  (∃ ch, (s.clients id).pc = .opening ch ∧ s.worker.opens.lookup ch = none) ∨
    (∃ ch isClose, (s.clients id).pc = .waiting ch isClose ∧
      s.worker.responses.lookup ch = none) ∨
    ∃ ch, (s.clients id).pc = .dropping ch ∧ ch ∉ s.worker.drops

theorem Unanswered.awaitsWorker (h : Unanswered s id) : AwaitsWorker (s.clients id).pc := by
  rcases h with ⟨_, hpc, _⟩ | ⟨_, _, hpc, _⟩ | ⟨_, hpc, _⟩
  · rw [hpc]
    trivial
  · rw [hpc]
    trivial
  · rw [hpc]
    trivial

/-- A thread at rest has nothing to do, hangs in a write, or waits for a reply. -/
theorem quiet_place (hquiet : Quiet J hangs s) (id : SessionId) :
    Idle (s.clients id).pc ∨ Unread hangs s id ∨ (s.alive = true ∧ Unanswered s id) := by
  unfold Unread Unanswered
  cases hpc : (s.clients id).pc with
  | absent => exact Or.inl trivial
  | reading => exact Or.inl trivial
  | returned => exact Or.inl trivial
  | starting =>
    refine (hquiet (.sendOpen id) (s.sendJob id (.openConn id) .opening) ⟨trivial, ?_⟩).elim
    simp only [Broker.step, hpc]
  | greeting opened =>
    refine Or.inr (Or.inl ⟨by_contra fun hreads => ?_, trivial⟩)
    refine hquiet (.writeHello id true) (s.greet J id opened true) ⟨hreads, ?_⟩
    simp only [Broker.step, hpc]
  | writing resp isClose =>
    refine Or.inr (Or.inl ⟨by_contra fun hreads => ?_, trivial⟩)
    refine hquiet (.writeReply id true) (s.reply J id resp isClose true) ⟨hreads, ?_⟩
    simp only [Broker.step, hpc]
  | opening ch =>
    have hstep : Broker.step J s (.recvOpen id) =
        s.receive id (s.worker.opens.lookup ch) .greeting := by simp only [Broker.step, hpc]
    obtain ⟨halive, hnone⟩ := quiet_receive (a := .recvOpen id) hquiet trivial hstep
    exact Or.inr (Or.inr ⟨halive, Or.inl ⟨ch, rfl, hnone⟩⟩)
  | waiting ch isClose =>
    have hstep : Broker.step J s (.recvReply id) = s.receive id (s.worker.responses.lookup ch)
        (fun resp => .writing resp isClose) := by simp only [Broker.step, hpc]
    obtain ⟨halive, hnone⟩ := quiet_receive (a := .recvReply id) hquiet trivial hstep
    exact Or.inr (Or.inr ⟨halive, Or.inr (Or.inl ⟨ch, isClose, rfl, hnone⟩)⟩)
  | dropping ch =>
    have hstep : Broker.step J s (.recvDrop id) =
        s.receive id (if ch ∈ s.worker.drops then some () else none) (fun _ => .returned) := by
      simp only [Broker.step, hpc]
    obtain ⟨halive, hnone⟩ := quiet_receive (a := .recvDrop id) hquiet trivial hstep
    refine Or.inr (Or.inr ⟨halive, Or.inr (Or.inr ⟨ch, rfl, fun hmem => ?_⟩)⟩)
    rw [if_pos hmem] at hnone
    cases hnone

/-- A thread whose request is in the queue. -/
def Queues (s : Broker S) (id : SessionId) : Prop :=
  ∃ p ∈ s.worker.pending, p.id = id ∧ (s.clients id).pc = .waiting p.reply false

/-- A reply that has not come is one to a request in the queue. -/
theorem unanswered_queues (hs : Aware s) (hjobs : s.jobs = []) {ch : Chan} {isClose : Bool}
    (hpc : (s.clients id).pc = .waiting ch isClose)
    (hnone : s.worker.responses.lookup ch = none) : Queues s id := by
  have hsound := hs.disciplined.sound
  have hawaits := hs.awaits id
  rw [hpc] at hawaits
  obtain ⟨r, hr, hmem⟩ := hawaits
  have hunanswered : ∀ resp, (ch, resp) ∉ s.worker.responses := by
    intro resp hresp
    simpa using List.lookup_eq_none_iff.mp hnone _ hresp
  rw [hjobs, List.append_nil] at hmem
  cases hclose : r.isClose with
  | true =>
    obtain rfl : r = .close := by
      cases r with
      | close => rfl
      | _ => cases hclose
    have hreply : ch ∈ s.handled.filterMap Job.closeReply :=
      List.mem_filterMap.mpr ⟨_, hmem, rfl⟩
    exact (hunanswered _ (hsound.accounts.closed ch hreply)).elim
  | false =>
    have hreplies : (s.handled.map Job.reply).Nodup := by
      have hall := hs.disciplined.channels
      rwa [hjobs, List.append_nil] at hall
    have hrequest : (⟨id, r, ch⟩ : Pending) ∈ s.handled.filterMap Job.request :=
      List.mem_filterMap.mpr ⟨_, hmem, request_of_pending (p := ⟨id, r, ch⟩) hclose⟩
    have hno : s.worker.repliesOn ch = [] := by
      refine List.eq_nil_iff_forall_not_mem.mpr (fun resp hresp => ?_)
      obtain ⟨⟨ch', resp'⟩, hfilter, _⟩ := List.mem_map.mp hresp
      obtain ⟨hin, hch⟩ := List.mem_filter.mp hfilter
      obtain rfl : ch' = ch := by simpa using hch
      exact hunanswered resp' hin
    rcases request_fate hsound.isolated.queued hsound.arrived hsound.accounts hreplies hrequest with
      ⟨hone, _⟩ | ⟨_, _, _, resp, hresp⟩ | ⟨_, _, _, hresp⟩
    · have hwaits : (⟨id, r, ch⟩ : Pending) ∈ s.worker.pending :=
        List.count_pos_iff.mp (by rw [hone]; exact Nat.one_pos)
      refine ⟨_, hwaits, rfl, ?_⟩
      rw [hpc, ← hr, hclose]
    · rw [hno] at hresp
      cases hresp
    · rw [hno] at hresp
      cases hresp

/-- A thread of a living broker whose reply has not come has its request in the queue, once
the worker has taken all jobs. -/
theorem queues_of_unanswered (hs : Aware s) (hjobs : s.jobs = []) (h : Unanswered s id) :
    Queues s id := by
  have hawaits := hs.awaits id
  have haccounts := hs.disciplined.sound.accounts
  rcases h with ⟨ch, hpc, hnone⟩ | ⟨ch, isClose, hpc, hnone⟩ | ⟨ch, hpc, hnone⟩
  · rw [hpc, Awaits, hjobs, List.append_nil] at hawaits
    have hopen : ch ∈ s.worker.opens.map Prod.fst := by
      rw [haccounts.opens]
      exact List.mem_filterMap.mpr ⟨_, hawaits, rfl⟩
    obtain ⟨x, hsome⟩ := lookup_of_mem hopen
    rw [hnone] at hsome
    cases hsome
  · exact unanswered_queues hs hjobs hpc hnone
  · rw [hpc, Awaits, hjobs, List.append_nil] at hawaits
    refine (hnone ?_).elim
    rw [haccounts.drops]
    exact List.mem_filterMap.mpr ⟨_, hawaits, rfl⟩

/-- Who waits at rest waits for a transaction, and its owner is at its read or in a write that
hangs. -/
def WaitsForOwner (hangs : Hangs) (s : Broker S) (id : SessionId) : Prop :=
  ∃ owner, owner ≠ id ∧ s.worker.holder = some owner ∧
    InTransaction s.worker.sessions owner ∧
    ((s.clients owner).pc = .reading ∨ Unread hangs s owner)

theorem queues_owner (hs : Aware s) (hquiet : Quiet J hangs s) (hjobs : s.jobs = [])
    (hqueues : Queues s id) : WaitsForOwner hangs s id := by
  have hsound := hs.disciplined.sound
  obtain ⟨p, hp, rfl, _⟩ := hqueues
  cases hheld : s.worker.holder with
  | none =>
    rw [hsound.rest hheld] at hp
    cases hp
  | some owner =>
    have hne : owner ≠ p.id := by
      rintro rfl
      exact (hsound.orderly.waits p hp).1 hheld
    have hin : InTransaction s.worker.sessions owner := (hsound.isolated.exclusive owner).mp hheld
    refine ⟨owner, hne, hheld, hin, ?_⟩
    have hpresent : s.worker.present owner = true := by
      obtain ⟨conn, hconn, _⟩ := hin
      rw [Worker.present, hconn]
      rfl
    have hexpected := hs.disciplined.expected owner
    rcases quiet_place hquiet owner with hidle | hunread | ⟨_, hunanswered⟩
    · cases hpc : (s.clients owner).pc with
      | reading => exact Or.inl rfl
      | absent =>
        rw [hpc] at hexpected
        cases hexpected.2.symm.trans hpresent
      | returned =>
        rw [hpc] at hexpected
        cases hexpected.2.symm.trans hpresent
      | _ =>
        rw [hpc] at hidle
        exact hidle.elim
    · exact Or.inr hunread
    · obtain ⟨q, hq, hid, _⟩ := queues_of_unanswered hs hjobs hunanswered
      exact absurd (hid ▸ hheld) (hsound.orderly.waits q hq).1

end Rest

section Runs

variable {f : S.File} {acts : List Action}

/-- The broker at rest. -/
structure Peaceful (hangs : Hangs) (s : Broker S) : Prop where
  jobs : s.alive = true → s.jobs = [] ∨ hangs.worker
  threads : ∀ id, Idle (s.clients id).pc ∨ Unread hangs s id ∨
    (s.alive = true ∧ ((Queues s id ∧ WaitsForOwner hangs s id) ∨
      (hangs.worker ∧ AwaitsWorker (s.clients id).pc)))

theorem quiet_peaceful (h : Run J f acts s) (hquiet : Quiet J hangs s) : Peaceful hangs s := by
  refine ⟨quiet_jobs hquiet, fun id => ?_⟩
  rcases quiet_place hquiet id with hidle | hunread | ⟨halive, hunanswered⟩
  · exact Or.inl hidle
  · exact Or.inr (Or.inl hunread)
  · have hs := run_aware h halive
    refine Or.inr (Or.inr ⟨halive, ?_⟩)
    rcases quiet_jobs hquiet halive with hjobs | hworker
    · have hqueues := queues_of_unanswered hs hjobs hunanswered
      exact Or.inl ⟨hqueues, queues_owner hs hquiet hjobs hqueues⟩
    · exact Or.inr ⟨hworker, hunanswered.awaitsWorker⟩

theorem run_append {more : List Action} (h : Run J f acts s)
    (hmore : Trace (InnerStep J hangs) s more s') : Run J f (acts ++ more) s' :=
  h.append (hmore.weaken (fun _ _ _ hstep => hstep.2))

/-- From every reachable state the broker comes to rest by itself, but for the calls that never
return: it can take no more steps than there is to do, it can always go on to a state in which
nothing is left to do, and in every such state a thread that waits is in a write that hangs, or
waits for a worker that hangs, or for the owner of a transaction, whose client has to speak next
or to read its answer. Where all writes return and all statements end (`Hangs.none`), it waits
for an owner that is at its read. -/
theorem broker_progress (hangs : Hangs) (h : Run J f acts s) :
    (∀ more s', Trace (InnerStep J hangs) s more s' →
        more.length ≤ effort s.nextSession s) ∧
      ∀ more s', Trace (InnerStep J hangs) s more s' →
        (∃ last t, Trace (InnerStep J hangs) s' last t ∧ Quiet J hangs t) ∧
          (Quiet J hangs s' → Peaceful hangs s') := by
  have htidy : ∀ {acts s}, Run J f acts s → Tidy J s := fun hrun =>
    hrun.invariant (fun _ _ _ => step_tidy) (tidy_init f)
  have hstep : ∀ {threads} (s : Broker S) a s', OnlyFirst threads s → InnerStep J hangs s a s' →
      OnlyFirst threads s' ∧ effort threads s' < effort threads s :=
    fun _ _ _ honly hinner => step_effort honly hinner
  refine ⟨fun more s' hmore => ?_, fun more s' hmore => ⟨?_, fun hquiet => ?_⟩⟩
  · exact Nat.le_of_add_right_le (hmore.length_le hstep (htidy h).unborn)
  · exact Trace.exists_final hstep (htidy (run_append h hmore)).unborn
  · exact quiet_peaceful (run_append h hmore) hquiet

/-- A client that is inside a transaction keeps the broker from nothing. -/
theorem begun_progress : ∃ s : Broker SmallSqlite.engine, InTransaction s.worker.sessions 1 ∧
    (∀ more s', Trace (InnerStep begunJson .none) s more s' →
        more.length ≤ effort s.nextSession s) ∧
      ∀ more s', Trace (InnerStep begunJson .none) s more s' →
        (∃ last t, Trace (InnerStep begunJson .none) s' last t ∧ Quiet begunJson .none t) ∧
          (Quiet begunJson .none s' → Peaceful .none s') := by
  obtain ⟨s, hrun, hidle, _⟩ := run_begun SmallSqlite.newFile
  exact ⟨s, ⟨begunConn, hidle.session, rfl⟩, broker_progress .none hrun⟩

end Runs

end SqliteBroker.Progress
