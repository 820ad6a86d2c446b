import SqliteBroker.ReplyFrames

/-!
The frames of a thread of the broker by number: whatever its socket accepts, and however
it ends, its first frame is the Hello and frame `i + 1` is the frame of the response to
the request it has read as number `i`.
-/
namespace SqliteBroker.NumberedReplies

open Utf8 Messages Engine Serde Frames BrokerWorker WorkerLog ArrivalOrder Runs Threads Discipline
  ReplyFrames Accounting

variable {S : Sqlite} {J : SerdeJson} {s s' : Broker S} {id : SessionId} {a : Action}
  {w w' : Worker S} {c : Client}

/-- How many frames a thread has written at each of its places. -/
def Stage (w : Worker S) (requests : List (Request × Chan)) (frames : ℕ) : ClientPc → Prop
  | .reading => frames = requests.length + 1
  | .waiting ch _ => ∃ past r, requests = past ++ [(r, ch)] ∧ frames = past.length + 1
  | .writing resp _ => ∃ past r ch, requests = past ++ [(r, ch)] ∧ frames = past.length + 1 ∧
      (ch, resp) ∈ w.responses
  | .dropping _ => frames ≤ requests.length + 1
  | .returned => frames ≤ requests.length + 1
  | _ => frames = 0 ∧ requests = []

/-- Each frame after the Hello answers the request of its number. -/
structure Numbered (J : SerdeJson) (w : Worker S) (c : Client) : Prop where
  hello : ∀ frame ∈ c.sent.take 1, ∃ hello : Hello, writeMsg J hello = .ok frame
  framed : List.Forall₂ (FrameOf J w) (c.requests.take (c.sent.length - 1)) (c.sent.drop 1)
  stage : Stage w c.requests c.sent.length c.pc

theorem Stage.le {requests : List (Request × Chan)} {frames : ℕ} {pc : ClientPc}
    (h : Stage w requests frames pc) : frames ≤ requests.length + 1 := by
  cases pc with
  | waiting ch isClose =>
    obtain ⟨past, r, rfl, rfl⟩ := h
    simp
  | writing resp isClose =>
    obtain ⟨past, r, ch, rfl, rfl, _⟩ := h
    simp
  | reading => exact Nat.le_of_eq h
  | dropping ch => exact h
  | returned => exact h
  | _ => exact h.1 ▸ Nat.zero_le _

/-- What the worker says later takes nothing back. -/
theorem Numbered.later (h : Numbered J w c) (hresp : ∀ r ∈ w.responses, r ∈ w'.responses) :
    Numbered J w' c := by
  refine ⟨h.hello, h.framed.imp ?_, ?_⟩
  · rintro req bytes ⟨resp, hmem, hwrite⟩
    exact ⟨resp, hresp _ hmem, hwrite⟩
  · have hstage := h.stage
    cases hpc : c.pc with
    | writing resp isClose =>
      rw [hpc] at hstage
      obtain ⟨past, r, ch, hreqs, hframes, hmem⟩ := hstage
      exact ⟨past, r, ch, hreqs, hframes, hresp _ hmem⟩
    | _ =>
      rw [hpc] at hstage
      exact hstage

/-- A thread goes to another place and writes nothing. -/
theorem Numbered.move {pc : ClientPc} (h : Numbered J w c)
    (hstage : Stage w c.requests c.sent.length pc) : Numbered J w { c with pc := pc } :=
  ⟨h.hello, h.framed, hstage⟩

/-- A thread that leaves its loop. -/
theorem Numbered.leave {pc : ClientPc} (h : Numbered J w c)
    (hpc : (∃ ch, pc = .dropping ch) ∨ pc = .returned) : Numbered J w { c with pc := pc } := by
  refine h.move ?_
  rcases hpc with ⟨ch, rfl⟩ | rfl
  · exact h.stage.le
  · exact h.stage.le

/-- The Hello. -/
theorem Numbered.greet {opened : Except String Unit} {bytes : Bytes} {pc : ClientPc} {msg : Hello}
    (h : Numbered J w c) (hpc : c.pc = .greeting opened) (hwrite : writeMsg J msg = .ok bytes)
    (hnext : pc = .reading ∨ pc = .returned) :
    Numbered J w { c with pc := pc, sent := c.sent ++ [bytes] } := by
  have hstage := h.stage
  rw [hpc] at hstage
  obtain ⟨hframes, hreqs⟩ := hstage
  have hsent : c.sent = [] := List.eq_nil_of_length_eq_zero hframes
  refine ⟨?_, ?_, ?_⟩
  · intro frame hframe
    obtain rfl : frame = bytes := by simpa [hsent] using hframe
    exact ⟨msg, hwrite⟩
  · simp [hsent, hreqs]
  · rcases hnext with rfl | rfl
    · simp [Stage, hsent, hreqs]
    · simp [Stage, hsent, hreqs]

/-- The frame of a response. -/
theorem Numbered.reply {resp : Response} {isClose : Bool} {bytes : Bytes} {pc : ClientPc}
    (h : Numbered J w c) (hpc : c.pc = .writing resp isClose) (hwrite : writeMsg J resp = .ok bytes)
    (hnext : pc = .reading ∨ pc = .returned) :
    Numbered J w { c with pc := pc, sent := c.sent ++ [bytes] } := by
  have hstage := h.stage
  have hframed := h.framed
  rw [hpc] at hstage
  obtain ⟨past, r, ch, hreqs, hframes, hmem⟩ := hstage
  have hlen : (c.sent ++ [bytes]).length = c.requests.length + 1 := by
    rw [hreqs]
    simp [hframes]
  refine ⟨?_, ?_, ?_⟩
  · intro frame hframe
    rw [List.take_append_of_le_length (by omega)] at hframe
    exact h.hello frame hframe
  · dsimp only
    rw [hlen, Nat.add_sub_cancel, List.take_length, hreqs, List.drop_append_of_le_length (by omega)]
    rw [hreqs, hframes, Nat.add_sub_cancel, List.take_left] at hframed
    exact List.rel_append hframed (.cons ⟨resp, hmem, hwrite⟩ .nil)
  · rcases hnext with rfl | rfl
    · exact hlen
    · exact Nat.le_of_eq hlen

theorem numbered_dropRemote (h : Numbered J w (s.clients id)) :
    Numbered J w ((s.dropRemote id).clients id) := by
  rw [Broker.dropRemote, sendJob_own]
  refine h.leave ?_
  cases s.alive
  · exact .inr rfl
  · exact .inl ⟨s.nextChan, rfl⟩

/-- A step of the thread itself. -/
theorem numbered_own (hunborn : s.nextSession ≤ id → (s.clients id).pc = .absent)
    (hn : Numbered J s.worker (s.clients id)) (h : ThreadStep J s id a s') :
    Numbered J s'.worker (s'.clients id) := by
  have hstage := hn.stage
  rw [h.frame.worker]
  cases h with
  | accept hnew =>
    rw [hunborn (Nat.le_of_eq hnew)] at hstage
    rw [enter_own]
    exact hn.move hstage
  | sendOpen hpc =>
    rw [sendJob_own]
    rw [hpc] at hstage
    cases s.alive
    · exact hn.leave (.inr rfl)
    · exact hn.move hstage
  | recvOpen hpc hrecv =>
    rw [hpc] at hstage
    rcases receive_own hrecv with ⟨opened, _, hown⟩ | ⟨_, hown⟩
    · rw [hown]
      exact hn.move hstage
    · rw [hown]
      exact hn.leave (.inr rfl)
  | @writeHello opened accepts hpc =>
    unfold Broker.greet
    split
    · next hwrite =>
      obtain ⟨bytes, hbytes, hown⟩ := writeFrame_own hwrite .reading
      rw [hown]
      exact hn.greet hpc hbytes (.inl rfl)
    · exact numbered_dropRemote hn
    · next hwrite =>
      obtain ⟨bytes, hbytes, hown⟩ := writeFrame_own hwrite .returned
      rw [hown]
      exact hn.greet hpc hbytes (.inr rfl)
    · rw [enter_own]
      exact hn.leave (.inr rfl)
  | @read req hpc =>
    rw [hpc] at hstage
    rw [forward_own]
    split
    · refine ⟨hn.hello, ?_, (s.clients id).requests, req, rfl, hstage⟩
      have hframed := hn.framed
      dsimp only
      rw [hstage, Nat.add_sub_cancel] at hframed ⊢
      rwa [List.take_left, ← List.take_length (l := (s.clients id).requests)]
    · exact hn.leave (.inr rfl)
  | readFails hpc =>
    exact numbered_dropRemote hn
  | @recvReply ch isClose _ hpc hrecv =>
    rw [hpc] at hstage
    rcases receive_own hrecv with ⟨resp, hresp, hown⟩ | ⟨_, hown⟩
    · rw [hown]
      obtain ⟨past, r, hreqs, hframes⟩ := hstage
      exact hn.move ⟨past, r, ch, hreqs, hframes, mem_of_lookup hresp⟩
    · rw [hown]
      exact hn.leave (.inr rfl)
  | @writeReply resp isClose accepts hpc =>
    unfold Broker.reply
    split
    · split
      · exact numbered_dropRemote hn
      · rw [enter_own]
        exact hn.leave (.inr rfl)
    · next hwrite =>
      split
      · obtain ⟨bytes, hbytes, hown⟩ := writeFrame_own hwrite .returned
        rw [hown]
        exact hn.reply hpc hbytes (.inr rfl)
      · obtain ⟨bytes, hbytes, hown⟩ := writeFrame_own hwrite .reading
        rw [hown]
        exact hn.reply hpc hbytes (.inl rfl)
  | recvDrop hpc hrecv =>
    rcases receive_own hrecv with ⟨_, _, hown⟩ | ⟨_, hown⟩ <;>
    · rw [hown]
      exact hn.leave (.inr rfl)

/-- A broker in which every thread numbers its frames. -/
structure Tidy (J : SerdeJson) (s : Broker S) : Prop where
  numbered : ∀ id, Numbered J s.worker (s.clients id)
  unborn : ∀ id, s.nextSession ≤ id → (s.clients id).pc = .absent
  disciplined : s.alive = true → Disciplined s

theorem tidy_init (f : S.File) : Tidy J (Broker.init f) :=
  ⟨fun _ => ⟨by simp [Broker.init], .nil, rfl, rfl⟩, fun _ _ => rfl, fun _ => disciplined_init f⟩

theorem step_tidy (hs : Tidy J s) (h : Broker.step J s a = some s') : Tidy J s' := by
  have hdisciplined : s'.alive = true → Disciplined s' := fun halive' =>
    have halive := alive_of_step h halive'
    step_disciplined (hs.disciplined halive) halive h halive'
  rcases actor_cases s a with rfl | ⟨i, hi⟩
  · obtain ⟨halive, j, rest, _, hwork⟩ := step_work h
    have hsound := (hs.disciplined halive).sound
    have hgrows := (handle_history hsound.isolated.queued hsound.rest j).2.grows
    refine ⟨fun id => ?_, ?_, hdisciplined⟩
    · rcases hwork with ⟨w, hw, rfl⟩ | ⟨w, hw, rfl⟩
      · rw [hw] at hgrows
        exact (hs.numbered id).later (fun _ hr => (responses_of_grows hgrows).subset hr)
      · rw [hw] at hgrows
        exact (hs.numbered id).later (fun _ hr => (responses_of_grows hgrows).subset hr)
    · rcases hwork with ⟨w, _, rfl⟩ | ⟨w, _, rfl⟩ <;> exact hs.unborn
  · have hstep := step_client h hi
    refine ⟨fun id => ?_, fun id hle => ?_, hdisciplined⟩
    · by_cases hid : id = i
      · subst hid
        exact numbered_own (hs.unborn id) (hs.numbered id) (thread_step h hi)
      · rw [hstep.others id hid, hstep.worker]
        exact hs.numbered id
    · by_cases hid : id = i
      · subst hid
        have hborn := (hs.unborn id (Nat.le_trans hstep.grows hle))
        cases thread_step h hi with
        | accept hnew =>
          rw [← hnew] at hle
          exact absurd hle (Nat.not_succ_le_self _)
        | sendOpen hpc => cases hborn.symm.trans hpc
        | recvOpen hpc => cases hborn.symm.trans hpc
        | writeHello hpc => cases hborn.symm.trans hpc
        | read hpc => cases hborn.symm.trans hpc
        | readFails hpc => cases hborn.symm.trans hpc
        | recvReply hpc => cases hborn.symm.trans hpc
        | writeReply hpc => cases hborn.symm.trans hpc
        | recvDrop hpc => cases hborn.symm.trans hpc
      · rw [hstep.others id hid]
        exact hs.unborn id (Nat.le_trans hstep.grows hle)

end SqliteBroker.NumberedReplies
