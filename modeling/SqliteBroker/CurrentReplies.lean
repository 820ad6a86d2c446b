import SqliteBroker.Discipline

/-!
A reply stays current until the next request of its session. The response was made by
running the request on the connection of the session, nobody else touches that
connection, and the holder tells whether it is inside a transaction.
-/
namespace SqliteBroker.CurrentReplies

open Messages Engine Execution Frames BrokerWorker Turnstile WorkerLog Runs ArrivalOrder
  Isolation Accounting Sessions Threads Discipline

variable {S : Sqlite} {J : SerdeJson} {w w' : Worker S} {p q : Pending} {j : Job}
  {id : SessionId} {resp : Response}

/-- The response to a dispatched request, and the connection it leaves. -/
def answerOf (d : Dispatch S) : Response × Option S.Conn :=
  match d.sessions d.request.id, d.request.req with
  | none, _ => (errorResponse true 1 "no session", none)
  | some conn, .exec sql params =>
    let out := execute S d.file conn sql params
    (out.result, some out.conn)
  | some conn, .prepare sql =>
    let out := prepareMeta S d.file conn sql
    (out.result, some out.conn)
  | some conn, .close => (okClosed, some conn)

theorem answerOf_eq (hreq : p.req.isClose = false) :
    answerOf ⟨p, w.file, w.sessions⟩ = ((w.answer p).1, (w.answer p).2.sessions p.id) := by
  cases hp : p.req with
  | exec sql params =>
    rw [answer_exec hp, Worker.execResponse, answerOf]
    cases hs : w.sessions p.id <;> simp [hp, hs]
  | prepare sql =>
    rw [answer_prepare hp, Worker.prepareResponse, answerOf]
    cases hs : w.sessions p.id <;> simp [hp, hs]
  | close => simp [hp, Request.isClose] at hreq

/-- The response is the one of request `p`, which left the connection of its session as
that still is, and it says whether the session is the holder. -/
structure Current (w : Worker S) (p : Pending) (resp : Response) : Prop where
  answered : ∃ d ∈ w.dispatches, d.request = p ∧ answerOf d = (resp, w.sessions p.id)
  holder : resp.autocommit = false ↔ w.holder = some p.id

theorem Current.stays (h : Current w p resp) (hsessions : w'.sessions p.id = w.sessions p.id)
    (hholder : w'.holder = some p.id ↔ w.holder = some p.id)
    (hdispatches : ∀ d ∈ w.dispatches, d ∈ w'.dispatches) : Current w' p resp := by
  obtain ⟨d, hd, hrequest, hanswer⟩ := h.answered
  exact ⟨⟨d, hdispatches d hd, hrequest, by rw [hsessions]; exact hanswer⟩,
    h.holder.trans hholder.symm⟩

theorem inTransaction_of_sessions {sessions sessions' : SessionId → Option S.Conn}
    (h : sessions' id = sessions id) : InTransaction sessions' id ↔ InTransaction sessions id :=
  inTransaction_congr (by rw [h])

/-- Right after its dispatch a response is current. -/
theorem current_served (hw : Exclusive w') (hreq : p.req.isClose = false)
    (hd : ⟨p, w.file, w.sessions⟩ ∈ w'.dispatches)
    (hserved : w'.sessions = (w.answer p).2.sessions) : Current w' p (w.answer p).1 := by
  refine ⟨⟨_, hd, rfl, ?_⟩, ?_⟩
  · rw [answerOf_eq hreq, hserved]
  · have hkeeps := keeps_iff (w := w) hreq
    rw [hw p.id, hserved, ← hkeeps, Worker.keeps]
    simp

/-- The requests whose responses a call of the worker may send, besides its own reply. -/
def Concerned (w : Worker S) (j : Job) (p : Pending) : Prop :=
  p ∈ w.pending ∨ j.request = some p

/-- What may be new among the responses of `v` while the worker handles `j`. -/
def NewResponse (w : Worker S) (j : Job) (v : Worker S) (ch : Chan) (resp : Response) : Prop :=
  (∃ p, Concerned w j p ∧ p.reply = ch ∧ p.id ∉ v.pending.map Pending.id ∧
      Current v p resp) ∨
    (j.ends = true ∧ (j.reply = ch ∨ ∃ p ∈ ofSession w j.session, p.reply = ch))

/-- The state of the worker in the middle of handling `j`. -/
structure Midway (w : Worker S) (j : Job) (v : Worker S) : Prop where
  isolated : Isolated v
  orderly : Orderly v
  concerned : ∀ p ∈ v.pending, Concerned w j p
  responses : ∀ ch resp, (ch, resp) ∈ v.responses →
    (ch, resp) ∈ w.responses ∨ NewResponse w j v ch resp

/-- A session that no request in hand belongs to is left alone. -/
structure Untouched (w : Worker S) (id : SessionId) (v : Worker S) : Prop where
  sessions : v.sessions id = w.sessions id
  holder : v.holder = some id ↔ w.holder = some id
  dispatches : ∀ d ∈ w.dispatches, d ∈ v.dispatches

theorem Untouched.trans {v : Worker S} (h : Untouched w id v) (h' : Untouched v id w') :
    Untouched w id w' :=
  ⟨h'.sessions.trans h.sessions, h'.holder.trans h.holder,
    fun d hd => h'.dispatches d (h.dispatches d hd)⟩

/-- Between two isolated states the holder follows the connections. -/
theorem untouched_of_sessions (hw : Exclusive w) (hw' : Exclusive w')
    (hsessions : w'.sessions id = w.sessions id)
    (hdispatches : ∀ d ∈ w.dispatches, d ∈ w'.dispatches) : Untouched w id w' :=
  ⟨hsessions, by rw [hw' id, hw id, inTransaction_of_sessions hsessions], hdispatches⟩

theorem untouched_served (hw : Exclusive w) (hw' : Exclusive w') (hreq : p.req.isClose = false)
    (hid : id ≠ p.id) (hserved : Served w p w') : Untouched w id w' := by
  refine untouched_of_sessions hw hw' ?_ (fun d hd => by rw [hserved.dispatches]; exact hd)
  rw [hserved.sessions]
  exact (answer_sessions hreq).1 id hid

section Handle

theorem responses_noteDispatch (w : Worker S) (p : Pending) (resumed : Bool) :
    (w.noteDispatch p resumed).responses = w.responses := by
  rw [Worker.noteDispatch, responses_note]
  exact List.append_nil _

theorem midway_next {v v' : Worker S} {rest : List Pending} (hv : Midway w j v)
    (hnone : v.holder = none) (hpending : v.pending = p :: rest)
    (h : (resume v p rest).dispatch p = .ok v') : Midway w j v' := by
  have hmem : p ∈ v.pending := by rw [hpending]; exact List.mem_cons_self ..
  have hreq := hv.isolated.queued.requests p hmem
  have hserved := dispatch_ok hreq h
  have hisolated := isolated_next hv.isolated hnone hpending h
  have horderly := orderly_next hv.orderly hnone hpending hreq h
  have hrest : v'.pending = rest := hserved.pending
  have hdistinct := hv.orderly.distinct
  rw [hpending, List.map_cons, List.nodup_cons] at hdistinct
  have hdispatches : (resume v p rest).dispatches = v.dispatches ++ [⟨p, v.file, v.sessions⟩] :=
    dispatches_noteDispatch { v with pending := rest } p true
  have hgrow : ∀ d ∈ v.dispatches, d ∈ (resume v p rest).dispatches := by
    intro d hd
    rw [hdispatches]
    exact List.mem_append_left _ hd
  refine ⟨hisolated, horderly, ?_, ?_⟩
  · intro q hq
    rw [hrest] at hq
    exact hv.concerned q (by rw [hpending]; exact List.mem_cons_of_mem p hq)
  · intro ch resp hresp
    rw [hserved.responses, resume, responses_noteDispatch] at hresp
    rcases List.mem_append.mp hresp with hold | hnew
    · rcases hv.responses ch resp hold with hw | ⟨q, hq, hreply, hqid, hcurrent⟩ | hends
      · exact Or.inl hw
      · have hne : q.id ≠ p.id := by
          intro heq
          rw [hpending, List.map_cons, heq] at hqid
          exact hqid (List.mem_cons_self ..)
        have hexclusive : Exclusive (resume v p rest) :=
          hv.isolated.exclusive.unseen rfl rfl
        have huntouched :=
          untouched_served hexclusive hisolated.exclusive hreq hne hserved
        refine Or.inr (Or.inl ⟨q, hq, hreply, ?_, ?_⟩)
        · intro hqrest
          rw [hrest] at hqrest
          rw [hpending] at hqid
          exact hqid (List.mem_cons_of_mem _ hqrest)
        · exact hcurrent.stays huntouched.sessions huntouched.holder
            (fun d hd => huntouched.dispatches d (hgrow d hd))
      · exact Or.inr (Or.inr hends)
    · obtain ⟨rfl, rfl⟩ := Prod.mk.inj (List.mem_singleton.mp hnew)
      refine Or.inr (Or.inl ⟨p, hv.concerned p hmem, rfl, by rw [hrest]; exact hdistinct.1, ?_⟩)
      refine current_served (w := resume v p rest) hisolated.exclusive hreq ?_ hserved.sessions
      rw [hserved.dispatches, hdispatches]
      exact List.mem_append_right _ (List.mem_singleton.mpr rfl)

/-- The session that goes takes its waiting requests along. -/
theorem responses_dropped {v : Worker S} {i : SessionId} {ch : Chan} (hends : j.ends = true)
    (hj : j.session = i) (h : (ch, resp) ∈ (w.dropSession i).responses) :
    (ch, resp) ∈ w.responses ∨ NewResponse w j v ch resp := by
  rw [responses_dropSession] at h
  rcases List.mem_append.mp h with hold | hnew
  · exact Or.inl hold
  · obtain ⟨p, hp, heq⟩ := List.mem_map.mp hnew
    rw [← hj] at hp
    exact Or.inr (Or.inr ⟨hends, Or.inr ⟨p, hp, congrArg Prod.fst heq⟩⟩)

theorem midway_enters (hw : Isolated w) (hrest : AtRest w) (horderly : Orderly w)
    (hproper : Proper w j) {v : Worker S} (h : Enters w j v) : Midway w j v := by
  refine ⟨isolated_enters hw hrest hproper.fresh h, orderly_enters horderly hproper h, ?_, ?_⟩
  · intro p hp
    rcases List.mem_append.mp ((enters_pending h).1.subset hp) with hold | hnew
    · exact Or.inl hold
    · exact Or.inr (Option.mem_toList.mp hnew)
  · intro ch resp hresp
    have hisolated := isolated_enters hw hrest hproper.fresh h
    cases h with
    | openConn id reply =>
      rw [(openSession_unmoved w id reply).responses] at hresp
      exact Or.inl hresp
    | drop id reply =>
      rw [responses_note] at hresp
      exact responses_dropped (i := id) rfl rfl (by simpa [Mark.response] using hresp)
    | close id reply =>
      rw [responses_note] at hresp
      rcases List.mem_append.mp hresp with hearlier | hlast
      · exact responses_dropped rfl rfl hearlier
      · have heq := List.mem_singleton.mp hlast
        exact Or.inr (Or.inr ⟨rfl, Or.inl (congrArg Prod.fst heq).symm⟩)
    | queue p i hreq hheld hne =>
      have hresponses : (enqueue w p).responses = w.responses := by
        rw [enqueue, responses_note]
        exact List.append_nil _
      rw [hresponses] at hresp
      exact Or.inl hresp
    | pass p _ hreq hfree hdispatch =>
      have hserved := dispatch_ok hreq hdispatch
      rw [hserved.responses, responses_noteDispatch] at hresp
      rcases List.mem_append.mp hresp with hold | hnew
      · exact Or.inl hold
      · obtain ⟨rfl, rfl⟩ := Prod.mk.inj (List.mem_singleton.mp hnew)
        refine Or.inr (Or.inl ⟨p, Or.inr (request_of_pending hreq), rfl, ?_, ?_⟩)
        · rw [hserved.pending]
          exact (hproper hreq).2
        · refine current_served (w := w.noteDispatch p false) hisolated.exclusive hreq ?_
            hserved.sessions
          rw [hserved.dispatches, dispatches_noteDispatch]
          exact List.mem_append_right _ (List.mem_singleton.mpr rfl)

/-- The responses of one call of the worker are current when it returns. -/
theorem handle_midway (hw : Isolated w) (hrest : AtRest w) (horderly : Orderly w)
    (hproper : Proper w j) (h : w.handle j = .ok w') : Midway w j w' := by
  obtain ⟨v, henter, hpump⟩ := handle_ok h
  exact (pump_rule (fun _ _ _ _ hv hnone hpending => midway_next hv hnone hpending)
    (midway_enters hw hrest horderly hproper henter) hpump).1

theorem untouched_dropped (hw : Exclusive w) {i : SessionId} {m : Mark S}
    (hw' : Exclusive ((w.dropSession i).note [m])) (hid : id ≠ i) :
    Untouched w id ((w.dropSession i).note [m]) := by
  refine untouched_of_sessions hw hw' ?_ (fun d hd => by
    rw [dispatches_note, dispatches_dropSession]
    exact List.mem_append_left _ hd)
  rw [Worker.note_sessions, Worker.dropSession_sessions]
  exact Function.update_of_ne hid _ _

/-- The arrival of a job leaves the other sessions alone. -/
theorem untouched_enters (hw : Exclusive w) {v : Worker S} (hv : Exclusive v)
    (hj : id ≠ j.session) (h : Enters w j v) : Untouched w id v := by
  cases h with
  | openConn i reply =>
    refine untouched_of_sessions hw hv ?_
      (fun d hd => by rw [(openSession_unmoved w i reply).dispatches]; exact hd)
    have hi : id ≠ i := hj
    rcases openSession_cases w i reply with ⟨conn, f, _, hopen⟩ | ⟨err, f, hopen⟩
    · rw [hopen]
      exact Function.update_of_ne hi _ _
    · rw [hopen]
      rfl
  | drop i reply => exact untouched_dropped hw hv hj
  | close i reply => exact untouched_dropped hw hv hj
  | queue p i hreq hheld hne =>
    exact untouched_of_sessions hw hv rfl (fun d hd => by
      rw [enqueue, dispatches_note]; exact List.mem_append_left _ hd)
  | pass p _ hreq hfree hdispatch =>
    have hserved := dispatch_ok hreq hdispatch
    refine untouched_of_sessions hw hv ?_ (fun d hd => by
      rw [hserved.dispatches, dispatches_noteDispatch]; exact List.mem_append_left _ hd)
    rw [hserved.sessions]
    exact (answer_sessions (w := w.noteDispatch p false) hreq).1 id hj

/-- The arrival of a job queues nothing of another session. -/
theorem unqueued_enters {v : Worker S} (hj : id ≠ j.session) (hqueue : ofSession w id = [])
    (h : Enters w j v) : ∀ p ∈ v.pending, p.id ≠ id := by
  intro p hp heq
  rcases List.mem_append.mp ((enters_pending h).1.subset hp) with hold | hnew
  · have hmem : p ∈ ofSession w id := List.mem_filter.mpr ⟨hold, by simp [heq]⟩
    rw [hqueue] at hmem
    cases hmem
  · rw [job_of_request (Option.mem_toList.mp hnew)] at hj
    exact hj heq.symm

/-- A request that leaves the queue leaves the other sessions alone. -/
theorem untouched_next {v v' : Worker S} {rest : List Pending} (hv : Isolated v)
    (hnone : v.holder = none) (hpending : v.pending = p :: rest) (hid : id ≠ p.id)
    (h : (resume v p rest).dispatch p = .ok v') : Untouched v id v' := by
  have hreq := hv.queued.head hpending
  have hexclusive : Exclusive (resume v p rest) := hv.exclusive.unseen rfl rfl
  have hresume : Untouched v id (resume v p rest) :=
    untouched_of_sessions hv.exclusive hexclusive rfl (fun d hd => by
      rw [resume, dispatches_noteDispatch]; exact List.mem_append_left _ hd)
  have hserved := untouched_served hexclusive (isolated_next hv hnone hpending h).exclusive hreq
    hid (dispatch_ok hreq h)
  exact hresume.trans hserved

/-- A session without a request in hand is left alone by a call of the worker. -/
theorem handle_untouched (hw : Isolated w) (hrest : AtRest w) (hfresh : Fresh w j)
    (hj : id ≠ j.session) (hqueue : ofSession w id = []) (h : w.handle j = .ok w') :
    Untouched w id w' := by
  obtain ⟨v, henter, hpump⟩ := handle_ok h
  have hisolated := isolated_enters hw hrest hfresh henter
  have hrule := pump_rule
    (P := fun u => Isolated u ∧ Untouched w id u ∧ ∀ p ∈ u.pending, p.id ≠ id)
    (fun u p rest u' hu hnone hpending hdispatch => by
      have hmem : p ∈ u.pending := by rw [hpending]; exact List.mem_cons_self ..
      have hserved := dispatch_ok (hu.1.queued.requests p hmem) hdispatch
      refine ⟨isolated_next hu.1 hnone hpending hdispatch, hu.2.1.trans
        (untouched_next hu.1 hnone hpending (hu.2.2 p hmem).symm hdispatch), ?_⟩
      intro q hq
      rw [hserved.pending] at hq
      exact hu.2.2 q (by rw [hpending]; exact List.mem_cons_of_mem p hq))
    ⟨hisolated, untouched_enters hw.exclusive hisolated.exclusive hj henter,
      unqueued_enters hj hqueue henter⟩ hpump
  exact hrule.1.2.1

end Handle

section System

variable {s s' : Broker S} {a : Action} {ch : Chan}

/-- The last request that a thread has read, when it was read from session `id`. -/
def lastRequest (s : Broker S) (id : SessionId) (req : Request) (ch : Chan) : Prop :=
  (s.clients id).requests.getLast? = some (req, ch)

/-- What a thread at `pc` has asked and what it is or will be told. -/
def Told (s : Broker S) (id : SessionId) : ClientPc → Prop
  | .waiting ch isClose => ∃ r : Request, lastRequest s id r ch ∧ r.isClose = isClose ∧
      Job.req id r ch ∈ s.handled ++ s.jobs ∧
      (isClose = false → ∀ resp, (ch, resp) ∈ s.worker.responses →
        Current s.worker ⟨id, r, ch⟩ resp)
  | .writing resp isClose => ∃ (r : Request) (ch : Chan), lastRequest s id r ch ∧
      r.isClose = isClose ∧ (isClose = false → Current s.worker ⟨id, r, ch⟩ resp)
  | _ => True

/-- A current response stays current while its session asks for nothing. -/
theorem current_step (hs : Disciplined s) (hcurrent : Current s.worker p resp)
    (hidle : outstanding s p.id = []) (h : Broker.step J s a = some s')
    (halive : s'.alive = true) : Current s'.worker p resp := by
  rcases actor_cases s a with rfl | ⟨id, hid⟩
  · obtain ⟨_, j, rest, hjobs, ⟨w, hw, rfl⟩ | ⟨w, _, rfl⟩⟩ := step_work h
    · have hj : p.id ≠ j.session := by
        intro heq
        rw [heq, (head_alone hs hjobs).1] at hidle
        cases hidle
      have hqueue : ofSession s.worker p.id = [] :=
        List.map_eq_nil_iff.mp (List.append_eq_nil_iff.mp hidle).1
      have huntouched := handle_untouched hs.sound.isolated hs.sound.rest
        (head_proper hs hjobs).fresh hj hqueue hw
      exact hcurrent.stays huntouched.sessions huntouched.holder huntouched.dispatches
    · cases halive
  · rw [(step_client h hid).worker]
    exact hcurrent

/-- A reply channel belongs to one request. -/
theorem request_unique (hs : Disciplined s) {r : Request}
    (hsent : Job.req id r ch ∈ s.handled ++ s.jobs) {k : Job} (hk : k ∈ s.handled ++ s.jobs)
    (hrequest : k.request = some p) (hreply : p.reply = ch) : p = ⟨id, r, ch⟩ := by
  have hsame : k = .req id r ch := by
    refine List.inj_on_of_nodup_map hs.channels hk hsent ?_
    rw [← request_reply hrequest, hreply]
    rfl
  have hjob := hsame.symm.trans (job_of_request hrequest)
  cases hjob
  rfl

theorem concerned_known {rest : List Job} {q : Pending} (hs : Disciplined s)
    (hjobs : s.jobs = j :: rest) (hq : Concerned s.worker j q) :
    ∃ k ∈ s.handled ++ s.jobs, k.request = some q := by
  rcases hq with hpending | hrequest
  · have harrived := (arrived_fates hs.sound.isolated.queued).symm.subset
      (List.mem_append_right _ hpending)
    rw [hs.sound.arrived] at harrived
    obtain ⟨k, hk, hrequest⟩ := List.mem_filterMap.mp harrived
    exact ⟨k, List.mem_append_left _ hk, hrequest⟩
  · exact ⟨j, List.mem_append_right _ (by rw [hjobs]; exact List.mem_cons_self ..), hrequest⟩

/-- The worker's step as a waiting thread sees it. -/
theorem told_work {r : Request} {rest : List Job} (hs : Disciplined s)
    (hpc : (s.clients id).pc = .waiting ch false) (hr : r.isClose = false)
    (hsent : Job.req id r ch ∈ s.handled ++ s.jobs)
    (htold : ∀ resp, (ch, resp) ∈ s.worker.responses → Current s.worker ⟨id, r, ch⟩ resp)
    (hjobs : s.jobs = j :: rest) (hw : s.worker.handle j = .ok w')
    (h : Broker.step J s a = some s') (halive : s'.alive = true) (hs' : s'.worker = w')
    (hresp : (ch, resp) ∈ w'.responses) : Current w' ⟨id, r, ch⟩ resp := by
  have hmidway := handle_midway hs.sound.isolated hs.sound.rest hs.sound.orderly
    (head_proper hs hjobs) hw
  rcases hmidway.responses ch resp hresp with
    hold | ⟨q, hq, hreply, _, hcurrent⟩ | ⟨hends, hreply | ⟨q, hq, _⟩⟩
  · have hexpected := hs.expected id
    rw [hpc] at hexpected
    have hidle : outstanding s id = [] := by
      rcases hexpected with ⟨r', _, hmine, _⟩ | ⟨hmine, _⟩
      · exact absurd (List.mem_map_of_mem hold) (outstanding_unanswered hs hmine)
      · exact hmine
    rw [← hs']
    exact current_step hs (htold resp hold) hidle h halive
  · obtain ⟨k, hk, hrequest⟩ := concerned_known hs hjobs hq
    rw [request_unique hs hsent hk hrequest hreply] at hcurrent
    exact hcurrent
  · have hsame : j = .req id r ch := by
      refine List.inj_on_of_nodup_map hs.channels ?_ hsent hreply
      exact List.mem_append_right _ (by rw [hjobs]; exact List.mem_cons_self ..)
    rw [hsame] at hends
    simp [Job.ends, hr] at hends
  · rw [(head_alone hs hjobs).2.1] at hq
    cases hq

/-- No job is forgotten by a step that is not the thread's own. -/
theorem other_frame (hid : s.actor a ≠ some id) (h : Broker.step J s a = some s')
    (halive : s'.alive = true) : s'.clients id = s.clients id ∧
      ∀ j ∈ s.handled ++ s.jobs, j ∈ s'.handled ++ s'.jobs := by
  rcases actor_cases s a with rfl | ⟨i, hi⟩
  · obtain ⟨_, j, rest, hjobs, ⟨w, _, rfl⟩ | ⟨w, _, rfl⟩⟩ := step_work h
    · refine ⟨rfl, ?_⟩
      intro k hk
      rw [hjobs] at hk
      simpa using hk
    · cases halive
  · have hne : id ≠ i := by
      rintro rfl
      exact hid hi
    have hstep := step_client h hi
    refine ⟨hstep.others id hne, ?_⟩
    intro k hk
    rw [hstep.handled]
    rcases hstep.jobs with hsame | ⟨j, hmore, _⟩
    · rw [hsame]
      exact hk
    · rw [hmore, ← List.append_assoc]
      exact List.mem_append_left _ hk

/-- The step of another thread or of the worker. -/
theorem told_other (hs : Disciplined s) (ht : Told s id (s.clients id).pc)
    (hid : s.actor a ≠ some id) (h : Broker.step J s a = some s') (halive : s'.alive = true) :
    Told s' id (s'.clients id).pc := by
  obtain ⟨hclient, hjobs'⟩ := other_frame hid h halive
  rw [hclient]
  cases hpc : (s.clients id).pc with
  | waiting ch isClose =>
    rw [hpc] at ht
    obtain ⟨r, hlast, hclose, hsent, htold⟩ := ht
    refine ⟨r, by rw [lastRequest, hclient]; exact hlast, hclose, hjobs' _ hsent, ?_⟩
    rintro rfl resp hresp
    rcases actor_cases s a with rfl | ⟨i, hi⟩
    · obtain ⟨_, j, rest, hjobs, ⟨w, hw, hs'⟩ | ⟨w, _, rfl⟩⟩ := step_work h
      · have hworker : s'.worker = w := by rw [hs']
        rw [hworker] at hresp ⊢
        exact told_work hs hpc hclose hsent (htold rfl) hjobs hw h halive hworker hresp
      · cases halive
    · rw [(step_client h hi).worker] at hresp ⊢
      exact htold rfl resp hresp
  | writing resp isClose =>
    rw [hpc] at ht
    obtain ⟨r, ch, hlast, hclose, hcurrent⟩ := ht
    refine ⟨r, ch, by rw [lastRequest, hclient]; exact hlast, hclose, fun hfalse => ?_⟩
    have hexpected := hs.expected id
    rw [hpc] at hexpected
    exact current_step hs (p := ⟨id, r, ch⟩) (hcurrent hfalse) hexpected.1 h halive
  | _ => trivial

/-- A thread that reads a request waits for the response on a new channel. -/
theorem told_forward {req : Request} (hs : Disciplined s) (halive : s.alive = true) :
    Told (s.forward id req) id ((s.forward id req).clients id).pc := by
  have hown := forward_own s id req
  rw [halive, if_pos rfl] at hown
  rw [hown]
  have hframe : (s.forward id req).worker = s.worker ∧ (s.forward id req).handled = s.handled ∧
      (s.forward id req).jobs = s.jobs ++ [.req id req s.nextChan] := by
    unfold Broker.forward Broker.sendJob
    rw [if_pos halive, if_pos halive]
    exact ⟨rfl, rfl, rfl⟩
  refine ⟨req, ?_, rfl, ?_, ?_⟩
  · rw [lastRequest, hown]
    exact List.getLast?_concat ..
  · rw [hframe.2.1, hframe.2.2, ← List.append_assoc]
    exact List.mem_append_right _ (List.mem_singleton.mpr rfl)
  · intro _ resp hresp
    rw [hframe.1] at hresp
    obtain ⟨j, hj, hreply⟩ := List.mem_map.mp
      (answered_handled hs (Or.inr (Or.inl (List.mem_map_of_mem hresp))))
    have hlt := hs.fresh j (List.mem_append_left _ hj)
    rw [hreply] at hlt
    exact absurd hlt (Nat.lt_irrefl _)

/-- A thread that goes to a place where it waits for no response. -/
theorem told_quiet {pc : ClientPc} (hpc : (s'.clients id).pc = pc)
    (hwaiting : ∀ ch isClose, pc ≠ .waiting ch isClose)
    (hwriting : ∀ resp isClose, pc ≠ .writing resp isClose) :
    Told s' id (s'.clients id).pc := by
  rw [hpc]
  cases pc with
  | waiting ch isClose => exact absurd rfl (hwaiting ch isClose)
  | writing resp isClose => exact absurd rfl (hwriting resp isClose)
  | _ => trivial

theorem told_dropRemote : Told (s.dropRemote id) id ((s.dropRemote id).clients id).pc := by
  have hown := sendJob_own s id (.drop id) .dropping
  refine told_quiet (congrArg Client.pc hown) ?_ ?_ <;> cases s.alive <;> simp

/-- A step of the thread itself. -/
theorem told_own (hs : Disciplined s) (halive : s.alive = true)
    (ht : Told s id (s.clients id).pc) (hid : s.actor a = some id)
    (h : Broker.step J s a = some s') : Told s' id (s'.clients id).pc := by
  have hworker := (step_client h hid).worker
  cases thread_step h hid with
  | accept => exact told_quiet (congrArg Client.pc (enter_own _ _ _)) (by simp) (by simp)
  | sendOpen =>
    have hown := sendJob_own s id (.openConn id) .opening
    refine told_quiet (congrArg Client.pc hown) ?_ ?_ <;> cases s.alive <;> simp
  | recvOpen _ hrecv =>
    rcases receive_own hrecv with ⟨_, _, hown⟩ | ⟨_, hown⟩ <;>
      exact told_quiet (congrArg Client.pc hown) (by simp) (by simp)
  | writeHello =>
    unfold Broker.greet
    split
    · exact told_quiet (congrArg Client.pc (enter_own _ _ _)) (by simp) (by simp)
    · exact told_dropRemote
    · exact told_quiet (congrArg Client.pc (enter_own _ _ _)) (by simp) (by simp)
    · exact told_quiet (congrArg Client.pc (enter_own _ _ _)) (by simp) (by simp)
  | read => exact told_forward hs halive
  | readFails => exact told_dropRemote
  | @recvReply ch isClose _ hpc hrecv =>
    rcases receive_own hrecv with ⟨resp, hresp, hown⟩ | ⟨hdead, _⟩
    · rw [hpc] at ht
      obtain ⟨r, hlast, hclose, _, htold⟩ := ht
      rw [congrArg Client.pc hown]
      refine ⟨r, ch, ?_, hclose, fun hfalse => ?_⟩
      · rw [lastRequest, hown]
        exact hlast
      · rw [hworker]
        exact htold hfalse resp (mem_of_lookup hresp)
    · rw [halive] at hdead
      cases hdead
  | writeReply =>
    unfold Broker.reply
    split
    · split
      · exact told_dropRemote
      · exact told_quiet (congrArg Client.pc (enter_own _ _ _)) (by simp) (by simp)
    · split <;> exact told_quiet (congrArg Client.pc (enter_own _ _ _)) (by simp) (by simp)
  | recvDrop _ hrecv =>
    rcases receive_own hrecv with ⟨_, _, hown⟩ | ⟨_, hown⟩ <;>
      exact told_quiet (congrArg Client.pc hown) (by simp) (by simp)

/-- While the worker lives, what threads wait for and what they write is current. -/
theorem run_told {f : S.File} {acts : List Action} (h : Run J f acts s)
    (halive : s.alive = true) : Disciplined s ∧ ∀ id, Told s id (s.clients id).pc := by
  have hinv := h.invariant (P := fun s => s.alive = true →
      Disciplined s ∧ ∀ id, Told s id (s.clients id).pc) ?_ ?_
  · exact hinv halive
  · intro s a s' ih hstep halive'
    have halive := alive_of_step hstep halive'
    obtain ⟨hs, ht⟩ := ih halive
    refine ⟨step_disciplined hs halive hstep halive', fun id => ?_⟩
    by_cases hid : s.actor a = some id
    · exact told_own hs halive (ht id) hid hstep
    · exact told_other hs (ht id) hid hstep halive'
  · exact fun _ => ⟨disciplined_init f, fun _ => trivial⟩

end System

end SqliteBroker.CurrentReplies
