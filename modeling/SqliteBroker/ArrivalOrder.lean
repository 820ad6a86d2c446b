import SqliteBroker.WorkerLog
import SqliteBroker.SmallSqlite

/-!
The queue of the worker is a turnstile: every run of the worker, also one that ends
in a panic, logs a run of the turnstile. First come, first served follows from it.
Each job brings a reply channel of its own, which tells its request from all others.
-/
namespace SqliteBroker.BrokerWorker

open Messages Engine Execution Turnstile WorkerLog

variable {S : Sqlite}

namespace Job

def reply : Job → Chan
  | .openConn _ reply => reply
  | .req _ _ reply => reply
  | .drop _ reply => reply

/-- The `exec` or `prepare` that a job brings. -/
def request : Job → Option Pending
  | .req id r reply => if r.isClose then none else some ⟨id, r, reply⟩
  | _ => none

def session : Job → SessionId
  | .openConn id _ => id
  | .req id _ _ => id
  | .drop id _ => id

/-- The job ends its session. -/
def ends : Job → Bool
  | .openConn _ _ => false
  | .req _ r _ => r.isClose
  | .drop _ _ => true

end Job

namespace Worker

def arrived (w : Worker S) : List Pending := w.labels.filterMap Label.arrived

def queued (w : Worker S) : List Pending := w.labels.filterMap Label.queued

def served (w : Worker S) : List Pending := w.labels.filterMap Label.served

def thrownOut (w : Worker S) : List Pending := w.labels.flatMap Label.gone

/-- The worker after a run, also after one that panicked. -/
def memory : Except (Worker S) (Worker S) → Worker S
  | .ok w => w
  | .error w => w

end Worker

end SqliteBroker.BrokerWorker

namespace SqliteBroker.ArrivalOrder

open Messages Engine Execution BrokerWorker Turnstile WorkerLog Runs

variable {S : Sqlite} {w w' : Worker S} {p q : Pending} {j : Job}

structure Queued (w : Worker S) : Prop where
  turnstile : Trace (Step Pending.id) ⟨none, []⟩ w.labels w.view
  requests : ∀ p ∈ w.pending, p.req.isClose = false

theorem Queued.head (hw : Queued w) {rest : List Pending} (hpending : w.pending = p :: rest) :
    p.req.isClose = false :=
  hw.requests p (by rw [hpending]; exact List.mem_cons_self ..)

theorem queued_new (f : S.File) : Queued (Worker.new f) :=
  ⟨.nil _, by simp [Worker.new]⟩

/-- A change of the worker that the turnstile does not see. -/
theorem Queued.unseen (hw : Queued w) (hlabels : w'.labels = w.labels)
    (hholder : w'.holder = w.holder) (hpending : w'.pending = w.pending) : Queued w' := by
  refine ⟨?_, by rw [hpending]; exact hw.requests⟩
  rw [hlabels, Worker.view, hholder, hpending]
  exact hw.turnstile

theorem Queued.step {a : Label SessionId Pending} (hw : Queued w)
    (hlabels : w'.labels = w.labels ++ [a]) (hstep : Step Pending.id w.view a w'.view)
    (hrequests : ∀ p ∈ w'.pending, p.req.isClose = false) : Queued w' := by
  refine ⟨?_, hrequests⟩
  rw [hlabels]
  exact hw.turnstile.snoc hstep

theorem queued_pass (hw : Queued w) (hrest : AtRest w)
    (hfree : w.holder = none ∨ w.holder = some p.id) : Queued (w.noteDispatch p false) := by
  refine hw.step (labels_noteDispatch w p false) (.pass w.view p ?_) hw.requests
  rcases hfree with hnone | hown
  · exact Or.inl ⟨hnone, hrest hnone⟩
  · exact Or.inr hown

theorem queued_resume {rest : List Pending} (hw : Queued w) (hnone : w.holder = none)
    (hpending : w.pending = p :: rest) : Queued (resume w p rest) := by
  have hlabels : (resume w p rest).labels = w.labels ++ [.next p] :=
    labels_noteDispatch { w with pending := rest } p true
  have hview : (resume w p rest).view = ⟨none, rest⟩ := by
    simp [resume, Worker.noteDispatch, Worker.view, hnone]
  refine hw.step hlabels ?_ ?_
  · rw [hview]
    exact .next w.view p rest hnone hpending
  · intro q hq
    exact hw.requests q (by rw [hpending]; exact List.mem_cons_of_mem p hq)

theorem queued_served (hw : Queued w) (hfree : w.holder = none ∨ w.holder = some p.id)
    (hserved : Served w p w') : Queued w' := by
  have hlabels := hserved.labels
  have hholder := hserved.holder
  by_cases hexec : isExec p.req = true
  · rw [if_pos hexec] at hlabels hholder
    refine hw.step hlabels ?_ (by rw [hserved.pending]; exact hw.requests)
    have hview : w'.view = ⟨settled w.holder p.id (w.keeps p), w.pending⟩ := by
      rw [Worker.view, hholder, hserved.pending]
    rw [hview]
    exact .settle w.view p.id (w.keeps p) hfree
  · rw [if_neg hexec, List.append_nil] at hlabels
    rw [if_neg hexec] at hholder
    exact hw.unseen hlabels hholder hserved.pending

theorem queued_dropSession (hw : Queued w) (id : SessionId) : Queued (w.dropSession id) := by
  have hview : (w.dropSession id).view =
      ⟨if w.holder = some id then none else w.holder, w.pending.filter (fun p => p.id ≠ id)⟩ := by
    rw [Worker.view, Worker.dropSession_holder, Worker.dropSession_pending]
  refine hw.step (labels_dropSession w id) ?_ ?_
  · rw [hview]
    exact .leave w.view id
  · intro p hp
    rw [Worker.dropSession_pending] at hp
    exact hw.requests p (List.mem_filter.mp hp).1

theorem queued_openSession (hw : Queued w) (id : SessionId) (reply : Chan) :
    Queued (w.openSession id reply) :=
  have hopen := openSession_unmoved w id reply
  hw.unseen hopen.labels hopen.holder hopen.pending

theorem queued_enqueue {i : SessionId} (hw : Queued w) (hreq : p.req.isClose = false)
    (hheld : w.holder = some i) (hne : i ≠ p.id) : Queued (enqueue w p) := by
  refine hw.step (labels_enqueue w p) (.queue w.view p i hheld hne) ?_
  intro q hq
  rcases List.mem_append.mp hq with hold | hnew
  · exact hw.requests q hold
  · rw [List.mem_singleton.mp hnew]
    exact hreq

theorem queued_enters (hw : Queued w) (hrest : AtRest w) (h : Enters w j w') : Queued w' := by
  cases h with
  | openConn id reply => exact queued_openSession hw id reply
  | drop id reply =>
    exact (queued_dropSession hw id).unseen (by simp [Mark.label]) rfl rfl
  | close id reply =>
    exact (queued_dropSession hw id).unseen (by simp [Mark.label]) rfl rfl
  | queue p i hreq hheld hne => exact queued_enqueue hw hreq hheld hne
  | pass p _ hreq hfree h =>
    exact queued_served (queued_pass hw hrest hfree) hfree (dispatch_ok hreq h)

theorem queued_next {rest : List Pending} (hw : Queued w) (hnone : w.holder = none)
    (hpending : w.pending = p :: rest) (h : (resume w p rest).dispatch p = .ok w') :
    Queued w' := by
  have hreq := hw.head hpending
  exact queued_served (queued_resume hw hnone hpending) (Or.inl hnone) (dispatch_ok hreq h)

/-- One step of the worker keeps the queue in order and leaves it at rest. -/
theorem handle_queued (hw : Queued w) (hrest : AtRest w) (h : w.handle j = .ok w') :
    Queued w' ∧ AtRest w' := by
  obtain ⟨w₁, henter, hpump⟩ := handle_ok h
  exact pump_rule (fun _ _ _ _ hv hnone hpending => queued_next hv hnone hpending)
    (queued_enters hw hrest henter) hpump

/-- What a job adds to the log, whatever else happens while it is handled. -/
structure Recorded (w : Worker S) (j : Job) (w' : Worker S) : Prop where
  grows : w.log <+: w'.log
  arrived : w'.arrived = w.arrived ++ j.request.toList

theorem arrived_served (hserved : Served w p w') : w'.arrived = w.arrived := by
  rw [Worker.arrived, hserved.labels, List.filterMap_append, Worker.arrived]
  cases isExec p.req <;> simp [Label.arrived]

theorem request_of_pending (hreq : p.req.isClose = false) :
    (Job.req p.id p.req p.reply).request = some p := by
  simp [Job.request, hreq]

/-- A job that brings a request is that request. -/
theorem job_of_request (h : j.request = some p) : j = .req p.id p.req p.reply := by
  cases j with
  | req id r reply =>
    simp only [Job.request] at h
    split at h
    · cases h
    · cases h
      rfl
  | _ => cases h

theorem recorded_dropSession (id : SessionId) (marks : List (Mark S))
    (hmarks : marks.filterMap Mark.label = []) (hj : j.request = none) :
    Recorded w j ((w.dropSession id).note marks) := by
  constructor
  · obtain ⟨lines, hlog⟩ := Worker.dropSession_log w id
    rw [Worker.note_log, hlog, List.append_assoc, List.append_assoc]
    exact List.prefix_append _ _
  · rw [Worker.arrived, labels_note, hmarks, List.append_nil, labels_dropSession, hj]
    simp [Worker.arrived, Label.arrived]

theorem recorded_enters (h : Enters w j w') : Recorded w j w' := by
  cases h with
  | openConn id reply =>
    have hopen := openSession_unmoved w id reply
    exact ⟨hopen.grows, by simp [Worker.arrived, hopen.labels, Job.request]⟩
  | drop id reply => exact recorded_dropSession id _ rfl rfl
  | close id reply => exact recorded_dropSession id _ rfl rfl
  | queue p i hreq hheld hne =>
    refine ⟨List.prefix_append _ _, ?_⟩
    rw [request_of_pending hreq, Worker.arrived, labels_enqueue]
    exact List.filterMap_append
  | pass p _ hreq hfree h =>
    have hserved := dispatch_ok hreq h
    refine ⟨(List.prefix_append _ _).trans hserved.grows, ?_⟩
    rw [arrived_served hserved, request_of_pending hreq, Worker.arrived, labels_noteDispatch]
    exact List.filterMap_append

theorem recorded_resume {v : Worker S} {rest : List Pending} (hv : Recorded w j v) :
    Recorded w j (resume v p rest) := by
  refine ⟨hv.grows.trans (List.prefix_append _ _), ?_⟩
  have hlabels : (resume v p rest).labels = v.labels ++ [.next p] :=
    labels_noteDispatch { v with pending := rest } p true
  rw [Worker.arrived, hlabels, List.filterMap_append, ← hv.arrived]
  simp [Worker.arrived, Label.arrived]

theorem recorded_served {v : Worker S} (hv : Recorded w j v) (hserved : Served v p w') :
    Recorded w j w' :=
  ⟨hv.grows.trans hserved.grows, by rw [arrived_served hserved, hv.arrived]⟩

/-- A panic adds nothing: the call that has run leaves no trace outside its connection. -/
theorem stopped_history {v : Worker S} (hv : Queued v ∧ Recorded w j v) (h : Stopped v p w') :
    Queued w' ∧ Recorded w j w' := by
  have hlabels : w'.labels = v.labels := by rw [Worker.labels, h.log, Worker.labels]
  refine ⟨hv.1.unseen hlabels h.holder h.pending, ?_, ?_⟩
  · rw [h.log]
    exact hv.2.grows
  · rw [Worker.arrived, hlabels]
    exact hv.2.arrived

/-- One call of the worker, also one that panics, records its own request and logs
a run of the turnstile. -/
theorem handle_history (hw : Queued w) (hrest : AtRest w) (j : Job) :
    Queued (Worker.memory (w.handle j)) ∧ Recorded w j (Worker.memory (w.handle j)) := by
  have hnext : ∀ v p rest v', (Queued v ∧ Recorded w j v) → v.holder = none →
      v.pending = p :: rest → (resume v p rest).dispatch p = .ok v' →
      Queued v' ∧ Recorded w j v' := by
    intro v p rest v' hv hnone hpending h
    have hreq := hv.1.head hpending
    exact ⟨queued_next hv.1 hnone hpending h,
      recorded_served (recorded_resume hv.2) (dispatch_ok hreq h)⟩
  cases h : w.handle j with
  | ok w' =>
    obtain ⟨w₁, henter, hpump⟩ := handle_ok h
    exact (pump_rule hnext ⟨queued_enters hw hrest henter, recorded_enters henter⟩ hpump).1
  | error w' =>
    rcases handle_error h with ⟨w₁, henter, hpump⟩ | ⟨p, rfl, hreq, hfree, hdispatch⟩
    · obtain ⟨v, p, rest, hv, hnone, hpending, hstop⟩ :=
        pump_error hnext ⟨queued_enters hw hrest henter, recorded_enters henter⟩ hpump
      exact stopped_history ⟨queued_resume hv.1 hnone hpending, recorded_resume hv.2⟩
        (dispatch_error hstop)
    · refine stopped_history ⟨queued_pass hw hrest hfree, List.prefix_append _ _, ?_⟩
        (dispatch_error hdispatch)
      rw [request_of_pending hreq, Worker.arrived, labels_noteDispatch]
      exact List.filterMap_append

section Loop

variable {rest : List Job}

theorem workerLoop_cons_ok (h : w.handle j = .ok w') :
    w.workerLoop (j :: rest) = w'.workerLoop rest := by
  rw [Worker.workerLoop, List.foldlM_cons, h]
  rfl

theorem workerLoop_cons_error (h : w.handle j = .error w') :
    w.workerLoop (j :: rest) = .error w' := by
  rw [Worker.workerLoop, List.foldlM_cons, h]
  rfl

theorem workerLoop_append {before : List Job} (h : w.workerLoop before = .ok w') :
    w.workerLoop (before ++ rest) = w'.workerLoop rest := by
  rw [Worker.workerLoop, List.foldlM_append]
  rw [Worker.workerLoop] at h
  rw [h]
  rfl

end Loop

/-- A whole run: the jobs it handles are the first ones, and the log only grows. -/
theorem run_history (hw : Queued w) (hrest : AtRest w) (jobs : List Job) :
    Queued (Worker.memory (w.workerLoop jobs)) ∧
      w.log <+: (Worker.memory (w.workerLoop jobs)).log ∧
      ∃ handled, handled <+: jobs ∧ (Worker.memory (w.workerLoop jobs)).arrived =
        w.arrived ++ handled.filterMap Job.request := by
  induction jobs generalizing w with
  | nil => exact ⟨hw, List.prefix_rfl, [], List.prefix_rfl, (List.append_nil _).symm⟩
  | cons j rest ih =>
    obtain ⟨hqueued, hrecorded⟩ := handle_history hw hrest j
    cases h : w.handle j with
    | error w' =>
      rw [h] at hqueued hrecorded
      rw [workerLoop_cons_error h]
      refine ⟨hqueued, hrecorded.grows, [j], List.prefix_append [j] rest, ?_⟩
      rw [hrecorded.arrived]
      cases hreq : j.request <;> simp [hreq]
    | ok w' =>
      rw [h] at hqueued hrecorded
      rw [workerLoop_cons_ok h]
      obtain ⟨hend, hgrows, handled, hstart, harrived⟩ :=
        ih (w := w') hqueued (handle_queued hw hrest h).2
      refine ⟨hend, hrecorded.grows.trans hgrows, j :: handled, ?_, ?_⟩
      · exact List.cons_prefix_cons.mpr ⟨rfl, hstart⟩
      · rw [harrived, show w'.arrived = _ from hrecorded.arrived]
        cases hreq : j.request <;> simp [hreq]

/-- The worker starts with no session, an empty queue and an empty log. -/
theorem new_history (f : S.File) (jobs : List Job) :
    Queued (Worker.memory ((Worker.new f).workerLoop jobs)) ∧
      ∃ handled, handled <+: jobs ∧
        (Worker.memory ((Worker.new f).workerLoop jobs)).arrived =
          handled.filterMap Job.request := by
  obtain ⟨hqueued, _, handled, hstart, harrived⟩ :=
    run_history (queued_new f) (fun _ => rfl) jobs
  exact ⟨hqueued, handled, hstart, by simpa [Worker.new, Worker.arrived, Worker.labels] using
    harrived⟩

theorem request_reply (h : j.request = some p) : p.reply = j.reply := by
  rw [job_of_request h]
  rfl

theorem requests_nodup {jobs : List Job} (h : (jobs.map Job.reply).Nodup) :
    (jobs.filterMap Job.request).Nodup := by
  induction jobs with
  | nil => exact List.nodup_nil
  | cons j rest ih =>
    obtain ⟨hj, hrest⟩ := List.nodup_cons.mp h
    cases hreq : j.request with
    | none => simpa [hreq] using ih hrest
    | some p =>
      rw [List.filterMap_cons_some hreq]
      refine List.nodup_cons.mpr ⟨?_, ih hrest⟩
      intro hp
      obtain ⟨j', hj', hreq'⟩ := List.mem_filterMap.mp hp
      refine hj (List.mem_map.mpr ⟨j', hj', ?_⟩)
      rw [← request_reply hreq', request_reply hreq]

theorem arrived_nodup (f : S.File) {jobs : List Job} (hreplies : (jobs.map Job.reply).Nodup) :
    (Worker.memory ((Worker.new f).workerLoop jobs)).arrived.Nodup := by
  obtain ⟨_, handled, hstart, harrived⟩ := new_history f jobs
  rw [harrived]
  exact requests_nodup (hreplies.sublist (hstart.sublist.map Job.reply))

/-- Two requests that waited and were dispatched were dispatched in the order they came. -/
theorem served_in_order (hw : Queued w) (hnd : w.arrived.Nodup)
    (hpq : [p, q].Sublist w.queued) (hp : p ∈ w.served) (hq : q ∈ w.served) :
    [p, q].Sublist w.served := by
  have hqueued : w.queued.Nodup := hnd.sublist (queued_sublist_arrived w.labels)
  have hpres := resumed_of_queued hnd (hpq.subset (by simp)) hp
  have hqres := resumed_of_queued hnd (hpq.subset (by simp)) hq
  have horder := resumed_in_order hw.turnstile hqueued hpq hpres hqres
  exact horder.trans (resumed_sublist_served w.labels)

/-- Between two states of one run the turnstile runs from the first to the second. -/
theorem run_between (hw : Queued w) (hw' : Queued w') {l : List (Label SessionId Pending)}
    (hlabels : w'.labels = w.labels ++ l) : Trace (Step Pending.id) w.view l w'.view := by
  have htrace := hw'.turnstile
  rw [hlabels] at htrace
  obtain ⟨t, hleft, hright⟩ := htrace.split
  obtain rfl : t = w.view :=
    Trace.functional (R := Step Pending.id) (fun _ _ _ _ => step_functional) hleft hw.turnstile
  exact hright

theorem labels_of_grows (h : w.log <+: w'.log) : w.labels <+: w'.labels := by
  obtain ⟨more, hmore⟩ := h
  exact ⟨more.filterMap Mark.label, by rw [Worker.labels, Worker.labels, ← hmore,
    List.filterMap_append]⟩

theorem queued_before {f : S.File} {before : List Job}
    (hbefore : (Worker.new f).workerLoop before = .ok w) : Queued w ∧ AtRest w := by
  have htrace := (foldlM_ok_iff Worker.handle before _ _).mp hbefore
  exact htrace.invariant (P := fun w => Queued w ∧ AtRest w)
    (fun _ _ _ hw h => handle_queued hw.1 hw.2 h) ⟨queued_new f, fun _ => rfl⟩

/-- Who arrives while others wait and is dispatched before one of them holds the turnstile. -/
theorem holder_of_overtaking {before after : List Job} (f : S.File)
    (hreplies : ((before ++ .req p.id p.req p.reply :: after).map Job.reply).Nodup)
    (hreq : p.req.isClose = false) (hbefore : (Worker.new f).workerLoop before = .ok w)
    (hq : q ∈ w.pending) {past rest : List (Label SessionId Pending)}
    {a : Label SessionId Pending}
    (hsplit : (Worker.memory ((Worker.new f).workerLoop
      (before ++ .req p.id p.req p.reply :: after))).labels = past ++ a :: rest)
    (ha : a.served = some p) (hserved : q ∉ past.filterMap Label.served)
    (hgone : q ∉ past.flatMap Label.gone) : w.holder = some p.id := by
  have hnd := arrived_nodup f hreplies
  have hqueued' := (new_history f (before ++ .req p.id p.req p.reply :: after)).1
  obtain ⟨hqueued, hrest⟩ := queued_before hbefore
  rw [workerLoop_append hbefore] at hnd hqueued' hsplit
  cases hheld : w.heldByOther p.id with
  | false =>
    rcases heldByOther_false hheld with hnone | hown
    · rw [hrest hnone] at hq
      cases hq
    · exact hown
  | true =>
    have hhandle : w.handle (.req p.id p.req p.reply) = .ok (enqueue w p) := by
      rw [handle_request w p hreq, if_pos hheld]
    rw [workerLoop_cons_ok hhandle] at hnd hqueued' hsplit
    have hrest' : AtRest (enqueue w p) := (handle_queued hqueued hrest hhandle).2
    obtain ⟨_, hgrows, _⟩ :=
      run_history (handle_queued hqueued hrest hhandle).1 hrest' after
    obtain ⟨m, hm⟩ := labels_of_grows hgrows
    have hlabels : (Worker.memory ((enqueue w p).workerLoop after)).labels =
        w.labels ++ .queue p :: m := by
      rw [← hm, labels_enqueue, List.append_assoc]
      rfl
    have hover := not_overtaken hqueued.turnstile (run_between hqueued hqueued' hlabels)
      (by rw [← hlabels]; exact hnd) hq (by rw [← hlabels]; exact hsplit) ha
    rcases hover with h | h
    · exact absurd h hserved
    · exact absurd h hgone

section Departures

theorem thrownOut_served (hserved : Served w p w') : w'.thrownOut = w.thrownOut := by
  rw [Worker.thrownOut, hserved.labels, List.flatMap_append, Worker.thrownOut]
  cases isExec p.req <;> simp [Label.gone]

theorem thrownOut_dispatch (w : Worker S) (p : Pending) (resumed : Bool) :
    (w.noteDispatch p resumed).thrownOut = w.thrownOut := by
  rw [Worker.thrownOut, labels_noteDispatch, List.flatMap_append, Worker.thrownOut]
  cases resumed <;> exact List.append_nil _

theorem thrownOut_openSession (w : Worker S) (i : SessionId) (reply : Chan) :
    (w.openSession i reply).thrownOut = w.thrownOut := by
  rw [Worker.thrownOut, (openSession_unmoved w i reply).labels, Worker.thrownOut]

theorem thrownOut_enqueue (w : Worker S) (p : Pending) :
    (enqueue w p).thrownOut = w.thrownOut := by
  rw [Worker.thrownOut, labels_enqueue, List.flatMap_append]
  exact List.append_nil _

theorem thrownOut_dropSession (w : Worker S) (id : SessionId) :
    (w.dropSession id).thrownOut = w.thrownOut ++ ofSession w id := by
  rw [Worker.thrownOut, labels_dropSession, List.flatMap_append]
  exact congrArg (w.thrownOut ++ ·) (List.append_nil _)

/-- From `w` to `w'` the requests `done` left the front of the queue, each dispatched in its
turn, and no other request left it. -/
structure Advanced (w : Worker S) (done : List Pending) (w' : Worker S) : Prop where
  pending : w.pending = done ++ w'.pending
  served : w'.served = w.served ++ done
  thrownOut : w'.thrownOut = w.thrownOut

theorem advanced_refl (w : Worker S) : Advanced w [] w :=
  ⟨rfl, (List.append_nil _).symm, rfl⟩

/-- The head of the queue is dispatched, whether its dispatch returns or panics. -/
theorem advanced_resume {v : Worker S} {done rest : List Pending} (hv : Advanced w done v)
    (hpending : v.pending = p :: rest) : Advanced w (done ++ [p]) (resume v p rest) := by
  have hlabels : (resume v p rest).labels = v.labels ++ [.next p] :=
    labels_noteDispatch { v with pending := rest } p true
  refine ⟨?_, ?_, (thrownOut_dispatch { v with pending := rest } p true).trans hv.thrownOut⟩
  · rw [hv.pending, hpending, List.append_assoc]
    rfl
  · rw [Worker.served, hlabels, List.filterMap_append, ← List.append_assoc, ← hv.served]
    rfl

theorem advanced_served {v : Worker S} {done : List Pending} (hv : Advanced w done v)
    (hserved : Served v p w') : Advanced w done w' := by
  refine ⟨by rw [hserved.pending]; exact hv.pending, ?_,
    (thrownOut_served hserved).trans hv.thrownOut⟩
  rw [← hv.served, Worker.served, hserved.labels, List.filterMap_append, Worker.served]
  cases isExec p.req <;> simp [Label.served]

theorem advanced_stopped {v : Worker S} {done : List Pending} (hv : Advanced w done v)
    (h : Stopped v p w') : Advanced w done w' := by
  have hlabels : w'.labels = v.labels := by rw [Worker.labels, h.log, Worker.labels]
  refine ⟨by rw [h.pending]; exact hv.pending, ?_, ?_⟩
  · rw [Worker.served, hlabels]
    exact hv.served
  · rw [Worker.thrownOut, hlabels]
    exact hv.thrownOut

theorem pump_advanced (hw : Queued w) : ∃ done, Advanced w done (Worker.memory w.pump) := by
  have hnext : ∀ v p rest v', (Queued v ∧ ∃ done, Advanced w done v) → v.holder = none →
      v.pending = p :: rest → (resume v p rest).dispatch p = .ok v' →
      Queued v' ∧ ∃ done, Advanced w done v' := by
    intro v p rest v' hv hnone hpending h
    obtain ⟨hqueued, done, hdone⟩ := hv
    have hreq := hqueued.head hpending
    exact ⟨queued_next hqueued hnone hpending h, done ++ [p],
      advanced_served (advanced_resume hdone hpending) (dispatch_ok hreq h)⟩
  have hstart : Queued w ∧ ∃ done, Advanced w done w := ⟨hw, [], advanced_refl w⟩
  cases h : w.pump with
  | ok w' => exact (pump_rule hnext hstart h).1.2
  | error w' =>
    obtain ⟨v, p, rest, ⟨_, done, hdone⟩, _, hpending, hstop⟩ := pump_error hnext hstart h
    exact ⟨done ++ [p], advanced_stopped (advanced_resume hdone hpending) (dispatch_error hstop)⟩

/-- A job that ends its session, before the pump: its own requests are thrown out. -/
theorem ends_handle (hends : j.ends = true) : ∃ v : Worker S, w.handle j = v.pump ∧
    v.labels = (w.dropSession j.session).labels ∧ v.holder = (w.dropSession j.session).holder ∧
    v.pending = (w.dropSession j.session).pending := by
  cases j with
  | openConn id reply => cases hends
  | drop id reply =>
    refine ⟨(w.dropSession id).note [.sentDrop reply], rfl, ?_, rfl, rfl⟩
    rw [labels_note]
    exact List.append_nil _
  | req id r reply =>
    cases r with
    | close =>
      refine ⟨(w.dropSession id).note [.sentResponse reply okClosed], rfl, ?_, rfl, rfl⟩
      rw [labels_note]
      exact List.append_nil _
    | exec sql params => cases hends
    | prepare sql => cases hends

/-- The end of a session throws out its own requests and no other. The others keep their
order: the first of them are dispatched in their turn and the rest wait on. -/
theorem handle_departs (hw : Queued w) (hends : j.ends = true) : ∃ done,
    w.pending.filter (fun p => p.id ≠ j.session) =
      done ++ (Worker.memory (w.handle j)).pending ∧
    (Worker.memory (w.handle j)).served = w.served ++ done ∧
    (Worker.memory (w.handle j)).thrownOut = w.thrownOut ++ ofSession w j.session := by
  obtain ⟨v, hhandle, hlabels, hholder, hpending⟩ := ends_handle (w := w) hends
  have hqueued : Queued v := (queued_dropSession hw j.session).unseen hlabels hholder hpending
  obtain ⟨done, hdone⟩ := pump_advanced hqueued
  rw [hhandle]
  refine ⟨done, ?_, ?_, ?_⟩
  · rw [← hdone.pending, hpending, Worker.dropSession_pending]
  · rw [hdone.served, Worker.served, hlabels, labels_dropSession, List.filterMap_append]
    exact congrArg (· ++ done) (List.append_nil _)
  · rw [hdone.thrownOut, Worker.thrownOut, hlabels]
    exact thrownOut_dropSession w j.session

theorem thrownOut_enters (henter : Enters w j w') (hends : j.ends = false) :
    w'.thrownOut = w.thrownOut := by
  cases henter with
  | openConn id reply => exact thrownOut_openSession w id reply
  | drop id reply => cases hends
  | close id reply => cases hends
  | queue p i _ _ _ => exact thrownOut_enqueue w p
  | pass p _ hreq _ h =>
    exact (thrownOut_served (dispatch_ok hreq h)).trans (thrownOut_dispatch w p false)

/-- A job throws out the requests of the session that it ends, and no others. -/
theorem thrownOut_handle (hw : Queued w) (hrest : AtRest w) (j : Job) :
    (Worker.memory (w.handle j)).thrownOut =
      w.thrownOut ++ if j.ends then ofSession w j.session else [] := by
  cases hends : j.ends with
  | true =>
    obtain ⟨_, _, _, hgone⟩ := handle_departs hw hends
    rw [if_pos rfl]
    exact hgone
  | false =>
    rw [if_neg Bool.false_ne_true, List.append_nil]
    have hpumped : ∀ v, Enters w j v → (Worker.memory v.pump).thrownOut = w.thrownOut := by
      intro v henter
      obtain ⟨done, hdone⟩ := pump_advanced (queued_enters hw hrest henter)
      exact hdone.thrownOut.trans (thrownOut_enters henter hends)
    cases hhandle : w.handle j with
    | ok w' =>
      obtain ⟨v, henter, hpump⟩ := handle_ok hhandle
      have hgone := hpumped v henter
      rwa [hpump] at hgone
    | error w' =>
      rcases handle_error hhandle with ⟨v, henter, hpump⟩ | ⟨p, rfl, _, _, hdispatch⟩
      · have hgone := hpumped v henter
        rwa [hpump] at hgone
      · change w'.thrownOut = w.thrownOut
        rw [Worker.thrownOut, Worker.labels, (dispatch_error hdispatch).log]
        exact thrownOut_dispatch w p false

end Departures

/-- First come, first served, in every run of the worker. -/
theorem arrival_order (f : S.File) (jobs : List Job) (hreplies : (jobs.map Job.reply).Nodup)
    (w : Worker S) (hw : Worker.memory ((Worker.new f).workerLoop jobs) = w) :
    (∀ p q, [p, q].Sublist w.queued → p ∈ w.served → q ∈ w.served →
      [p, q].Sublist w.served ∧ ¬ [q, p].Sublist w.served) ∧
    (∀ before p after v q past a rest, jobs = before ++ .req p.id p.req p.reply :: after →
      p.req.isClose = false → (Worker.new f).workerLoop before = .ok v → q ∈ v.pending →
      w.labels = past ++ a :: rest → a.served = some p → q ∉ past.filterMap Label.served →
      q ∉ past.flatMap Label.gone → v.holder = some p.id) ∧
    (∀ (v : Worker S) (id : SessionId),
      (v.dropSession id).pending = v.pending.filter (fun p => p.id ≠ id)) ∧
    (∀ before j after v v', jobs = before ++ j :: after → j.ends = true →
      (Worker.new f).workerLoop before = .ok v → Worker.memory (v.handle j) = v' →
      ∃ done, v.pending.filter (fun p => p.id ≠ j.session) = done ++ v'.pending ∧
        v'.served = v.served ++ done ∧
        v'.thrownOut = v.thrownOut ++ v.pending.filter (fun p => p.id = j.session)) := by
  subst hw
  have hqueued := (new_history f jobs).1
  have hnd := arrived_nodup f hreplies
  have hserved : (Worker.memory ((Worker.new f).workerLoop jobs)).served.Nodup := by
    have hperm := arrived_perm hqueued.turnstile
    have hall : ((Worker.memory ((Worker.new f).workerLoop jobs)).served ++ _ ++ _).Nodup :=
      hperm.nodup hnd
    exact hall.of_append_left.of_append_left
  refine ⟨?_, ?_, Worker.dropSession_pending, ?_⟩
  · intro p q hpq hp hq
    have horder := served_in_order hqueued hnd hpq hp hq
    exact ⟨horder, not_pair_swap hserved horder⟩
  · intro before p after v q past a rest hjobs hreq hbefore hq hsplit ha hdone hgone
    subst hjobs
    exact holder_of_overtaking f hreplies hreq hbefore hq hsplit ha hdone hgone
  · intro before j after v v' _ hends hbefore hv'
    subst hv'
    exact handle_departs (queued_before hbefore).1 hends

/-- Two sessions wait for the transaction of a third, which goes. -/
def turns : List Job :=
  [.openConn 1 0, .openConn 2 1, .openConn 3 2, .req 1 (.exec "BEGIN" []) 3,
    .req 2 (.exec SmallSqlite.insertSql []) 4, .req 3 (.exec SmallSqlite.insertSql []) 5, .drop 1 6]

def firstTurn : Pending := ⟨2, .exec SmallSqlite.insertSql [], 4⟩

def secondTurn : Pending := ⟨3, .exec SmallSqlite.insertSql [], 5⟩

theorem turns_in_order : ∃ w : Worker SmallSqlite.engine,
    Worker.memory ((Worker.new SmallSqlite.newFile).workerLoop turns) = w ∧
    [firstTurn, secondTurn].Sublist w.queued ∧ [firstTurn, secondTurn].Sublist w.served ∧
    ¬ [secondTurn, firstTurn].Sublist w.served := by
  obtain ⟨horder, _⟩ :=
    arrival_order (S := SmallSqlite.engine) SmallSqlite.newFile turns (by decide) _ rfl
  have hqueued : [firstTurn, secondTurn].Sublist (Worker.memory
      ((Worker.new (S := SmallSqlite.engine) SmallSqlite.newFile).workerLoop turns)).queued := by
    decide +kernel
  exact ⟨_, rfl, hqueued,
    horder firstTurn secondTurn hqueued (by decide +kernel) (by decide +kernel)⟩

end SqliteBroker.ArrivalOrder
