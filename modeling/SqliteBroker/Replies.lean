import SqliteBroker.Exchanges

/-!
Every request is answered exactly once, in every run whose statements fit the event
line. A statement that does not fit stops the worker after it has run: its request
is dispatched and never answered.
-/
namespace SqliteBroker.Replies

open Messages Engine Execution Frames BrokerWorker Turnstile WorkerLog Runs ArrivalOrder
  Isolation Accounting Sessions Threads Discipline Panics Exchanges

variable {S : Sqlite} {J : SerdeJson} {w w' : Worker S} {j : Job} {s s' : Broker S}

def JobFits (j : Job) : Prop := ∀ p, j.request = some p → Fits (sqlOf p.req)

def QueueFits (w : Worker S) : Prop := ∀ p ∈ w.pending, Fits (sqlOf p.req)

/-- What a request on the wire must satisfy. -/
def ReadFits : Action → Prop
  | .readReq _ (some req) => Fits (sqlOf req)
  | _ => True

/-- The worker does not panic on statements that fit. -/
theorem handle_fits (hw : Queued w) (hrest : AtRest w) (hqueue : QueueFits w)
    (hj : JobFits j) : ∃ w', w.handle j = .ok w' ∧ QueueFits w' := by
  have hstop : ∀ {v : Worker S} {p w'}, Fits (sqlOf p.req) → ¬ v.dispatch p = .error w' := by
    intro v p w' hfits hpanic
    obtain ⟨brief, hbrief⟩ := sqlBrief_of_fits hfits
    rw [(dispatch_error hpanic).panics] at hbrief
    cases hbrief
  have hentered : ∀ {v}, Enters w j v → QueueFits v := by
    intro v henter p hp
    rcases List.mem_append.mp ((enters_pending henter).1.subset hp) with hold | hnew
    · exact hqueue p hold
    · exact hj p (Option.mem_toList.mp hnew)
  cases h : w.handle j with
  | ok w' =>
    refine ⟨w', rfl, ?_⟩
    intro p hp
    rcases List.mem_append.mp ((handle_pending hw hrest h).1.subset hp) with hold | hnew
    · exact hqueue p hold
    · exact hj p (Option.mem_toList.mp hnew)
  | error w' =>
    exfalso
    rcases handle_error h with ⟨v, henter, hpump⟩ | ⟨p, rfl, hreq, _, hpanic⟩
    · obtain ⟨u, p, rest, hu, _, hpending, hpanic⟩ := pump_error
        (P := fun u => Queued u ∧ QueueFits u)
        (fun u p rest u' hu hnone hpending hdispatch => by
          have hreq := hu.1.head hpending
          refine ⟨queued_next hu.1 hnone hpending hdispatch, ?_⟩
          intro q hq
          rw [(dispatch_ok hreq hdispatch).pending] at hq
          exact hu.2 q (by rw [hpending]; exact List.mem_cons_of_mem p hq))
        ⟨queued_enters hw hrest henter, hentered henter⟩ hpump
      exact hstop (hu.2 p (by rw [hpending]; exact List.mem_cons_self ..)) hpanic
    · exact hstop (hj p (request_of_pending hreq)) hpanic

/-- A living broker with fitting statements only. -/
structure Fitting (s : Broker S) : Prop where
  alive : s.alive = true
  disciplined : Disciplined s
  jobs : ∀ j ∈ s.jobs, JobFits j
  queue : QueueFits s.worker

theorem fitting_init (f : S.File) : Fitting (Broker.init f) where
  alive := rfl
  disciplined := disciplined_init f
  jobs := by simp [Broker.init]
  queue := by simp [QueueFits, Broker.init, Worker.new]

/-- While all statements fit, no step stops the worker. -/
theorem step_fitting {a : Action} (hs : Fitting s) (hfits : ReadFits a)
    (h : Broker.step J s a = some s') : Fitting s' := by
  have hqueued := hs.disciplined.sound.isolated.queued
  rcases actor_cases s a with rfl | ⟨id, hid⟩
  · obtain ⟨_, j, rest, hjobs, hwork⟩ := step_work h
    have hj : JobFits j := hs.jobs j (by rw [hjobs]; exact List.mem_cons_self ..)
    obtain ⟨w', hhandle, hqueue⟩ :=
      handle_fits hqueued hs.disciplined.sound.rest hs.queue hj
    rcases hwork with ⟨w, hw, rfl⟩ | ⟨w, hw, rfl⟩
    · rw [hhandle] at hw
      cases hw
      refine ⟨hs.alive, step_disciplined hs.disciplined hs.alive h hs.alive, ?_, hqueue⟩
      intro k hk
      exact hs.jobs k (by rw [hjobs]; exact List.mem_cons_of_mem j hk)
    · rw [hhandle] at hw
      cases hw
  · have hstep := step_client h hid
    have halive : s'.alive = true := hstep.alive.trans hs.alive
    refine ⟨halive, step_disciplined hs.disciplined hs.alive h halive, ?_, ?_⟩
    · rcases hstep.jobs with hsame | ⟨j, hadded, hsends⟩
      · rw [hsame]
        exact hs.jobs
      · intro k hk
        rw [hadded] at hk
        rcases List.mem_append.mp hk with hold | hnew
        · exact hs.jobs k hold
        · rw [List.mem_singleton.mp hnew]
          intro p hp
          rw [hsends p hp] at hfits
          exact hfits
    · unfold QueueFits
      rw [hstep.worker]
      exact hs.queue

theorem closed_once {handled : List Job} (hw : Accounts handled [] w) (hqueued : Queued w)
    (harrived : w.arrived = handled.filterMap Job.request)
    (hreplies : (handled.map Job.reply).Nodup) {id : SessionId} {ch : Chan}
    (h : Job.req id .close ch ∈ handled) : w.repliesOn ch = [okClosed] := by
  have hclose : ch ∈ handled.filterMap Job.closeReply := List.mem_filterMap.mpr ⟨_, h, rfl⟩
  have hmem : okClosed ∈ w.repliesOn ch :=
    List.mem_map.mpr ⟨_, List.mem_filter.mpr ⟨hw.closed ch hclose, by simp⟩, rfl⟩
  have hnd := channels_nodup hreplies
  have hsub : ((w.served ++ w.thrownOut).map Pending.reply).Sublist
      (((w.served ++ w.thrownOut) ++ w.pending).map Pending.reply) :=
    (List.sublist_append_left _ _).map _
  have hperm := (arrived_fates hqueued).map Pending.reply
  rw [harrived] at hperm
  have hone : ((w.served ++ w.thrownOut).map Pending.reply ++
      handled.filterMap Job.closeReply).count ch ≤ 1 := by
    refine List.nodup_iff_count_le_one.mp ?_ ch
    exact (((hperm.append_right _).nodup hnd)).sublist (hsub.append (List.Sublist.refl _))
  have hlen : (w.repliesOn ch).length ≤ 1 := by
    rw [length_repliesOn]
    have hcount := hw.responses.count_eq ch
    simp only [List.map_nil, List.append_nil] at hcount
    omega
  cases hreplies : w.repliesOn ch with
  | nil =>
    rw [hreplies] at hmem
    cases hmem
  | cons resp more =>
    rw [hreplies] at hmem hlen
    have hmore : more = [] := List.eq_nil_of_length_eq_zero (by simpa using hlen)
    subst hmore
    rw [List.mem_singleton.mp hmem]

theorem dropped_once {handled : List Job} (hw : Accounts handled [] w)
    (hreplies : (handled.map Job.reply).Nodup) {id : SessionId} {ch : Chan}
    (h : Job.drop id ch ∈ handled) : w.drops.count ch = 1 := by
  rw [hw.drops]
  have hsub : ∀ handled : List Job,
      (handled.filterMap Job.dropReply).Sublist (handled.map Job.reply) := by
    intro handled
    induction handled with
    | nil => exact .slnil
    | cons j rest ih =>
      cases j with
      | drop id reply => exact ih.cons_cons _
      | openConn id reply => exact ih.cons _
      | req id r reply => exact ih.cons _
  exact List.count_eq_one_of_mem (hreplies.sublist (hsub handled))
    (List.mem_filterMap.mpr ⟨_, h, rfl⟩)

/-- What becomes of the jobs that the worker has taken. -/
structure AllAnswered (s : Broker S) : Prop where
  requests : ∀ p ∈ s.handled.filterMap Job.request,
    s.worker.Waiting p ∨ s.worker.Answered p ∨ s.worker.Discarded p
  closes : ∀ id ch, Job.req id .close ch ∈ s.handled → s.worker.repliesOn ch = [okClosed]
  drops : ∀ id ch, Job.drop id ch ∈ s.handled → s.worker.drops.count ch = 1
  found : ∀ d ∈ s.worker.dispatches, (d.sessions d.request.id).isSome = true

/-- In every run whose statements all fit the event line, the worker lives, every request
waits, has its one reply or is thrown out with one, every close and drop has its reply,
and every dispatched request has found its session. -/
theorem every_request_answered {f : S.File} {acts : List Action} (h : Run J f acts s)
    (hfits : ∀ a ∈ acts, ReadFits a) : s.alive = true ∧ AllAnswered s := by
  have hs : Fitting s := by
    refine (h.restrict (p := fun _ a => ReadFits a) (fun a ha _ => hfits a ha)).invariant ?_
      (fitting_init f)
    intro _ _ _ hs hstep
    exact step_fitting hs hstep.1 hstep.2
  have hsound := hs.disciplined.sound
  have hreplies : (s.handled.map Job.reply).Nodup := by
    have hall := hs.disciplined.channels
    rw [List.map_append] at hall
    exact hall.of_append_left
  refine ⟨hs.alive, ?_, ?_, ?_, hsound.orderly.found⟩
  · intro p hp
    exact request_fate hsound.isolated.queued hsound.arrived hsound.accounts hreplies hp
  · intro id ch hclose
    exact closed_once hsound.accounts hsound.isolated.queued hsound.arrived hreplies hclose
  · intro id ch hdrop
    exact dropped_once hsound.accounts hreplies hdrop

theorem begin_answered : ∃ s : Broker SmallSqlite.engine,
    Run (S := SmallSqlite.engine) begunJson SmallSqlite.newFile
      (connecting ++ exchange 1 (.exec "BEGIN" [])) s ∧ s.alive = true ∧ AllAnswered s := by
  obtain ⟨s, hrun, _⟩ := run_begun SmallSqlite.newFile
  refine ⟨s, hrun, every_request_answered hrun ?_⟩
  simp [connecting, exchange, ReadFits, ← sqlBrief_isSome_iff]
  decide

/-- A request that neither waits nor has a reply. -/
theorem not_allAnswered {p : Pending} (hp : p ∈ s.handled.filterMap Job.request)
    (hpending : p ∉ s.worker.pending) (hnone : s.worker.repliesOn p.reply = []) :
    ¬ AllAnswered s := by
  intro hall
  rcases hall.requests p hp with ⟨hone, _⟩ | ⟨_, _, _, resp, hresp⟩ | ⟨_, _, _, hresp⟩
  · rw [List.count_eq_zero_of_not_mem hpending] at hone
    cases hone
  · rw [hnone] at hresp
    cases hresp
  · rw [hnone] at hresp
    cases hresp

/-- The comment that stops the worker gets no reply. -/
theorem comment_unanswered : ∃ s : Broker SmallSqlite.engine,
    Run (S := SmallSqlite.engine) (talk [] []) SmallSqlite.newFile
      (connecting ++ [.readReq 1 (some (.exec longComment [])), .work]) s ∧ ¬ AllAnswered s := by
  have hopen : openStorage SmallSqlite.engine SmallSqlite.newFile =
      (.ok SmallSqlite.newConn, SmallSqlite.newFile) := rfl
  have hidle := greeted_idle (framed helloText) hopen
  obtain ⟨s, hwork, _, hhandled, hpending, hresponses, _⟩ :=
    run_stopped (J := talk [] []) hidle (.exec longComment []) rfl longComment_panics
  have hrun := (run_greeted hopen (talk_hello [] [])).append
    (.cons (step_read hidle _) (.single hwork))
  have hnone : s.worker.repliesOn 1 = [] := by
    rw [Worker.repliesOn, hresponses]
    rfl
  refine ⟨s, hrun, not_allAnswered (p := ⟨1, .exec longComment [], 1⟩) ?_ ?_ hnone⟩
  · rw [hhandled, List.filterMap_append]
    exact List.mem_append_right _ (List.mem_singleton.mpr rfl)
  · rw [hpending]
    exact List.not_mem_nil

end SqliteBroker.Replies
