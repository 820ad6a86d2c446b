import SqliteBroker.Exchanges

/-!
The worker never idles over a free transaction. Between two jobs the queue is empty
unless somebody else holds the transaction, the holder's own requests are never
queued, and when the holder goes the queue is resumed up to the first request that
takes the transaction again.
-/
namespace SqliteBroker.WorkConserving

open Messages Engine Execution Frames BrokerWorker Turnstile WorkerLog Runs ArrivalOrder
  Isolation Accounting Sessions Threads Discipline Exchanges

variable {S : Sqlite} {J : SerdeJson} {w w' : Worker S} {p : Pending} {j : Job} {s : Broker S}

section Growth

theorem pump_grows (hw : Queued w) : w.log <+: (Worker.memory w.pump).log := by
  have hnext : ∀ v p rest v', (Queued v ∧ w.log <+: v.log) → v.holder = none →
      v.pending = p :: rest → (resume v p rest).dispatch p = .ok v' →
      Queued v' ∧ w.log <+: v'.log := by
    intro v p rest v' hv hnone hpending h
    have hreq := hv.1.head hpending
    exact ⟨queued_next hv.1 hnone hpending h,
      (hv.2.trans (List.prefix_append _ _)).trans (dispatch_ok hreq h).grows⟩
  cases h : w.pump with
  | ok w' => exact (pump_rule hnext ⟨hw, List.prefix_rfl⟩ h).1.2
  | error w' =>
    obtain ⟨v, p, rest, hv, _, _, hstop⟩ := pump_error hnext ⟨hw, List.prefix_rfl⟩ h
    change w.log <+: w'.log
    rw [(dispatch_error hstop).log]
    exact hv.2.trans (List.prefix_append _ _)

theorem dispatches_of_grows (h : w.log <+: w'.log) :
    ∃ more, w'.dispatches = w.dispatches ++ more := by
  obtain ⟨more, hmore⟩ := h
  exact ⟨more.filterMap Mark.dispatch, by rw [Worker.dispatches, Worker.dispatches, ← hmore,
    List.filterMap_append]⟩

/-- A request that finds no other holder is dispatched at once. -/
theorem handle_passes (hw : Queued w) (hrest : AtRest w) (hreq : p.req.isClose = false)
    (hfree : w.holder = none ∨ w.holder = some p.id) :
    ∃ more, (Worker.memory (w.handle (.req p.id p.req p.reply))).dispatches =
      w.dispatches ++ ⟨p, w.file, w.sessions⟩ :: more := by
  have hheld := heldByOther_of_free hfree
  have hgrows : (w.noteDispatch p false).log <+:
      (Worker.memory (w.handle (.req p.id p.req p.reply))).log := by
    rw [handle_request w p hreq, if_neg (by simp [hheld])]
    cases hdispatch : (w.noteDispatch p false).dispatch p with
    | error w' =>
      change _ <+: w'.log
      exact ⟨[], by rw [List.append_nil, (dispatch_error hdispatch).log]⟩
    | ok w' =>
      have hserved := dispatch_ok hreq hdispatch
      have hqueued := queued_served (queued_pass hw hrest hfree) hfree hserved
      exact hserved.grows.trans (pump_grows hqueued)
  obtain ⟨more, hmore⟩ := dispatches_of_grows hgrows
  refine ⟨more, ?_⟩
  rw [hmore, dispatches_noteDispatch, List.append_assoc]
  rfl

end Growth

/-- In every reachable state: nobody waits for a free transaction, the sessions that wait
are open, distinct and not the holder, and a request of the holder is never queued. -/
theorem work_conserving {f : S.File} {acts : List Action} (h : Run J f acts s)
    (halive : s.alive = true) :
    (s.worker.holder = none → s.worker.pending = []) ∧
      (s.worker.pending.map Pending.id).Nodup ∧
      (∀ p ∈ s.worker.pending, s.worker.present p.id = true ∧ s.worker.holder ≠ some p.id) ∧
      ∀ p rest, s.jobs = .req p.id p.req p.reply :: rest → p.req.isClose = false →
        s.worker.holder = some p.id →
        ∃ more, (Worker.memory (s.worker.handle (.req p.id p.req p.reply))).dispatches =
          s.worker.dispatches ++ ⟨p, s.worker.file, s.worker.sessions⟩ :: more := by
  have hs := run_disciplined h halive
  refine ⟨hs.sound.rest, hs.sound.orderly.distinct, ?_, ?_⟩
  · intro p hp
    obtain ⟨hheld, hpresent⟩ := hs.sound.orderly.waits p hp
    exact ⟨hpresent, hheld⟩
  · intro p rest _ hreq hown
    exact handle_passes hs.sound.isolated.queued hs.sound.rest hreq (Or.inr hown)

/-- The holder's next statement, on its way while nobody else holds the transaction. -/
theorem holder_passes : ∃ s : Broker SmallSqlite.engine,
    Run (S := SmallSqlite.engine) begunJson SmallSqlite.newFile
      (connecting ++ exchange 1 (.exec "BEGIN" []) ++
        [.readReq 1 (some (.exec SmallSqlite.insertSql []))]) s ∧
    s.worker.holder = some 1 ∧ (s.worker.pending.map Pending.id).Nodup ∧ ∃ ch more,
      (Worker.memory (s.worker.handle (.req 1 (.exec SmallSqlite.insertSql []) ch))).dispatches =
        s.worker.dispatches ++
          ⟨⟨1, .exec SmallSqlite.insertSql [], ch⟩, s.worker.file, s.worker.sessions⟩ :: more := by
  obtain ⟨s, hrun, hidle, hheld, _⟩ := run_begun SmallSqlite.newFile
  have hsent := forward_eq 1 (.exec SmallSqlite.insertSql []) hidle.alive hidle.jobs rfl
  have hrun' := hrun.snoc (step_read hidle (.exec SmallSqlite.insertSql []))
  have hworker : (s.forward 1 (.exec SmallSqlite.insertSql [])).worker = s.worker := by rw [hsent]
  have halive : (s.forward 1 (.exec SmallSqlite.insertSql [])).alive = true := by
    rw [hsent]
    exact hidle.alive
  obtain ⟨_, hnodup, _, hpass⟩ := work_conserving hrun' halive
  refine ⟨_, hrun', by rw [hworker]; exact hheld, hnodup, s.nextChan, ?_⟩
  exact hpass ⟨1, .exec SmallSqlite.insertSql [], s.nextChan⟩ [] (by rw [hsent]) rfl
    (by rw [hworker]; exact hheld)

section Release

/-- The pump dispatches waiting requests in order, each at a free transaction, and stops
after the first that takes it. -/
structure Resumed (w : Worker S) (done : List Pending) (w' : Worker S) : Prop where
  pending : w.pending = done ++ w'.pending
  dispatches : ∃ new : List (Dispatch S), w'.dispatches = w.dispatches ++ new ∧
    new.map Dispatch.request = done ∧ ∀ d ∈ new, ∀ i, ¬ InTransaction d.sessions i
  holder : ∀ i, w'.holder = some i →
    w.holder = some i ∨ ∃ p, done.getLast? = some p ∧ p.id = i

theorem resumed_next {v v' : Worker S} {done rest : List Pending} (hw : Resumed w done v)
    (hv : Isolated v) (hnone : v.holder = none) (hpending : v.pending = p :: rest)
    (h : (resume v p rest).dispatch p = .ok v') : Resumed w (done ++ [p]) v' := by
  have hreq := hv.queued.head hpending
  have hserved := dispatch_ok hreq h
  obtain ⟨new, hnew, hmap, hfree⟩ := hw.dispatches
  have hdispatches : (resume v p rest).dispatches = v.dispatches ++ [⟨p, v.file, v.sessions⟩] :=
    dispatches_noteDispatch { v with pending := rest } p true
  refine ⟨?_, ⟨new ++ [⟨p, v.file, v.sessions⟩], ?_, ?_, ?_⟩, ?_⟩
  · rw [hw.pending, hserved.pending, hpending, List.append_assoc]
    rfl
  · rw [hserved.dispatches, hdispatches, hnew, List.append_assoc]
  · rw [List.map_append, hmap]
    rfl
  · intro d hd i hi
    rcases List.mem_append.mp hd with hold | hlast
    · exact hfree d hold i hi
    · rw [List.mem_singleton.mp hlast] at hi
      rw [(hv.exclusive i).mpr hi] at hnone
      cases hnone
  · intro i hi
    refine Or.inr ⟨p, by simp, ?_⟩
    rw [hserved.holder] at hi
    have hresume : (resume v p rest).holder = none := hnone
    rw [hresume] at hi
    cases hexec : isExec p.req <;> cases hkeep : (resume v p rest).keeps p <;>
      simp_all [settled]

theorem pump_resumed (hw : Isolated w) (h : w.pump = .ok w') :
    (∃ done, Resumed w done w') ∧ AtRest w' := by
  have hrule := pump_rule (P := fun v => Isolated v ∧ ∃ done, Resumed w done v)
    (fun v p rest v' hv hnone hpending hdispatch => by
      obtain ⟨hisolated, done, hdone⟩ := hv
      exact ⟨isolated_next hisolated hnone hpending hdispatch, done ++ [p],
        resumed_next hdone hisolated hnone hpending hdispatch⟩)
    ⟨hw, [], rfl, ⟨[], by simp, rfl, by simp⟩, fun _ hi => Or.inl hi⟩ h
  exact ⟨hrule.1.2, hrule.2⟩

/-- The queue after the holder's session ends. -/
theorem handle_releases (hw : Isolated w) (hrest : AtRest w) (hends : j.ends = true)
    (hheld : w.holder = some j.session) (h : w.handle j = .ok w') :
    ∃ done new, w.pending.filter (fun p => p.id ≠ j.session) = done ++ w'.pending ∧
      w'.dispatches = w.dispatches ++ new ∧ new.map Dispatch.request = done ∧
      (∀ d ∈ new, ∀ i, ¬ InTransaction d.sessions i) ∧
      (w'.holder = none → w'.pending = []) ∧
      ∀ i, w'.holder = some i → ∃ p, done.getLast? = some p ∧ p.id = i := by
  obtain ⟨v, hv, hpump, hpending, hholder, hdispatches⟩ : ∃ v, Isolated v ∧ v.pump = .ok w' ∧
      v.pending = w.pending.filter (fun p => p.id ≠ j.session) ∧ v.holder = none ∧
      v.dispatches = w.dispatches := by
    obtain ⟨v, henter, hpump⟩ := handle_ok h
    have hfresh : Fresh w j := by
      cases j with
      | openConn id reply => cases hends
      | req id r reply => trivial
      | drop id reply => trivial
    refine ⟨v, isolated_enters hw hrest hfresh henter, hpump, ?_⟩
    have hdropped : ∀ id, w.holder = some id → (w.dropSession id).holder = none := by
      intro id hid
      rw [Worker.dropSession_holder, if_pos hid]
    cases henter with
    | openConn id reply => cases hends
    | drop id reply =>
      refine ⟨Worker.dropSession_pending w id, hdropped id hheld, ?_⟩
      rw [dispatches_note, dispatches_dropSession]
      exact List.append_nil _
    | close id reply =>
      refine ⟨Worker.dropSession_pending w id, hdropped id hheld, ?_⟩
      rw [dispatches_note, dispatches_dropSession]
      exact List.append_nil _
    | queue p i hreq _ _ => simp [Job.ends, hreq] at hends
    | pass p _ hreq _ _ => simp [Job.ends, hreq] at hends
  obtain ⟨⟨done, hdone⟩, hidle⟩ := pump_resumed hv hpump
  obtain ⟨new, hnew, hmap, hfree⟩ := hdone.dispatches
  refine ⟨done, new, by rw [← hpending, hdone.pending], by rw [hnew, hdispatches], hmap, hfree,
    hidle, ?_⟩
  intro i hi
  rcases hdone.holder i hi with hold | hlast
  · rw [hholder] at hold
    cases hold
  · exact hlast

end Release

/-- A client that is gone has left nothing with the worker, and when a holder goes the
queue is resumed up to the first request that takes the transaction. -/
theorem gone_client_releases {f : S.File} {acts : List Action} (h : Run J f acts s)
    (halive : s.alive = true) :
    (∀ id, (s.clients id).pc = .returned → s.worker.sessions id = none ∧
      s.worker.holder ≠ some id ∧ ∀ p ∈ s.worker.pending, p.id ≠ id) ∧
    ∀ j rest w', s.jobs = j :: rest → j.ends = true → s.worker.holder = some j.session →
      s.worker.handle j = .ok w' →
      ∃ done new, s.worker.pending.filter (fun p => p.id ≠ j.session) = done ++ w'.pending ∧
        w'.dispatches = s.worker.dispatches ++ new ∧ new.map Dispatch.request = done ∧
        (∀ d ∈ new, ∀ i, ¬ InTransaction d.sessions i) ∧
        (w'.holder = none → w'.pending = []) ∧
        ∀ i, w'.holder = some i → ∃ p, done.getLast? = some p ∧ p.id = i := by
  have hs := run_disciplined h halive
  refine ⟨?_, ?_⟩
  · intro id hpc
    have hexpected := hs.expected id
    rw [hpc] at hexpected
    obtain ⟨hmine, hpresent⟩ := hexpected
    have hnone : s.worker.sessions id = none :=
      Option.not_isSome_iff_eq_none.mp (by rw [Worker.present] at hpresent; simp [hpresent])
    refine ⟨hnone, ?_, ?_⟩
    · intro hheld
      obtain ⟨conn, hconn, _⟩ := (hs.sound.isolated.exclusive id).mp hheld
      rw [hnone] at hconn
      cases hconn
    · intro p hp hpid
      have hmem : p ∈ ofSession s.worker id := List.mem_filter.mpr ⟨hp, by simp [hpid]⟩
      have hnil := (List.append_eq_nil_iff.mp hmine).1
      rw [List.map_eq_nil_iff.mp hnil] at hmem
      cases hmem
  · intro j rest w' _ hends hheld hhandle
    exact handle_releases hs.sound.isolated hs.sound.rest hends hheld hhandle

/-- A client that goes in the middle of its transaction. -/
theorem gone_holder : ∃ s : Broker SmallSqlite.engine,
    Run (S := SmallSqlite.engine) begunJson SmallSqlite.newFile
      (connecting ++ exchange 1 (.exec "BEGIN" []) ++
        [.readReq 1 none, .work, .recvDrop 1]) s ∧
    (s.clients 1).pc = .returned ∧ s.worker.sessions 1 = none ∧ s.worker.holder ≠ some 1 ∧
    ∀ p ∈ s.worker.pending, p.id ≠ 1 := by
  obtain ⟨s, hrun, hidle, _, _⟩ := run_begun SmallSqlite.newFile
  have hfail : Broker.step begunJson s (.readReq 1 none) = some (s.dropRemote 1) := by
    simp only [Broker.step, hidle.reading]
  obtain ⟨s', hdrop, halive, _, hclient⟩ :=
    run_dropped (J := begunJson) 1 hidle.alive hidle.jobs hidle.pending
  have hrun' := hrun.append (.cons hfail hdrop)
  have hpc : (s'.clients 1).pc = .returned := by rw [hclient]
  exact ⟨s', hrun', hpc, (gone_client_releases hrun' halive).1 1 hpc⟩

end SqliteBroker.WorkConserving
