import SqliteBroker.ArrivalOrder

/-!
Transaction isolation. The holder is the one session whose connection is not in
autocommit mode, and every request that is dispatched finds all other connections
without a transaction. Session numbers are never reused, so an open finds its
number free.
-/
namespace SqliteBroker.Isolation

open Messages Engine Execution BrokerWorker Turnstile WorkerLog Runs ArrivalOrder

variable {S : Sqlite} {w w' : Worker S} {p : Pending} {j : Job}

def InTransaction (sessions : SessionId → Option S.Conn) (i : SessionId) : Prop :=
  ∃ conn, sessions i = some conn ∧ S.isAutocommit conn = false

theorem inTransaction_congr {sessions sessions' : SessionId → Option S.Conn} {i : SessionId}
    (h : (sessions' i).map S.isAutocommit = (sessions i).map S.isAutocommit) :
    InTransaction sessions' i ↔ InTransaction sessions i := by
  have hmap : ∀ sessions : SessionId → Option S.Conn, InTransaction sessions i ↔
      (sessions i).map S.isAutocommit = some false := by
    intro sessions
    simp [InTransaction, Option.map_eq_some_iff]
  rw [hmap, hmap, h]

/-- The holder is the session inside a transaction. -/
def Exclusive (w : Worker S) : Prop :=
  ∀ i, w.holder = some i ↔ InTransaction w.sessions i

/-- Every request dispatched so far has found the other connections without a transaction. -/
def Alone (w : Worker S) : Prop :=
  ∀ d ∈ w.dispatches, ∀ i, InTransaction d.sessions i → i = d.request.id

theorem Exclusive.unseen (hw : Exclusive w) (hholder : w'.holder = w.holder)
    (hsessions : w'.sessions = w.sessions) : Exclusive w' := by
  unfold Exclusive
  rw [hholder, hsessions]
  exact hw

theorem Alone.unseen (hw : Alone w) (h : w'.dispatches = w.dispatches) : Alone w' := by
  unfold Alone
  rw [h]
  exact hw

theorem alone_dispatch (hex : Exclusive w) (hw : Alone w)
    (hfree : w.holder = none ∨ w.holder = some p.id)
    (h : w'.dispatches = w.dispatches ++ [⟨p, w.file, w.sessions⟩]) : Alone w' := by
  intro d hd i hi
  rw [h] at hd
  rcases List.mem_append.mp hd with hold | hnew
  · exact hw d hold i hi
  · rw [List.mem_singleton.mp hnew] at hi ⊢
    have hheld : w.holder = some i := (hex i).mpr hi
    rcases hfree with hnone | hown
    · rw [hnone] at hheld
      cases hheld
    · rw [hown] at hheld
      exact (Option.some.inj hheld).symm

theorem alone_resume {rest : List Pending} (hex : Exclusive w) (hw : Alone w)
    (hnone : w.holder = none) : Alone (resume w p rest) :=
  alone_dispatch hex hw (Or.inl hnone)
    (dispatches_noteDispatch { w with pending := rest } p true)

theorem keeps_iff (hreq : p.req.isClose = false) :
    w.keeps p = true ↔ InTransaction (w.answer p).2.sessions p.id := by
  rw [Worker.keeps, (answer_autocommit hreq).1]
  cases h : (w.answer p).2.sessions p.id <;> simp [InTransaction, h]

/-- A dispatch settles the holder by the mode its own connection is left in. -/
theorem exclusive_served (hw : Exclusive w) (hreq : p.req.isClose = false)
    (hfree : w.holder = none ∨ w.holder = some p.id) (hserved : Served w p w') :
    Exclusive w' := by
  obtain ⟨hothers, _⟩ := answer_sessions (w := w) hreq
  intro i
  have hother : i ≠ p.id → (InTransaction w'.sessions i ↔ w.holder = some i) := by
    intro hi
    rw [hserved.sessions, hw i, inTransaction_congr (by rw [hothers i hi])]
  have hholder := hserved.holder
  by_cases hexec : isExec p.req = true
  · rw [if_pos hexec] at hholder
    have hkeeps := keeps_iff (w := w) hreq
    rw [← hserved.sessions] at hkeeps
    have hheld : w'.holder = if w.keeps p = true then some p.id else none := by
      rw [hholder, settled]
      rcases hfree with hnone | hown
      · simp [hnone]
      · simp [hown]
    by_cases hi : i = p.id
    · subst hi
      rw [← hkeeps, hheld]
      cases w.keeps p <;> simp
    · have hno : w.holder ≠ some i := by
        rcases hfree with hnone | hown
        · simp [hnone]
        · rw [hown]
          exact fun h => hi (Option.some.inj h).symm
      rw [hother hi, hheld]
      cases w.keeps p <;> simp [hno, Ne.symm hi]
  · rw [if_neg hexec] at hholder
    simp only [Bool.not_eq_true] at hexec
    rw [hholder]
    by_cases hi : i = p.id
    · subst hi
      rw [hw, hserved.sessions]
      exact (inTransaction_congr ((answer_autocommit hreq).2 hexec)).symm
    · exact (hother hi).symm

theorem exclusive_dropSession (hw : Exclusive w) (id : SessionId) :
    Exclusive (w.dropSession id) := by
  intro i
  rw [Worker.dropSession_holder, Worker.dropSession_sessions]
  by_cases hi : i = id
  · subst hi
    simp only [InTransaction, Function.update_self]
    by_cases hheld : w.holder = some i <;> simp [hheld]
  · have hsame : InTransaction (Function.update w.sessions id none) i ↔
        InTransaction w.sessions i := inTransaction_congr (by simp [hi])
    rw [hsame, ← hw i]
    by_cases hheld : w.holder = some id
    · simp [hheld, Ne.symm hi]
    · simp [hheld]

theorem exclusive_openSession {id : SessionId} {reply : Chan} (hw : Exclusive w)
    (hfresh : w.sessions id = none) : Exclusive (w.openSession id reply) := by
  rcases openSession_cases w id reply with ⟨conn, f, hconn, hopen⟩ | ⟨err, f, hopen⟩
  · rw [hopen]
    intro i
    change w.holder = some i ↔ InTransaction (Function.update w.sessions id (some conn)) i
    rw [hw i]
    by_cases hi : i = id
    · subst hi
      simp [InTransaction, hfresh, hconn]
    · exact (inTransaction_congr (by simp [hi])).symm
  · rw [hopen]
    exact hw.unseen rfl rfl

/-- What holds of the worker between two jobs, the queue aside. -/
structure Isolated (w : Worker S) : Prop where
  exclusive : Exclusive w
  alone : Alone w
  queued : Queued w

theorem isolated_new (f : S.File) : Isolated (Worker.new f) :=
  ⟨fun i => by simp [Worker.new, InTransaction], by simp [Alone, Worker.new, Worker.dispatches],
    queued_new f⟩

/-- A session opens only once. -/
def Fresh (w : Worker S) : Job → Prop
  | .openConn id _ => w.sessions id = none
  | _ => True

theorem isolated_enters (hw : Isolated w) (hrest : AtRest w) (hfresh : Fresh w j)
    (h : Enters w j w') : Isolated w' := by
  refine ⟨?_, ?_, queued_enters hw.queued hrest h⟩
  · cases h with
    | openConn id reply => exact exclusive_openSession hw.exclusive hfresh
    | drop id reply => exact (exclusive_dropSession hw.exclusive id).unseen rfl rfl
    | close id reply => exact (exclusive_dropSession hw.exclusive id).unseen rfl rfl
    | queue p i hreq hheld hne => exact hw.exclusive.unseen rfl rfl
    | pass p _ hreq hfree h =>
      have hpass : Exclusive (w.noteDispatch p false) := hw.exclusive.unseen rfl rfl
      exact exclusive_served hpass hreq hfree (dispatch_ok hreq h)
  · cases h with
    | openConn id reply => exact hw.alone.unseen (openSession_unmoved w id reply).dispatches
    | drop id reply =>
      exact hw.alone.unseen (by simp [dispatches_dropSession, Mark.dispatch])
    | close id reply =>
      exact hw.alone.unseen (by simp [dispatches_dropSession, Mark.dispatch])
    | queue p i hreq hheld hne =>
      exact hw.alone.unseen (by rw [enqueue, dispatches_note]; exact List.append_nil _)
    | pass p _ hreq hfree h =>
      exact (alone_dispatch hw.exclusive hw.alone hfree
        (dispatches_noteDispatch w p false)).unseen (dispatch_ok hreq h).dispatches

theorem isolated_next {rest : List Pending} (hw : Isolated w) (hnone : w.holder = none)
    (hpending : w.pending = p :: rest) (h : (resume w p rest).dispatch p = .ok w') :
    Isolated w' := by
  have hreq := hw.queued.head hpending
  have hserved := dispatch_ok hreq h
  have hresume : Exclusive (resume w p rest) := hw.exclusive.unseen rfl rfl
  refine ⟨?_, ?_, queued_next hw.queued hnone hpending h⟩
  · exact exclusive_served hresume hreq (Or.inl hnone) hserved
  · exact (alone_resume hw.exclusive hw.alone hnone).unseen hserved.dispatches

/-- One call of the worker keeps the transaction isolated. -/
theorem handle_isolated (hw : Isolated w) (hrest : AtRest w) (hfresh : Fresh w j)
    (h : w.handle j = .ok w') : Isolated w' ∧ AtRest w' := by
  obtain ⟨w₁, henter, hpump⟩ := handle_ok h
  exact pump_rule (fun _ _ _ _ hv hnone hpending => isolated_next hv hnone hpending)
    (isolated_enters hw hrest hfresh henter) hpump

/-- Also a call that panics has dispatched every request alone. -/
theorem handle_alone (hw : Isolated w) (hrest : AtRest w) (hfresh : Fresh w j)
    (h : w.handle j = .error w') : Alone w' := by
  have hstop : ∀ {v p}, Alone v → Stopped v p w' → Alone w' := fun hv hstop =>
    hv.unseen (by rw [Worker.dispatches, hstop.log, Worker.dispatches])
  rcases handle_error h with ⟨w₁, henter, hpump⟩ | ⟨p, rfl, hreq, hfree, hdispatch⟩
  · obtain ⟨v, p, rest, hv, hnone, _, hpanic⟩ :=
      pump_error (fun _ _ _ _ hv hnone hpending => isolated_next hv hnone hpending)
        (isolated_enters hw hrest hfresh henter) hpump
    exact hstop (alone_resume hv.exclusive hv.alone hnone) (dispatch_error hpanic)
  · exact hstop (alone_dispatch hw.exclusive hw.alone hfree
      (dispatches_noteDispatch w p false)) (dispatch_error hdispatch)

section Between

/-- The marks after which session `s` is out of its transaction. -/
def EndsTransaction (s : SessionId) : Mark S → Prop
  | .settled id autocommit => id = s ∧ autocommit = true
  | .removed id _ => id = s
  | _ => False

/-- While `s` is in its transaction, only requests of `s` are dispatched. -/
def Undisturbed (w : Worker S) : Prop :=
  ∀ s before between after m d, w.log = before ++ .settled s false :: (between ++ m :: after) →
    (∀ b ∈ between, ¬ EndsTransaction s b) → Mark.dispatch m = some d → d.request.id = s

theorem undisturbed (hw : Queued w) : Undisturbed w := by
  intro s before between after m d hlog hbetween hm
  cases m with
  | dispatched p resumed f sessions =>
    obtain rfl : (⟨p, f, sessions⟩ : Dispatch S) = d := by simpa [Mark.dispatch] using hm
    have hlabels : w.labels = before.filterMap Mark.label ++ .settle s true ::
        (between.filterMap Mark.label ++ (if resumed then .next p else .pass p) ::
          after.filterMap Mark.label) := by
      rw [Worker.labels, hlog]
      simp [Mark.label]
    have htrace := hw.turnstile
    rw [hlabels] at htrace
    refine served_between htrace ?_ (by cases resumed <;> rfl)
    intro a ha hrelease
    obtain ⟨b, hb, hlabel⟩ := List.mem_filterMap.mp ha
    apply hbetween b hb
    cases b with
    | settled id autocommit =>
      obtain rfl := Option.some.inj hlabel
      exact ⟨hrelease.1, by simpa using hrelease.2⟩
    | removed id gone =>
      obtain rfl := Option.some.inj hlabel
      exact hrelease
    | dispatched q again g conns =>
      obtain rfl := Option.some.inj hlabel
      cases again <;> exact hrelease
    | queued q =>
      obtain rfl := Option.some.inj hlabel
      exact hrelease
    | event line => cases hlabel
    | sentOpen reply opened => cases hlabel
    | sentResponse reply resp => cases hlabel
    | sentDrop reply => cases hlabel
  | _ => cases hm

end Between

section Runs

def presentAfter (w : Worker S) (i : SessionId) : Job → Bool
  | .openConn id _ => w.present i || (decide (i = id) && (openStorage S w.file).1.isOk)
  | .req id r _ => w.present i && (decide (i ≠ id) || !r.isClose)
  | .drop id _ => w.present i && decide (i ≠ id)

theorem present_enters (h : Enters w j w') (i : SessionId) : w'.present i = presentAfter w i j := by
  cases h with
  | openConn id reply => exact present_openSession id i reply
  | drop id reply => exact present_dropSession id i
  | close id reply =>
    have hdrop := present_dropSession (w := w) id i
    rw [Worker.present] at hdrop ⊢
    simpa [presentAfter, Request.isClose] using hdrop
  | queue p k hreq hheld hne => simp [presentAfter, hreq, Worker.present, enqueue]
  | pass p _ hreq hfree h =>
    rw [present_served hreq (dispatch_ok hreq h)]
    simp [presentAfter, hreq, Worker.present, Worker.noteDispatch]

/-- Which sessions are open after a call of the worker. -/
theorem handle_present (hw : Queued w) (hrest : AtRest w) (h : w.handle j = .ok w')
    (i : SessionId) : w'.present i = presentAfter w i j := by
  obtain ⟨w₁, henter, hpump⟩ := handle_ok h
  have hrule := pump_rule (P := fun v => Queued v ∧ v.present i = presentAfter w i j)
    (fun v p rest v' hv hnone hpending hdispatch => by
      have hreq := hv.1.head hpending
      refine ⟨queued_next hv.1 hnone hpending hdispatch, ?_⟩
      rw [present_served hreq (dispatch_ok hreq hdispatch), ← hv.2]
      rfl)
    ⟨queued_enters hw hrest henter, present_enters henter i⟩ hpump
  exact hrule.1.2

/-- The session a job opens. -/
def openedBy : Job → Option SessionId
  | .openConn id _ => some id
  | _ => none

theorem opened_of_present {i : SessionId} (h : presentAfter w i j = true) :
    w.present i = true ∨ openedBy j = some i := by
  cases j with
  | openConn id reply =>
    simp only [presentAfter, Bool.or_eq_true, Bool.and_eq_true, decide_eq_true_eq] at h
    rcases h with hold | ⟨rfl, _⟩
    · exact Or.inl hold
    · exact Or.inr rfl
  | req id r reply => exact Or.inl (Bool.and_eq_true_iff.mp h).1
  | drop id reply => exact Or.inl (Bool.and_eq_true_iff.mp h).1

theorem fresh_of_nodup {past : List Job}
    (hopen : ∀ i, w.present i = true → i ∈ past.filterMap openedBy)
    (hnd : ((past ++ [j]).filterMap openedBy).Nodup) : Fresh w j := by
  rw [List.filterMap_append] at hnd
  cases j with
  | openConn id reply =>
    have hnew : id ∉ past.filterMap openedBy := by
      intro hid
      exact (List.nodup_append.mp hnd).2.2 id hid id (by simp [openedBy]) rfl
    cases hsession : w.sessions id with
    | none => exact hsession
    | some conn => exact absurd (hopen id (by simp [Worker.present, hsession])) hnew
  | req id r reply => trivial
  | drop id reply => trivial

/-- When no session opens twice, the worker is isolated between all jobs. -/
theorem run_isolated {f : S.File} {jobs : List Job} (hfresh : (jobs.filterMap openedBy).Nodup)
    (h : (Worker.new f).workerLoop jobs = .ok w) : (Isolated w ∧ AtRest w) ∧
      ∀ i, w.present i = true → i ∈ jobs.filterMap openedBy := by
  have htrace := (foldlM_ok_iff Worker.handle jobs _ _).mp h
  have hhistory := htrace.history (m := [])
    (P := fun past v => (past.filterMap openedBy).Nodup → (Isolated v ∧ AtRest v) ∧
      ∀ i, v.present i = true → i ∈ past.filterMap openedBy) ?_ ?_
  · exact hhistory hfresh
  · intro past v j v' hv hstep hnd
    have hpast : (past.filterMap openedBy).Nodup := by
      rw [List.filterMap_append] at hnd
      exact hnd.of_append_left
    obtain ⟨⟨hisolated, hrest⟩, hopen⟩ := hv hpast
    have hj := fresh_of_nodup hopen hnd
    refine ⟨handle_isolated hisolated hrest hj hstep, ?_⟩
    intro i hi
    rw [handle_present hisolated.queued hrest hstep] at hi
    rw [List.filterMap_append]
    rcases opened_of_present hi with hold | hnew
    · exact List.mem_append_left _ (hopen i hold)
    · exact List.mem_append_right _ (by simp [hnew])
  · intro _
    exact ⟨⟨isolated_new f, fun _ => rfl⟩, by simp [Worker.present, Worker.new]⟩

/-- Also a run that panics has dispatched every request alone. -/
theorem run_alone {f : S.File} {jobs : List Job} (hfresh : (jobs.filterMap openedBy).Nodup) :
    Alone (Worker.memory ((Worker.new f).workerLoop jobs)) := by
  cases h : (Worker.new f).workerLoop jobs with
  | ok w => exact (run_isolated hfresh h).1.1.alone
  | error w =>
    obtain ⟨before, j, after, v, rfl, hbefore, hstep⟩ := foldlM_error h
    have hpart : ((before ++ [j]).filterMap openedBy).Nodup := by
      refine hfresh.sublist (List.Sublist.filterMap _ ?_)
      rw [show before ++ j :: after = (before ++ [j]) ++ after by simp]
      exact List.sublist_append_left _ _
    obtain ⟨⟨hisolated, hrest⟩, hopen⟩ :=
      run_isolated (by rw [List.filterMap_append] at hpart; exact hpart.of_append_left) hbefore
    exact handle_alone hisolated hrest (fresh_of_nodup hopen hpart) hstep

/-- After every job the holder is the one session in a transaction, and at no time was
a request dispatched while another session was in one. -/
theorem transaction_isolation (f : S.File) (jobs : List Job)
    (hfresh : (jobs.filterMap openedBy).Nodup) :
    (∀ w, (Worker.new f).workerLoop jobs = .ok w → Exclusive w) ∧
      Alone (Worker.memory ((Worker.new f).workerLoop jobs)) ∧
      Undisturbed (Worker.memory ((Worker.new f).workerLoop jobs)) :=
  ⟨fun _ h => (run_isolated hfresh h).1.1.exclusive, run_alone hfresh,
    undisturbed (new_history f jobs).1⟩

theorem turns_isolated : (turns.filterMap openedBy).Nodup ∧
    (∀ w : Worker SmallSqlite.engine,
      (Worker.new SmallSqlite.newFile).workerLoop turns = .ok w → Exclusive w) ∧
    Alone (S := SmallSqlite.engine)
      (Worker.memory ((Worker.new SmallSqlite.newFile).workerLoop turns)) ∧
    Undisturbed (S := SmallSqlite.engine)
      (Worker.memory ((Worker.new SmallSqlite.newFile).workerLoop turns)) :=
  ⟨by decide,
    transaction_isolation (S := SmallSqlite.engine) SmallSqlite.newFile turns (by decide)⟩

end Runs

end SqliteBroker.Isolation
