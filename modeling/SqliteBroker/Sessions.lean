import SqliteBroker.Isolation
import SqliteBroker.Accounting

/-!
Open sessions and their requests. When every session has at most one request with
the worker and opens only once, the queue never holds two requests of a session nor
one of the holder, and every request that is dispatched finds its connection.
-/
namespace SqliteBroker.Sessions

open Messages Engine Execution BrokerWorker Turnstile WorkerLog Runs ArrivalOrder Isolation
  Accounting

variable {S : Sqlite} {w w' : Worker S} {p : Pending} {j : Job}

/-- What a client thread guarantees of a job when the worker takes it. -/
def Proper (w : Worker S) : Job → Prop
  | .openConn id _ => w.sessions id = none
  | .req id r _ => r.isClose = false → w.present id = true ∧ id ∉ w.pending.map Pending.id
  | .drop _ _ => True

theorem Proper.fresh (h : Proper w j) : Fresh w j := by
  cases j with
  | openConn id reply => exact h
  | req id r reply => trivial
  | drop id reply => trivial

structure Orderly (w : Worker S) : Prop where
  distinct : (w.pending.map Pending.id).Nodup
  waits : ∀ p ∈ w.pending, w.holder ≠ some p.id ∧ w.present p.id = true
  found : ∀ d ∈ w.dispatches, (d.sessions d.request.id).isSome = true

theorem orderly_new (f : S.File) : Orderly (Worker.new f) :=
  ⟨List.nodup_nil, by simp [Worker.new], by simp [Worker.new, Worker.dispatches]⟩

section Steps

theorem orderly_served (hw : Orderly w) (hreq : p.req.isClose = false)
    (hfree : w.holder = none ∨ w.holder = some p.id) (hp : p.id ∉ w.pending.map Pending.id)
    (hserved : Served w p w') : Orderly w' := by
  refine ⟨by rw [hserved.pending]; exact hw.distinct, ?_,
    by rw [hserved.dispatches]; exact hw.found⟩
  intro q hq
  rw [hserved.pending] at hq
  rw [present_served hreq hserved]
  refine ⟨?_, (hw.waits q hq).2⟩
  have hne : q.id ≠ p.id := fun h => hp (h ▸ List.mem_map_of_mem hq)
  rw [hserved.holder]
  rcases hfree with hnone | hown
  · rw [hnone]
    cases isExec p.req <;> cases w.keeps p <;> simp [settled, Ne.symm hne]
  · rw [hown]
    cases isExec p.req <;> cases w.keeps p <;> simp [settled, Ne.symm hne]

theorem orderly_dispatch (hw : Orderly w) (hp : w.present p.id = true) (resumed : Bool) :
    Orderly (w.noteDispatch p resumed) := by
  refine ⟨hw.distinct, hw.waits, ?_⟩
  intro d hd
  rw [dispatches_noteDispatch] at hd
  rcases List.mem_append.mp hd with hold | hnew
  · exact hw.found d hold
  · rw [List.mem_singleton.mp hnew]
    exact hp

theorem Orderly.unseen (hw : Orderly w) (hpending : w'.pending = w.pending)
    (hholder : w'.holder = w.holder)
    (hpresent : ∀ p ∈ w.pending, w'.present p.id = w.present p.id)
    (hdispatches : w'.dispatches = w.dispatches) : Orderly w' := by
  refine ⟨by rw [hpending]; exact hw.distinct, ?_, by rw [hdispatches]; exact hw.found⟩
  intro p hp
  rw [hpending] at hp
  rw [hholder, hpresent p hp]
  exact hw.waits p hp

theorem orderly_dropSession (hw : Orderly w) (id : SessionId) : Orderly (w.dropSession id) := by
  refine ⟨?_, ?_, by rw [dispatches_dropSession]; exact hw.found⟩
  · rw [Worker.dropSession_pending]
    exact hw.distinct.sublist (List.filter_sublist.map _)
  · intro p hp
    rw [Worker.dropSession_pending, List.mem_filter] at hp
    obtain ⟨hheld, hpresent⟩ := hw.waits p hp.1
    have hne : p.id ≠ id := of_decide_eq_true hp.2
    rw [Worker.dropSession_holder, present_dropSession, hpresent]
    refine ⟨?_, by simpa using hne⟩
    split
    · simp
    · exact hheld

theorem orderly_enqueue {i : SessionId} (hw : Orderly w) (hheld : w.holder = some i)
    (hne : i ≠ p.id) (hpresent : w.present p.id = true) (hp : p.id ∉ w.pending.map Pending.id) :
    Orderly (enqueue w p) := by
  have hpending : (enqueue w p).pending = w.pending ++ [p] := rfl
  refine ⟨?_, ?_, ?_⟩
  · rw [hpending, List.map_append]
    exact List.nodup_append.mpr ⟨hw.distinct, List.nodup_singleton _, by
      intro a ha b hb hab
      rw [hab, List.mem_singleton.mp hb] at ha
      exact hp ha⟩
  · intro q hq
    rw [hpending] at hq
    rcases List.mem_append.mp hq with hold | hnew
    · exact hw.waits q hold
    · rw [List.mem_singleton.mp hnew]
      refine ⟨?_, hpresent⟩
      change w.holder ≠ _
      rw [hheld]
      exact fun h => hne (Option.some.inj h)
  · have hdispatches : (enqueue w p).dispatches = w.dispatches := by
      rw [enqueue, dispatches_note]
      exact List.append_nil _
    rw [hdispatches]
    exact hw.found

theorem orderly_enters (hw : Orderly w) (hproper : Proper w j) (h : Enters w j w') :
    Orderly w' := by
  cases h with
  | openConn id reply =>
    have hopen := openSession_unmoved w id reply
    refine hw.unseen hopen.pending hopen.holder ?_ hopen.dispatches
    intro p hp
    rw [present_openSession, (hw.waits p hp).2, Bool.true_or]
  | drop id reply =>
    exact (orderly_dropSession hw id).unseen rfl rfl (fun _ _ => rfl)
      (by rw [dispatches_note]; exact List.append_nil _)
  | close id reply =>
    exact (orderly_dropSession hw id).unseen rfl rfl (fun _ _ => rfl)
      (by rw [dispatches_note]; exact List.append_nil _)
  | queue p i hreq hheld hne =>
    exact orderly_enqueue hw hheld hne (hproper hreq).1 (hproper hreq).2
  | pass p _ hreq hfree h =>
    exact orderly_served (orderly_dispatch hw (hproper hreq).1 false) hreq hfree (hproper hreq).2
      (dispatch_ok hreq h)

theorem orderly_next {rest : List Pending} (hw : Orderly w) (hnone : w.holder = none)
    (hpending : w.pending = p :: rest) (hreq : p.req.isClose = false)
    (h : (resume w p rest).dispatch p = .ok w') : Orderly w' := by
  have hdistinct := hw.distinct
  rw [hpending, List.map_cons, List.nodup_cons] at hdistinct
  have hpresent := (hw.waits p (by rw [hpending]; exact List.mem_cons_self ..)).2
  have hrest : Orderly { w with pending := rest } :=
    ⟨hdistinct.2, fun q hq => hw.waits q (by rw [hpending]; exact List.mem_cons_of_mem p hq),
      hw.found⟩
  exact orderly_served (orderly_dispatch hrest hpresent true) hreq (Or.inl hnone) hdistinct.1
    (dispatch_ok hreq h)

end Steps

/-- Everything that holds of the worker between two jobs. -/
structure Sound (handled : List Job) (w : Worker S) : Prop where
  isolated : Isolated w
  rest : AtRest w
  orderly : Orderly w
  accounts : Accounts handled [] w
  arrived : w.arrived = handled.filterMap Job.request

theorem sound_new (f : S.File) : Sound [] (Worker.new f) where
  isolated := isolated_new f
  rest := fun _ => rfl
  orderly := orderly_new f
  accounts := accounts_new f
  arrived := rfl

/-- One call of the worker, for a job its client thread may send. -/
theorem handle_sound {handled : List Job} (hw : Sound handled w) (hproper : Proper w j)
    (h : w.handle j = .ok w') : Sound (handled ++ [j]) w' := by
  have hqueued := hw.isolated.queued
  obtain ⟨hisolated, hrest⟩ := handle_isolated hw.isolated hw.rest hproper.fresh h
  have hrecorded := (handle_history hqueued hw.rest j).2
  rw [h] at hrecorded
  refine ⟨hisolated, hrest, ?_, handle_accounts hqueued hw.rest hw.accounts h, ?_⟩
  · obtain ⟨w₁, henter, hpump⟩ := handle_ok h
    have hrule := pump_rule (P := fun v => Queued v ∧ Orderly v)
      (fun v p rest v' hv hnone hpending hdispatch =>
        ⟨queued_next hv.1 hnone hpending hdispatch,
          orderly_next hv.2 hnone hpending
            (hv.1.head hpending) hdispatch⟩)
      ⟨queued_enters hqueued hw.rest henter, orderly_enters hw.orderly hproper henter⟩ hpump
    exact hrule.1.2
  · rw [show w'.arrived = _ from hrecorded.arrived, hw.arrived, List.filterMap_append]
    cases hreq : j.request <;> simp [hreq]

section Effects

/-- The pump only takes requests out of the queue and opens nothing. -/
theorem pump_frame (hw : Queued w) (h : w.pump = .ok w') :
    w'.pending.Sublist w.pending ∧ w'.opens = w.opens := by
  have hrule := pump_rule
    (P := fun v => Queued v ∧ v.pending.Sublist w.pending ∧ v.opens = w.opens)
    (fun v p rest v' hv hnone hpending hdispatch => by
      have hreq := hv.1.head hpending
      have hserved := dispatch_ok hreq hdispatch
      refine ⟨queued_next hv.1 hnone hpending hdispatch, ?_, ?_⟩
      · rw [hserved.pending]
        refine List.Sublist.trans ?_ hv.2.1
        rw [hpending]
        exact List.sublist_cons_self p rest
      · rw [hserved.opens, ← hv.2.2, resume, Worker.noteDispatch, opens_note]
        exact List.append_nil _)
    ⟨hw, List.Sublist.refl _, rfl⟩ h
  exact hrule.1.2

theorem enters_pending (h : Enters w j w') :
    w'.pending.Sublist (w.pending ++ j.request.toList) ∧
      (j.ends = true → ∀ p ∈ w'.pending, p.id ≠ j.session) := by
  cases h with
  | openConn id reply =>
    rw [(openSession_unmoved w id reply).pending]
    exact ⟨List.sublist_append_left _ _, fun hends => by cases hends⟩
  | drop id reply =>
    have hpending : ((w.dropSession id).note [.sentDrop reply]).pending =
        w.pending.filter (fun p => p.id ≠ id) := Worker.dropSession_pending w id
    rw [hpending]
    refine ⟨List.filter_sublist.trans (List.sublist_append_left _ _), ?_⟩
    intro _ p hp
    exact of_decide_eq_true (List.mem_filter.mp hp).2
  | close id reply =>
    have hpending : ((w.dropSession id).note [.sentResponse reply okClosed]).pending =
        w.pending.filter (fun p => p.id ≠ id) := Worker.dropSession_pending w id
    rw [hpending]
    refine ⟨List.filter_sublist.trans (List.sublist_append_left _ _), ?_⟩
    intro _ p hp
    exact of_decide_eq_true (List.mem_filter.mp hp).2
  | queue p i hreq hheld hne =>
    rw [request_of_pending hreq]
    exact ⟨List.Sublist.refl _, fun hends => by simp [Job.ends, hreq] at hends⟩
  | pass p _ hreq hfree h =>
    rw [(dispatch_ok hreq h).pending]
    exact ⟨List.sublist_append_left _ _, fun hends => by simp [Job.ends, hreq] at hends⟩

/-- What a call of the worker may leave in the queue. -/
theorem handle_pending (hw : Queued w) (hrest : AtRest w) (h : w.handle j = .ok w') :
    w'.pending.Sublist (w.pending ++ j.request.toList) ∧
      (j.ends = true → ∀ p ∈ w'.pending, p.id ≠ j.session) := by
  obtain ⟨w₁, henter, hpump⟩ := handle_ok h
  obtain ⟨hsub, hends⟩ := enters_pending henter
  have hpart := (pump_frame (queued_enters hw hrest henter) hpump).1
  exact ⟨hpart.trans hsub, fun hj p hp => hends hj p (hpart.subset hp)⟩

/-- Only an open sends on an open's channel; its message says whether the session is there. -/
theorem handle_opens (hw : Queued w) (hrest : AtRest w) (h : w.handle j = .ok w') :
    match j with
    | .openConn _ reply => ∃ result : Except String Unit,
        w'.opens = w.opens ++ [(reply, result)] ∧ result.isOk = (openStorage S w.file).1.isOk
    | _ => w'.opens = w.opens := by
  obtain ⟨w₁, henter, hpump⟩ := handle_ok h
  have hopens := (pump_frame (queued_enters hw hrest henter) hpump).2
  cases henter with
  | openConn id reply =>
    rw [hopens]
    exact opens_openSession w id reply
  | drop id reply =>
    change w'.opens = w.opens
    rw [hopens, opens_note, opens_dropSession]
    exact List.append_nil _
  | close id reply =>
    change w'.opens = w.opens
    rw [hopens, opens_note, opens_dropSession]
    exact List.append_nil _
  | queue p i hreq hheld hne =>
    change w'.opens = w.opens
    rw [hopens, enqueue, opens_note]
    exact List.append_nil _
  | pass p _ hreq hfree hdispatch =>
    change w'.opens = w.opens
    rw [hopens, (dispatch_ok hreq hdispatch).opens, Worker.noteDispatch, opens_note]
    exact List.append_nil _

end Effects

end SqliteBroker.Sessions
