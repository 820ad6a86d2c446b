import SqliteBroker.Threads

/-!
The discipline of the client threads. Each thread has at most one job outstanding, on
the job channel or in the queue of the worker, and knows from its place in the code
whether its session is open. It holds in every state of every run while the worker
lives, and it makes every job a proper one for the worker.
-/
namespace SqliteBroker.BrokerWorker

def Pending.job (p : Pending) : Job := .req p.id p.req p.reply

end SqliteBroker.BrokerWorker

namespace SqliteBroker.Discipline

open Messages Engine Execution Frames BrokerWorker Turnstile WorkerLog Runs ArrivalOrder
  Isolation Accounting Sessions Threads

variable {S : Sqlite} {J : SerdeJson} {s s' : Broker S} {id : SessionId} {j : Job}

/-- The jobs of a session that the worker has yet to finish. -/
def outstanding (s : Broker S) (id : SessionId) : List Job :=
  (ofSession s.worker id).map Pending.job ++ s.jobs.filter (fun j => j.session = id)

/-- What a thread at `pc` knows of its outstanding jobs and of its session. -/
def Expected (id : SessionId) (mine : List Job) (present : Bool)
    (opens : List (Chan × Except String Unit)) : ClientPc → Prop
  | .absent => mine = [] ∧ present = false
  | .starting => mine = [] ∧ present = false
  | .opening ch => (mine = [.openConn id ch] ∧ present = false) ∨
      (mine = [] ∧ ∃ opened, opens.lookup ch = some opened ∧ present = opened.isOk)
  | .greeting opened => mine = [] ∧ present = opened.isOk
  | .reading => mine = [] ∧ present = true
  | .waiting ch isClose =>
      (∃ r, r.isClose = isClose ∧ mine = [.req id r ch] ∧ present = true) ∨
        (mine = [] ∧ present = !isClose)
  | .writing _ isClose => mine = [] ∧ present = !isClose
  | .dropping ch => (mine = [.drop id ch] ∧ present = true) ∨ (mine = [] ∧ present = false)
  | .returned => mine = [] ∧ present = false

structure Disciplined (s : Broker S) : Prop where
  sound : Sound s.handled s.worker
  channels : ((s.handled ++ s.jobs).map Job.reply).Nodup
  fresh : ∀ j ∈ s.handled ++ s.jobs, j.reply < s.nextChan
  absent : ∀ id, s.nextSession ≤ id → (s.clients id).pc = .absent
  expected : ∀ id, Expected id (outstanding s id) (s.worker.present id) s.worker.opens
    (s.clients id).pc

theorem disciplined_init (f : S.File) : Disciplined (Broker.init f) where
  sound := sound_new f
  channels := List.nodup_nil
  fresh := by simp [Broker.init]
  absent := fun _ _ => rfl
  expected := fun _ => ⟨rfl, rfl⟩

theorem disciplined_setClient {c : Client} (hs : Disciplined s)
    (hpc : Expected id (outstanding s id) (s.worker.present id) s.worker.opens c.pc)
    (hid : id < s.nextSession) : Disciplined (s.setClient id c) := by
  refine ⟨hs.sound, hs.channels, hs.fresh, ?_, ?_⟩
  · intro i hi
    have hne : i ≠ id := fun h => absurd (h ▸ hid) (Nat.not_lt.mpr hi)
    change (Function.update s.clients id c i).pc = _
    rw [Function.update_of_ne hne]
    exact hs.absent i hi
  · intro i
    change Expected i (outstanding s i) (s.worker.present i) s.worker.opens
      (Function.update s.clients id c i).pc
    by_cases hi : i = id
    · subst hi
      rw [Function.update_self]
      exact hpc
    · rw [Function.update_of_ne hi]
      exact hs.expected i

theorem lt_nextSession (hs : Disciplined s) (id : SessionId) (hpc : (s.clients id).pc ≠ .absent) :
    id < s.nextSession := by
  by_contra h
  exact hpc (hs.absent id (Nat.not_lt.mp h))

/-- A thread with nothing outstanding may send a job. -/
theorem disciplined_sendJob {job : Chan → Job} {pc : Chan → ClientPc} (hs : Disciplined s)
    (halive : s.alive = true) (hid : id < s.nextSession)
    (hsession : ∀ ch, (job ch).session = id) (hreply : ∀ ch, (job ch).reply = ch)
    (hmine : outstanding s id = [])
    (hpc : ∀ ch, Expected id [job ch] (s.worker.present id) s.worker.opens (pc ch)) :
    Disciplined (s.sendJob id job pc) := by
  rw [Broker.sendJob, if_pos halive]
  set t : Broker S := { s with jobs := s.jobs ++ [job s.nextChan], nextChan := s.nextChan + 1 }
  have houtstanding : ∀ i, outstanding t i =
      outstanding s i ++ if i = id then [job s.nextChan] else [] := by
    intro i
    by_cases hi : i = id
    · simp [t, outstanding, List.filter_append, hsession, hi]
    · simp [t, outstanding, List.filter_append, hsession, hi, Ne.symm hi]
  have ht : ∀ i, i ≠ id → Expected i (outstanding t i) (t.worker.present i) t.worker.opens
      (t.clients i).pc := by
    intro i hi
    rw [houtstanding, if_neg hi, List.append_nil]
    exact hs.expected i
  refine ⟨hs.sound, ?_, ?_, ?_, ?_⟩
  · change ((s.handled ++ (s.jobs ++ [job s.nextChan])).map Job.reply).Nodup
    rw [← List.append_assoc, List.map_append]
    refine List.nodup_append.mpr ⟨hs.channels, List.nodup_singleton _, ?_⟩
    intro ch hch ch' hch' heq
    obtain ⟨k, hk, rfl⟩ := List.mem_map.mp hch
    rw [List.map_singleton, List.mem_singleton, hreply] at hch'
    exact absurd (hs.fresh k hk) (by rw [heq, hch']; exact Nat.lt_irrefl _)
  · intro k hk
    change k ∈ s.handled ++ (s.jobs ++ [job s.nextChan]) at hk
    change k.reply < s.nextChan + 1
    rw [← List.append_assoc] at hk
    rcases List.mem_append.mp hk with hold | hnew
    · exact Nat.lt_succ_of_lt (hs.fresh k hold)
    · rw [List.mem_singleton.mp hnew, hreply]
      exact Nat.lt_succ_self _
  · intro i hi
    have hne : i ≠ id := fun h => absurd (h ▸ hid) (Nat.not_lt.mpr hi)
    change (Function.update s.clients id _ i).pc = _
    rw [Function.update_of_ne hne]
    exact hs.absent i hi
  · intro i
    change Expected i (outstanding t i) (t.worker.present i) t.worker.opens
      (Function.update s.clients id _ i).pc
    by_cases hi : i = id
    · rw [hi, Function.update_self, houtstanding, if_pos rfl, hmine]
      exact hpc s.nextChan
    · rw [Function.update_of_ne hi]
      exact ht i hi

theorem disciplined_dropRemote (hs : Disciplined s) (halive : s.alive = true)
    (hid : id < s.nextSession) (hmine : outstanding s id = [])
    (hpresent : s.worker.present id = true) : Disciplined (s.dropRemote id) :=
  disciplined_sendJob hs halive hid (fun _ => rfl) (fun _ => rfl) hmine
    (fun _ => Or.inl ⟨rfl, hpresent⟩)

section Answers

theorem reply_mem_of_request {handled : List Job} {p : Pending}
    (hp : p ∈ handled.filterMap Job.request) : p.reply ∈ handled.map Job.reply := by
  obtain ⟨j, hj, hreq⟩ := List.mem_filterMap.mp hp
  rw [request_reply hreq]
  exact List.mem_map_of_mem hj

/-- Only handled jobs are answered. -/
theorem answered_handled (hs : Disciplined s) {ch : Chan}
    (h : ch ∈ s.worker.opens.map Prod.fst ∨ ch ∈ s.worker.responses.map Prod.fst ∨
      ch ∈ s.worker.drops) : ch ∈ s.handled.map Job.reply := by
  have haccounts := hs.sound.accounts
  rcases h with hopen | hresp | hdrop
  · rw [haccounts.opens] at hopen
    obtain ⟨j, hj, hreply⟩ := List.mem_filterMap.mp hopen
    cases j with
    | openConn id reply => exact List.mem_map.mpr ⟨_, hj, Option.some.inj hreply⟩
    | _ => cases hreply
  · have hmem := haccounts.responses.subset (List.mem_append_left _ hresp)
    rcases List.mem_append.mp hmem with hreq | hclose
    · obtain ⟨p, hp, rfl⟩ := List.mem_map.mp hreq
      refine reply_mem_of_request ?_
      rw [← hs.sound.arrived]
      exact (arrived_fates hs.sound.isolated.queued).symm.subset (List.mem_append_left _ hp)
    · obtain ⟨j, hj, hreply⟩ := List.mem_filterMap.mp hclose
      cases j with
      | req id r reply =>
        refine List.mem_map.mpr ⟨_, hj, ?_⟩
        simp only [Job.closeReply] at hreply
        split at hreply
        · exact Option.some.inj hreply
        · cases hreply
      | _ => cases hreply
  · rw [haccounts.drops] at hdrop
    obtain ⟨j, hj, hreply⟩ := List.mem_filterMap.mp hdrop
    cases j with
    | drop id reply => exact List.mem_map.mpr ⟨_, hj, Option.some.inj hreply⟩
    | _ => cases hreply

theorem job_unanswered (hs : Disciplined s) (hj : j ∈ s.jobs) :
    j.reply ∉ s.handled.map Job.reply := by
  intro h
  have hnd := hs.channels
  rw [List.map_append] at hnd
  exact (List.nodup_append.mp hnd).2.2 _ h _ (List.mem_map_of_mem hj) rfl

theorem pending_unanswered (hs : Disciplined s) {p : Pending} (hp : p ∈ s.worker.pending) :
    p.reply ∉ s.worker.responses.map Prod.fst := by
  have hqueued := hs.sound.isolated.queued
  have harrived : p ∈ s.worker.arrived :=
    (arrived_fates hqueued).symm.subset (List.mem_append_right _ hp)
  rw [hs.sound.arrived] at harrived
  have hnd : (s.handled.map Job.reply).Nodup := by
    have hall := hs.channels
    rw [List.map_append] at hall
    exact hall.of_append_left
  have hnone : s.worker.repliesOn p.reply = [] := by
    rcases request_fate hqueued hs.sound.arrived hs.sound.accounts hnd harrived with
      hwait | hanswered | hgone
    · exact hwait.2.2.2
    · exact absurd hp hanswered.1
    · exact absurd hp hgone.1
  intro hmem
  have hcount := length_repliesOn s.worker p.reply
  rw [hnone, List.length_nil] at hcount
  exact List.count_eq_zero.mp hcount.symm hmem

theorem lookup_of_not_mem {α : Type} {l : List (Chan × α)} {ch : Chan}
    (h : ch ∉ l.map Prod.fst) : l.lookup ch = none := by
  rw [List.lookup_eq_none_iff]
  intro p hp
  have hne : p.1 ≠ ch := fun heq => h (List.mem_map.mpr ⟨p, hp, heq⟩)
  simpa using Ne.symm hne

theorem mem_of_lookup {α : Type} {l : List (Chan × α)} {ch : Chan} {x : α}
    (h : l.lookup ch = some x) : (ch, x) ∈ l := by
  obtain ⟨l₁, l₂, hl, _⟩ := List.lookup_eq_some_iff.mp h
  rw [hl]
  simp

theorem mem_jobs_of_outstanding (h : outstanding s id = [j])
    (hj : ∀ p, j ≠ Pending.job p) : j ∈ s.jobs := by
  have hmem : j ∈ outstanding s id := by rw [h]; exact List.mem_singleton.mpr rfl
  rcases List.mem_append.mp hmem with hqueue | hchannel
  · obtain ⟨p, _, hp⟩ := List.mem_map.mp hqueue
    exact absurd hp.symm (hj p)
  · exact (List.mem_filter.mp hchannel).1

/-- A request that is outstanding has no reply yet. -/
theorem outstanding_unanswered (hs : Disciplined s) {r : Request} {ch : Chan}
    (h : outstanding s id = [.req id r ch]) : ch ∉ s.worker.responses.map Prod.fst := by
  have hmem : Job.req id r ch ∈ outstanding s id := by rw [h]; exact List.mem_singleton.mpr rfl
  rcases List.mem_append.mp hmem with hqueue | hchannel
  · obtain ⟨p, hp, hjob⟩ := List.mem_map.mp hqueue
    cases hjob
    exact pending_unanswered hs (List.mem_filter.mp hp).1
  · intro hresp
    exact job_unanswered hs (List.mem_filter.mp hchannel).1
      (answered_handled hs (Or.inr (Or.inl hresp)))

end Answers

section Work

variable {w' : Worker S} {rest : List Job}

theorem expected_length {mine : List Job} {present : Bool}
    {opens : List (Chan × Except String Unit)} {pc : ClientPc}
    (h : Expected id mine present opens pc) : mine.length ≤ 1 := by
  cases pc with
  | opening ch => rcases h with h | h <;> simp [h.1]
  | waiting ch isClose =>
    rcases h with ⟨r, _, hmine, _⟩ | h
    · simp [hmine]
    · simp [h.1]
  | dropping ch => rcases h with h | h <;> simp [h.1]
  | _ => simp [h.1]

/-- Which job may be outstanding at which place. -/
theorem expected_cases {present : Bool} {opens : List (Chan × Except String Unit)}
    {pc : ClientPc} (h : Expected id [j] present opens pc) :
    (∃ ch, j = .openConn id ch ∧ pc = .opening ch ∧ present = false) ∨
      (∃ r ch, j = .req id r ch ∧ pc = .waiting ch r.isClose ∧ present = true) ∨
        ∃ ch, j = .drop id ch ∧ pc = .dropping ch ∧ present = true := by
  cases pc with
  | opening ch =>
    rcases h with ⟨hmine, hpresent⟩ | ⟨hmine, _⟩
    · exact Or.inl ⟨ch, List.head_eq_of_cons_eq hmine, rfl, hpresent⟩
    · cases hmine
  | waiting ch isClose =>
    rcases h with ⟨r, rfl, hmine, hpresent⟩ | ⟨hmine, _⟩
    · exact Or.inr (Or.inl ⟨r, ch, List.head_eq_of_cons_eq hmine, rfl, hpresent⟩)
    · cases hmine
  | dropping ch =>
    rcases h with ⟨hmine, hpresent⟩ | ⟨hmine, _⟩
    · exact Or.inr (Or.inr ⟨ch, List.head_eq_of_cons_eq hmine, rfl, hpresent⟩)
    · cases hmine
  | _ => cases h.1

/-- The head of the channel is all its session has outstanding. -/
theorem head_alone (hs : Disciplined s) (hjobs : s.jobs = j :: rest) :
    outstanding s j.session = [j] ∧ ofSession s.worker j.session = [] ∧
      rest.filter (fun k => k.session = j.session) = [] := by
  have hlen := expected_length (hs.expected j.session)
  have hhead : outstanding s j.session = (ofSession s.worker j.session).map Pending.job ++
      j :: rest.filter (fun k => k.session = j.session) := by
    rw [outstanding, hjobs, List.filter_cons_of_pos (by simp)]
  rw [hhead] at hlen ⊢
  simp only [List.length_append, List.length_cons, List.length_map] at hlen
  have hqueue : ofSession s.worker j.session = [] := List.eq_nil_of_length_eq_zero (by omega)
  have hrest : rest.filter (fun k => k.session = j.session) = [] :=
    List.eq_nil_of_length_eq_zero (by omega)
  rw [hqueue, hrest]
  exact ⟨rfl, rfl, rfl⟩

theorem head_cases (hs : Disciplined s) (hjobs : s.jobs = j :: rest) :
    (∃ id ch, j = .openConn id ch ∧ (s.clients id).pc = .opening ch ∧
        s.worker.present id = false) ∨
      (∃ id r ch, j = .req id r ch ∧ (s.clients id).pc = .waiting ch r.isClose ∧
        s.worker.present id = true) ∨
      ∃ id ch, j = .drop id ch ∧ (s.clients id).pc = .dropping ch ∧
        s.worker.present id = true := by
  have hexpected := hs.expected j.session
  rw [(head_alone hs hjobs).1] at hexpected
  rcases expected_cases hexpected with ⟨ch, hj, h⟩ | ⟨r, ch, hj, h⟩ | ⟨ch, hj, h⟩
  · exact Or.inl ⟨_, ch, hj, h⟩
  · exact Or.inr (Or.inl ⟨_, r, ch, hj, h⟩)
  · exact Or.inr (Or.inr ⟨_, ch, hj, h⟩)

/-- Every job the worker takes is a proper one. -/
theorem head_proper (hs : Disciplined s) (hjobs : s.jobs = j :: rest) : Proper s.worker j := by
  have hqueue := (head_alone hs hjobs).2.1
  rcases head_cases hs hjobs with ⟨id, ch, rfl, _, hp⟩ | ⟨id, r, ch, rfl, _, hp⟩ | ⟨id, ch, rfl, _⟩
  · exact Option.not_isSome_iff_eq_none.mp (by rw [Worker.present] at hp; simp [hp])
  · intro _
    refine ⟨hp, ?_⟩
    intro hid
    obtain ⟨p, hpending, rfl⟩ := List.mem_map.mp hid
    have hmem : p ∈ ofSession s.worker p.id := List.mem_filter.mpr ⟨hpending, by simp⟩
    have hnil : ofSession s.worker p.id = [] := hqueue
    rw [hnil] at hmem
    cases hmem
  · trivial

theorem expected_opens {mine : List Job} {present : Bool}
    {opens more : List (Chan × Except String Unit)} {pc : ClientPc}
    (h : Expected id mine present opens pc) : Expected id mine present (opens ++ more) pc := by
  cases pc with
  | opening ch =>
    rcases h with h | ⟨hmine, opened, hlookup, hpresent⟩
    · exact Or.inl h
    · exact Or.inr ⟨hmine, opened, by rw [List.lookup_append, hlookup]; rfl, hpresent⟩
  | _ => exact h

theorem eq_or_nil_of_sublist {α : Type} {l l' : List α} (h : l'.Sublist l) (hl : l.length ≤ 1) :
    l' = l ∨ l' = [] := by
  by_cases hlen : l'.length = l.length
  · exact Or.inl (h.eq_of_length hlen)
  · have hle := h.length_le
    exact Or.inr (List.eq_nil_of_length_eq_zero (by omega))

theorem ofSession_sublist (h : w'.pending.Sublist (s.worker.pending ++ j.request.toList))
    (id : SessionId) : (ofSession w' id).Sublist
      (ofSession s.worker id ++ j.request.toList.filter (fun p => p.id = id)) := by
  have hfilter := h.filter (fun p => decide (p.id = id))
  rw [List.filter_append] at hfilter
  exact hfilter

/-- The worker's step as the other sessions see it: a queued request may be gone. -/
theorem expected_other (hs : Disciplined s) (hjobs : s.jobs = j :: rest)
    (hpending : w'.pending.Sublist (s.worker.pending ++ j.request.toList))
    (hid : id ≠ j.session) :
    Expected id ((ofSession w' id).map Pending.job ++ rest.filter (fun k => k.session = id))
      (s.worker.present id) s.worker.opens (s.clients id).pc := by
  have hexpected := hs.expected id
  have hchannel : s.jobs.filter (fun k => k.session = id) =
      rest.filter (fun k => k.session = id) := by
    rw [hjobs, List.filter_cons_of_neg (by simpa using Ne.symm hid)]
  rw [outstanding, hchannel] at hexpected
  have hrequest : j.request.toList.filter (fun p => p.id = id) = [] := by
    cases hreq : j.request with
    | none => rfl
    | some p =>
      rw [job_of_request hreq] at hid
      have hne : p.id ≠ id := Ne.symm hid
      simp [hne]
  have hsub := ofSession_sublist hpending id
  rw [hrequest, List.append_nil] at hsub
  have hlen := expected_length hexpected
  simp only [List.length_append, List.length_map] at hlen
  rcases eq_or_nil_of_sublist hsub (by omega) with hsame | hgone
  · rw [hsame]
    exact hexpected
  · cases hqueue : ofSession s.worker id with
    | nil =>
      rw [hqueue] at hexpected
      rw [hgone]
      exact hexpected
    | cons p more =>
      rw [hqueue, List.length_cons] at hlen
      have hmore : more = [] := List.eq_nil_of_length_eq_zero (by omega)
      have hnone : rest.filter (fun k => k.session = id) = [] :=
        List.eq_nil_of_length_eq_zero (by omega)
      rw [hqueue, hmore, hnone] at hexpected
      rw [hgone, hnone]
      have hp : p ∈ s.worker.pending :=
        (List.mem_filter.mp (show p ∈ ofSession s.worker id by simp [hqueue])).1
      have hreq := hs.sound.isolated.queued.requests p hp
      rcases expected_cases hexpected with ⟨ch, hj, _⟩ | ⟨r, ch, hj, hpc, hpresent⟩ | ⟨ch, hj, _⟩
      · cases hj
      · cases hj
        rw [hpc, hpresent, hreq]
        exact Or.inr ⟨rfl, rfl⟩
      · cases hj

/-- The worker's step as the session of the job sees it. -/
theorem expected_own (hs : Disciplined s) (hjobs : s.jobs = j :: rest)
    (h : s.worker.handle j = .ok w') :
    Expected j.session ((ofSession w' j.session).map Pending.job ++
      rest.filter (fun k => k.session = j.session)) (w'.present j.session) w'.opens
        (s.clients j.session).pc := by
  have hqueued := hs.sound.isolated.queued
  obtain ⟨_, hqueue, hrest⟩ := head_alone hs hjobs
  obtain ⟨hpending, hends⟩ := handle_pending hqueued hs.sound.rest h
  have hpresent := handle_present hqueued hs.sound.rest h j.session
  have hopens := handle_opens hqueued hs.sound.rest h
  have hsub := ofSession_sublist hpending j.session
  rw [hqueue, List.nil_append] at hsub
  have hnil : j.ends = true → ofSession w' j.session = [] := by
    intro hj
    refine List.filter_eq_nil_iff.mpr ?_
    intro p hp
    simpa using hends hj p hp
  rw [hrest, List.append_nil, hpresent]
  rcases head_cases hs hjobs with ⟨id, ch, rfl, hpc, hold⟩ | ⟨id, r, ch, rfl, hpc, hold⟩ |
    ⟨id, ch, rfl, hpc, _⟩
  · obtain ⟨result, hadded, hok⟩ := hopens
    have hfresh : s.worker.opens.lookup ch = none := by
      refine lookup_of_not_mem (fun hch => ?_)
      exact job_unanswered hs (j := .openConn id ch) (by rw [hjobs]; exact List.mem_cons_self ..)
        (answered_handled hs (Or.inl hch))
    have hgone : ofSession w' id = [] := List.sublist_nil.mp hsub
    change Expected id ((ofSession w' id).map Pending.job) _ w'.opens (s.clients id).pc
    rw [hpc, hgone, hadded]
    refine Or.inr ⟨rfl, result, ?_, ?_⟩
    · rw [List.lookup_append, hfresh]
      simp
    · simp [presentAfter, Job.session, hold, hok]
  · change Expected id ((ofSession w' id).map Pending.job) _ w'.opens (s.clients id).pc
    rw [hpc]
    cases hr : r.isClose with
    | true =>
      rw [show ofSession w' id = [] from hnil hr]
      exact Or.inr ⟨rfl, by simp [presentAfter, Job.session, hr]⟩
    | false =>
      have hreq : (Job.req id r ch).request = some ⟨id, r, ch⟩ := by simp [Job.request, hr]
      have hone : [(⟨id, r, ch⟩ : Pending)].filter (fun p => p.id = id) = [⟨id, r, ch⟩] := by simp
      rw [hreq] at hsub
      change (ofSession w' id).Sublist ([(⟨id, r, ch⟩ : Pending)].filter _) at hsub
      rw [show (Job.req id r ch).session = id from rfl, hone] at hsub
      rcases eq_or_nil_of_sublist hsub (by simp) with hwaits | hgone
      · exact Or.inl ⟨r, hr, by rw [hwaits]; rfl, by simp [presentAfter, hold, hr, Job.session]⟩
      · exact Or.inr ⟨by rw [hgone]; rfl, by simp [presentAfter, hold, hr, Job.session]⟩
  · change Expected id ((ofSession w' id).map Pending.job) _ w'.opens (s.clients id).pc
    rw [hpc, show ofSession w' id = [] from hnil rfl]
    exact Or.inr ⟨rfl, by simp [presentAfter, Job.session]⟩

theorem disciplined_work (hs : Disciplined s) (h : Broker.step J s .work = some s')
    (halive : s'.alive = true) : Disciplined s' := by
  obtain ⟨_, j, rest, hjobs, ⟨w, hhandle, rfl⟩ | ⟨w, _, rfl⟩⟩ := step_work h
  · have hqueued := hs.sound.isolated.queued
    obtain ⟨hpending, _⟩ := handle_pending hqueued hs.sound.rest hhandle
    have hall : (s.handled ++ [j]) ++ rest = s.handled ++ s.jobs := by
      rw [hjobs, List.append_assoc]
      rfl
    refine ⟨handle_sound hs.sound (head_proper hs hjobs) hhandle, ?_, ?_, hs.absent, ?_⟩
    · change ((s.handled ++ [j] ++ rest).map Job.reply).Nodup
      rw [hall]
      exact hs.channels
    · change ∀ k ∈ s.handled ++ [j] ++ rest, k.reply < s.nextChan
      rw [hall]
      exact hs.fresh
    · intro id
      by_cases hid : id = j.session
      · have hown := expected_own hs hjobs hhandle
        rw [hid]
        exact hown
      · change Expected id ((ofSession w id).map Pending.job ++
          rest.filter (fun k => k.session = id)) (w.present id) w.opens (s.clients id).pc
        have hother := expected_other hs hjobs hpending hid
        have hpresent : w.present id = s.worker.present id := by
          rw [handle_present hqueued hs.sound.rest hhandle]
          cases j <;> simp_all [presentAfter, Job.session]
        have hopens := handle_opens hqueued hs.sound.rest hhandle
        rw [hpresent]
        cases j with
        | openConn i reply =>
          obtain ⟨result, hadded, _⟩ := hopens
          rw [hadded]
          exact expected_opens hother
        | req i r reply =>
          rw [show w.opens = s.worker.opens from hopens]
          exact hother
        | drop i reply =>
          rw [show w.opens = s.worker.opens from hopens]
          exact hother
  · cases halive

end Work

section Steps

variable {a : Action}

/-- The steps of a client thread, by the place they start from. -/
theorem disciplined_recvOpen {ch : Chan} (hs : Disciplined s) (halive : s.alive = true)
    (hpc : (s.clients id).pc = .opening ch)
    (h : s.receive id (s.worker.opens.lookup ch) .greeting = some s') : Disciplined s' := by
  have hid := lt_nextSession hs id (by rw [hpc]; simp)
  have hexpected := hs.expected id
  rw [hpc] at hexpected
  cases hlookup : s.worker.opens.lookup ch with
  | none => simp [Broker.receive, hlookup, halive] at h
  | some opened =>
    simp only [Broker.receive, hlookup, Option.some.injEq] at h
    rw [← h]
    refine disciplined_setClient hs ?_ hid
    rcases hexpected with ⟨hmine, _⟩ | ⟨hmine, opened', hlookup', hpresent⟩
    · have hjob := mem_jobs_of_outstanding hmine (fun p hp => by cases hp)
      have hnone : s.worker.opens.lookup ch = none :=
        lookup_of_not_mem (fun hch => job_unanswered hs hjob (answered_handled hs (Or.inl hch)))
      rw [hnone] at hlookup
      cases hlookup
    · rw [hlookup] at hlookup'
      cases hlookup'
      exact ⟨hmine, hpresent⟩

theorem disciplined_recvReply {ch : Chan} {isClose : Bool} (hs : Disciplined s)
    (halive : s.alive = true) (hpc : (s.clients id).pc = .waiting ch isClose)
    (h : s.receive id (s.worker.responses.lookup ch) (fun resp => .writing resp isClose) =
      some s') : Disciplined s' := by
  have hid := lt_nextSession hs id (by rw [hpc]; simp)
  have hexpected := hs.expected id
  rw [hpc] at hexpected
  cases hlookup : s.worker.responses.lookup ch with
  | none => simp [Broker.receive, hlookup, halive] at h
  | some resp =>
    simp only [Broker.receive, hlookup, Option.some.injEq] at h
    rw [← h]
    refine disciplined_setClient hs ?_ hid
    rcases hexpected with ⟨r, _, hmine, _⟩ | hdone
    · rw [lookup_of_not_mem (outstanding_unanswered hs hmine)] at hlookup
      cases hlookup
    · exact hdone

theorem disciplined_recvDrop {ch : Chan} (hs : Disciplined s) (halive : s.alive = true)
    (hpc : (s.clients id).pc = .dropping ch)
    (h : s.receive id (if ch ∈ s.worker.drops then some () else none) (fun _ => .returned) =
      some s') : Disciplined s' := by
  have hid := lt_nextSession hs id (by rw [hpc]; simp)
  have hexpected := hs.expected id
  rw [hpc] at hexpected
  by_cases hdrop : ch ∈ s.worker.drops
  · simp only [Broker.receive, if_pos hdrop, Option.some.injEq] at h
    rw [← h]
    refine disciplined_setClient hs ?_ hid
    rcases hexpected with ⟨hmine, _⟩ | hdone
    · have hjob := mem_jobs_of_outstanding hmine (fun p hp => by cases hp)
      exact absurd (answered_handled hs (Or.inr (Or.inr hdrop))) (job_unanswered hs hjob)
    · exact hdone
  · simp [Broker.receive, hdrop, halive] at h

theorem enter_setClient (s : Broker S) (id : SessionId) (c : Client) (pc : ClientPc) :
    (s.setClient id c).enter id pc = s.setClient id { c with pc := pc } := by
  simp [Broker.enter, Broker.setClient]

theorem disciplined_greet {opened : Except String Unit} {accepts : Bool} (hs : Disciplined s)
    (halive : s.alive = true) (hpc : (s.clients id).pc = .greeting opened) :
    Disciplined (s.greet J id opened accepts) := by
  have hid := lt_nextSession hs id (by rw [hpc]; simp)
  have hexpected := hs.expected id
  rw [hpc] at hexpected
  obtain ⟨hmine, hpresent⟩ := hexpected
  unfold Broker.greet
  cases opened with
  | ok _ =>
    cases hwrite : s.writeFrame J id (Broker.hello id (.ok ())) accepts with
    | none => exact disciplined_dropRemote hs halive hid hmine hpresent
    | some t =>
      obtain ⟨bytes, _, _, rfl⟩ := writeFrame_some hwrite
      change Disciplined ((s.setClient id _).enter id .reading)
      rw [enter_setClient]
      exact disciplined_setClient hs ⟨hmine, hpresent⟩ hid
  | error err =>
    cases hwrite : s.writeFrame J id (Broker.hello id (.error err)) accepts with
    | none => exact disciplined_setClient hs ⟨hmine, hpresent⟩ hid
    | some t =>
      obtain ⟨bytes, _, _, rfl⟩ := writeFrame_some hwrite
      change Disciplined ((s.setClient id _).enter id .returned)
      rw [enter_setClient]
      exact disciplined_setClient hs ⟨hmine, hpresent⟩ hid

theorem disciplined_reply {resp : Response} {isClose accepts : Bool} (hs : Disciplined s)
    (halive : s.alive = true) (hpc : (s.clients id).pc = .writing resp isClose) :
    Disciplined (s.reply J id resp isClose accepts) := by
  have hid := lt_nextSession hs id (by rw [hpc]; simp)
  have hexpected := hs.expected id
  rw [hpc] at hexpected
  obtain ⟨hmine, hpresent⟩ := hexpected
  unfold Broker.reply
  cases hwrite : s.writeFrame J id resp accepts with
  | none =>
    cases isClose with
    | true => exact disciplined_setClient hs ⟨hmine, hpresent⟩ hid
    | false => exact disciplined_dropRemote hs halive hid hmine hpresent
  | some t =>
    obtain ⟨bytes, _, _, rfl⟩ := writeFrame_some hwrite
    cases isClose with
    | true =>
      change Disciplined ((s.setClient id _).enter id .returned)
      rw [enter_setClient]
      exact disciplined_setClient hs ⟨hmine, hpresent⟩ hid
    | false =>
      change Disciplined ((s.setClient id _).enter id .reading)
      rw [enter_setClient]
      exact disciplined_setClient hs ⟨hmine, hpresent⟩ hid

theorem disciplined_forward {req : Request} (hs : Disciplined s) (halive : s.alive = true)
    (hpc : (s.clients id).pc = .reading) : Disciplined (s.forward id req) := by
  have hid := lt_nextSession hs id (by rw [hpc]; simp)
  have hexpected := hs.expected id
  rw [hpc] at hexpected
  obtain ⟨hmine, hpresent⟩ := hexpected
  have hsent : Disciplined (s.sendJob id (.req id req) (fun ch => .waiting ch req.isClose)) :=
    disciplined_sendJob hs halive hid (fun _ => rfl) (fun _ => rfl) hmine
      (fun ch => Or.inl ⟨req, rfl, rfl, hpresent⟩)
  unfold Broker.forward
  rw [if_pos halive]
  have hnext : id <
      (s.sendJob id (.req id req) (fun ch => .waiting ch req.isClose)).nextSession := by
    rw [Broker.sendJob, if_pos halive]
    exact hid
  exact disciplined_setClient hsent (hsent.expected id) hnext

theorem disciplined_accept (hs : Disciplined s) :
    Disciplined (Broker.enter { s with nextSession := s.nextSession + 1 } s.nextSession
      .starting) := by
  have hnumbered : Disciplined { s with nextSession := s.nextSession + 1 } :=
    ⟨hs.sound, hs.channels, hs.fresh, fun id hid => hs.absent id (Nat.le_of_succ_le hid),
      hs.expected⟩
  have hexpected := hs.expected s.nextSession
  rw [hs.absent s.nextSession (Nat.le_refl _)] at hexpected
  exact disciplined_setClient hnumbered hexpected (Nat.lt_succ_self _)

/-- Every step of a living broker keeps the discipline. -/
theorem step_disciplined (hs : Disciplined s) (halive : s.alive = true)
    (h : Broker.step J s a = some s') (halive' : s'.alive = true) : Disciplined s' := by
  rcases actor_cases s a with rfl | ⟨id, hid⟩
  · exact disciplined_work hs h halive'
  · cases thread_step h hid with
    | accept hnew =>
      subst hnew
      exact disciplined_accept hs
    | sendOpen hpc =>
      have hexpected := hs.expected id
      rw [hpc] at hexpected
      exact disciplined_sendJob hs halive (lt_nextSession hs _ (by rw [hpc]; simp))
        (fun _ => rfl) (fun _ => rfl) hexpected.1 (fun _ => Or.inl ⟨rfl, hexpected.2⟩)
    | recvOpen hpc h => exact disciplined_recvOpen hs halive hpc h
    | writeHello hpc => exact disciplined_greet hs halive hpc
    | read hpc => exact disciplined_forward hs halive hpc
    | readFails hpc =>
      have hexpected := hs.expected id
      rw [hpc] at hexpected
      exact disciplined_dropRemote hs halive (lt_nextSession hs _ (by rw [hpc]; simp))
        hexpected.1 hexpected.2
    | recvReply hpc h => exact disciplined_recvReply hs halive hpc h
    | writeReply hpc => exact disciplined_reply hs halive hpc
    | recvDrop hpc h => exact disciplined_recvDrop hs halive hpc h

end Steps

/-- The discipline holds throughout every run while the worker lives. -/
theorem run_disciplined {f : S.File} {acts : List Action} (h : Run J f acts s)
    (halive : s.alive = true) : Disciplined s := by
  have hinv := h.invariant (P := fun s => s.alive = true → Disciplined s)
    (fun _ _ _ ih hstep halive' =>
      have halive := alive_of_step hstep halive'
      step_disciplined (ih halive) halive hstep halive')
  exact hinv (fun _ => disciplined_init f) halive

end SqliteBroker.Discipline
