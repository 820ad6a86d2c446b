import SqliteBroker.ArrivalOrder

/-!
What the worker owes its clients. The replies it has sent are those to the requests
it has dispatched or thrown out and to every other job it has handled; a request in
service is dispatched and not yet answered. A panic leaves one request in service.
-/
namespace SqliteBroker.BrokerWorker

open Messages Engine Execution Turnstile WorkerLog

namespace Job

def openReply : Job → Option Chan
  | .openConn _ reply => some reply
  | _ => none

def dropReply : Job → Option Chan
  | .drop _ reply => some reply
  | _ => none

def closeReply : Job → Option Chan
  | .req _ r reply => if r.isClose then some reply else none
  | _ => none

end Job

namespace Worker

variable {S : Sqlite}

def repliesOn (w : Worker S) (ch : Chan) : List Response :=
  (w.responses.filter (fun sent => sent.1 = ch)).map Prod.snd

def Waiting (w : Worker S) (p : Pending) : Prop :=
  w.pending.count p = 1 ∧ p ∉ w.served ∧ p ∉ w.thrownOut ∧ w.repliesOn p.reply = []

def Answered (w : Worker S) (p : Pending) : Prop :=
  p ∉ w.pending ∧ w.served.count p = 1 ∧ p ∉ w.thrownOut ∧
    ∃ resp, w.repliesOn p.reply = [resp]

def Discarded (w : Worker S) (p : Pending) : Prop :=
  p ∉ w.pending ∧ p ∉ w.served ∧ w.thrownOut.count p = 1 ∧
    w.repliesOn p.reply = [sessionClosed]

end Worker

end SqliteBroker.BrokerWorker

namespace SqliteBroker.Accounting

open Messages Engine Execution BrokerWorker Turnstile WorkerLog Runs ArrivalOrder

variable {S : Sqlite} {w w' : Worker S} {p : Pending} {j : Job} {handled : List Job}

structure Accounts (handled : List Job) (inService : List Pending) (w : Worker S) : Prop where
  opens : w.opens.map Prod.fst = handled.filterMap Job.openReply
  drops : w.drops = handled.filterMap Job.dropReply
  responses : (w.responses.map Prod.fst ++ inService.map Pending.reply).Perm
    ((w.served ++ w.thrownOut).map Pending.reply ++ handled.filterMap Job.closeReply)
  closed : ∀ ch ∈ handled.filterMap Job.closeReply, (ch, okClosed) ∈ w.responses
  thrown : ∀ p ∈ w.thrownOut, (p.reply, Worker.sessionClosed) ∈ w.responses

theorem accounts_new (f : S.File) : Accounts [] [] (Worker.new f) := by
  refine ⟨rfl, rfl, List.Perm.refl _, ?_, ?_⟩
  · intro ch hch
    cases hch
  · intro p hp
    cases hp

section Served

variable (w : Worker S) (id : SessionId)

theorem served_dropSession : (w.dropSession id).served = w.served := by
  rw [Worker.served, labels_dropSession, List.filterMap_append]
  exact List.append_nil _

theorem thrownOut_dropSession :
    (w.dropSession id).thrownOut = w.thrownOut ++ ofSession w id := by
  rw [Worker.thrownOut, labels_dropSession, List.flatMap_append]
  simp [Worker.thrownOut, Label.gone]

theorem served_noteDispatch (p : Pending) (resumed : Bool) :
    (w.noteDispatch p resumed).served = w.served ++ [p] := by
  rw [Worker.served, labels_noteDispatch, List.filterMap_append]
  cases resumed <;> rfl

theorem thrownOut_noteDispatch (p : Pending) (resumed : Bool) :
    (w.noteDispatch p resumed).thrownOut = w.thrownOut := by
  rw [Worker.thrownOut, labels_noteDispatch, List.flatMap_append]
  cases resumed <;> exact List.append_nil _

end Served

theorem Accounts.unseen {inService : List Pending} (hw : Accounts handled inService w)
    (hserved : w'.served = w.served) (hthrown : w'.thrownOut = w.thrownOut)
    (hopens : w'.opens = w.opens) (hdrops : w'.drops = w.drops)
    (hresponses : w'.responses = w.responses) : Accounts handled inService w' := by
  obtain ⟨h₁, h₂, h₃, h₄, h₅⟩ := hw
  exact ⟨by rwa [hopens], by rwa [hdrops], by rwa [hresponses, hserved, hthrown],
    by rwa [hresponses], by rwa [hresponses, hthrown]⟩

/-- An `exec` or a `prepare` that arrives changes no account yet. -/
theorem Accounts.request {inService : List Pending} (hw : Accounts handled inService w)
    (hreq : p.req.isClose = false) :
    Accounts (handled ++ [.req p.id p.req p.reply]) inService w := by
  have hopen : [Job.req p.id p.req p.reply].filterMap Job.openReply = [] := rfl
  have hdrop : [Job.req p.id p.req p.reply].filterMap Job.dropReply = [] := rfl
  have hclose : [Job.req p.id p.req p.reply].filterMap Job.closeReply = [] := by
    simp [Job.closeReply, hreq]
  obtain ⟨h₁, h₂, h₃, h₄, h₅⟩ := hw
  constructor
  · rwa [List.filterMap_append, hopen, List.append_nil]
  · rwa [List.filterMap_append, hdrop, List.append_nil]
  · rwa [List.filterMap_append, hclose, List.append_nil]
  · rwa [List.filterMap_append, hclose, List.append_nil]
  · exact h₅

theorem accounts_enqueue (hw : Accounts handled [] w) : Accounts handled [] (enqueue w p) := by
  refine hw.unseen ?_ ?_ ?_ ?_ ?_
  · rw [Worker.served, labels_enqueue, List.filterMap_append]
    exact List.append_nil _
  · rw [Worker.thrownOut, labels_enqueue, List.flatMap_append]
    exact List.append_nil _
  · rw [enqueue, opens_note]
    exact List.append_nil _
  · rw [enqueue, drops_note]
    exact List.append_nil _
  · rw [enqueue, responses_note]
    exact List.append_nil _

/-- A dispatch takes its request into service. -/
theorem accounts_dispatch (hw : Accounts handled [] w) (p : Pending) (resumed : Bool) :
    Accounts handled [p] (w.noteDispatch p resumed) := by
  have hresponses : (w.noteDispatch p resumed).responses = w.responses := by
    rw [Worker.noteDispatch, responses_note]
    exact List.append_nil _
  refine ⟨?_, ?_, ?_, ?_, ?_⟩
  · rw [Worker.noteDispatch, opens_note, ← hw.opens]
    exact congrArg _ (List.append_nil _)
  · rw [Worker.noteDispatch, drops_note, ← hw.drops]
    exact List.append_nil _
  · rw [hresponses, served_noteDispatch, thrownOut_noteDispatch]
    have hold := hw.responses
    rw [List.perm_iff_count] at hold ⊢
    intro ch
    have hch := hold ch
    simp only [List.map_append, List.map_nil, List.append_nil, List.count_append,
      List.map_cons] at hch ⊢
    omega
  · rw [hresponses]
    exact hw.closed
  · rw [hresponses, thrownOut_noteDispatch]
    exact hw.thrown

/-- A dispatch that returns answers the request in service. -/
theorem accounts_served (hw : Accounts handled [p] w) (hserved : Served w p w') :
    Accounts handled [] w' := by
  have hs : w'.served = w.served := by
    rw [Worker.served, hserved.labels, List.filterMap_append]
    cases isExec p.req <;> exact List.append_nil _
  have ht : w'.thrownOut = w.thrownOut := by
    rw [Worker.thrownOut, hserved.labels, List.flatMap_append]
    cases isExec p.req <;> exact List.append_nil _
  refine ⟨by rw [hserved.opens]; exact hw.opens, by rw [hserved.drops]; exact hw.drops, ?_, ?_, ?_⟩
  · rw [hserved.responses, hs, ht]
    simpa using hw.responses
  · intro ch hch
    rw [hserved.responses]
    exact List.mem_append_left _ (hw.closed ch hch)
  · intro q hq
    rw [ht] at hq
    rw [hserved.responses]
    exact List.mem_append_left _ (hw.thrown q hq)

/-- A session that goes answers the requests it leaves behind. -/
theorem accounts_dropSession (hw : Accounts handled [] w) (id : SessionId) :
    Accounts handled [] (w.dropSession id) := by
  refine ⟨by rw [opens_dropSession]; exact hw.opens, by rw [drops_dropSession]; exact hw.drops,
    ?_, ?_, ?_⟩
  · rw [responses_dropSession, served_dropSession, thrownOut_dropSession]
    have hold := hw.responses
    rw [List.perm_iff_count] at hold ⊢
    intro ch
    have hch := hold ch
    have hmap : ((ofSession w id).map (fun p => (p.reply, Worker.sessionClosed))).map Prod.fst =
        (ofSession w id).map Pending.reply := by simp
    simp only [List.map_append, hmap, List.map_nil, List.append_nil,
      List.count_append] at hch ⊢
    omega
  · intro ch hch
    rw [responses_dropSession]
    exact List.mem_append_left _ (hw.closed ch hch)
  · intro p hp
    rw [thrownOut_dropSession] at hp
    rw [responses_dropSession]
    rcases List.mem_append.mp hp with hold | hnew
    · exact List.mem_append_left _ (hw.thrown p hold)
    · exact List.mem_append_right _ (List.mem_map.mpr ⟨p, hnew, rfl⟩)

theorem opens_openSession (w : Worker S) (id : SessionId) (reply : Chan) :
    ∃ result : Except String Unit,
      (w.openSession id reply).opens = w.opens ++ [(reply, result)] ∧
        result.isOk = (openStorage S w.file).1.isOk := by
  unfold Worker.openSession
  rcases openStorage S w.file with ⟨err | conn, f⟩
  · exact ⟨.error err, opens_note _ _, rfl⟩
  · exact ⟨.ok (), opens_note _ _, rfl⟩

theorem accounts_openSession (hw : Accounts handled [] w) (id : SessionId) (reply : Chan) :
    Accounts (handled ++ [.openConn id reply]) [] (w.openSession id reply) := by
  have hopen := openSession_unmoved w id reply
  obtain ⟨result, hopens, _⟩ := opens_openSession w id reply
  have hserved : (w.openSession id reply).served = w.served := by
    rw [Worker.served, hopen.labels, Worker.served]
  have hthrown : (w.openSession id reply).thrownOut = w.thrownOut := by
    rw [Worker.thrownOut, hopen.labels, Worker.thrownOut]
  obtain ⟨h₁, h₂, h₃, h₄, h₅⟩ := hw
  refine ⟨?_, ?_, ?_, ?_, ?_⟩
  · rw [hopens, List.map_append, h₁, List.filterMap_append]
    rfl
  · rw [hopen.drops, h₂, List.filterMap_append]
    exact (List.append_nil _).symm
  · rw [hopen.responses, hserved, hthrown, List.filterMap_append]
    simpa [Job.closeReply, List.filterMap_cons] using h₃
  · rw [hopen.responses, List.filterMap_append]
    simpa [Job.closeReply] using h₄
  · rwa [hopen.responses, hthrown]

theorem accounts_drop (hw : Accounts handled [] w) (id : SessionId) (reply : Chan) :
    Accounts (handled ++ [.drop id reply]) [] ((w.dropSession id).note [.sentDrop reply]) := by
  obtain ⟨h₁, h₂, h₃, h₄, h₅⟩ := accounts_dropSession hw id
  refine ⟨?_, ?_, ?_, ?_, ?_⟩
  · rw [opens_note, List.filterMap_append]
    simpa [Mark.opened, Job.openReply, List.filterMap_cons] using h₁
  · rw [drops_note, h₂, List.filterMap_append]
    rfl
  · rw [responses_note, List.filterMap_append]
    simpa [Mark.response, Job.closeReply, Worker.served, Worker.thrownOut, Mark.label,
      List.filterMap_cons] using h₃
  · rw [responses_note, List.filterMap_append]
    simpa [Mark.response, Job.closeReply] using h₄
  · rw [responses_note]
    simpa [Mark.response, Worker.thrownOut, Mark.label] using h₅

theorem accounts_close (hw : Accounts handled [] w) (id : SessionId) (reply : Chan) :
    Accounts (handled ++ [.req id .close reply]) []
      ((w.dropSession id).note [.sentResponse reply okClosed]) := by
  obtain ⟨h₁, h₂, h₃, h₄, h₅⟩ := accounts_dropSession hw id
  have hserved : ((w.dropSession id).note [.sentResponse reply okClosed]).served =
      (w.dropSession id).served := by
    simp [Worker.served, Mark.label]
  have hthrown : ((w.dropSession id).note [.sentResponse reply okClosed]).thrownOut =
      (w.dropSession id).thrownOut := by
    simp [Worker.thrownOut, Mark.label]
  have hresponses : ((w.dropSession id).note [.sentResponse reply okClosed]).responses =
      (w.dropSession id).responses ++ [(reply, okClosed)] := responses_note _ _
  have hreply : [Job.req id .close reply].filterMap Job.closeReply = [reply] := rfl
  refine ⟨?_, ?_, ?_, ?_, ?_⟩
  · rw [opens_note, List.filterMap_append]
    simpa [Mark.opened, Job.openReply, List.filterMap_cons] using h₁
  · rw [drops_note, List.filterMap_append]
    simpa [Mark.dropped, Job.dropReply, List.filterMap_cons] using h₂
  · rw [hresponses, hserved, hthrown, List.filterMap_append, hreply, List.map_append,
      List.append_assoc, ← List.append_assoc _ _ [reply]]
    simpa using h₃.append_right [reply]
  · intro ch hch
    rw [List.filterMap_append, hreply] at hch
    rw [hresponses]
    rcases List.mem_append.mp hch with hold | hnew
    · exact List.mem_append_left _ (h₄ ch hold)
    · rw [List.mem_singleton.mp hnew]
      exact List.mem_append_right _ (List.mem_singleton.mpr rfl)
  · intro p hp
    rw [hthrown] at hp
    rw [hresponses]
    exact List.mem_append_left _ (h₅ p hp)

theorem accounts_enters (hw : Accounts handled [] w) (h : Enters w j w') :
    Accounts (handled ++ [j]) [] w' := by
  cases h with
  | openConn id reply => exact accounts_openSession hw id reply
  | drop id reply => exact accounts_drop hw id reply
  | close id reply => exact accounts_close hw id reply
  | queue p i hreq hheld hne => exact (accounts_enqueue hw).request hreq
  | pass p _ hreq hfree h =>
    exact (accounts_served (accounts_dispatch hw p false) (dispatch_ok hreq h)).request hreq

theorem accounts_next {rest : List Pending} (hw : Accounts handled [] w)
    (hreq : p.req.isClose = false) (h : (resume w p rest).dispatch p = .ok w') :
    Accounts handled [] w' := by
  have hrest : Accounts handled [] { w with pending := rest } := hw.unseen rfl rfl rfl rfl rfl
  exact accounts_served (accounts_dispatch hrest p true) (dispatch_ok hreq h)

/-- One call of the worker that returns leaves no request in service. -/
theorem handle_accounts (hqueued : Queued w) (hrest : AtRest w) (hw : Accounts handled [] w)
    (h : w.handle j = .ok w') : Accounts (handled ++ [j]) [] w' := by
  obtain ⟨w₁, henter, hpump⟩ := handle_ok h
  have hrule := pump_rule (P := fun v => Queued v ∧ Accounts (handled ++ [j]) [] v)
    (fun v p rest v' hv hnone hpending hdispatch =>
      ⟨queued_next hv.1 hnone hpending hdispatch,
        accounts_next hv.2 (hv.1.head hpending)
          hdispatch⟩)
    ⟨queued_enters hqueued hrest henter, accounts_enters hw henter⟩ hpump
  exact hrule.1.2

section Fates

/-- Requests and closes have channels of their own. -/
theorem channels_nodup (h : (handled.map Job.reply).Nodup) :
    ((handled.filterMap Job.request).map Pending.reply ++
      handled.filterMap Job.closeReply).Nodup := by
  have hsub : ∀ ch, ((handled.filterMap Job.request).map Pending.reply ++
      handled.filterMap Job.closeReply).count ch ≤ (handled.map Job.reply).count ch := by
    intro ch
    clear h
    induction handled with
    | nil => simp
    | cons j rest ih =>
      rw [List.count_append] at ih ⊢
      rw [List.map_cons, List.count_cons]
      cases j with
      | openConn id reply => exact Nat.le_trans ih (Nat.le_add_right _ _)
      | drop id reply => exact Nat.le_trans ih (Nat.le_add_right _ _)
      | req id r reply =>
        cases hr : r.isClose <;>
          simp only [Job.request, Job.closeReply, Job.reply, hr, List.filterMap_cons,
            Bool.false_eq_true, if_true, if_false, List.map_cons, List.count_cons,
            beq_iff_eq] <;>
          omega
  rw [List.nodup_iff_count_le_one] at h ⊢
  exact fun ch => Nat.le_trans (hsub ch) (h ch)

theorem arrived_fates (hqueued : Queued w) :
    w.arrived.Perm (w.served ++ w.thrownOut ++ w.pending) :=
  arrived_perm hqueued.turnstile

theorem length_repliesOn (w : Worker S) (ch : Chan) :
    (w.repliesOn ch).length = (w.responses.map Prod.fst).count ch := by
  rw [Worker.repliesOn, List.length_map, List.count, List.countP_map,
    List.countP_eq_length_filter]
  rfl

/-- Every request that has come to the worker waits, has been answered or has been
thrown out; its channel tells which. -/
theorem request_fate (hqueued : Queued w) (harrived : w.arrived = handled.filterMap Job.request)
    (hw : Accounts handled [] w) (hreplies : (handled.map Job.reply).Nodup)
    (hp : p ∈ handled.filterMap Job.request) :
    w.Waiting p ∨ w.Answered p ∨ w.Discarded p := by
  have hperm : (handled.filterMap Job.request).Perm (w.served ++ w.thrownOut ++ w.pending) := by
    rw [← harrived]
    exact arrived_fates hqueued
  have hall : ((w.served ++ w.thrownOut ++ w.pending).map Pending.reply ++
      handled.filterMap Job.closeReply).Nodup :=
    ((hperm.map Pending.reply).append_right _).nodup (channels_nodup hreplies)
  have hone : (w.served ++ w.thrownOut ++ w.pending).count p = 1 :=
    List.count_eq_one_of_mem (hall.of_append_left.of_map _) (hperm.subset hp)
  have hch := List.nodup_iff_count_le_one.mp hall p.reply
  have hreply : ∀ l : List Pending, l.count p ≤ (l.map Pending.reply).count p.reply :=
    fun l => List.count_le_count_map
  have hsent : (w.repliesOn p.reply).length = ((w.served ++ w.thrownOut).map Pending.reply ++
      handled.filterMap Job.closeReply).count p.reply := by
    rw [length_repliesOn, ← (hw.responses.count_eq p.reply)]
    simp
  have h₁ := hreply w.served
  have h₂ := hreply w.thrownOut
  have h₃ := hreply w.pending
  simp only [List.map_append, List.count_append] at hone hch hsent
  by_cases hserved : p ∈ w.served
  · have hcount := List.count_pos_iff.mpr hserved
    obtain ⟨resp, hresp⟩ := List.length_eq_one_iff.mp
      (show (w.repliesOn p.reply).length = 1 by omega)
    exact Or.inr (Or.inl ⟨List.count_eq_zero.mp (by omega), by omega,
      List.count_eq_zero.mp (by omega), resp, hresp⟩)
  · have hnone := List.count_eq_zero.mpr hserved
    by_cases hthrown : p ∈ w.thrownOut
    · have hcount := List.count_pos_iff.mpr hthrown
      obtain ⟨resp, hresp⟩ := List.length_eq_one_iff.mp
        (show (w.repliesOn p.reply).length = 1 by omega)
      have hmem : Worker.sessionClosed ∈ w.repliesOn p.reply :=
        List.mem_map.mpr ⟨_, List.mem_filter.mpr ⟨hw.thrown p hthrown, by simp⟩, rfl⟩
      rw [hresp, List.mem_singleton] at hmem
      exact Or.inr (Or.inr ⟨List.count_eq_zero.mp (by omega), hserved, by omega,
        by rw [hresp, ← hmem]⟩)
    · have hgone := List.count_eq_zero.mpr hthrown
      exact Or.inl ⟨by omega, hserved, hthrown, List.eq_nil_of_length_eq_zero (by omega)⟩

end Fates

end SqliteBroker.Accounting
