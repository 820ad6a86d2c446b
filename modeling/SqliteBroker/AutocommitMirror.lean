import SqliteBroker.ClientCalls

/-!
The autocommit flag that a handle caches mirrors the broker's lock from each response
that it decodes to its next request. One step can break that: a callback that has sent
requests of its own and then aborts the `sqlite3_exec` it belongs to, which copies the
flag of the older response back.
-/
namespace SqliteBroker.AutocommitMirror

open Utf8 Messages Serde Wire RealValues Blank Engine Execution Frames MessageTexts Runs
  BrokerWorker Threads Discipline CurrentReplies ShimConnection Network Lockstep Exchanges
  ClientCalls

variable {S : Sqlite} {J : SerdeJson} {n n' : Net S} {id : SessionId} {a : NetAction}

/-- From a decoded response to the next request the flag is 0 exactly for the holder. -/
def Mirrors (n : Net S) (id : SessionId) : Prop :=
  ∀ resp, (n.shims id).heard = some resp →
    ((n.shims id).db.autocommit = 0 ↔ n.broker.worker.holder = some id)

/-- A callback that aborts a loop leaves the flag as the loop's own response has it. -/
def KeepsFlag (n : Net S) : NetAction → Prop
  | .callback id rc => rc ≠ 0 → ∀ loop outer, (n.shims id).loops = loop :: outer →
      (n.shims id).heard ≠ none →
      ((n.shims id).db.autocommit = 0 ↔ loop.resp.autocommit = false)
  | _ => True

/-- The flag is the one of the response decoded last. -/
def FlagHeard (sh : Shim) : Prop :=
  ∀ resp, sh.heard = some resp → (sh.db.autocommit = 0 ↔ resp.autocommit = false)

theorem flagHeard_none {sh : Shim} (h : sh.heard = none) : FlagHeard sh := by
  intro resp hresp
  rw [h] at hresp
  cases hresp

/-- A response that a shim has heard is a current one, but for its doubles. -/
theorem heard_current {sh : Shim} {resp : Response} (hl : InStep J n.broker id sh)
    (h : sh.heard = some resp) : ∃ req ch written,
      Current n.broker.worker ⟨id, req, ch⟩ written ∧ blank resp = blank written := by
  have hphase := hl.phase
  cases hpc : sh.pc with
  | idle =>
    rw [hpc] at hphase
    cases hphase with
    | ready _ _ _ hcurrent => exact hcurrent resp h
    | lost _ _ hnone =>
      rw [hnone] at h
      cases h
  | connecting =>
    rw [hpc] at hphase
    rw [hphase.1] at h
    cases h
  | awaiting call =>
    rw [hpc] at hphase
    rw [hphase.1] at h
    cases h
  | _ =>
    rw [hpc] at hphase
    rw [show sh.heard = none from hphase] at h
    cases h

theorem mirrors_of_flagHeard (hl : InStep J n.broker id (n.shims id))
    (h : FlagHeard (n.shims id)) : Mirrors n id := by
  intro resp hresp
  obtain ⟨req, ch, written, hcurrent, hblank⟩ := heard_current hl hresp
  have hflag := h resp hresp
  rw [autocommit_of_blank hblank] at hflag
  exact hflag.trans hcurrent.holder

theorem flagHeard_send {sh : Shim} {call : ApiCall} (h : FlagHeard sh) :
    FlagHeard (sh.send J call) := by
  unfold Shim.send
  split
  · exact h
  · split
    · exact flagHeard_none rfl
    · exact h

theorem flagHeard_respond {sh : Shim} {call : ApiCall} {got : Except String Response} {read : ℕ} :
    FlagHeard (sh.respond call got read) := by
  intro resp hresp
  cases got with
  | error err => cases hresp
  | ok got =>
    obtain rfl : got = resp := Option.some.inj hresp
    exact ProxyDb.apply_autocommit_eq_zero _ _

/-- A step of the client. -/
theorem flagHeard_client {sh : Shim} (hl : InStep J n.broker id (n.shims id))
    (h : FlagHeard (n.shims id)) (hkeeps : KeepsFlag n a) (hstep : ShimStep J n id a sh) :
    FlagHeard sh := by
  cases hstep with
  | hello hpc =>
    have hphase := hl.phase
    rw [hpc] at hphase
    exact flagHeard_none (Shim.greeted_heard hphase.1)
  | call => exact flagHeard_send h
  | recv => exact flagHeard_respond
  | closed => exact flagHeard_none rfl
  | @abort rc loop outer hpc hloops hrc =>
    intro resp hresp
    have hflag := hkeeps hrc loop outer hloops (by
      rw [show (n.shims id).heard = some resp from hresp]
      simp)
    rw [← h resp hresp, hflag]
    exact ProxyDb.apply_autocommit_eq_zero _ _
  | nextRow => exact h
  | close => exact flagHeard_none rfl
  | closeLater => exact h
  | vanish => exact flagHeard_none rfl

theorem flagHeard_step (hl : ∀ id, InStep J n.broker id (n.shims id))
    (h : ∀ id, FlagHeard (n.shims id)) (hkeeps : KeepsFlag n a) (hstep : n.step J a = some n') :
    ∀ id, FlagHeard (n'.shims id) := by
  intro id
  rcases action_cases a with ⟨b, rfl⟩ | ⟨i, hi⟩
  · obtain ⟨_, m, hsocket, hshims⟩ := step_broker hstep
    rw [hshims]
    by_cases hid : n.broker.actor b = some id
    · by_cases haccept : b = .accept
      · subst haccept
        obtain rfl : n.broker.nextSession = id := Option.some.inj hid
        obtain rfl := Option.some.inj hsocket
        rw [setShim_own]
        exact flagHeard_none rfl
      · have hsame := (socket_own hsocket hid haccept).frame
        rw [FlagHeard, hsame.1, hsame.2.2]
        exact h id
    · rw [socket_other hsocket hid]
      exact h id
  · obtain ⟨sh, rfl, hshim⟩ := shim_step hstep hi
    by_cases hid : id = i
    · subst hid
      rw [setShim_own]
      exact flagHeard_client (hl id) (h id) hkeeps hshim
    · rw [show (n.setShim i sh).shims id = n.shims id from Function.update_of_ne hid _ _]
      exact h id

/-- In a run without such a step the flag is the one of the response heard. -/
theorem run_flagHeard {f : S.File} {acts : List NetAction} (hJ : J.Faithful)
    (h : NetRun J f KeepsFlag acts n) (halive : n.broker.alive = true) :
    ∀ id, FlagHeard (n.shims id) := by
  have hinv := h.history (m := []) (P := fun past n => NetRun J f KeepsFlag past n ∧
    (n.broker.alive = true → ∀ id, FlagHeard (n.shims id))) ?_ ?_
  · exact hinv.2 halive
  · rintro past n a n' ⟨hrun, hflag⟩ hstep
    refine ⟨Trace.snoc hrun hstep, fun halive' => ?_⟩
    have halive := broker_alive_of_step hstep.2 halive'
    exact flagHeard_step (run_inStep hJ hrun halive) (hflag halive) hstep.1 hstep.2
  · exact ⟨.nil _, fun _ _ => flagHeard_none rfl⟩

/-- After a run of such steps the flag mirrors the lock at every handle; after one more
step it still does exactly if that is such a step, too. -/
theorem autocommit_mirrors {f : S.File} {acts : List NetAction} (hJ : J.Faithful)
    (h : NetRun J f KeepsFlag acts n) (halive : n.broker.alive = true) :
    (∀ id, Mirrors n id) ∧ ∀ a n', n.step J a = some n' → n'.broker.alive = true →
      ((∀ id, Mirrors n' id) ↔ KeepsFlag n a) := by
  have hl := run_inStep hJ h halive
  have hflag := run_flagHeard hJ h halive
  have hmirrors : ∀ id, Mirrors n id := fun id => mirrors_of_flagHeard (hl id) (hflag id)
  refine ⟨hmirrors, fun a n' hstep halive' => ⟨?_, ?_⟩⟩
  · intro hmirrors'
    cases a with
    | callback id rc =>
      intro hrc loop outer hloops hheard
      obtain ⟨resp, hresp⟩ := Option.ne_none_iff_exists'.mp hheard
      obtain ⟨sh, rfl, hshim⟩ :=
        shim_step hstep (show clientOf (.callback id rc) = some id from rfl)
      have hafter := hmirrors' id
      rw [Mirrors, setShim_own] at hafter
      cases hshim with
      | @abort _ loop' outer' _ hloops' =>
        obtain ⟨rfl, _⟩ := List.cons.inj (hloops.symm.trans hloops')
        have hcopied := ProxyDb.apply_autocommit_eq_zero (n.shims id).db (callbackAborted loop.resp)
        exact (hmirrors id resp hresp).trans ((hafter resp hresp).symm.trans hcopied)
      | nextRow => exact absurd rfl hrc
    | _ => trivial
  · intro hkeeps id
    have hrun : NetRun J f KeepsFlag (acts ++ [a]) n' := Trace.snoc h ⟨hkeeps, hstep⟩
    exact mirrors_of_flagHeard (run_inStep hJ hrun halive' id) (run_flagHeard hJ hrun halive' id)

section Callback

/-- A file whose text is one letter. -/
def letterFile : SmallSqlite.File := ⟨0, ascii "x"⟩

/-- The response to `SELECT` on that file. -/
def letterResponse : Response :=
  SmallSqlite.okResponse SmallSqlite.newConn ["text"] [[.text (lossyString letterFile.text)]]

def letterRequests : List (Request × Bytes) :=
  [(.exec SmallSqlite.selectSql [], execText (ascii SmallSqlite.selectSql)),
    (.exec "BEGIN" [], execText (ascii "BEGIN"))]

def letterResponses : List (Response × Bytes) :=
  [(letterResponse, responseText okText (ascii "[\"text\"]")
    (ascii "[[\x7b\"t\":\"text\",\"v\":\"x\"\x7d]]") (ascii "0") (ascii "true") (ascii "0")),
   (begunResponse, begunText)]

theorem letter_spoken : Spoken letterRequests letterResponses where
  requests := ⟨by decide, by decide⟩
  responses := ⟨by decide, by decide⟩
  texts := by decide
  sizes := by
    refine spoken_sizes ?_ ?_
    · exact List.forall_mem_cons.mpr
        ⟨exec_sized (by decide), List.forall_mem_singleton.mpr (exec_sized (by decide))⟩
    · exact List.forall_mem_cons.mpr
        ⟨response_sized (by decide), List.forall_mem_singleton.mpr begun_sized⟩

/-- `SELECT` with a callback, which sends `BEGIN`. -/
def nested : List NetAction :=
  joining ++ (calling 1 (.exec SmallSqlite.selectSql true) ++ [.recv 1]) ++
    (calling 1 (.exec "BEGIN" false) ++ [.recv 1])

theorem run_nested : ∃ n : Net SmallSqlite.engine,
    Trace (fun n a n' => Net.step (talk letterRequests letterResponses) n a = some n')
      (Net.init letterFile) nested n ∧
    Connected n 1 letterFile begunConn ∧ n.broker.worker.holder = some 1 ∧
    (n.shims 1).db.autocommit = 0 ∧ (n.shims 1).loops = [⟨letterResponse, 1⟩] ∧
    (n.shims 1).heard = some begunResponse := by
  have hopen : openStorage SmallSqlite.engine letterFile =
      (.ok SmallSqlite.newConn, letterFile) := rfl
  have hselect : runOn (S := SmallSqlite.engine) letterFile SmallSqlite.newConn
      (ApiCall.exec SmallSqlite.selectSql true).request =
        ⟨letterResponse, letterFile, SmallSqlite.newConn⟩ :=
    SmallSqlite.execute_select (by decide)
  have hbegin : runOn (S := SmallSqlite.engine) letterFile SmallSqlite.newConn
      (ApiCall.exec "BEGIN" false).request = ⟨begunResponse, letterFile, begunConn⟩ :=
    SmallSqlite.execute_begin rfl
  obtain ⟨n₀, hjoined, hconn₀, _, hloops₀⟩ := run_joined hopen letter_spoken.hello
  obtain ⟨n₁, n₁', hcall₁, hrecv₁, _, hconn₁, _, _, hloops₁, _⟩ :=
    run_call hconn₀ (Or.inl (by decide)) hselect
      (letter_spoken.request (List.mem_cons_self ..))
      (letter_spoken.response (List.mem_cons_self ..))
  obtain ⟨n₂, n₂', hcall₂, hrecv₂, _, hconn₂, hheld₂, hdb₂, hloops₂, hheard₂⟩ :=
    run_call hconn₁ (Or.inl (by decide)) hbegin
      (letter_spoken.request (List.mem_cons_of_mem _ (List.mem_cons_self ..)))
      (letter_spoken.response (List.mem_cons_of_mem _ (List.mem_cons_self ..)))
  refine ⟨n₂', (hjoined.append (hcall₁.snoc hrecv₁)).append (hcall₂.snoc hrecv₂), hconn₂, hheld₂,
    ?_, ?_, hheard₂⟩
  · rw [hdb₂]
    exact (ProxyDb.apply_autocommit_eq_zero _ _).mpr rfl
  · rw [hloops₂, hloops₁, hloops₀]
    rfl

/-- The flag mirrors the lock when the callback's own statement has been answered. -/
theorem nested_mirrors : ∃ n : Net SmallSqlite.engine,
    NetRun (talk letterRequests letterResponses) letterFile KeepsFlag nested n ∧
    n.broker.worker.holder = some 1 ∧ (n.shims 1).heard = some begunResponse ∧
    ∀ id, Mirrors n id := by
  obtain ⟨n, hrun, hconn, hheld, _, _, hheard⟩ := run_nested
  have hcalls : ∀ id rc, NetAction.callback id rc ∉ nested := by
    simp [nested, joining, calling]
  have hkeeps : NetRun (talk letterRequests letterResponses) letterFile KeepsFlag nested n := by
    refine hrun.restrict (fun a ha n => ?_)
    cases a with
    | callback id rc => exact absurd ha (hcalls id rc)
    | _ => trivial
  exact ⟨n, hkeeps, hheld, hheard,
    (autocommit_mirrors letter_spoken.faithful hkeeps hconn.idle.alive).1⟩

/-- When that callback then aborts its `SELECT`, the handle is in autocommit again and its
session still holds the transaction. -/
theorem aborted_callback_breaks : ∃ n : Net SmallSqlite.engine,
    (talk letterRequests letterResponses).Faithful ∧
    NetRun (talk letterRequests letterResponses) letterFile (fun _ _ => True)
      (nested ++ [.callback 1 1]) n ∧
    n.broker.alive = true ∧ n.broker.worker.holder = some 1 ∧ (n.shims 1).db.autocommit = 1 ∧
    ¬ Mirrors n 1 := by
  obtain ⟨n, hrun, hconn, hheld, _, hloops, hheard⟩ := run_nested
  let sh : Shim := { n.shims 1 with
    db := (n.shims 1).db.apply (callbackAborted letterResponse), loops := [] }
  have hstep : n.step (talk letterRequests letterResponses) (.callback 1 1) =
      some (n.setShim 1 sh) := by
    simp [Net.step, Shim.callback, hconn.pc, hloops, sh]
  have hrun' := (hrun.snoc hstep).restrict (p := fun _ _ => True) (fun _ _ _ => trivial)
  have hflag : ((n.setShim 1 sh).shims 1).db.autocommit = 1 := by
    rw [setShim_own]
    exact ProxyDb.apply_autocommit _ _
  refine ⟨n.setShim 1 sh, letter_spoken.faithful, hrun', hconn.idle.alive, hheld, hflag, ?_⟩
  intro hmirrors
  have hzero := (hmirrors begunResponse (by rw [setShim_own]; exact hheard)).mpr hheld
  rw [hflag] at hzero
  cases hzero

end Callback

end SqliteBroker.AutocommitMirror
