import SqliteBroker.BootRace
import SqliteBroker.SchemaSqlite

/-!
Migrations apply exactly once. The processes that start, with what SQLite keeps for each of their
connections, are a pool of programs in the store of the schema: the worker of the broker answers a
program only while no other one has a transaction, so every answer is one that the store gives.
-/
namespace SqliteBroker.ExactlyOnce

open Messages Engine Execution BrokerWorker Turnstile WorkerLog Runs ArrivalOrder Isolation
  Sessions Panics ShimConnection Programs Schemas Migrations BootRace
open ShimStatement (FloatText)
open Boot (startup)

section Matching

/-- A process waits for the answer to this request, or has not received it yet. -/
def Waits (procs : SessionId → Option Proc) (p : Pending) : Prop :=
  ∃ k, procs p.id = some (.waiting p.req p.reply k)

/-- The requests of `line` are those without an answer, each process has one at most, and no
reply channel is used twice. A request that fails is one of `gone`: its session has closed. -/
structure Matched (next : Chan) (procs : SessionId → Option Proc)
    (responses : List (Chan × Response)) (gone line : List Pending) : Prop where
  unanswered : ∀ p, p ∈ line ↔ Waits procs p ∧ ∀ r ∈ responses, r.1 ≠ p.reply
  distinct : ∀ p p', Waits procs p → Waits procs p' → p.reply = p'.reply → p = p'
  early : ∀ p, Waits procs p → p.reply < next
  sent : ∀ r ∈ responses, r.1 < next ∧
    (r.2.ok = true ∨ r.2 = Worker.sessionClosed ∧ ∃ p ∈ gone, p.reply = r.1)

variable {next next' : Chan} {procs : SessionId → Option Proc}
  {responses : List (Chan × Response)} {gone line line' : List Pending} {i : SessionId}
  {p q : Pending}

theorem Waits.eq_of_id (h : Waits procs p) (h' : Waits procs q) (hid : p.id = q.id) : p = q := by
  obtain ⟨k, hk⟩ := h
  obtain ⟨k', hk'⟩ := h'
  obtain ⟨id, req, reply⟩ := p
  obtain ⟨id', req', reply'⟩ := q
  dsimp only at hid hk hk'
  subst hid
  rw [hk] at hk'
  cases hk'
  rfl

theorem waits_update_of_ne {proc : Option Proc} (h : q.id ≠ i) :
    Waits (Function.update procs i proc) q ↔ Waits procs q := by
  rw [Waits, Function.update_of_ne h]
  rfl

theorem Matched.congr (h : Matched next procs responses gone line)
    (hline : ∀ p, p ∈ line' ↔ p ∈ line) : Matched next procs responses gone line' where
  unanswered p := (hline p).trans (h.unanswered p)
  distinct := h.distinct
  early := h.early
  sent := h.sent

theorem Matched.later (h : Matched next procs responses gone line) (hnext : next ≤ next') :
    Matched next' procs responses gone line where
  unanswered := h.unanswered
  distinct := h.distinct
  early p hp := Nat.lt_of_lt_of_le (h.early p hp) hnext
  sent r hr := ⟨Nat.lt_of_lt_of_le (h.sent r hr).1 hnext, (h.sent r hr).2⟩

/-- A request of the line is answered. -/
theorem Matched.answer (h : Matched next procs responses gone line) (hp : p ∈ line)
    {resp : Response} (hok : resp.ok = true) :
    Matched next procs (responses ++ [(p.reply, resp)]) gone (line.filter (fun q => q ≠ p)) where
  unanswered q := by
    obtain ⟨hwaits, _⟩ := (h.unanswered p).mp hp
    rw [List.mem_filter, decide_eq_true_eq, h.unanswered q, List.forall_mem_append,
      List.forall_mem_singleton]
    constructor
    · rintro ⟨⟨hq, hnone⟩, hne⟩
      exact ⟨hq, hnone, fun heq => hne (h.distinct p q hwaits hq heq).symm⟩
    · rintro ⟨hq, hnone, hreply⟩
      exact ⟨⟨hq, hnone⟩, fun heq => hreply (heq ▸ rfl)⟩
  distinct := h.distinct
  early := h.early
  sent := by
    rw [List.forall_mem_append, List.forall_mem_singleton]
    exact ⟨h.sent, h.early p ((h.unanswered p).mp hp).1, Or.inl hok⟩

/-- A running process sends a request. -/
theorem Matched.send (h : Matched next procs responses gone line) {req : Request}
    {k : Response → Startup} (hi : ∀ p, Waits procs p → p.id ≠ i) :
    Matched (next + 1) (Function.update procs i (some (.waiting req next k))) responses gone
      (line ++ [⟨i, req, next⟩]) := by
  have hself : Waits (Function.update procs i (some (.waiting req next k))) ⟨i, req, next⟩ :=
    ⟨k, Function.update_self ..⟩
  have hcases : ∀ q, Waits (Function.update procs i (some (.waiting req next k))) q →
      q = ⟨i, req, next⟩ ∨ Waits procs q ∧ q.id ≠ i := by
    intro q hq
    by_cases hid : q.id = i
    · exact Or.inl (hq.eq_of_id hself hid)
    · exact Or.inr ⟨(waits_update_of_ne hid).mp hq, hid⟩
  constructor
  · intro q
    rw [List.mem_append, List.mem_singleton, h.unanswered q]
    constructor
    · rintro (⟨hq, hnone⟩ | rfl)
      · exact ⟨(waits_update_of_ne (hi q hq)).mpr hq, hnone⟩
      · exact ⟨hself, fun r hr => Nat.ne_of_lt (h.sent r hr).1⟩
    · rintro ⟨hq, hnone⟩
      rcases hcases q hq with rfl | ⟨hold, _⟩
      · exact Or.inr rfl
      · exact Or.inl ⟨hold, hnone⟩
  · intro q q' hq hq' hreply
    rcases hcases q hq with rfl | ⟨hold, _⟩
    · rcases hcases q' hq' with rfl | ⟨hold', _⟩
      · rfl
      · exact absurd hreply.symm (Nat.ne_of_lt (h.early q' hold'))
    · rcases hcases q' hq' with rfl | ⟨hold', _⟩
      · exact absurd hreply (Nat.ne_of_lt (h.early q hold))
      · exact h.distinct q q' hold hold' hreply
  · intro q hq
    rcases hcases q hq with rfl | ⟨hold, _⟩
    · exact Nat.lt_succ_self next
    · exact Nat.lt_succ_of_lt (h.early q hold)
  · exact fun r hr => ⟨Nat.lt_succ_of_lt (h.sent r hr).1, (h.sent r hr).2⟩

/-- A process starts, goes on with an answer or is gone; its requests leave the line. -/
theorem Matched.put (h : Matched next procs responses gone line) (proc : Option Proc)
    (hproc : ∀ req reply k, proc ≠ some (.waiting req reply k)) (leaving : List Pending)
    (hleaving : ∀ p, p ∈ leaving ↔ p ∈ line ∧ p.id = i) :
    Matched next (Function.update procs i proc)
      (responses ++ leaving.map (fun p => (p.reply, Worker.sessionClosed))) (gone ++ leaving)
      (line.filter (fun p => p.id ≠ i)) := by
  have hcases : ∀ q, Waits (Function.update procs i proc) q ↔ Waits procs q ∧ q.id ≠ i := by
    intro q
    by_cases hid : q.id = i
    · refine iff_of_false ?_ (fun hq => hq.2 hid)
      rintro ⟨k, hk⟩
      rw [hid, Function.update_self] at hk
      exact hproc _ _ _ hk
    · rw [waits_update_of_ne hid, and_iff_left hid]
  constructor
  · intro q
    rw [List.mem_filter, decide_eq_true_eq, h.unanswered q, hcases, List.forall_mem_append]
    constructor
    · rintro ⟨⟨hq, hnone⟩, hid⟩
      refine ⟨⟨hq, hid⟩, hnone, ?_⟩
      intro r hr heq
      obtain ⟨p, hp, rfl⟩ := List.mem_map.mp hr
      obtain ⟨hline, hpid⟩ := (hleaving p).mp hp
      obtain rfl := h.distinct p q ((h.unanswered p).mp hline).1 hq heq
      exact hid hpid
    · rintro ⟨⟨hq, hid⟩, hnone, _⟩
      exact ⟨⟨hq, hnone⟩, hid⟩
  · exact fun q q' hq hq' => h.distinct q q' ((hcases q).mp hq).1 ((hcases q').mp hq').1
  · exact fun q hq => h.early q ((hcases q).mp hq).1
  · intro r hr
    rcases List.mem_append.mp hr with hold | hnew
    · obtain ⟨hearly, hok | ⟨hclosed, p, hp, hreply⟩⟩ := h.sent r hold
      · exact ⟨hearly, Or.inl hok⟩
      · exact ⟨hearly, Or.inr ⟨hclosed, p, List.mem_append_left _ hp, hreply⟩⟩
    · obtain ⟨p, hp, rfl⟩ := List.mem_map.mp hnew
      exact ⟨h.early p ((h.unanswered p).mp ((hleaving p).mp hp).1).1,
        Or.inr ⟨rfl, p, List.mem_append_right _ hp, rfl⟩⟩

/-- A process without a request in the line starts or goes on. -/
theorem Matched.running (h : Matched next procs responses gone line)
    (hline : ∀ p ∈ line, p.id ≠ i) (left : Startup) :
    Matched next (Function.update procs i (some (.running left))) responses gone line := by
  have hput := h.put (i := i) (some (.running left)) (fun req reply k heq => by cases heq) []
    (fun p => iff_of_false List.not_mem_nil (fun hp => hline p hp.1 hp.2))
  rw [List.map_nil, List.append_nil, List.append_nil] at hput
  exact hput.congr (fun p => ⟨fun hp => List.mem_filter.mpr ⟨hp, decide_eq_true (hline p hp)⟩,
    fun hp => (List.mem_filter.mp hp).1⟩)

end Matching

section Pools

def pool (procs : SessionId → Option Proc) (responses : List (Chan × Response)) (s : Ledger)
    (own : SessionId → Option Txn) :
    Pool SessionId Request Response (Except String ℕ × ProxyDb) Ledger Txn :=
  ⟨s, fun i => (procs i).map (fun proc => (proc.rest responses, own i))⟩

/-- A start that has come to its end has been through all migrations. -/
def Ended (result : Except String ℕ × ProxyDb) (s : Ledger) (own : Option Txn) : Prop :=
  result.2.closed = false ∧ Reached 4 result.1 s own

variable {next : Chan} {procs : SessionId → Option Proc} {responses : List (Chan × Response)}
  {gone line : List Pending} {s s' : Ledger} {own : SessionId → Option Txn} {i : SessionId}
  {p : Pending}

theorem rest_append {proc : Proc} {more : List (Chan × Response)}
    (h : ∀ req reply k, proc = .waiting req reply k → ∀ r ∈ more, r.1 ≠ reply) :
    proc.rest (responses ++ more) = proc.rest responses := by
  cases proc with
  | running p => rfl
  | waiting req reply k =>
    have hnone : more.find? (fun r => r.1 = reply) = none := by
      rw [List.find?_eq_none]
      exact fun r hr heq => h req reply k rfl r hr (of_decide_eq_true heq)
    rw [Proc.rest, Proc.rest, List.find?_append, hnone, Option.or_none]

theorem pool_append {more : List (Chan × Response)}
    (h : ∀ p, Waits procs p → ∀ r ∈ more, r.1 ≠ p.reply) :
    pool procs (responses ++ more) s own = pool procs responses s own := by
  unfold pool
  congr 1
  funext i
  refine Option.map_congr (fun proc hproc => ?_)
  rw [rest_append]
  rintro req reply k rfl
  exact h ⟨i, req, reply⟩ ⟨k, hproc⟩

theorem pool_update (proc : Option Proc) (t : Option Txn) :
    pool (Function.update procs i proc) responses s (Function.update own i t) =
      (pool procs responses s own).put i (proc.map (fun proc => (proc.rest responses, t))) := by
  unfold pool Pool.put
  congr 1
  funext j
  by_cases hj : j = i
  · subst hj
    rw [Function.update_self, Function.update_self, Function.update_self]
  · rw [Function.update_of_ne hj, Function.update_of_ne hj, Function.update_of_ne hj]

/-- The next step of a process whose request has no answer is that request. -/
theorem Matched.asks (h : Matched next procs responses gone line) (hp : p ∈ line) (s : Ledger)
    (own : SessionId → Option Txn) :
    ∃ k, procs p.id = some (.waiting p.req p.reply k) ∧
      (pool procs responses s own).clients p.id = some (.ask p.req k, own p.id) := by
  obtain ⟨⟨k, hk⟩, hnone⟩ := (h.unanswered p).mp hp
  refine ⟨k, hk, ?_⟩
  have hfind : responses.find? (fun r => r.1 = p.reply) = none := by
    rw [List.find?_eq_none]
    exact fun r hr heq => hnone r hr (of_decide_eq_true heq)
  change (procs p.id).map (fun proc => (proc.rest responses, own p.id)) = _
  rw [hk, Option.map_some, Proc.rest, hfind]

/-- The pool after the answer to a request of the line. -/
theorem Matched.pool_answer (h : Matched next procs responses gone line) (hp : p ∈ line)
    {k : Response → Startup} (hk : procs p.id = some (.waiting p.req p.reply k)) (resp : Response)
    (t : Option Txn) :
    pool procs (responses ++ [(p.reply, resp)]) s' (Function.update own p.id t) =
      Pool.put { pool procs responses s own with shared := s' } p.id (some (k resp, t)) := by
  obtain ⟨hwaits, hnone⟩ := (h.unanswered p).mp hp
  unfold pool Pool.put
  congr 1
  funext j
  by_cases hj : j = p.id
  · subst hj
    have hfind : responses.find? (fun r => r.1 = p.reply) = none := by
      rw [List.find?_eq_none]
      exact fun r hr heq => hnone r hr (of_decide_eq_true heq)
    rw [Function.update_self, Function.update_self, hk, Option.map_some, Proc.rest,
      List.find?_append, hfind]
    simp
  · rw [Function.update_of_ne hj, Function.update_of_ne hj]
    refine Option.map_congr (fun proc hproc => ?_)
    rw [rest_append]
    rintro req reply k' rfl r hr heq
    rw [List.mem_singleton.mp hr] at heq
    exact hj (congrArg Pending.id (h.distinct p ⟨j, req, reply⟩ hwaits ⟨k', hproc⟩ heq).symm)

end Pools

section Answers

variable {S : Sqlite} {R : Reading S} {w : Worker S} {p : Pending} {s s' : Ledger}
  {own : SessionId → Option Txn} {t t' : Option Txn} {out : Out}

/-- A request of the store can be dispatched. -/
theorem dispatch_of_run (hrun : store.run p.req s t = some (out, s', t')) :
    p.req.isClose = false ∧ ∃ w', w.dispatch p = .ok w' := by
  have hreq : p.req.isClose = false ∧ Panics.Fits (sqlOf p.req) := by
    obtain ⟨sql, cmds, hreq, hscript, _⟩ | ⟨m, rows, db, hreq, _⟩ := store_cases hrun
    · rw [hreq]
      exact ⟨rfl, script_fits hscript⟩
    · rw [hreq]
      exact ⟨rfl, script_fits (script_count m)⟩
  exact ⟨hreq.1, (dispatch_ok_iff w p hreq.1).mpr hreq.2⟩

/-- The journal of a request of the store. -/
theorem serve_journal {j : Journal} (hj : j.committed.map Prod.snd = s.journal)
    (hcurrent : j.current p.id = t.map Txn.texts)
    (hrun : store.run p.req s t = some (out, s', t')) :
    (j.serve p).committed.map Prod.snd = s'.journal ∧
      (j.serve p).current = Function.update j.current p.id (t'.map Txn.texts) := by
  obtain ⟨sql, cmds, hreq, hscript, hexec⟩ | ⟨m, rows, db, hreq, _, _, rfl, rfl⟩ :=
    store_cases hrun
  · obtain ⟨rows, _, _, hrecord⟩ := runScript_eq_some hexec
    rw [← hj, ← hcurrent] at hrecord
    rw [Journal.serve, hreq]
    exact exec_record hrecord
  · rw [Journal.serve, hreq]
    refine ⟨hj, ?_⟩
    rw [← hcurrent, Function.update_eq_self]

/-- What the engine does for a request of the store. -/
structure Answered (R : Reading S) (w : Worker S) (p : Pending) (out : Out) (s' : Ledger)
    (t t' : Option Txn) : Prop where
  fits : Migrations.Fits (w.answer p).1 out
  shows : ∃ conn, (w.answer p).2.sessions = Function.update w.sessions p.id (some conn) ∧
    R.Shows (w.answer p).2.file conn ⟨s'.schema, t'.map Txn.schema⟩
  keeps : isExec p.req = true → w.keeps p = t'.isSome
  still : isExec p.req = false → t' = t

theorem answered {conn : S.Conn} (hS : Obeys R) (hconn : w.sessions p.id = some conn)
    (hshows : R.Shows w.file conn ⟨s.schema, t.map Txn.schema⟩)
    (hrun : store.run p.req s t = some (out, s', t')) : Answered R w p out s' t t' := by
  obtain ⟨sql, cmds, hreq, hscript, hexec⟩ | ⟨m, rows, db, hreq, hcount, rfl, rfl, rfl⟩ :=
    store_cases hrun
  · obtain ⟨rows, hall, rfl, _⟩ := runScript_eq_some hexec
    obtain ⟨hok, hrows, hwidth, hmode, hleft⟩ := hS.execute hscript hshows hall
    have hanswer : w.answer p = ((execute S w.file conn sql []).result,
        w.setConn p.id (execute S w.file conn sql []).file
          (some (execute S w.file conn sql []).conn)) := by
      rw [answer_exec hreq, Worker.execResponse, hconn]
    refine ⟨?_, ?_, ?_, ?_⟩
    · rw [hanswer]
      exact ⟨hok, hrows, hwidth⟩
    · rw [hanswer]
      exact ⟨_, rfl, hleft⟩
    · intro _
      rw [Worker.keeps, hanswer]
      dsimp only
      rw [hmode, Option.isNone_map, Option.not_isNone]
    · intro hexec
      rw [hreq] at hexec
      cases hexec
  · have hmeta := hS.prepareMeta hshows hcount
    have hanswer : w.answer p = w.prepareResponse p.id (Boot.countVersion m.version) :=
      answer_prepare hreq
    rw [Worker.prepareResponse, hconn] at hanswer
    dsimp only at hmeta hanswer
    -- the outcome is not to be computed
    generalize prepareMeta S w.file conn (Boot.countVersion m.version) = out at hmeta hanswer
    obtain ⟨hok, hempty, htail, hcolumns, _, hleft⟩ := hmeta
    refine ⟨?_, ?_, ?_, fun _ => rfl⟩
    · rw [hanswer]
      exact ⟨hok, hempty, htail, hcolumns⟩
    · rw [hanswer]
      exact ⟨_, rfl, hleft⟩
    · intro hexec
      rw [hreq] at hexec
      cases hexec

/-- The store and the transactions that a worker stands for. -/
structure Reads (R : Reading S) (w : Worker S) (s : Ledger) (own : SessionId → Option Txn) :
    Prop where
  schema : R.schema w.file = s.schema
  writer : R.writer w.file = w.holder.isSome
  journal : (journal w).committed.map Prod.snd = s.journal
  owns : ∀ i, (w.sessions i).bind R.own = (own i).map Txn.schema
  texts : ∀ i, (BootRace.journal w).current i = (own i).map Txn.texts

/-- The holder is the one that has a transaction. -/
theorem Reads.held (h : Reads R w s own) (hS : Obeys R) (hex : Exclusive w) (i : SessionId) :
    w.holder = some i ↔ (own i).isSome = true := by
  rw [hex i, ← Option.isSome_map, ← h.owns i, InTransaction]
  cases w.sessions i with
  | none => simp
  | some conn => simp [hS.autocommit]

theorem Reads.shows {conn : S.Conn} {i : SessionId} (h : Reads R w s own) (hS : Obeys R)
    (hex : Exclusive w) (hfree : w.holder = none ∨ w.holder = some i)
    (hconn : w.sessions i = some conn) :
    R.Shows w.file conn ⟨s.schema, (own i).map Txn.schema⟩ := by
  have howns := h.owns i
  rw [hconn] at howns
  refine ⟨h.schema, ?_, howns⟩
  rw [h.writer, Option.isSome_map]
  have hheld := h.held hS hex i
  rcases hfree with hnone | hown
  · rw [hnone] at hheld ⊢
    cases hi : (own i).isSome with
    | false => rfl
    | true => cases hheld.mpr hi
  · rw [hheld.mp hown, hown]
    rfl

theorem settled_isSome {holder : Option SessionId} {i : SessionId}
    (hfree : holder = none ∨ holder = some i) (keeps : Bool) :
    (settled holder i keeps).isSome = keeps := by
  rcases hfree with rfl | rfl <;> cases keeps <;> simp [settled]

/-- A dispatch in the store. -/
theorem Reads.served {w' : Worker S} (h : Reads R w s own) (hS : Obeys R) (hex : Exclusive w)
    (hfree : w.holder = none ∨ w.holder = some p.id) (resumed : Bool)
    (hpresent : w.present p.id = true) (hrun : store.run p.req s (own p.id) = some (out, s', t'))
    (hserved : Served (w.noteDispatch p resumed) p w') :
    Migrations.Fits (((w.noteDispatch p resumed).answer p).1) out ∧
      Reads R w' s' (Function.update own p.id t') := by
  obtain ⟨conn, hconn⟩ := Option.isSome_iff_exists.mp hpresent
  have hshows := h.shows hS hex hfree hconn
  have hanswer : Answered R (w.noteDispatch p resumed) p out s' (own p.id) t' :=
    answered hS hconn hshows hrun
  obtain ⟨conn', hsessions, hleft⟩ := hanswer.shows
  obtain ⟨hcommitted, hcurrent⟩ := serve_journal h.journal (h.texts p.id) hrun
  have hjournal : BootRace.journal w' = (BootRace.journal w).serve p :=
    (journal_served hserved).trans (journal_dispatch w p resumed)
  have hholder : w'.holder = if isExec p.req then settled w.holder p.id _ else w.holder :=
    hserved.holder
  have hheld : w'.holder.isSome = t'.isSome := by
    rw [hholder]
    by_cases hexec : isExec p.req = true
    · rw [if_pos hexec, settled_isSome hfree, hanswer.keeps hexec]
    · rw [if_neg hexec, hanswer.still (by simpa using hexec), ← h.writer, hshows.writer,
        Option.isSome_map]
  refine ⟨hanswer.fits, ?_, ?_, ?_, ?_, ?_⟩
  · rw [hserved.file]
    exact hleft.committed
  · rw [hserved.file, hheld, hleft.writer, Option.isSome_map]
  · rw [hjournal]
    exact hcommitted
  · intro i
    rw [hserved.sessions, hsessions]
    by_cases hi : i = p.id
    · subst hi
      rw [Function.update_self, Function.update_self]
      exact hleft.own
    · rw [Function.update_of_ne hi, Function.update_of_ne hi]
      exact h.owns i
  · intro i
    rw [hjournal, hcurrent]
    by_cases hi : i = p.id
    · subst hi
      rw [Function.update_self, Function.update_self]
    · rw [Function.update_of_ne hi, Function.update_of_ne hi]
      exact h.texts i

end Answers

section Steps

variable {S : Sqlite} {R : Reading S} {next : Chan} {w w' : Worker S}
  {procs : SessionId → Option Proc} {line : List Pending} {s : Ledger}
  {own : SessionId → Option Txn} {p : Pending} {i : SessionId}

/-- The worker and its processes while the requests of `line` have no answer. -/
structure Kept (R : Reading S) (next : Chan) (w : Worker S) (procs : SessionId → Option Proc)
    (line : List Pending) (s : Ledger) (own : SessionId → Option Txn) : Prop where
  reads : Reads R w s own
  matched : Matched next procs w.responses w.thrownOut line
  present : ∀ i, w.present i = (procs i).isSome
  stage : ∃ k, At k s
  good : (pool procs w.responses s own).Good store Ended

theorem Kept.unseen (h : Kept R next w procs line s own) (hfile : w'.file = w.file)
    (hsessions : w'.sessions = w.sessions) (hholder : w'.holder = w.holder)
    (hjournal : journal w' = journal w) (hresponses : w'.responses = w.responses)
    (hgone : w'.thrownOut = w.thrownOut) : Kept R next w' procs line s own := by
  refine ⟨?_, ?_, ?_, h.stage, ?_⟩
  · have hreads := h.reads
    constructor
    · rw [hfile]
      exact hreads.schema
    · rw [hfile, hholder]
      exact hreads.writer
    · rw [hjournal]
      exact hreads.journal
    · rw [hsessions]
      exact hreads.owns
    · rw [hjournal]
      exact hreads.texts
  · rw [hresponses, hgone]
    exact h.matched
  · intro i
    rw [Worker.present, hsessions]
    exact h.present i
  · rw [hresponses]
    exact h.good

theorem fits_ok {resp : Response} {out : Out} (h : Migrations.Fits resp out) : resp.ok = true := by
  cases out with
  | ran width rows => exact h.1
  | compiled sql => exact h.1

/-- No other process has a transaction while the worker dispatches a request. -/
theorem Kept.free (h : Kept R next w procs line s own) (hS : Obeys R) (hex : Exclusive w)
    (hfree : w.holder = none ∨ w.holder = some i) :
    (pool procs w.responses s own).Free i := by
  intro j p t hj hclient
  obtain ⟨proc, _, heq⟩ := Option.map_eq_some_iff.mp hclient
  obtain rfl := (Prod.mk.inj heq).2
  cases hown : own j with
  | none => rfl
  | some txn =>
    have hheld : w.holder = some j := (h.reads.held hS hex j).mpr (by rw [hown]; rfl)
    rcases hfree with hnone | hi
    · rw [hnone] at hheld
      cases hheld
    · rw [hi] at hheld
      exact absurd (Option.some.inj hheld).symm hj

/-- What the store says of a request that is dispatched. -/
theorem Kept.run (h : Kept R next w procs line s own) (hS : Obeys R) (hex : Exclusive w)
    (hp : p ∈ line) (hfree : w.holder = none ∨ w.holder = some p.id) :
    ∃ out s' t', store.run p.req s (own p.id) = some (out, s', t') ∧ s ≤ s' ∧
      ∀ resp, Migrations.Fits resp out →
        (pool procs (w.responses ++ [(p.reply, resp)]) s' (Function.update own p.id t')).Good
          store Ended := by
  obtain ⟨k, hk, hclient⟩ := h.matched.asks hp s own
  obtain ⟨out, s', t', hrun, hle, hgood⟩ := h.good.answer hclient (h.free hS hex hfree)
  refine ⟨out, s', t', hrun, hle, ?_⟩
  intro resp hresp
  rw [h.matched.pool_answer hp hk]
  exact hgood resp hresp

theorem Kept.dispatch (h : Kept R next w procs line s own) (hS : Obeys R) (hex : Exclusive w)
    (hp : p ∈ line) (hfree : w.holder = none ∨ w.holder = some p.id) (resumed : Bool) :
    ∃ w', (w.noteDispatch p resumed).dispatch p = .ok w' := by
  obtain ⟨out, s', t', hrun, _⟩ := h.run hS hex hp hfree
  exact (dispatch_of_run hrun).2

/-- A request of the line is served. -/
theorem Kept.served (h : Kept R next w procs line s own) (hS : Obeys R) (hex : Exclusive w)
    (hp : p ∈ line) (hfree : w.holder = none ∨ w.holder = some p.id) (resumed : Bool)
    (hdispatch : (w.noteDispatch p resumed).dispatch p = .ok w') :
    ∃ s' own', s ≤ s' ∧ Kept R next w' procs (line.filter (fun q => q ≠ p)) s' own' := by
  obtain ⟨out, s', t', hrun, hle, hgood⟩ := h.run hS hex hp hfree
  obtain ⟨k, hk, _⟩ := h.matched.asks hp s own
  have hreq := (dispatch_of_run (w := w) hrun).1
  have hserved := dispatch_ok hreq hdispatch
  have hpresent : w.present p.id = true := by rw [h.present, hk, Option.isSome_some]
  obtain ⟨hfits, hreads⟩ := h.reads.served hS hex hfree resumed hpresent hrun hserved
  have hresponses : w'.responses =
      w.responses ++ [(p.reply, ((w.noteDispatch p resumed).answer p).1)] := by
    rw [hserved.responses, Worker.noteDispatch, responses_note]
    exact congrArg (· ++ _) (List.append_nil _)
  have hgone : w'.thrownOut = w.thrownOut :=
    (thrownOut_served hserved).trans (thrownOut_dispatch w p resumed)
  refine ⟨s', Function.update own p.id t', hle, hreads, ?_, ?_, ?_, ?_⟩
  · rw [hresponses, hgone]
    exact h.matched.answer hp (fits_ok hfits)
  · intro j
    rw [present_served hreq hserved]
    exact h.present j
  · obtain ⟨k, hat⟩ := h.stage
    obtain ⟨k', _, hat'⟩ := hle k hat
    exact ⟨k', hat'⟩
  · rw [hresponses]
    exact hgood _ hfits

/-- What holds between two jobs, the parts of the store aside. -/
structure Idle (R : Reading S) (next : Chan) (w : Worker S) (procs : SessionId → Option Proc)
    (s : Ledger) : Prop where
  isolated : Isolated w
  orderly : Orderly w
  kept : ∃ own, Kept R next w procs w.pending s own

/-- A resumed request leaves the queue. -/
theorem Idle.resumed {rest : List Pending} (h : Idle R next w procs s) (hS : Obeys R)
    (hnone : w.holder = none) (hpending : w.pending = p :: rest)
    (hdispatch : (resume w p rest).dispatch p = .ok w') :
    ∃ s', s ≤ s' ∧ Idle R next w' procs s' := by
  obtain ⟨own, hkept⟩ := h.kept
  have hreq := h.isolated.queued.head hpending
  have hrest : Kept R next { w with pending := rest } procs w.pending s own :=
    hkept.unseen rfl rfl rfl rfl rfl rfl
  have hex : Exclusive { w with pending := rest } := h.isolated.exclusive.unseen rfl rfl
  have hmem : p ∈ w.pending := by
    rw [hpending]
    exact List.mem_cons_self ..
  obtain ⟨s', own', hle, hkept'⟩ := hrest.served hS hex hmem (Or.inl hnone) true hdispatch
  have hserved := dispatch_ok hreq hdispatch
  have hline : w'.pending = w.pending.filter (fun q => q ≠ p) := by
    have hdistinct := h.orderly.distinct.of_map
    rw [hpending, List.nodup_cons] at hdistinct
    rw [hserved.pending, hpending, List.filter_cons_of_neg (by simp)]
    refine (List.filter_eq_self.mpr fun q hq => ?_).symm
    exact decide_eq_true (fun heq => hdistinct.1 (heq ▸ hq))
  refine ⟨s', hle, isolated_next h.isolated hnone hpending hdispatch,
    orderly_next h.orderly hnone hpending hreq hdispatch, own', ?_⟩
  rw [hline]
  exact hkept'

/-- The pump serves requests of the queue and never panics. -/
theorem Idle.pump (h : Idle R next w procs s) (hS : Obeys R) :
    ∃ w', w.pump = .ok w' ∧ AtRest w' ∧ ∃ s', s ≤ s' ∧ Idle R next w' procs s' := by
  have hnext : ∀ v p rest v', (∃ s', s ≤ s' ∧ Idle R next v procs s') → v.holder = none →
      v.pending = p :: rest → (resume v p rest).dispatch p = .ok v' →
      ∃ s', s ≤ s' ∧ Idle R next v' procs s' := by
    rintro v p rest v' ⟨s₁, hle₁, hv⟩ hnone hpending hdispatch
    obtain ⟨s₂, hle₂, hv'⟩ := hv.resumed hS hnone hpending hdispatch
    exact ⟨s₂, le_trans hle₁ hle₂, hv'⟩
  cases hpump : w.pump with
  | ok w' =>
    obtain ⟨hidle, hrest⟩ := pump_rule hnext ⟨s, le_refl s, h⟩ hpump
    exact ⟨w', rfl, hrest, hidle⟩
  | error w' =>
    obtain ⟨v, p, rest, ⟨s', _, hv⟩, hnone, hpending, hpanic⟩ :=
      pump_error hnext ⟨s, le_refl s, h⟩ hpump
    obtain ⟨own, hkept⟩ := hv.kept
    have hrest : Kept R next { v with pending := rest } procs v.pending s' own :=
      hkept.unseen rfl rfl rfl rfl rfl rfl
    have hmem : p ∈ v.pending := by
      rw [hpending]
      exact List.mem_cons_self ..
    obtain ⟨v', hok⟩ := hrest.dispatch hS (hv.isolated.exclusive.unseen rfl rfl) hmem
      (Or.inl hnone) true
    rw [show (Worker.noteDispatch { v with pending := rest } p true).dispatch p = _ from hpanic]
      at hok
    cases hok

end Steps

section Jobs

variable {S : Sqlite} {R : Reading S} {next : Chan} {w w' : Worker S}
  {procs : SessionId → Option Proc} {line : List Pending} {s : Ledger}
  {own : SessionId → Option Txn} {i : SessionId}

theorem Kept.own_eq_none (h : Kept R next w procs line s own) (hi : procs i = none) :
    own i = none := by
  have hpresent := h.present i
  rw [hi, Worker.present, Option.isSome_none, Option.isSome_eq_false_iff, Option.isNone_iff_eq_none]
    at hpresent
  have howns := h.reads.owns i
  rw [hpresent, Option.bind_none] at howns
  exact Option.map_eq_none_iff.mp howns.symm

theorem openAttempts_reads (hS : Obeys R) (n : ℕ) (last : Option String) (f : S.File) :
    R.schema (openAttempts S n last f).2 = R.schema f ∧
      R.writer (openAttempts S n last f).2 = R.writer f := by
  induction n generalizing last f with
  | zero => exact ⟨rfl, rfl⟩
  | succ n ih =>
    obtain ⟨hschema, hwriter⟩ := hS.opened f
    unfold openAttempts
    split
    · next conn f' hopen =>
      have hmode := hS.autocommit conn
      rw [S.open_autocommit f conn (by rw [hopen])] at hmode
      rw [hopen] at hschema hwriter
      split
      · exact ⟨hschema, hwriter⟩
      · obtain ⟨hclosed, hleft⟩ := hS.closed f' conn
        rw [← hmode, Bool.and_true] at hleft
        exact ⟨hclosed.trans hschema, hleft.trans hwriter⟩
    · next err f' hopen =>
      rw [hopen] at hschema hwriter
      split
      · obtain ⟨hmore, hmoreWriter⟩ := ih (some err) f'
        exact ⟨hmore.trans hschema, hmoreWriter.trans hwriter⟩
      · exact ⟨hschema, hwriter⟩

/-- A new session has no transaction. -/
theorem Reads.opened (h : Reads R w s own) (hS : Obeys R) (hown : own i = none) (reply : Chan) :
    Reads R (w.openSession i reply) s own := by
  obtain ⟨hschema, hwriter⟩ := openAttempts_reads hS 50 none w.file
  have hunmoved := openSession_unmoved w i reply
  have hjournal := journal_same hunmoved.labels
  have hfile : (w.openSession i reply).file = (openStorage S w.file).2 := by
    unfold Worker.openSession
    split <;> next heq => rw [heq]; rfl
  have hsessions : ∀ j, ((w.openSession i reply).sessions j).bind R.own =
      (own j).map Txn.schema := by
    intro j
    rcases openSession_cases w i reply with ⟨conn, f, hmode, hopen⟩ | ⟨err, f, hopen⟩
    · rw [hopen, Worker.note_sessions, Worker.setConn_sessions]
      by_cases hj : j = i
      · subst hj
        have hnone : R.own conn = none := by
          rw [hS.autocommit] at hmode
          exact Option.isNone_iff_eq_none.mp hmode
        rw [Function.update_self, hown]
        exact hnone
      · rw [Function.update_of_ne hj]
        exact h.owns j
    · rw [hopen]
      exact h.owns j
  refine ⟨?_, ?_, ?_, hsessions, ?_⟩
  · rw [hfile]
    exact hschema.trans h.schema
  · rw [hfile, hunmoved.holder]
    exact hwriter.trans h.writer
  · rw [hjournal]
    exact h.journal
  · rw [hjournal]
    exact h.texts

/-- A session that goes leaves the committed schema as it is. -/
theorem Reads.dropped (h : Reads R w s own) (hS : Obeys R) (hex : Exclusive w) (i : SessionId) :
    Reads R (w.dropSession i) s (Function.update own i none) := by
  have hfile : (w.dropSession i).file = w.closeFile i := by
    unfold Worker.dropSession
    rw [Worker.release_file]
    rfl
  have hheld := h.held hS hex i
  refine ⟨?_, ?_, ?_, ?_, ?_⟩
  · rw [hfile, Worker.closeFile, ← h.schema]
    cases w.sessions i with
    | none => rfl
    | some conn => exact (hS.closed w.file conn).1
  · rw [hfile, Worker.dropSession_holder]
    have howns := h.owns i
    rw [Worker.closeFile]
    cases hconn : w.sessions i with
    | none =>
      rw [hconn, Option.bind_none] at howns
      rw [Option.map_eq_none_iff.mp howns.symm] at hheld
      rw [if_neg (by simp [hheld])]
      exact h.writer
    | some conn =>
      rw [hconn] at howns
      change R.own conn = _ at howns
      dsimp only
      rw [(hS.closed w.file conn).2, howns, Option.isNone_map, h.writer]
      by_cases hi : w.holder = some i
      · rw [if_pos hi, Option.isNone_eq_false_iff.mpr (hheld.mp hi), Bool.and_false]
        rfl
      · have hnone : (own i).isNone = true := by
          cases hown : own i with
          | none => rfl
          | some txn => exact absurd (hheld.mpr (by rw [hown]; rfl)) hi
        rw [if_neg hi, hnone, Bool.and_true]
  · rw [journal_dropSession]
    exact h.journal
  · intro j
    rw [Worker.dropSession_sessions]
    by_cases hj : j = i
    · subst hj
      rw [Function.update_self, Function.update_self]
      rfl
    · rw [Function.update_of_ne hj, Function.update_of_ne hj]
      exact h.owns j
  · intro j
    rw [journal_dropSession]
    by_cases hj : j = i
    · subst hj
      simp
    · rw [Function.update_of_ne hj]
      exact (Function.update_of_ne hj ..).trans (h.texts j)

theorem responses_openSession (w : Worker S) (i : SessionId) (reply : Chan) :
    (w.openSession i reply).responses = w.responses :=
  (openSession_unmoved w i reply).responses

/-- A process whose session has been opened starts. -/
theorem Kept.opened (h : Kept R next w procs line s own) (hS : Obeys R) (hi : procs i = none)
    (hline : ∀ p ∈ line, p.id ≠ i) (floats : FloatText) (reply : Chan)
    (hpresent : (w.openSession i reply).present i = true) :
    Kept R next (w.openSession i reply)
      (Function.update procs i (some (.running ((startup floats).run .connected)))) line s own := by
  have hown := h.own_eq_none hi
  have hresponses := responses_openSession w i reply
  refine ⟨h.reads.opened hS hown reply, ?_, ?_, h.stage, ?_⟩
  · rw [hresponses, thrownOut_openSession]
    exact h.matched.running hline _
  · intro j
    by_cases hj : j = i
    · subst hj
      rw [hpresent, Function.update_self]
      rfl
    · rw [Function.update_of_ne hj, ← h.present j, present_openSession, decide_eq_false hj,
        Bool.false_and, Bool.or_false]
  · rw [hresponses, ← Function.update_eq_self i own, pool_update]
    refine h.good.put ?_
    rintro p t heq
    obtain ⟨k, hat⟩ := h.stage
    cases heq
    rw [hown]
    exact (goes_startup floats hat).safe .connected rfl

/-- A session that is refused changes nothing else. -/
theorem Kept.refused (h : Kept R next w procs line s own) (hS : Obeys R) (hi : procs i = none)
    (reply : Chan) (hpresent : (w.openSession i reply).present i = false) :
    Kept R next (w.openSession i reply) procs line s own := by
  have hresponses := responses_openSession w i reply
  refine ⟨h.reads.opened hS (h.own_eq_none hi) reply, ?_, ?_, h.stage, ?_⟩
  · rw [hresponses, thrownOut_openSession]
    exact h.matched
  · intro j
    by_cases hj : j = i
    · subst hj
      rw [hpresent, hi]
      rfl
    · rw [← h.present j, present_openSession, decide_eq_false hj, Bool.false_and, Bool.or_false]
  · rw [hresponses]
    exact h.good

/-- A process is lost with the transaction it has begun. -/
theorem Kept.dropped (h : Kept R next w procs w.pending s own) (hS : Obeys R)
    (hex : Exclusive w) (i : SessionId) (reply : Chan) :
    Kept R next ((w.dropSession i).note [.sentDrop reply]) (Function.update procs i none)
      (w.dropSession i).pending s (Function.update own i none) := by
  have hput := h.matched.put none (fun req reply k heq => by cases heq) (ofSession w i)
    (fun p => by rw [ofSession, List.mem_filter, decide_eq_true_eq])
  have hkept : Kept R next (w.dropSession i) (Function.update procs i none)
      (w.dropSession i).pending s (Function.update own i none) := by
    refine ⟨h.reads.dropped hS hex i, ?_, ?_, h.stage, ?_⟩
    · rw [responses_dropSession, thrownOut_dropSession, Worker.dropSession_pending]
      exact hput
    · intro j
      rw [present_dropSession, h.present j]
      by_cases hj : j = i
      · simp [hj]
      · simp [hj]
    · rw [responses_dropSession, pool_append, pool_update]
      · exact h.good.put (fun p t heq => by cases heq)
      · intro p hp r hr heq
        obtain ⟨q, hq, rfl⟩ := List.mem_map.mp hr
        obtain ⟨hline, hid⟩ := List.mem_filter.mp hq
        have hpi : p.id ≠ i := by
          intro hpi
          obtain ⟨k, hk⟩ := hp
          rw [hpi, Function.update_self] at hk
          cases hk
        have hold := (waits_update_of_ne hpi).mp hp
        obtain rfl := h.matched.distinct q p ((h.matched.unanswered q).mp hline).1 hold heq
        exact hpi (of_decide_eq_true hid)
  have hlabels : ((w.dropSession i).note [.sentDrop reply]).labels = (w.dropSession i).labels := by
    simp [Mark.label]
  exact hkept.unseen rfl rfl rfl (journal_same hlabels) (by simp [Mark.response])
    (by rw [Worker.thrownOut, hlabels, Worker.thrownOut])

/-- A running process sends its next request. -/
theorem Kept.sent (h : Kept R next w procs line s own) {req : Request} {k : Response → Startup}
    (hi : procs i = some (.running (.ask req k))) :
    Kept R (next + 1) w (Function.update procs i (some (.waiting req next k)))
      (line ++ [⟨i, req, next⟩]) s own := by
  have hidle : ∀ p, Waits procs p → p.id ≠ i := by
    rintro p ⟨k', hk'⟩ hid
    rw [hid, hi] at hk'
    cases hk'
  refine ⟨h.reads, h.matched.send hidle, ?_, h.stage, ?_⟩
  · intro j
    by_cases hj : j = i
    · subst hj
      rw [h.present j, hi, Function.update_self]
      rfl
    · rw [Function.update_of_ne hj]
      exact h.present j
  · have hrest : (Proc.waiting req next k).rest w.responses = .ask req k := by
      have hfind : w.responses.find? (fun r => r.1 = next) = none := by
        rw [List.find?_eq_none]
        exact fun r hr heq =>
          absurd (of_decide_eq_true heq) (Nat.ne_of_lt (h.matched.sent r hr).1)
      rw [Proc.rest, hfind]
    rw [← Function.update_eq_self i own, pool_update]
    refine h.good.put ?_
    rintro p t heq
    rw [Option.map_some, hrest] at heq
    cases heq
    refine h.good i (.ask req k) (own i) ?_
    change (procs i).map (fun proc => (proc.rest w.responses, own i)) = _
    rw [hi]
    rfl

/-- A process receives the answer to its request. -/
theorem Kept.received (h : Kept R next w procs line s own) {req : Request} {reply : Chan}
    {k : Response → Startup} (hi : procs i = some (.waiting req reply k)) {r : Chan × Response}
    (hr : w.responses.find? (fun r => r.1 = reply) = some r) :
    Kept R next w (Function.update procs i (some (.running (k r.2)))) line s own := by
  have hwaits : Waits procs ⟨i, req, reply⟩ := ⟨k, hi⟩
  have hline : ∀ p ∈ line, p.id ≠ i := by
    intro p hp hid
    obtain ⟨hp, hnone⟩ := (h.matched.unanswered p).mp hp
    obtain rfl := hp.eq_of_id hwaits hid
    have hreply := List.find?_some hr
    exact hnone r (List.mem_of_find?_eq_some hr) (of_decide_eq_true hreply)
  refine ⟨h.reads, h.matched.running hline _, ?_, h.stage, ?_⟩
  · intro j
    by_cases hj : j = i
    · subst hj
      rw [h.present j, hi, Function.update_self]
      rfl
    · rw [Function.update_of_ne hj]
      exact h.present j
  · rw [← Function.update_eq_self i own, pool_update]
    refine h.good.put ?_
    rintro p t heq
    cases heq
    refine h.good i (k r.2) (own i) ?_
    change (procs i).map (fun proc => (proc.rest w.responses, own i)) = _
    rw [hi, Option.map_some, Proc.rest, hr]

end Jobs

section Runs

abbrev Steps {S : Sqlite} (floats : FloatText) (s : Fleet S) (a : Action) (s' : Fleet S) : Prop :=
  s.step floats a = some s'

variable {S : Sqlite} {R : Reading S} {floats : FloatText} {s s' : Fleet S} {l : Ledger}
  {i : SessionId}

/-- What holds of the broker and its processes after every action. -/
structure Inv (R : Reading S) (s : Fleet S) (l : Ledger) : Prop where
  alive : s.alive = true
  rest : AtRest s.worker
  idle : Idle R s.nextReply s.worker s.procs l
  fresh : ∀ i, s.nextSession ≤ i → s.procs i = none

theorem Kept.later {next next' : Chan} {w : Worker S} {procs : SessionId → Option Proc}
    {line : List Pending} {own : SessionId → Option Txn} (h : Kept R next w procs line l own)
    (hnext : next ≤ next') : Kept R next' w procs line l own :=
  ⟨h.reads, h.matched.later hnext, h.present, h.stage, h.good⟩

theorem Idle.absent {next : Chan} {w : Worker S} {procs : SessionId → Option Proc}
    (h : Idle R next w procs l) (hi : procs i = none) :
    w.sessions i = none ∧ ∀ p ∈ w.pending, p.id ≠ i := by
  obtain ⟨own, hkept⟩ := h.kept
  constructor
  · have hpresent := hkept.present i
    rwa [hi, Worker.present, Option.isSome_none, Option.isSome_eq_false_iff,
      Option.isNone_iff_eq_none] at hpresent
  · rintro p hp rfl
    obtain ⟨⟨k, hk⟩, _⟩ := (hkept.matched.unanswered p).mp hp
    rw [hi] at hk
    cases hk

/-- The broker after a job that leaves `w` for the pump. -/
theorem Idle.job {w : Worker S} {procs : SessionId → Option Proc}
    (h : Idle R (s.nextReply + 1) w procs l) (hS : Obeys R) (j : Job)
    (hhandle : s.worker.handle j = w.pump) :
    ∃ w' l', s.job j = { s with worker := w', nextReply := s.nextReply + 1 } ∧ l ≤ l' ∧
      AtRest w' ∧ Idle R (s.nextReply + 1) w' procs l' := by
  obtain ⟨w', hpump, hrest, l', hle, hidle⟩ := h.pump hS
  refine ⟨w', l', ?_, hle, hrest, hidle⟩
  rw [Fleet.job, hhandle, hpump]

theorem Inv.entered (h : Inv R s l) (hsession : s.worker.sessions s.nextSession = none) :
    Isolated (s.worker.openSession s.nextSession s.nextReply) ∧
      Orderly (s.worker.openSession s.nextSession s.nextReply) := by
  have henter : Enters s.worker (.openConn s.nextSession s.nextReply)
      (s.worker.openSession s.nextSession s.nextReply) := .openConn _ _
  have hfresh : Fresh s.worker (.openConn s.nextSession s.nextReply) := hsession
  have hproper : Proper s.worker (.openConn s.nextSession s.nextReply) := hsession
  exact ⟨isolated_enters h.idle.isolated h.rest hfresh henter,
    orderly_enters h.idle.orderly hproper henter⟩

/-- A process whose session is opened starts. -/
theorem Inv.joined (h : Inv R s l) (hS : Obeys R) (floats : FloatText)
    (hpresent : (s.worker.openSession s.nextSession s.nextReply).present s.nextSession = true) :
    ∃ w' l', s.join floats = Fleet.put
        { s with worker := w', nextReply := s.nextReply + 1, nextSession := s.nextSession + 1 }
        s.nextSession (some (.running ((startup floats).run .connected))) ∧
      l ≤ l' ∧ Inv R (s.join floats) l' := by
  obtain ⟨own, hkept⟩ := h.idle.kept
  have hnone := h.fresh s.nextSession (Nat.le_refl _)
  obtain ⟨hsession, hline⟩ := h.idle.absent hnone
  obtain ⟨hisolated, horderly⟩ := h.entered hsession
  have hpending := (openSession_unmoved s.worker s.nextSession s.nextReply).pending
  have hopened := (hkept.opened hS hnone hline floats s.nextReply hpresent).later
    (Nat.le_succ s.nextReply)
  have hentered : Idle R (s.nextReply + 1) _ _ l :=
    ⟨hisolated, horderly, own, by rw [hpending]; exact hopened⟩
  obtain ⟨w', l', hjob, hle, hrest, hidle⟩ := hentered.job hS (.openConn _ _) rfl
  have hjoin : s.join floats = Fleet.put
      { s with worker := w', nextReply := s.nextReply + 1, nextSession := s.nextSession + 1 }
      s.nextSession (some (.running ((startup floats).run .connected))) := by
    obtain ⟨own', hkept'⟩ := hidle.kept
    have hthere : w'.present s.nextSession = true := by
      rw [hkept'.present, Function.update_self]
      rfl
    rw [Fleet.join, hjob]
    exact if_pos hthere
  refine ⟨w', l', hjoin, hle, ?_⟩
  rw [hjoin]
  refine ⟨h.alive, hrest, hidle, ?_⟩
  intro i hi
  exact (Function.update_of_ne (Nat.ne_of_gt hi) ..).trans (h.fresh i (Nat.le_of_succ_le hi))

/-- A process whose session is refused does not start. -/
theorem Inv.turnedAway (h : Inv R s l) (hS : Obeys R) (floats : FloatText)
    (hpresent : (s.worker.openSession s.nextSession s.nextReply).present s.nextSession = false) :
    ∃ l', l ≤ l' ∧ Inv R (s.join floats) l' := by
  obtain ⟨own, hkept⟩ := h.idle.kept
  have hnone := h.fresh s.nextSession (Nat.le_refl _)
  obtain ⟨hisolated, horderly⟩ := h.entered (h.idle.absent hnone).1
  have hpending := (openSession_unmoved s.worker s.nextSession s.nextReply).pending
  have hrefused := (hkept.refused hS hnone s.nextReply hpresent).later (Nat.le_succ s.nextReply)
  have hentered : Idle R (s.nextReply + 1) _ _ l :=
    ⟨hisolated, horderly, own, by rw [hpending]; exact hrefused⟩
  obtain ⟨w', l', hjob, hle, hrest, hidle⟩ := hentered.job hS (.openConn _ _) rfl
  have hjoin : s.join floats =
      { s with worker := w', nextReply := s.nextReply + 1, nextSession := s.nextSession + 1 } := by
    obtain ⟨own', hkept'⟩ := hidle.kept
    have hthere : ¬ w'.present s.nextSession = true := by
      rw [hkept'.present, hnone]
      exact Bool.false_ne_true
    rw [Fleet.join, hjob]
    exact if_neg hthere
  rw [hjoin]
  exact ⟨l', hle, h.alive, hrest, hidle, fun i hi => h.fresh i (Nat.le_of_succ_le hi)⟩

theorem Inv.join (h : Inv R s l) (hS : Obeys R) (floats : FloatText) :
    ∃ l', l ≤ l' ∧ Inv R (s.join floats) l' := by
  cases hpresent : (s.worker.openSession s.nextSession s.nextReply).present s.nextSession with
  | true =>
    obtain ⟨w', l', _, hle, hinv⟩ := h.joined hS floats hpresent
    exact ⟨l', hle, hinv⟩
  | false => exact h.turnedAway hS floats hpresent

theorem Inv.lose (h : Inv R s l) (hS : Obeys R) (i : SessionId) :
    ∃ l', l ≤ l' ∧ Inv R ((s.job (.drop i s.nextReply)).put i none) l' := by
  obtain ⟨own, hkept⟩ := h.idle.kept
  have henter : Enters s.worker (.drop i s.nextReply)
      ((s.worker.dropSession i).note [.sentDrop s.nextReply]) := .drop _ _
  have hfresh : Fresh s.worker (.drop i s.nextReply) := trivial
  have hproper : Proper s.worker (.drop i s.nextReply) := trivial
  have hisolated := isolated_enters h.idle.isolated h.rest hfresh henter
  have horderly := orderly_enters h.idle.orderly hproper henter
  have hdropped := (hkept.dropped hS h.idle.isolated.exclusive i s.nextReply).later
    (Nat.le_succ s.nextReply)
  have hentered : Idle R (s.nextReply + 1) _ _ l := ⟨hisolated, horderly, _, hdropped⟩
  obtain ⟨w', l', hjob, hle, hrest, hidle⟩ := hentered.job hS (.drop i s.nextReply) rfl
  rw [hjob]
  refine ⟨l', hle, h.alive, hrest, hidle, ?_⟩
  intro j hj
  by_cases hji : j = i
  · subst hji
    exact Function.update_self ..
  · exact (Function.update_of_ne hji ..).trans (h.fresh j hj)

/-- A running process asks nothing that ends its session. -/
theorem Kept.open_request {next : Chan} {w : Worker S} {procs : SessionId → Option Proc}
    {line : List Pending} {own : SessionId → Option Txn} (h : Kept R next w procs line l own)
    {req : Request} {k : Response → Startup} (hi : procs i = some (.running (.ask req k))) :
    req.isClose = false := by
  have hclient : (pool procs w.responses l own).clients i = some (.ask req k, own i) := by
    change (procs i).map (fun proc => (proc.rest w.responses, own i)) = _
    rw [hi]
    rfl
  obtain ⟨out, l', t', hrun, _⟩ := h.good i _ _ hclient l (.refl l _)
  exact (dispatch_of_run (w := w) (p := ⟨i, req, next⟩) hrun).1

/-- A running process has a session and no request in the queue. -/
theorem Idle.proper {next : Chan} {w : Worker S} {procs : SessionId → Option Proc}
    (h : Idle R next w procs l) {left : Startup} (hi : procs i = some (.running left)) :
    w.present i = true ∧ i ∉ w.pending.map Pending.id := by
  obtain ⟨own, hkept⟩ := h.kept
  refine ⟨by rw [hkept.present, hi, Option.isSome_some], ?_⟩
  intro hmem
  obtain ⟨p, hp, rfl⟩ := List.mem_map.mp hmem
  obtain ⟨⟨k, hk⟩, _⟩ := (hkept.matched.unanswered p).mp hp
  rw [hi] at hk
  cases hk

/-- A request is queued while another session holds the transaction. -/
theorem Idle.queued {next : Chan} {w : Worker S} {procs : SessionId → Option Proc}
    (h : Idle R next w procs l) (hrest : AtRest w) {req : Request} {k : Response → Startup}
    (hi : procs i = some (.running (.ask req k))) {j : SessionId} (hheld : w.holder = some j)
    (hne : j ≠ i) :
    AtRest (enqueue w ⟨i, req, next⟩) ∧ Idle R (next + 1) (enqueue w ⟨i, req, next⟩)
      (Function.update procs i (some (.waiting req next k))) l := by
  obtain ⟨own, hkept⟩ := h.kept
  have henter : Enters w (.req i req next) (enqueue w ⟨i, req, next⟩) :=
    .queue ⟨i, req, next⟩ j (hkept.open_request hi) hheld hne
  have hfresh : Fresh w (.req i req next) := trivial
  have hproper : Proper w (.req i req next) := fun _ => h.proper hi
  refine ⟨fun hnone => ?_, isolated_enters h.isolated hrest hfresh henter,
    orderly_enters h.orderly hproper henter, own, ?_⟩
  · rw [show (enqueue w ⟨i, req, next⟩).holder = w.holder from rfl, hheld] at hnone
    cases hnone
  · have hsent := hkept.sent hi
    refine hsent.unseen rfl rfl rfl ?_ ?_ (thrownOut_enqueue w _)
    · rw [journal_append (labels_enqueue w ⟨i, req, next⟩)]
      rfl
    · rw [enqueue, responses_note]
      exact List.append_nil _

/-- A request that need not wait is served at once. -/
theorem Idle.passed {next : Chan} {w : Worker S} {procs : SessionId → Option Proc}
    (h : Idle R next w procs l) (hS : Obeys R) (hrest : AtRest w) {req : Request}
    {k : Response → Startup} (hi : procs i = some (.running (.ask req k)))
    (hfree : w.holder = none ∨ w.holder = some i) :
    ∃ w' l', (w.noteDispatch ⟨i, req, next⟩ false).dispatch ⟨i, req, next⟩ = .ok w' ∧ l ≤ l' ∧
      Idle R (next + 1) w' (Function.update procs i (some (.waiting req next k))) l' := by
  obtain ⟨own, hkept⟩ := h.kept
  have hreq := hkept.open_request hi
  have hsent := hkept.sent hi
  have hmem : (⟨i, req, next⟩ : Pending) ∈ w.pending ++ [⟨i, req, next⟩] := by simp
  have hex := h.isolated.exclusive
  obtain ⟨w', hdispatch⟩ := hsent.dispatch hS hex hmem hfree false
  obtain ⟨l', own', hle, hkept'⟩ := hsent.served hS hex hmem hfree false hdispatch
  have henter : Enters w (.req i req next) w' := .pass ⟨i, req, next⟩ w' hreq hfree hdispatch
  have hfresh : Fresh w (.req i req next) := trivial
  have hproper : Proper w (.req i req next) := fun _ => h.proper hi
  refine ⟨w', l', hdispatch, hle, isolated_enters h.isolated hrest hfresh henter,
    orderly_enters h.orderly hproper henter, own', ?_⟩
  have hpending : w'.pending = w.pending := (dispatch_ok hreq hdispatch).pending
  rw [hpending]
  have hnot : (⟨i, req, next⟩ : Pending) ∉ w.pending := by
    intro hold
    exact (h.proper hi).2 (List.mem_map_of_mem hold)
  refine { hkept' with matched := hkept'.matched.congr (fun q => ?_) }
  rw [List.mem_filter, List.mem_append, List.mem_singleton, decide_eq_true_eq]
  constructor
  · exact fun hq => ⟨Or.inl hq, fun heq => hnot (heq ▸ hq)⟩
  · rintro ⟨hq | hq, hne⟩
    · exact hq
    · exact absurd hq hne

theorem Inv.send (h : Inv R s l) (hS : Obeys R) {req : Request} {k : Response → Startup}
    (hi : s.procs i = some (.running (.ask req k))) :
    ∃ l', l ≤ l' ∧ Inv R ((s.job (.req i req s.nextReply)).put i
      (some (.waiting req s.nextReply k))) l' := by
  obtain ⟨own, hkept⟩ := h.idle.kept
  have hhandle := handle_request s.worker ⟨i, req, s.nextReply⟩ (hkept.open_request hi)
  have hfresh : ∀ j, s.nextSession ≤ j →
      Function.update s.procs i (some (.waiting req s.nextReply k)) j = none := by
    intro j hj
    have hnone := h.fresh j hj
    have hji : j ≠ i := by
      rintro rfl
      rw [hi] at hnone
      cases hnone
    rw [Function.update_of_ne hji, hnone]
  cases hheld : s.worker.heldByOther i with
  | true =>
    obtain ⟨j, hj, hne⟩ := (heldByOther_iff s.worker i).mp hheld
    obtain ⟨hrest, hidle⟩ := h.idle.queued h.rest hi hj hne
    rw [if_pos hheld] at hhandle
    have hjob : s.job (.req i req s.nextReply) =
        { s with worker := enqueue s.worker ⟨i, req, s.nextReply⟩,
                 nextReply := s.nextReply + 1 } := by
      rw [Fleet.job, hhandle]
    rw [hjob]
    exact ⟨l, le_refl l, h.alive, hrest, hidle, hfresh⟩
  | false =>
    obtain ⟨w', l₁, hdispatch, hle₁, hidle₁⟩ :=
      h.idle.passed hS h.rest hi (heldByOther_false hheld)
    rw [if_neg (by rw [hheld]; exact Bool.false_ne_true), hdispatch] at hhandle
    obtain ⟨w₂, l₂, hjob, hle₂, hrest, hidle₂⟩ := hidle₁.job hS (.req i req s.nextReply) hhandle
    rw [hjob]
    exact ⟨l₂, le_trans hle₁ hle₂, h.alive, hrest, hidle₂, hfresh⟩

theorem Inv.receive (h : Inv R s l) {req : Request} {reply : Chan} {k : Response → Startup}
    (hi : s.procs i = some (.waiting req reply k)) {r : Chan × Response}
    (hr : s.worker.responses.find? (fun r => r.1 = reply) = some r) :
    Inv R (s.put i (some (.running (k r.2)))) l := by
  obtain ⟨own, hkept⟩ := h.idle.kept
  refine ⟨h.alive, h.rest, ⟨h.idle.isolated, h.idle.orderly, own, hkept.received hi hr⟩, ?_⟩
  intro j hj
  have hnone := h.fresh j hj
  have hji : j ≠ i := by
    rintro rfl
    rw [hi] at hnone
    cases hnone
  exact (Function.update_of_ne hji ..).trans hnone

/-- One action moves the store on. -/
theorem Inv.step (h : Inv R s l) (hS : Obeys R) {a : Action} (hstep : s.step floats a = some s') :
    ∃ l', l ≤ l' ∧ Inv R s' l' := by
  unfold Fleet.step at hstep
  rw [if_pos h.alive] at hstep
  cases a with
  | join =>
    cases hstep
    exact h.join hS floats
  | send i =>
    dsimp only at hstep
    split at hstep
    · next req k hi =>
      cases hstep
      exact h.send hS hi
    · cases hstep
  | receive i =>
    dsimp only at hstep
    split at hstep
    · next req reply k hi =>
      obtain ⟨r, hr, rfl⟩ := Option.map_eq_some_iff.mp hstep
      exact ⟨l, le_refl l, h.receive hi hr⟩
    · cases hstep
  | lose i =>
    obtain ⟨proc, _, rfl⟩ := Option.map_eq_some_iff.mp hstep
    exact h.lose hS i

theorem Inv.run (h : Inv R s l) (hS : Obeys R) {acts : List Action}
    (hrun : Trace (Steps floats) s acts s') :
    ∃ l', l ≤ l' ∧ Inv R s' l' := by
  refine hrun.invariant (P := fun s => ∃ l', l ≤ l' ∧ Inv R s l') ?_ ⟨l, le_refl l, h⟩
  rintro s₁ a s₂ ⟨l₁, hle₁, h₁⟩ hstep
  obtain ⟨l₂, hle₂, h₂⟩ := h₁.step hS hstep
  exact ⟨l₂, le_trans hle₁ hle₂, h₂⟩

theorem inv_new {f : S.File} (hempty : R.schema f = .empty) (hidle : R.writer f = false) :
    Inv R (Fleet.new f) ⟨.empty, []⟩ := by
  have hreads : Reads R (Worker.new f) ⟨.empty, []⟩ (fun _ => none) :=
    ⟨hempty, hidle, rfl, fun _ => rfl, fun _ => rfl⟩
  have hmatched : Matched 0 (fun _ => none) (Worker.new f).responses [] [] := by
    refine ⟨fun p => iff_of_false List.not_mem_nil ?_, ?_, ?_, ?_⟩
    · rintro ⟨⟨k, hk⟩, _⟩
      cases hk
    · rintro p p' ⟨k, hk⟩
      cases hk
    · rintro p ⟨k, hk⟩
      cases hk
    · exact fun r hr => absurd hr List.not_mem_nil
  have hstage : At 0 ⟨.empty, []⟩ := ⟨Nat.zero_le 4, rfl, fun m => rfl⟩
  refine ⟨rfl, fun _ => rfl, ⟨isolated_new f, orderly_new f, fun _ => none, ?_⟩, fun _ _ => rfl⟩
  exact ⟨hreads, hmatched, fun _ => rfl, ⟨0, hstage⟩, fun i p t hclient => by cases hclient⟩

/-- The journal has each migration at most once, and exactly once at the last stage. -/
theorem Inv.commits (h : Inv R s l) (m : Migration) :
    ((journal s.worker).commits m).length ≤ 1 ∧
      (At 4 l → ((journal s.worker).commits m).length = 1) := by
  obtain ⟨own, hkept⟩ := h.idle.kept
  obtain ⟨k, hat⟩ := hkept.stage
  have hcount := hat.once m
  rw [← hkept.reads.journal] at hcount
  have hle := length_commits_le (journal s.worker) m
  have hone : (if m.version < k then 1 else 0) ≤ 1 := by split <;> decide
  refine ⟨by omega, ?_⟩
  intro hlast
  have hlastCount := hlast.once m
  have hversion : m.version < 4 := by cases m <;> decide
  rw [if_pos hversion, ← hkept.reads.journal] at hlastCount
  have hpos := commits_pos (m := m) (j := journal s.worker) (by omega)
  omega

/-- A start that is over has gone well, holds no transaction, and has left the store at the
last stage. -/
theorem Inv.finished (h : Inv R s l) (hS : Obeys R) {result : Except String ℕ}
    (hi : s.Finished i result) :
    s.worker.holder ≠ some i ∧ (∃ n, result = .ok n) ∧ At 4 l := by
  obtain ⟨own, hkept⟩ := h.idle.kept
  obtain ⟨db, hdb⟩ := hi
  have hclient : (pool s.procs s.worker.responses l own).clients i =
      some (.done (result, db), own i) := by
    change (s.procs i).map (fun proc => (proc.rest s.worker.responses, own i)) = _
    rw [hdb]
    rfl
  obtain ⟨_, hnone, hok, k, hk, hat⟩ := hkept.good i _ _ hclient l (.refl l _)
  obtain rfl : k = 4 := Nat.le_antisymm hat.bound hk
  refine ⟨fun hheld => ?_, hok, hat⟩
  have hsome := (hkept.reads.held hS h.idle.isolated.exclusive i).mp hheld
  rw [hnone] at hsome
  cases hsome

/-- The last stage is never left. -/
theorem Inv.migrated (h : Inv R s l) {l₀ : Ledger} (hat : At 4 l₀) (hle : l₀ ≤ l) :
    At 4 l ∧ R.schema s.worker.file =
      ⟨some [(1, "base tables"), (2, "add item.seen"), (3, "index item.seen")],
        true, true, true, true, true, true⟩ := by
  obtain ⟨k, hk, hat'⟩ := hle 4 hat
  obtain rfl : k = 4 := Nat.le_antisymm hat'.bound hk
  obtain ⟨own, hkept⟩ := h.idle.kept
  exact ⟨hat', hkept.reads.schema.trans hat'.schema⟩

/-- An action is at most one job of the worker, on a reply channel of its own. The job ends a
session when that session is lost. -/
theorem Inv.takes (h : Inv R s l) {a : Action} (hstep : Steps floats s a s') :
    (s'.worker = s.worker ∧ s'.nextReply = s.nextReply) ∨
    ∃ j, s'.worker = Worker.memory (s.worker.handle j) ∧ j.reply = s.nextReply ∧
      s'.nextReply = s.nextReply + 1 ∧ (j.ends = true → a = .lose j.session) := by
  have hjob : ∀ j, (s.job j).worker = Worker.memory (s.worker.handle j) ∧
      (s.job j).nextReply = s.nextReply + 1 := by
    intro j
    unfold Fleet.job
    cases s.worker.handle j <;> exact ⟨rfl, rfl⟩
  unfold Steps Fleet.step at hstep
  rw [if_pos h.alive] at hstep
  cases a with
  | join =>
    cases hstep
    obtain ⟨hworker, hnext⟩ := hjob (.openConn s.nextSession s.nextReply)
    refine Or.inr ⟨.openConn s.nextSession s.nextReply, ?_, rfl, ?_, fun hends => by cases hends⟩
    · rw [← hworker, Fleet.join]
      split <;> rfl
    · rw [← hnext, Fleet.join]
      split <;> rfl
  | send i =>
    dsimp only at hstep
    split at hstep
    · next req k hi =>
      cases hstep
      obtain ⟨own, hkept⟩ := h.idle.kept
      have hopen := hkept.open_request hi
      obtain ⟨hworker, hnext⟩ := hjob (.req i req s.nextReply)
      refine Or.inr ⟨.req i req s.nextReply, hworker, rfl, hnext, fun hends => ?_⟩
      rw [Job.ends, hopen] at hends
      cases hends
    · cases hstep
  | receive i =>
    dsimp only at hstep
    split at hstep
    · obtain ⟨r, _, rfl⟩ := Option.map_eq_some_iff.mp hstep
      exact Or.inl ⟨rfl, rfl⟩
    · cases hstep
  | lose i =>
    obtain ⟨proc, _, rfl⟩ := Option.map_eq_some_iff.mp hstep
    obtain ⟨hworker, hnext⟩ := hjob (.drop i s.nextReply)
    exact Or.inr ⟨.drop i s.nextReply, hworker, rfl, hnext, fun _ => rfl⟩

/-- The requests that are thrown out are those of sessions that have been lost. -/
theorem Inv.lost (h : Inv R s l) (hS : Obeys R) {acts : List Action}
    (hrun : Trace (Steps floats) s acts s') {p : Pending} (hp : p ∈ s'.worker.thrownOut) :
    p ∈ s.worker.thrownOut ∨ .lose p.id ∈ acts := by
  induction hrun generalizing l with
  | nil s => exact Or.inl hp
  | @cons s s₁ s' a rest hstep hrest ih =>
    obtain ⟨l₁, _, h₁⟩ := h.step hS hstep
    rcases ih h₁ hp with hold | hlater
    · rcases h.takes hstep with ⟨hworker, _⟩ | ⟨j, hworker, _, _, hends⟩
      · rw [hworker] at hold
        exact Or.inl hold
      · rw [hworker, thrownOut_handle h.idle.isolated.queued h.rest j] at hold
        rcases List.mem_append.mp hold with hearly | hnew
        · exact Or.inl hearly
        · split at hnew
          · next hlost =>
            obtain ⟨_, hid⟩ := List.mem_filter.mp hnew
            rw [of_decide_eq_true hid, hends hlost]
            exact Or.inr (List.mem_cons_self ..)
          · cases hnew
    · exact Or.inr (List.mem_cons_of_mem a hlater)

/-- No two requests have come with the same reply channel. -/
def Numbered (s : Fleet S) : Prop :=
  (s.worker.arrived.map Pending.reply).Nodup ∧ ∀ p ∈ s.worker.arrived, p.reply < s.nextReply

theorem Inv.numbered_step (h : Inv R s l) {a : Action} (hstep : Steps floats s a s')
    (hs : Numbered s) : Numbered s' := by
  obtain ⟨hnodup, hearly⟩ := hs
  rcases h.takes hstep with ⟨hworker, hnext⟩ | ⟨j, hworker, hreply, hnext, _⟩
  · rw [Numbered, hworker, hnext]
    exact ⟨hnodup, hearly⟩
  · obtain ⟨_, hrecorded⟩ := handle_history h.idle.isolated.queued h.rest j
    rw [Numbered, hworker, hnext, hrecorded.arrived]
    cases hreq : j.request with
    | none =>
      rw [Option.toList_none, List.append_nil]
      exact ⟨hnodup, fun p hp => Nat.lt_succ_of_lt (hearly p hp)⟩
    | some p =>
      have hlast : p.reply = s.nextReply := (request_reply hreq).trans hreply
      rw [Option.toList_some, List.map_append, List.map_singleton, List.nodup_append]
      refine ⟨⟨hnodup, List.nodup_singleton _, ?_⟩, ?_⟩
      · intro reply hmem reply' hmem'
        obtain ⟨q, hq, rfl⟩ := List.mem_map.mp hmem
        rw [List.mem_singleton.mp hmem', hlast]
        exact Nat.ne_of_lt (hearly q hq)
      · intro q hq
        rcases List.mem_append.mp hq with hold | hnew
        · exact Nat.lt_succ_of_lt (hearly q hold)
        · rw [List.mem_singleton.mp hnew, hlast]
          exact Nat.lt_succ_self _

theorem Inv.numbered_run (h : Inv R s l) (hS : Obeys R) {acts : List Action}
    (hrun : Trace (Steps floats) s acts s') (hs : Numbered s) : Numbered s' := by
  refine (hrun.invariant (P := fun s => (∃ l, Inv R s l) ∧ Numbered s) ?_ ⟨⟨l, h⟩, hs⟩).2
  rintro s₁ a s₂ ⟨⟨l₁, h₁⟩, hs₁⟩ hstep
  obtain ⟨l₂, _, h₂⟩ := h₁.step hS hstep
  exact ⟨⟨l₂, h₂⟩, h₁.numbered_step hstep hs₁⟩

/-- A request that has been dispatched has not failed. -/
theorem Inv.served_ok (h : Inv R s l) (hs : Numbered s) {p : Pending} (hp : p ∈ s.worker.served)
    {resp : Response} (hresp : (p.reply, resp) ∈ s.worker.responses) : resp.ok = true := by
  obtain ⟨own, hkept⟩ := h.idle.kept
  rcases (hkept.matched.sent _ hresp).2 with hok | ⟨_, q, hq, hreply⟩
  · exact hok
  · -- a request that is thrown out has another channel than one that is dispatched
    have hperm := (arrived_perm h.idle.isolated.queued.turnstile).map Pending.reply
    have hnodup := hperm.nodup_iff.mp hs.1
    rw [List.map_append, List.map_append] at hnodup
    have hapart := List.disjoint_of_nodup_append hnodup.of_append_left
    have hthrown : p.reply ∈ (s.worker.labels.flatMap Label.gone).map Pending.reply :=
      List.mem_map.mpr ⟨q, hq, hreply⟩
    exact absurd hthrown (hapart (List.mem_map_of_mem hp))

/-- Any number of processes start on an empty file, in any interleaving and with any of them lost
at any point. The broker goes on, no migration is committed twice, no answer is a failure but
those to sessions that are lost while they wait, and no start that comes to its end has failed;
from then on the file holds all three migrations, each committed once. -/
theorem migrations_once (hS : Obeys R) (floats : FloatText) {f : S.File}
    (hempty : R.schema f = .empty) (hidle : R.writer f = false) {acts later : List Action}
    (hrun : Trace (Steps floats) (Fleet.new f) acts s)
    (hlater : Trace (Steps floats) s later s') :
    s.alive = true ∧ (∀ m, ((journal s.worker).commits m).length ≤ 1) ∧
      (∀ r ∈ s.worker.responses, r.2.ok = true ∨ r.2 = Worker.sessionClosed ∧
        ∃ p ∈ s.worker.thrownOut, p.reply = r.1 ∧ .lose p.id ∈ acts) ∧
      ∀ i result, s.Finished i result → (∃ n, result = .ok n) ∧
        R.schema s'.worker.file =
          ⟨some [(1, "base tables"), (2, "add item.seen"), (3, "index item.seen")],
            true, true, true, true, true, true⟩ ∧
        ∀ m, ((journal s'.worker).commits m).length = 1 := by
  have hnew := inv_new hempty hidle
  obtain ⟨l, _, hinv⟩ := hnew.run hS hrun
  obtain ⟨l', hle, hinv'⟩ := hinv.run hS hlater
  refine ⟨hinv.alive, fun m => (hinv.commits m).1, ?_, ?_⟩
  · obtain ⟨own, hkept⟩ := hinv.idle.kept
    intro r hr
    rcases (hkept.matched.sent r hr).2 with hok | ⟨hclosed, p, hp, hreply⟩
    · exact Or.inl hok
    · rcases hnew.lost hS hrun hp with hnone | hlost
      · cases hnone
      · exact Or.inr ⟨hclosed, p, hp, hreply, hlost⟩
  · intro i result hi
    obtain ⟨_, hok, hat⟩ := hinv.finished hS hi
    obtain ⟨hat', hschema⟩ := hinv'.migrated hat hle
    exact ⟨hok, hschema, fun m => (hinv'.commits m).2 hat'⟩

/-- The versions are applied once. The text of a version is in the transaction of one worker at
most, no statement that is executed fails, the `ALTER TABLE` included, no start returns an error,
and after the first that returns the versions and their schema changes are all there. -/
theorem versions_applied_once (hS : Obeys R) (floats : FloatText) {f : S.File}
    (hempty : R.schema f = .empty) (hidle : R.writer f = false) {acts later : List Action}
    (hrun : Trace (Steps floats) (Fleet.new f) acts s)
    (hlater : Trace (Steps floats) s later s') :
    (∀ m, ((journal s.worker).commits m).length ≤ 1) ∧
      (∀ p ∈ s.worker.served, ∀ resp, (p.reply, resp) ∈ s.worker.responses → resp.ok = true) ∧
      (∀ i err, ¬ s.Finished i (.error err)) ∧
      ∀ i n, s.Finished i (.ok n) → R.schema s'.worker.file =
        ⟨some [(1, "base tables"), (2, "add item.seen"), (3, "index item.seen")],
          true, true, true, true, true, true⟩ := by
  have hnew := inv_new hempty hidle
  obtain ⟨l, _, hinv⟩ := hnew.run hS hrun
  obtain ⟨l', hle, hinv'⟩ := hinv.run hS hlater
  have hnumbered := hnew.numbered_run hS hrun ⟨List.nodup_nil, fun p hp => by cases hp⟩
  refine ⟨fun m => (hinv.commits m).1, fun p hp resp => hinv.served_ok hnumbered hp, ?_, ?_⟩
  · intro i err hi
    obtain ⟨_, ⟨n, hn⟩, _⟩ := hinv.finished hS hi
    cases hn
  · intro i n hi
    exact (hinv'.migrated (hinv.finished hS hi).2.2 hle).2

/-- The first request of a start. -/
theorem startup_asks (floats : FloatText) : ∃ k,
    (startup floats).run .connected = .ask (.exec Command.foreignKeys.sql []) k := by
  have hscript : script Command.foreignKeys.sql = some [.foreignKeys] :=
    script_single (by simp [scripts])
  have hsend : ∃ next : Except (Int32 × String) Response → Boot.Client (Except String Unit),
      Boot.exec floats Command.foreignKeys.sql =
        Boot.rpcCode (.exec Command.foreignKeys.sql []) >>= next := by
    unfold Boot.exec
    rw [BoundValues.cString_of_no_nul (script_no_nul hscript)]
    exact ⟨_, congrArg (fun text => Boot.rpcCode (.exec text []) >>= _) (sentText hscript)⟩
  obtain ⟨next, hnext⟩ := hsend
  have hclosed : ProxyDb.connected.closed = false := rfl
  unfold startup
  rw [show Boot.exec floats "PRAGMA foreign_keys = ON" = _ from hnext]
  simp only [StateT.run_bind, rpcCode_run hclosed, Prog.ask_bind]
  exact ⟨_, rfl⟩

/-- A request that finds nobody in its way is answered at once. -/
theorem Inv.answered_alone (h : Inv R s l) (hS : Obeys R) (floats : FloatText) {req : Request}
    {k : Response → Startup} (hi : s.procs i = some (.running (.ask req k)))
    (hpending : s.worker.pending = [])
    (hfree : s.worker.holder = none ∨ s.worker.holder = some i) :
    ∃ s' l' r, Steps floats s (.send i) s' ∧ l ≤ l' ∧ Inv R s' l' ∧
      s'.procs = Function.update s.procs i (some (.waiting req s.nextReply k)) ∧
      s'.worker.responses.find? (fun r => r.1 = s.nextReply) = some r ∧
      s'.worker.pending = [] ∧ (s'.worker.holder = none ∨ s'.worker.holder = some i) := by
  obtain ⟨l', hle, hinv⟩ := h.send hS hi
  obtain ⟨own, hkept⟩ := h.idle.kept
  have hreq := hkept.open_request hi
  obtain ⟨w', _, hdispatch, _⟩ := h.idle.passed hS h.rest hi hfree
  have hserved := dispatch_ok hreq hdispatch
  have hempty : w'.pending = [] := hserved.pending.trans hpending
  have hhandle : s.worker.handle (.req i req s.nextReply) = .ok w' := by
    rw [handle_request s.worker ⟨i, req, s.nextReply⟩ hreq,
      if_neg (by rw [heldByOther_of_free hfree]; decide), hdispatch]
    exact pump_of_empty hempty
  have hjob : s.job (.req i req s.nextReply) =
      { s with worker := w', nextReply := s.nextReply + 1 } := by
    rw [Fleet.job, hhandle]
  rw [hjob] at hinv
  -- the request is no longer in the line, so a response has its channel
  obtain ⟨own', hkept'⟩ := hinv.idle.kept
  have hwaits : Waits (Function.update s.procs i (some (.waiting req s.nextReply k)))
      ⟨i, req, s.nextReply⟩ := ⟨k, Function.update_self ..⟩
  obtain ⟨r, hr⟩ : ∃ r, w'.responses.find? (fun r => r.1 = s.nextReply) = some r := by
    cases hfind : w'.responses.find? (fun r => r.1 = s.nextReply) with
    | some r => exact ⟨r, rfl⟩
    | none =>
      have hline := (hkept'.matched.unanswered ⟨i, req, s.nextReply⟩).mpr ⟨hwaits, fun r hr heq =>
        List.find?_eq_none.mp hfind r hr (decide_eq_true heq)⟩
      rw [show (Fleet.put _ i _).worker.pending = w'.pending from rfl, hempty] at hline
      cases hline
  have hstep : s.step floats (.send i) = some
      ((s.job (.req i req s.nextReply)).put i (some (.waiting req s.nextReply k))) := by
    simp only [Fleet.step, h.alive, if_true, hi]
  have hfree' : w'.heldByOther i = false :=
    Exchanges.served_free (heldByOther_of_free hfree) hserved
  exact ⟨_, l', r, hstep.trans (congrArg (fun left => some (Fleet.put left i _)) hjob), hle, hinv,
    rfl, hr, hempty, heldByOther_false hfree'⟩

/-- A process that nobody keeps waiting comes to its end when it goes on alone. -/
theorem Inv.completes (hS : Obeys R) (floats : FloatText) {left : Startup} (h : Inv R s l)
    (hi : s.procs i = some (.running left)) (hpending : s.worker.pending = [])
    (hfree : s.worker.holder = none ∨ s.worker.holder = some i) :
    ∃ acts s' l' result, Trace (Steps floats) s acts s' ∧ Inv R s' l' ∧ s'.Finished i result ∧
      s'.worker.pending = [] ∧ s'.worker.holder = none ∧ ∀ j ≠ i, s'.procs j = s.procs j := by
  induction left generalizing s l with
  | done r =>
    have hfinished : s.Finished i r.1 := ⟨r.2, hi⟩
    refine ⟨[], s, l, r.1, .nil s, h, hfinished, hpending, ?_, fun j _ => rfl⟩
    exact hfree.resolve_right (h.finished hS hfinished).1
  | ask req k ih =>
    obtain ⟨s₁, l₁, r, hsend, _, h₁, hprocs, hr, hpending₁, hfree₁⟩ :=
      h.answered_alone hS floats hi hpending hfree
    have hwaiting : s₁.procs i = some (.waiting req s.nextReply k) := by
      rw [hprocs, Function.update_self]
    have hreceive : Steps floats s₁ (.receive i) (s₁.put i (some (.running (k r.2)))) := by
      unfold Steps Fleet.step
      simp only [h₁.alive, if_true, hwaiting]
      exact congrArg (Option.map _) hr
    obtain ⟨acts, s₂, l₂, result, hrun, h₂, hfinished, hpending₂, hfree₂, hothers⟩ :=
      ih r.2 (h₁.receive hwaiting hr) (Function.update_self ..) hpending₁ hfree₁
    refine ⟨_, s₂, l₂, result, .cons hsend (.cons hreceive hrun), h₂, hfinished, hpending₂, hfree₂,
      ?_⟩
    intro j hj
    rw [hothers j hj]
    change Function.update s₁.procs i _ j = s.procs j
    rw [Function.update_of_ne hj, hprocs, Function.update_of_ne hj]

/-- No request waits and no transaction is open. -/
def Calm (w : Worker S) : Prop := w.pending = [] ∧ w.holder = none

theorem Inv.joined_calm (h : Inv R s l) (hS : Obeys R) (floats : FloatText)
    (hpresent : (s.worker.openSession s.nextSession s.nextReply).present s.nextSession = true)
    (hcalm : Calm s.worker) : ∃ s' l', Steps floats s .join s' ∧ Inv R s' l' ∧ Calm s'.worker ∧
      s'.nextSession = s.nextSession + 1 ∧ s'.procs = Function.update s.procs s.nextSession
        (some (.running ((startup floats).run .connected))) := by
  obtain ⟨w', l', hjoin, _, hinv⟩ := h.joined hS floats hpresent
  have hopen := openSession_unmoved s.worker s.nextSession s.nextReply
  have hpump : (s.worker.openSession s.nextSession s.nextReply).pump = .ok _ :=
    pump_of_empty (hopen.pending.trans hcalm.1)
  have hworker : (s.join floats).worker = s.worker.openSession s.nextSession s.nextReply := by
    have hjob : (s.job (.openConn s.nextSession s.nextReply)).worker =
        s.worker.openSession s.nextSession s.nextReply := by
      rw [Fleet.job, show s.worker.handle (.openConn s.nextSession s.nextReply) = _ from hpump]
    rw [← hjob, Fleet.join]
    split <;> rfl
  refine ⟨s.join floats, l', if_pos h.alive, hinv, ?_, by rw [hjoin]; rfl, by rw [hjoin]; rfl⟩
  rw [hworker]
  exact ⟨hopen.pending.trans hcalm.1, hopen.holder.trans hcalm.2⟩

theorem Inv.lost_calm (h : Inv R s l) (hS : Obeys R) (floats : FloatText) {proc : Proc}
    (hi : s.procs i = some proc) (hpending : s.worker.pending = [])
    (hfree : s.worker.holder = none ∨ s.worker.holder = some i) :
    ∃ s' l', Steps floats s (.lose i) s' ∧ Inv R s' l' ∧ Calm s'.worker ∧
      s'.procs = Function.update s.procs i none := by
  obtain ⟨l', _, hinv⟩ := h.lose hS i
  have hempty : (s.worker.dropSession i).pending = [] := by
    rw [Worker.dropSession_pending, hpending]
    rfl
  have hnone : (s.worker.dropSession i).holder = none := by
    rw [Worker.dropSession_holder]
    rcases hfree with hnone | hown
    · rw [hnone]
      exact ite_self none
    · rw [if_pos hown]
  have hhandle : s.worker.handle (.drop i s.nextReply) =
      .ok ((s.worker.dropSession i).note [.sentDrop s.nextReply]) := pump_of_empty hempty
  refine ⟨_, l', ?_, hinv, ?_, ?_⟩
  · unfold Steps Fleet.step
    rw [if_pos h.alive]
    exact congrArg (Option.map _) hi
  · rw [Fleet.put, Fleet.job, hhandle]
    exact ⟨hempty, hnone⟩
  · rw [Fleet.put, Fleet.job, hhandle]

/-- A session is opened in the engine of schemas. -/
theorem schema_opens (w : Worker SchemaSqlite.engine) (i : SessionId) (reply : Chan) :
    (w.openSession i reply).present i = true := by
  have hopen : openStorage SchemaSqlite.engine w.file = (.ok ⟨none⟩, w.file) := rfl
  rw [present_openSession, hopen]
  simp [Except.isOk, Except.toBool]

/-- Two processes start and the second is lost with its first request. The first comes to its
end, and so does another one that starts later. -/
theorem race_runs (floats : FloatText) : ∃ acts later i n n',
    ∃ s s' : Fleet SchemaSqlite.engine,
      Trace (Steps floats) (Fleet.new (S := SchemaSqlite.engine) SchemaSqlite.newFile)
        ([.join, .join, .send 1, .lose 1] ++ acts) s ∧
      Trace (Steps floats) s (.join :: later) s' ∧ s.Finished 0 (.ok n) ∧ i ≠ 0 ∧
      s'.Finished i (.ok n') := by
  have hS := SchemaSqlite.obeys
  have hnew := inv_new (R := SchemaSqlite.reading) (f := SchemaSqlite.newFile) rfl rfl
  obtain ⟨k, hk⟩ := startup_asks floats
  obtain ⟨s₁, l₁, hjoin₁, h₁, hcalm₁, hnext₁, hprocs₁⟩ :=
    hnew.joined_calm hS floats (schema_opens _ _ _) ⟨rfl, rfl⟩
  obtain ⟨s₂, l₂, hjoin₂, h₂, hcalm₂, _, hprocs₂⟩ :=
    h₁.joined_calm hS floats (schema_opens _ _ _) hcalm₁
  have hsecond : s₂.procs 1 = some (.running (.ask (.exec Command.foreignKeys.sql []) k)) := by
    rw [hprocs₂, hnext₁, hk]
    exact Function.update_self ..
  obtain ⟨s₃, l₃, _, hsend, _, h₃, hprocs₃, _, hpending₃, hfree₃⟩ :=
    h₂.answered_alone hS floats hsecond hcalm₂.1 (Or.inl hcalm₂.2)
  obtain ⟨s₄, l₄, hlose, h₄, hcalm₄, hprocs₄⟩ :=
    h₃.lost_calm hS floats (by rw [hprocs₃]; exact Function.update_self ..) hpending₃ hfree₃
  have hfirst : s₄.procs 0 = some (.running ((startup floats).run .connected)) := by
    rw [hprocs₄, hprocs₃, hprocs₂, hprocs₁, hnext₁]
    rfl
  obtain ⟨acts, s₅, l₅, result, hrun, h₅, hfinished, hpending₅, hfree₅, _⟩ :=
    h₄.completes hS floats hfirst hcalm₄.1 (Or.inl hcalm₄.2)
  obtain ⟨_, ⟨n, rfl⟩, _⟩ := h₅.finished hS hfinished
  obtain ⟨s₆, l₆, hjoin₆, h₆, hcalm₆, _, hprocs₆⟩ :=
    h₅.joined_calm hS floats (schema_opens _ _ _) ⟨hpending₅, hfree₅⟩
  obtain ⟨later, s₇, l₇, result, hlater, h₇, hfinished₇, _⟩ :=
    h₆.completes hS floats (i := s₅.nextSession)
      (by rw [hprocs₆]; exact Function.update_self ..) hcalm₆.1 (Or.inl hcalm₆.2)
  obtain ⟨_, ⟨n', rfl⟩, _⟩ := h₇.finished hS hfinished₇
  -- the later start has a session of its own, since that of the first is taken
  have hother : s₅.nextSession ≠ 0 := by
    intro hzero
    obtain ⟨db, hdb⟩ := hfinished
    rw [h₅.fresh 0 (Nat.le_of_eq hzero)] at hdb
    cases hdb
  exact ⟨acts, later, s₅.nextSession, n, n', s₅, s₇,
    .cons hjoin₁ (.cons hjoin₂ (.cons hsend (.cons hlose hrun))), .cons hjoin₆ hlater, hfinished,
    hother, hfinished₇⟩

/-- The start of the first process ends, and the file has all migrations from then on. -/
theorem race_migrated : ∃ acts later, ∃ s s' : Fleet SchemaSqlite.engine, ∃ n,
    Trace (Steps StepCycle.noFloats) (Fleet.new (S := SchemaSqlite.engine) SchemaSqlite.newFile)
      ([.join, .join, .send 1, .lose 1] ++ acts) s ∧
    Trace (Steps StepCycle.noFloats) s (.join :: later) s' ∧ s.Finished 0 (.ok n) ∧
    s.alive = true ∧
    SchemaSqlite.reading.schema s'.worker.file =
      ⟨some [(1, "base tables"), (2, "add item.seen"), (3, "index item.seen")],
        true, true, true, true, true, true⟩ ∧
    ∀ m, ((journal s'.worker).commits m).length = 1 := by
  obtain ⟨acts, later, _, n, _, s, s', hrun, hlater, hfinished, _⟩ := race_runs StepCycle.noFloats
  obtain ⟨halive, _, _, hends⟩ :=
    migrations_once SchemaSqlite.obeys StepCycle.noFloats rfl rfl hrun hlater
  obtain ⟨_, hschema, honce⟩ := hends 0 (.ok n) hfinished
  exact ⟨acts, later, s, s', n, hrun, hlater, hfinished, halive, hschema, honce⟩

/-- Two starts end, and the second finds what the first has done. -/
theorem race_applied : ∃ acts later i n n', ∃ s s' : Fleet SchemaSqlite.engine,
    Trace (Steps StepCycle.noFloats) (Fleet.new (S := SchemaSqlite.engine) SchemaSqlite.newFile)
      ([.join, .join, .send 1, .lose 1] ++ acts) s ∧
    Trace (Steps StepCycle.noFloats) s (.join :: later) s' ∧ s.Finished 0 (.ok n) ∧ i ≠ 0 ∧
    s'.Finished i (.ok n') ∧ (∀ m, ((journal s'.worker).commits m).length ≤ 1) ∧
    SchemaSqlite.reading.schema s'.worker.file =
      ⟨some [(1, "base tables"), (2, "add item.seen"), (3, "index item.seen")],
        true, true, true, true, true, true⟩ := by
  obtain ⟨acts, later, i, n, n', s, s', hrun, hlater, hfinished, hother, hfinished'⟩ :=
    race_runs StepCycle.noFloats
  obtain ⟨hcommits, _, _, hends⟩ := versions_applied_once SchemaSqlite.obeys StepCycle.noFloats
    rfl rfl (hrun.append hlater) (.nil s')
  exact ⟨acts, later, i, n, n', s, s', hrun, hlater, hfinished, hother, hfinished', hcommits,
    hends i n' hfinished'⟩

end Runs

end SqliteBroker.ExactlyOnce
