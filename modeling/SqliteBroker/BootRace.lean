import SqliteBroker.Migrations
import SqliteBroker.Sessions

/-!
Load workers that start at one broker. Each is a process with a session of its own; it sends one
request at a time and goes on with the answer, in any interleaving with the others, and it may be
lost at any point. The worker thread of the broker decides who is served when. A journal, read off
its log, keeps the transactions that have been committed.
-/
namespace SqliteBroker.BootRace

open Messages Engine Execution BrokerWorker Turnstile WorkerLog ShimConnection Programs Migrations
open Schemas (Command)
open ShimStatement (FloatText)
open Boot (startup)

variable {S : Sqlite}

/-- What is left of the start of a process. -/
abbrev Startup := Prog Request Response (Except String ℕ × ProxyDb)

inductive Proc
  | running (p : Startup)
  | waiting (req : Request) (reply : Chan) (k : Response → Startup)

/-- What a process goes on with after the responses sent so far. -/
def Proc.rest (responses : List (Chan × Response)) : Proc → Startup
  | .running p => p
  | .waiting req reply k =>
    match responses.find? (fun r => r.1 = reply) with
    | some r => k r.2
    | none => .ask req k

/-- The processes with a session at the broker. A panic of its worker thread ends `alive`. -/
structure Fleet (S : Sqlite) where
  worker : Worker S
  alive : Bool
  procs : SessionId → Option Proc
  nextSession : SessionId
  nextReply : Chan

/-- `lose` is the end of a connection: the broker drops the session. -/
inductive Action
  | join
  | send (i : SessionId)
  | receive (i : SessionId)
  | lose (i : SessionId)

namespace Fleet

def new (f : S.File) : Fleet S := ⟨Worker.new f, true, fun _ => none, 0, 0⟩

def put (s : Fleet S) (i : SessionId) (proc : Option Proc) : Fleet S :=
  { s with procs := Function.update s.procs i proc }

/-- The worker thread takes a job with the next reply channel. -/
def job (s : Fleet S) (j : Job) : Fleet S :=
  match s.worker.handle j with
  | .ok w => { s with worker := w, nextReply := s.nextReply + 1 }
  | .error w => { s with worker := w, alive := false, nextReply := s.nextReply + 1 }

/-- A process whose session is refused does not start. -/
def join (floats : FloatText) (s : Fleet S) : Fleet S :=
  let i := s.nextSession
  let opened := { s.job (.openConn i s.nextReply) with nextSession := i + 1 }
  if opened.worker.present i then
    opened.put i (some (.running ((startup floats).run .connected)))
  else opened

def step (floats : FloatText) (s : Fleet S) (a : Action) : Option (Fleet S) :=
  if s.alive then
    match a with
    | .join => some (s.join floats)
    | .send i =>
      match s.procs i with
      | some (.running (.ask req k)) =>
        some ((s.job (.req i req s.nextReply)).put i (some (.waiting req s.nextReply k)))
      | _ => none
    | .receive i =>
      match s.procs i with
      | some (.waiting _ reply k) =>
        (s.worker.responses.find? (fun r => r.1 = reply)).map
          (fun r => s.put i (some (.running (k r.2))))
      | _ => none
    | .lose i => (s.procs i).map (fun _ => (s.job (.drop i s.nextReply)).put i none)
  else none

/-- The start of the process has come to its end. -/
def Finished (s : Fleet S) (i : SessionId) (result : Except String ℕ) : Prop :=
  ∃ db, s.procs i = some (.running (.done (result, db)))

end Fleet

section Journal

/-- The committed transactions, each with its session and its texts, and the texts of the
transactions that are still open. -/
structure Journal where
  committed : List (SessionId × List String)
  current : SessionId → Option (List String)

namespace Journal

def empty : Journal := ⟨[], fun _ => none⟩

/-- A session executes a text. -/
def exec (j : Journal) (i : SessionId) (sql : String) : Journal :=
  let (ended, current) := record sql [] (j.current i)
  ⟨j.committed ++ ended.map (fun texts => (i, texts)), Function.update j.current i current⟩

def serve (j : Journal) (p : Pending) : Journal :=
  match p.req with
  | .exec sql _ => j.exec p.id sql
  | _ => j

/-- A session that goes takes its transaction with it. -/
def note (j : Journal) : Label SessionId Pending → Journal
  | .pass p => j.serve p
  | .next p => j.serve p
  | .leave i _ => { j with current := Function.update j.current i none }
  | _ => j

/-- The transactions that have executed the text of a migration. -/
def commits (j : Journal) (m : Schemas.Migration) : List (SessionId × List String) :=
  j.committed.filter (fun txn => m.text ∈ txn.2)

end Journal

def journal (w : Worker S) : Journal := w.labels.foldl Journal.note .empty

theorem journal_append {w w' : Worker S} {labels : List (Label SessionId Pending)}
    (h : w'.labels = w.labels ++ labels) : journal w' = labels.foldl Journal.note (journal w) := by
  rw [journal, h, List.foldl_append]
  rfl

theorem journal_same {w w' : Worker S} (h : w'.labels = w.labels) : journal w' = journal w := by
  rw [journal, h, journal]

theorem journal_dispatch (w : Worker S) (p : Pending) (resumed : Bool) :
    journal (w.noteDispatch p resumed) = (journal w).serve p := by
  rw [journal_append (labels_noteDispatch w p resumed)]
  cases resumed <;> rfl

/-- A dispatch that returns settles the turnstile and executes no other text. -/
theorem journal_served {w w' : Worker S} {p : Pending} (h : Served w p w') :
    journal w' = journal w := by
  rw [journal_append h.labels]
  cases isExec p.req <;> rfl

theorem journal_dropSession (w : Worker S) (i : SessionId) :
    journal (w.dropSession i) =
      { journal w with current := Function.update (journal w).current i none } :=
  journal_append (labels_dropSession w i)

theorem record_append (sql : String) (before : List (List String))
    (texts : Option (List String)) :
    record sql before texts = (before ++ (record sql [] texts).1, (record sql [] texts).2) := by
  cases texts with
  | none =>
    simp only [record]
    split <;> simp
  | some texts =>
    simp only [record]
    split
    · simp
    · split <;> simp

/-- The texts that a journal has committed grow as `record` says. -/
theorem exec_record {j : Journal} {i : SessionId} {sql : String} {texts : List (List String)}
    {own : Option (List String)}
    (h : record sql (j.committed.map Prod.snd) (j.current i) = (texts, own)) :
    (j.exec i sql).committed.map Prod.snd = texts ∧
      (j.exec i sql).current = Function.update j.current i own := by
  rw [record_append] at h
  obtain ⟨rfl, rfl⟩ := Prod.mk.inj h
  refine ⟨?_, rfl⟩
  simp [Journal.exec, Function.comp_def]

/-- A text in all transactions at most once is in at most one transaction. -/
theorem length_commits_le (j : Journal) (m : Schemas.Migration) :
    (j.commits m).length ≤ (j.committed.map Prod.snd).flatten.count m.text := by
  unfold Journal.commits
  induction j.committed with
  | nil => exact Nat.le_refl 0
  | cons txn rest ih =>
    rw [List.map_cons, List.flatten_cons, List.count_append, List.filter_cons]
    split
    · next hmem =>
      have hpos := List.count_pos_iff.mpr (of_decide_eq_true hmem)
      rw [List.length_cons]
      omega
    · omega

theorem commits_pos {j : Journal} {m : Schemas.Migration}
    (h : 0 < (j.committed.map Prod.snd).flatten.count m.text) : 0 < (j.commits m).length := by
  obtain ⟨texts, htexts, hmem⟩ := List.mem_flatten.mp (List.count_pos_iff.mp h)
  obtain ⟨txn, htxn, rfl⟩ := List.mem_map.mp htexts
  exact List.length_pos_of_mem (List.mem_filter.mpr ⟨htxn, decide_eq_true hmem⟩)

end Journal

end SqliteBroker.BootRace
