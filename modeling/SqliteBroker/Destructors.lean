import SqliteBroker.StepCycle

/-!
The buffers that an application hands to a bind together with a destructor. A call logs each
buffer that it releases under the number of the call that has handed it over. A bind releases
its own buffer or nothing, and no later call comes back to it.
-/
namespace SqliteBroker.Destructors

open Utf8 Messages Engine ShimConnection ShimStatement StepCycle
open Execution (okClosed)

/-- The bind takes over a buffer: it is not null, and its destructor is a function. -/
inductive HandsOver : BindCall → Prop
  | text (bytes : Bytes) (n : Int32) : HandsOver (.text (some bytes) n .function)
  | blob (bytes : Bytes) (n : Int32) : HandsOver (.blob (some bytes) n .function)

/-- How often a call runs a destructor, which is that of its own buffer. -/
def released (stmt : ProxyStmt) : StmtCall → ℕ
  | .bind index call => (call.run stmt index).released
  | _ => 0

/-- What a finalize releases: the parameters are owned copies, and dropping them with the
statement runs no destructor. -/
def finalizeStmt (_ : ProxyStmt) : List ℕ := []

variable (floats : FloatText)

/-- The buffers that calls release, in order; the first call has the number `n`. -/
def releases (n : ℕ) (stmt : ProxyStmt) : List StmtCall → List ℕ
  | [] => []
  | call :: rest =>
    List.replicate (released stmt call) n ++ releases (n + 1) (call.run floats stmt) rest

/-- All releases between a prepare and the finalize. -/
def lifetime (sql : String) (prepared : Response) (calls : List StmtCall) : List ℕ :=
  releases floats 0 (.create sql prepared) calls ++
    finalizeStmt (runCalls floats (.create sql prepared) calls)

variable {floats} {stmt : ProxyStmt} {calls more : List StmtCall} {n k : ℕ}

section Log

theorem releases_append : releases floats n stmt (calls ++ more) =
    releases floats n stmt calls ++
      releases floats (n + calls.length) (runCalls floats stmt calls) more := by
  induction calls generalizing n stmt with
  | nil => rfl
  | cons call rest ih =>
    rw [List.cons_append, releases, releases, ih, runCalls_cons, List.append_assoc,
      List.length_cons, Nat.add_right_comm, Nat.add_assoc]

/-- Calls release only buffers that they have been handed. -/
theorem mem_releases (h : k ∈ releases floats n stmt calls) : n ≤ k ∧ k < n + calls.length := by
  induction calls generalizing n stmt with
  | nil => cases h
  | cons call rest ih =>
    rw [List.length_cons]
    rcases List.mem_append.mp h with hown | hlater
    · obtain rfl := List.eq_of_mem_replicate hown
      omega
    · have hbounds := ih hlater
      omega

/-- Over the whole run a buffer is released as often as the call releases it that takes it. -/
theorem count_releases (before after : List StmtCall) (call : StmtCall) :
    (releases floats n stmt (before ++ call :: after)).count (n + before.length) =
      released (runCalls floats stmt before) call := by
  have hbefore : (releases floats n stmt before).count (n + before.length) = 0 := by
    apply List.count_eq_zero_of_not_mem
    intro hmem
    exact Nat.lt_irrefl _ (mem_releases hmem).2
  have hafter : ∀ stmt, (releases floats (n + before.length + 1) stmt after).count
      (n + before.length) = 0 := by
    intro stmt
    apply List.count_eq_zero_of_not_mem
    intro hmem
    exact Nat.not_succ_le_self _ (mem_releases hmem).1
  rw [releases_append, releases, List.count_append, List.count_append, hbefore, hafter,
    List.count_replicate_self]
  omega

end Log

section Started

theorem advance_started (stmt : ProxyStmt) : (stmt.advance floats).2.started = stmt.started := by
  unfold ProxyStmt.advance
  split
  · rfl
  · split
    · unfold ProxyStmt.cacheRow
      dsimp only
      split <;> rfl
    · rfl

theorem step_started (stmt : ProxyStmt) (answer : Except Int32 Response) :
    (stmt.step floats answer).2.started = true := by
  unfold ProxyStmt.step
  split
  · next h => rw [advance_started, h]
  · cases answer with
    | ok resp => exact advance_started (stmt.executed resp)
    | error errcode => rfl

/-- There has been a step, and no reset since. -/
def Stepped (calls : List StmtCall) : Prop :=
  ∃ before answer after, calls = before ++ .step answer :: after ∧ .reset ∉ after

theorem stepped_nil : ¬ Stepped [] := by simp [Stepped]

theorem stepped_cons {call : StmtCall} : Stepped (call :: calls) ↔
    (∃ answer, call = .step answer ∧ .reset ∉ calls) ∨ Stepped calls := by
  constructor
  · rintro ⟨before, answer, after, hcalls, hreset⟩
    cases before with
    | nil =>
      obtain ⟨rfl, rfl⟩ := List.cons.inj hcalls
      exact .inl ⟨answer, rfl, hreset⟩
    | cons first before =>
      obtain ⟨_, rfl⟩ := List.cons.inj hcalls
      exact .inr ⟨before, answer, after, rfl, hreset⟩
  · rintro (⟨answer, rfl, hreset⟩ | ⟨before, answer, after, rfl, hreset⟩)
    · exact ⟨[], answer, calls, rfl, hreset⟩
    · exact ⟨call :: before, answer, after, rfl, hreset⟩

/-- A statement is started exactly when it has been stepped and not been reset since. -/
theorem started_iff : (runCalls floats stmt calls).started = true ↔
    Stepped calls ∨ (stmt.started = true ∧ .reset ∉ calls) := by
  induction calls generalizing stmt with
  | nil => simp [stepped_nil]
  | cons call rest ih =>
    rw [runCalls_cons, ih, stepped_cons]
    cases call with
    | step answer =>
      rw [StmtCall.run, step_started, List.mem_cons, not_or]
      constructor
      · rintro (hlater | ⟨_, hreset⟩)
        · exact .inl (.inr hlater)
        · exact .inl (.inl ⟨answer, rfl, hreset⟩)
      · rintro ((⟨_, _, hreset⟩ | hlater) | ⟨_, _, hreset⟩)
        · exact .inr ⟨rfl, hreset⟩
        · exact .inl hlater
        · exact .inr ⟨rfl, hreset⟩
    | reset => simp [StmtCall.run, ProxyStmt.reset]
    | bind index call =>
      obtain ⟨params, hrun⟩ := @quiet_call floats (.bind index call) rfl rfl stmt
      simp [hrun]
    | clearBindings => simp [StmtCall.run, ProxyStmt.clearBindings]
    | column i => simp [StmtCall.run]

end Started

section Buffers

variable {call : BindCall} {i : Int32}

/-- A bind that is not refused at its first check releases the buffer once. -/
theorem released_bind (h : HandsOver call) :
    released stmt (.bind i call) = if stmt.started ∨ i ≤ 0 then 0 else 1 := by
  have hcell : ∀ value, (bindCell stmt i value 1).released =
      if stmt.started ∨ i ≤ 0 then 0 else 1 := by
    intro value
    unfold bindCell
    split
    · rfl
    · cases value <;> rfl
  cases h with
  | text bytes n => exact hcell _
  | blob bytes n => exact hcell _

/-- Between the prepare and the finalize a buffer that comes with a destructor is released exactly
once if and only if its bind has a positive index and each step before it is followed by a reset. -/
theorem released_once_iff (sql : String) (prepared : Response) (before after : List StmtCall)
    (i : Int32) (h : HandsOver call) :
    (lifetime floats sql prepared (before ++ .bind i call :: after)).count before.length = 1 ↔
      0 < i ∧ ¬ Stepped before := by
  have hcount := @count_releases floats (.create sql prepared) 0 before after (.bind i call)
  have hstarted : (runCalls floats (.create sql prepared) before).started = true ↔
      Stepped before := by
    rw [started_iff]
    simp [ProxyStmt.create]
  rw [Nat.zero_add] at hcount
  rw [lifetime, finalizeStmt, List.append_nil, hcount, released_bind h, ← hstarted,
    ← Int32.not_le]
  split
  · next hrefused => exact iff_of_false Nat.zero_ne_one (fun hfine => by tauto)
  · next haccepted => exact iff_of_true rfl (by tauto)

/-- A text that is bound behind a step is never released. -/
theorem stepped_bind_leaks :
    ¬ ∀ (sql : String) (prepared : Response) (before after : List StmtCall) (i : Int32)
      (call : BindCall), HandsOver call →
      (lifetime noFloats sql prepared (before ++ .bind i call :: after)).count before.length =
        1 := by
  intro h
  have hlost := h "SELECT ?" okClosed [.step (.ok okClosed)] [.reset] 1 _ (.text [0x78, 0] (-1))
  revert hlost
  decide

/-- A blob of negative length that is bound after a reset is refused and released. -/
theorem refused_blob_released :
    (lifetime noFloats "SELECT ?" okClosed [.step (.ok okClosed), .reset,
      .bind 1 (.blob (some [0x78]) (-1) .function)]).count 2 = 1 := by
  have hfresh : ¬ Stepped [.step (.ok okClosed), .reset] := by
    simp [stepped_cons, stepped_nil]
  exact (released_once_iff "SELECT ?" okClosed [.step (.ok okClosed), .reset] [] 1
    (.blob [0x78] (-1))).mpr ⟨by decide, hfresh⟩

end Buffers

end SqliteBroker.Destructors
