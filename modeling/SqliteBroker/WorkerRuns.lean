import SqliteBroker.Bookkeeping

/-!
A worker whose calls all succeed. What it keeps and reports then does not depend on the other
workers, nor on what has become of its writes in the file: it is the same as in a storm of this
worker alone, where the file has everything that was reported.
-/
namespace SqliteBroker.WorkerRuns

open Hammer Bookkeeping

/-- A round of the loop with its call gone through, and the writes reported so far. -/
def round (key : ℕ) (before : Run × List Write) : Option (Run × List Write) :=
  let (r, reported) := before
  let (coin, rng) := r.rng.below 2
  let r : Run := { r with rng }
  if coin = 0 then
    (r.write key).map (fun (r, w) => ((r.record w.name).advance, reported ++ [w]))
  else some (r.read.advance, reported)

def rounds (config : Config) : ℕ → Option (Run × List Write)
  | 0 => some (.new config.seed, [])
  | n + 1 => (rounds config n).bind (round config.worker.toNat)

/-- The loop of `run_worker`; `none` is a panic. -/
def runWorker (config : Config) : Option (Run × List Write) := rounds config config.ops.toNat

/-- The event that a write leaves. -/
def recorded (w : Write) : Event := ⟨w.worker, w.step, w.kind, w.name⟩

/-- A storm of one worker. -/
def alone (config : Config) (n : ℕ) : Storm Unit :=
  Storm.run (fun _ => config) (List.replicate n ())

/-- The worker has made `n` rounds, and the file has what it has reported. -/
structure Reports (config : Config) (n : ℕ) (s : Storm Unit) (reported : List Write) : Prop where
  rounds : rounds config n = some (s.runs (), reported)
  events : s.store.events = reported.map recorded
  step : (s.runs ()).step = n
  order : (reported.map Write.step).Pairwise (· < ·)

variable {config : Config} {n : ℕ}

theorem alone_succ (config : Config) (n : ℕ) :
    alone config (n + 1) = (alone config n).turn (fun _ => config) () := by
  unfold alone Storm.run
  rw [List.replicate_succ', List.foldl_append]
  rfl

theorem alone_sound (config : Config) (n : ℕ) : Sound (fun _ => config) (alone config n) :=
  sound_run (Function.injective_of_subsingleton _) _

theorem exec_events {store store' : Store} {w : Write} {affected : ℕ}
    (h : store.exec w = .ok (affected, store')) :
    store'.events = store.events ++ [recorded w] := by
  unfold Store.exec at h
  split at h
  · cases h
  · split at h
    · cases h
    · obtain ⟨_, rfl⟩ := Prod.mk.inj (Except.ok.inj h)
      rfl

/-- The round that the storm makes is the one that the worker makes. -/
theorem reports_succ {s : Storm Unit} {reported : List Write} (hsound : Sound (fun _ => config) s)
    (hnext : Sound (fun _ => config) (s.turn (fun _ => config) ()))
    (hmore : n < config.ops.toNat) (h : Reports config n s reported) :
    ∃ reported', Reports config (n + 1) (s.turn (fun _ => config) ()) reported' := by
  have hstop : ¬ (s.failed () = true ∨ config.ops.toNat ≤ (s.runs ()).step) := by
    rw [hsound.alive (), h.step]
    simp [hmore]
  have hround : rounds config (n + 1) = round config.worker.toNat (s.runs (), reported) := by
    rw [rounds, h.rounds, Option.bind_some]
  have hlen : (s.runs ()).live.length < 2 ^ 32 := by
    have hshort := live_short (hsound.booked ())
    have hops := config.ops.toNat_lt
    rw [h.step] at hshort
    omega
  have hearlier : ∀ step ∈ reported.map Write.step, step < (s.runs ()).step := by
    have hseq : reported.map Write.step = s.store.events.map Event.seq := by
      rw [h.events, List.map_map]
      rfl
    rw [hseq]
    intro step hstep
    obtain ⟨e, he, rfl⟩ := List.mem_map.mp hstep
    obtain ⟨_, howner⟩ := hsound.tables.recorded e he
    exact (hsound.booked ()).earlier e (List.mem_filter.mpr ⟨he, decide_eq_true howner⟩)
  unfold Storm.turn at hnext ⊢
  dsimp only at hnext ⊢
  rw [if_neg hstop] at hnext ⊢
  unfold round at hround
  dsimp only at hround
  generalize (s.runs ()).rng.below 2 = coin at hnext hround ⊢
  obtain ⟨coin, rng⟩ := coin
  dsimp only at hnext hround ⊢
  by_cases hwrite : coin = 0
  · obtain ⟨r', w, hchoice, hchosen⟩ :=
      @write_chosen { s.runs () with rng } hlen config.worker.toNat
    rw [if_pos hwrite, hchoice] at hnext hround ⊢
    dsimp only at hnext ⊢
    cases hexec : s.store.exec w with
    | error err =>
      rw [hexec] at hnext
      have halive := hnext.alive ()
      simp at halive
    | ok done =>
      obtain ⟨affected, store⟩ := done
      have hrun : Function.update s.runs () (r'.record w.name).advance () =
          (r'.record w.name).advance := Function.update_self ..
      have hstep : r'.step + 1 = n + 1 := congrArg (· + 1) (hchosen.same.1.trans h.step)
      refine ⟨reported ++ [w], ?_, ?_, ?_, ?_⟩
      · exact hround.trans (congrArg (fun r => some (r, reported ++ [w])) hrun.symm)
      · rw [exec_events hexec, h.events, List.map_append]
        rfl
      · exact (congrArg Run.step hrun).trans hstep
      · rw [List.map_append, List.pairwise_append]
        refine ⟨h.order, List.pairwise_singleton _ _, fun step hbefore step' hlast => ?_⟩
        obtain rfl := List.mem_singleton.mp hlast
        rw [hchosen.step]
        exact hearlier step hbefore
  · rw [if_neg hwrite] at hround ⊢
    have hrun : Function.update s.runs () ({ s.runs () with rng } : Run).read.advance () =
        ({ s.runs () with rng } : Run).read.advance := Function.update_self ..
    refine ⟨reported, hround.trans (congrArg (fun r => some (r, reported)) hrun.symm), h.events,
      ?_, h.order⟩
    exact (congrArg Run.step hrun).trans (congrArg (· + 1) h.step)

theorem reports (config : Config) {n : ℕ} (hn : n ≤ config.ops.toNat) :
    ∃ reported, Reports config n (alone config n) reported := by
  induction n with
  | zero => exact ⟨[], rfl, rfl, rfl, List.Pairwise.nil⟩
  | succ n ih =>
    obtain ⟨reported, h⟩ := ih (Nat.le_of_succ_le hn)
    have hnext := alone_sound config (n + 1)
    rw [alone_succ] at hnext ⊢
    exact reports_succ (alone_sound config n) hnext hn h

end SqliteBroker.WorkerRuns
