import Mathlib.Data.List.Dedup
import Mathlib.Data.List.Sort
import SqliteBroker.Bookkeeping
import SqliteBroker.TextParts

/-!
The audit of a storm. A worker prints its counters as one line, the driver reads the line
back, and compares it with what the tables hold. Of a storm whose workers have different
ids it reports nothing.
-/
namespace SqliteBroker.StormAudit

open Hammer Bookkeeping Decimal TextParts

structure Claim where
  worker : ℕ
  ops : ℕ
  reads : ℕ
  writes : ℕ
  inserts : ℕ
  updates : ℕ
  deletes : ℕ
  sumSeq : ℕ
  sample : String
  last : String
  deriving DecidableEq

/-- The line that a worker prints after its loop. -/
def summary (config : Config) (r : Run) (bootDdl ms : ℕ) : String :=
  s!"worker={config.worker.toNat} ops={config.ops.toNat} executed={r.executed} " ++
  s!"reads={r.reads} writes={r.writes} inserts={r.inserts} updates={r.updates} " ++
  s!"deletes={r.deletes} sum_seq={r.sumSeq} sample={r.sample} last={r.last} " ++
  s!"boot_ddl={bootDdl} sql_err=0 fatal=0 ms={ms}"

/-- How `run_worker` ends. -/
def outcome (config : Config) (r : Run) : Except String Unit :=
  if r.executed ≠ config.ops.toNat then
    .error s!"worker {config.worker.toNat} executed {r.executed} of {config.ops.toNat}"
  else if r.writes = 0 then
    .error s!"worker {config.worker.toNat} performed no writes"
  else .ok ()

section Parsing

/-- The arms of the match on a key. -/
def Claim.assign (claim : Claim) (key : String) (value : List Char) : Except String Claim :=
  match key with
  | "worker" => (fromStr 64 value).map (fun n => { claim with worker := n })
  | "ops" => (fromStr 64 value).map (fun n => { claim with ops := n })
  | "reads" => (fromStr 64 value).map (fun n => { claim with reads := n })
  | "writes" => (fromStr 64 value).map (fun n => { claim with writes := n })
  | "inserts" => (fromStr 64 value).map (fun n => { claim with inserts := n })
  | "updates" => (fromStr 64 value).map (fun n => { claim with updates := n })
  | "deletes" => (fromStr 64 value).map (fun n => { claim with deletes := n })
  | "sum_seq" => (fromStr 64 value).map (fun n => { claim with sumSeq := n })
  | "sample" => .ok { claim with sample := String.ofList value }
  | "last" => .ok { claim with last := String.ofList value }
  | _ => .ok claim

def parsePart (claim : Claim) (part : List Char) : Except String Claim :=
  match splitOnce '=' part with
  | none => .ok claim
  | some (key, value) => claim.assign (String.ofList key) value

/-- The sum wraps as in a release build; that of a printed line does not reach the bound. -/
def parseClaim (line : List Char) : Except String Claim :=
  match (Utf8.splitWhitespace line).foldlM parsePart ⟨0, 0, 0, 0, 0, 0, 0, 0, "", ""⟩ with
  | .error err => .error err
  | .ok claim =>
    if (claim.reads + claim.writes) % 2 ^ 64 ≠ claim.ops then
      .error s!"worker {claim.worker} reads+writes != ops"
    else .ok claim

/-- The claim that a worker's line makes. -/
def claimOf (config : Config) (r : Run) : Claim where
  worker := config.worker.toNat
  ops := config.ops.toNat
  reads := r.reads
  writes := r.writes
  inserts := r.inserts
  updates := r.updates
  deletes := r.deletes
  sumSeq := r.sumSeq
  sample := r.sample
  last := r.last

def word (key : String) (value : List Char) : List Char := key.toList ++ '=' :: value

def number (key : String) (n : ℕ) : List Char := word key (Nat.toDigits 10 n)

/-- The words of the line. -/
def summaryWords (config : Config) (r : Run) (bootDdl ms : ℕ) : List (List Char) :=
  [number "worker" config.worker.toNat, number "ops" config.ops.toNat,
    number "executed" r.executed, number "reads" r.reads, number "writes" r.writes,
    number "inserts" r.inserts, number "updates" r.updates, number "deletes" r.deletes,
    number "sum_seq" r.sumSeq, word "sample" r.sample.toList, word "last" r.last.toList,
    number "boot_ddl" bootDdl, number "sql_err" 0, number "fatal" 0, number "ms" ms]

theorem summary_toList (config : Config) (r : Run) (bootDdl ms : ℕ) :
    (summary config r bootDdl ms).toList =
      [' '].intercalate (summaryWords config r bootDdl ms) := by
  delta summary
  simp [summaryWords, number, word, toString]

theorem parsePart_word (claim : Claim) {key : String} (hkey : '=' ∉ key.toList)
    (value : List Char) : parsePart claim (word key value) = claim.assign key value := by
  unfold parsePart word
  rw [splitOnce_pair hkey]
  dsimp only
  rw [String.ofList_toList]

theorem fold_words (config : Config) {r : Run} (bootDdl ms : ℕ) (hfits : r.reads < 2 ^ 64 ∧
    r.writes < 2 ^ 64 ∧ r.inserts < 2 ^ 64 ∧ r.updates < 2 ^ 64 ∧ r.deletes < 2 ^ 64 ∧
    r.sumSeq < 2 ^ 64) :
    (summaryWords config r bootDdl ms).foldlM parsePart ⟨0, 0, 0, 0, 0, 0, 0, 0, "", ""⟩ =
      .ok (claimOf config r) := by
  obtain ⟨hreads, hwrites, hinserts, hupdates, hdeletes, hsum⟩ := hfits
  have hops : config.ops.toNat < 2 ^ 64 := Nat.lt_trans config.ops.toNat_lt (by decide)
  have hworker : config.worker.toNat < 2 ^ 64 := config.worker.toNat_lt
  have hbind : ∀ (claim : Claim) (next : Claim → Except String Claim),
      (Except.ok claim >>= next) = next claim := fun _ _ => rfl
  -- each word goes to the arm of its key, then the arms read what the words hold
  simp (disch := decide) only [summaryWords, number, List.foldlM_cons, List.foldlM_nil,
    parsePart_word]
  simp only [Claim.assign, fromStr_toDigits hreads, fromStr_toDigits hwrites,
    fromStr_toDigits hinserts, fromStr_toDigits hupdates, fromStr_toDigits hdeletes,
    fromStr_toDigits hsum, fromStr_toDigits hops, fromStr_toDigits hworker, Except.map,
    String.ofList_toList, hbind]
  rfl

theorem fresh_solid (worker step : ℕ) :
    ∀ c ∈ (fresh worker step).toList, Utf8.isWhitespace c = false := by
  rw [fresh_chars]
  have hw : IsWord ['w'] := ⟨by decide, solid_of_all (by decide)⟩
  have hsep : ∀ c ∈ ['-', 's'], Utf8.isWhitespace c = false := solid_of_all (by decide)
  have hname := ((hw.append (isWord_toDigits worker).solid).append hsep).append
    (isWord_toDigits step).solid
  intro c hc
  exact hname.solid c (by simpa using hc)

theorem isWord_word {key : String} (hkey : key.toList.all (fun c => !Utf8.isWhitespace c) = true)
    {value : List Char} (hvalue : ∀ c ∈ value, Utf8.isWhitespace c = false) :
    IsWord (word key value) where
  ne_nil := List.append_ne_nil_of_right_ne_nil _ (List.cons_ne_nil _ _)
  solid := by
    intro c hc
    rcases List.mem_append.mp hc with hfirst | hrest
    · exact solid_of_all hkey c hfirst
    · rcases List.mem_cons.mp hrest with rfl | hlast
      · decide
      · exact hvalue c hlast

theorem isWord_number {key : String}
    (hkey : key.toList.all (fun c => !Utf8.isWhitespace c) = true) (n : ℕ) :
    IsWord (number key n) :=
  isWord_word hkey (isWord_toDigits n).solid

theorem isWord_summary (config : Config) {r : Run} (bootDdl ms : ℕ)
    (hsample : ∀ c ∈ r.sample.toList, Utf8.isWhitespace c = false)
    (hlast : ∀ c ∈ r.last.toList, Utf8.isWhitespace c = false) :
    ∀ w ∈ summaryWords config r bootDdl ms, IsWord w := by
  simp only [summaryWords, List.forall_mem_cons]
  refine ⟨isWord_number ?_ _, isWord_number ?_ _, isWord_number ?_ _, isWord_number ?_ _,
    isWord_number ?_ _, isWord_number ?_ _, isWord_number ?_ _, isWord_number ?_ _,
    isWord_number ?_ _, isWord_word ?_ hsample, isWord_word ?_ hlast, isWord_number ?_ _,
    isWord_number ?_ _, isWord_number ?_ _, isWord_number ?_ _, nofun⟩
  all_goals decide

end Parsing

section Audit

/-- What `/usr/bin/sqlite3` prints: a line for each row, with bars between the columns. -/
def output (rows : List (List (List Char))) : List Char :=
  rows.flatMap (fun row => ['|'].intercalate row ++ ['\n'])

def printInt : ℤ → List Char
  | .ofNat n => Nat.toDigits 10 n
  | .negSucc n => '-' :: Nat.toDigits 10 (n + 1)

/-- A double of at least `2 ^ 63` with fifteen digits, as SQLite prints it. -/
def printReal (n : ℕ) : List Char :=
  let exponent := (Nat.toDigits 10 n).length - 1
  let digits := Nat.toDigits 10 ((n + 5 * 10 ^ (exponent - 15)) / 10 ^ (exponent - 14))
  let fraction := ((digits.drop 1).reverse.dropWhile (· = '0')).reverse
  digits.take 1 ++ '.' :: (if fraction = [] then ['0'] else fraction) ++
    'e' :: '+' :: Nat.toDigits 10 exponent

example : printReal (2 ^ 63) = "9.22337203685478e+18".toList := by rfl

/-- The value of a worker's number in the file. -/
def printWorker (value : ℕ) : List Char :=
  if value < 2 ^ 63 then Nat.toDigits 10 value else printReal value

variable (store : Store)

/-- The number of events and the sum of `seq` for each worker, in the order of the ids. -/
def eventTotals : List (List (List Char)) :=
  ((store.events.map Event.worker).dedup.insertionSort (· ≤ ·)).map (fun worker =>
    [printWorker worker, Nat.toDigits 10 (store.eventsOf worker).length,
      Nat.toDigits 10 ((store.eventsOf worker).map Event.seq).sum])

/-- The events of a worker with this token. The query holds the token between quotes as it
is; the names of rows contain no quote. -/
def tokenCount (worker : ℕ) (token : String) : List (List (List Char)) :=
  [[Nat.toDigits 10 ((store.eventsOf worker).countP (fun e => e.token = token))]]

def inserted (worker : ℕ) : ℕ := (store.eventsOf worker).countP (fun e => e.kind = .insert)

def deleted (worker : ℕ) : ℕ := (store.eventsOf worker).countP (fun e => e.kind = .delete)

def balance (worker : ℕ) : List (List (List Char)) :=
  [[printInt (inserted store worker - deleted store worker),
    Nat.toDigits 10 (store.itemsOf worker).length]]

def column (line : List Char) (cols : List (List Char)) (n : ℕ) : Except String ℕ :=
  match fromStr 64 (cols[n]?.getD []) with
  | .error err => .error s!"event row {String.ofList line}: {err}"
  | .ok value => .ok value

def readTotal (byWorker : ℕ → Option (ℕ × ℕ)) (line : List Char) :
    Except String (ℕ → Option (ℕ × ℕ)) := do
  let cols := line.splitOn '|'
  let worker ← column line cols 0
  let count ← column line cols 1
  let sumSeq ← column line cols 2
  return Function.update byWorker worker (some (count, sumSeq))

def readTotals (events : List Char) : Except String (ℕ → Option (ℕ × ℕ)) :=
  (lines events).foldlM readTotal (fun _ => none)

def auditClaim (byWorker : ℕ → Option (ℕ × ℕ)) (claim : Claim) : Except String Unit :=
  match byWorker claim.worker with
  | none =>
    .error s!"worker {claim.worker} reported {claim.writes} writes but the file has none"
  | some (count, sumSeq) =>
    if count ≠ claim.writes ∨ sumSeq ≠ claim.sumSeq then
      .error (s!"worker {claim.worker} file has {count} writes sum {sumSeq}, " ++
        s!"process reported {claim.writes} writes sum {claim.sumSeq}")
    else
      match [claim.sample, claim.last].find? (fun token =>
          trim (output (tokenCount store (literal claim.worker) token)) = ['0']) with
      | some token => .error s!"worker {claim.worker} token {token} is missing from the file"
      | none =>
        let cols := (trim (output (balance store (literal claim.worker)))).splitOn '|'
        let expected := cols[0]?.getD []
        let actual := cols[1]?.getD []
        if expected ≠ actual then
          .error (s!"worker {claim.worker} item rows {String.ofList actual} " ++
            s!"but inserts-deletes is {String.ofList expected}")
        else .ok ()

/-- The checks of `audit` that compare the claims with the tables. -/
def audit (claims : List Claim) : Except String Unit := do
  let byWorker ← readTotals (output (eventTotals store))
  forM claims (auditClaim store byWorker)

variable {store}

theorem bind_ok_iff {α β : Type} {x : Except String α} {f : α → Except String β} {b : β} :
    x >>= f = .ok b ↔ ∃ a, x = .ok a ∧ f a = .ok b := by
  cases x with
  | error err => exact iff_of_false nofun nofun
  | ok a =>
    constructor
    · exact fun h => ⟨a, rfl, h⟩
    · rintro ⟨a', ha, h⟩
      obtain rfl := Except.ok.inj ha
      exact h

theorem forM_ok_iff {α : Type} {l : List α} {f : α → Except String Unit} :
    forM l f = .ok () ↔ ∀ a ∈ l, f a = .ok () := by
  induction l with
  | nil => exact iff_of_true rfl nofun
  | cons a rest ih =>
    rw [List.forM_cons, List.forall_mem_cons, ← ih]
    cases f a with
    | error err => exact iff_of_false nofun nofun
    | ok _ => exact (and_iff_right rfl).symm

theorem isWord_printInt (z : ℤ) : IsWord (printInt z) := by
  cases z with
  | ofNat n => exact isWord_toDigits n
  | negSucc n =>
    have hminus : IsWord ['-'] := ⟨by decide, solid_of_all (by decide)⟩
    exact hminus.append (isWord_toDigits (n + 1)).solid

theorem toDigits_not_mem {c : Char} (hc : c.isDigit = false) (n : ℕ) :
    c ∉ Nat.toDigits 10 n := by
  intro hmem
  have hdigit := Nat.isDigit_of_mem_toDigits (by decide) (by decide) hmem
  rw [hc] at hdigit
  cases hdigit

theorem printInt_not_mem {c : Char} (hc : c.isDigit = false) (hminus : c ≠ '-') (z : ℤ) :
    c ∉ printInt z := by
  cases z with
  | ofNat n => exact toDigits_not_mem hc n
  | negSucc n =>
    have hdigits := toDigits_not_mem hc (n + 1)
    simp [printInt, hminus, hdigits]

theorem printInt_eq_iff (z : ℤ) (n : ℕ) : printInt z = Nat.toDigits 10 n ↔ z = n := by
  constructor
  · cases z with
    | ofNat m =>
      intro h
      exact congrArg Int.ofNat (toDigits_injective h)
    | negSucc m =>
      intro h
      have hmem : '-' ∈ Nat.toDigits 10 n := h ▸ List.mem_cons_self
      exact absurd hmem (toDigits_not_mem (by decide) n)
  · rintro rfl
    rfl

theorem trim_output {row : List (List Char)} (hrow : ∀ w ∈ row, IsWord w) :
    trim (output [row]) = ['|'].intercalate row := by
  unfold output
  rw [List.flatMap_cons, List.flatMap_nil, List.append_nil]
  exact trim_intercalate hrow

/-- A single number is printed as a line. -/
theorem trim_number (n : ℕ) : trim (output [[Nat.toDigits 10 n]]) = Nat.toDigits 10 n := by
  refine (trim_output ?_).trans List.intercalate_singleton
  intro w hw
  rw [List.mem_singleton.mp hw]
  exact isWord_toDigits n

theorem splitOn_pair (z : ℤ) (n : ℕ) :
    (trim (output [[printInt z, Nat.toDigits 10 n]])).splitOn '|' =
      [printInt z, Nat.toDigits 10 n] := by
  rw [trim_output, List.splitOn_intercalate]
  · simp only [List.forall_mem_cons]
    exact ⟨printInt_not_mem (by decide) (by decide) _, toDigits_not_mem (by decide) _, nofun⟩
  · exact List.cons_ne_nil _ _
  · simp only [List.forall_mem_cons]
    exact ⟨isWord_printInt _, isWord_toDigits _, nofun⟩

theorem token_missing_iff (worker : ℕ) (token : String) :
    trim (output (tokenCount store worker token)) = ['0'] ↔
      token ∉ (store.eventsOf worker).map Event.token := by
  rw [tokenCount, trim_number]
  constructor
  · intro hzero hmem
    have hcount := toDigits_injective (hzero.trans (show ['0'] = Nat.toDigits 10 0 from rfl))
    obtain ⟨e, he, htoken⟩ := List.mem_map.mp hmem
    exact List.countP_eq_zero.mp hcount e he (decide_eq_true htoken)
  · intro hmissing
    have hcount : (store.eventsOf worker).countP (fun e => e.token = token) = 0 := by
      rw [List.countP_eq_zero]
      intro e he htoken
      exact hmissing (List.mem_map.mpr ⟨e, he, of_decide_eq_true htoken⟩)
    rw [hcount]
    rfl

theorem balance_columns (worker : ℕ) :
    (trim (output (balance store worker))).splitOn '|' =
      [printInt (inserted store worker - deleted store worker),
        Nat.toDigits 10 (store.itemsOf worker).length] :=
  splitOn_pair _ _

/-- What the audit of a claim asks of the tables. -/
structure Supported (store : Store) (byWorker : ℕ → Option (ℕ × ℕ)) (claim : Claim) : Prop where
  total : byWorker claim.worker = some (claim.writes, claim.sumSeq)
  sample : claim.sample ∈ (store.eventsOf (literal claim.worker)).map Event.token
  last : claim.last ∈ (store.eventsOf (literal claim.worker)).map Event.token
  balance : (inserted store (literal claim.worker) : ℤ) - deleted store (literal claim.worker) =
    (store.itemsOf (literal claim.worker)).length

/-- An audit reports nothing about a claim exactly when the tables support it. -/
theorem auditClaim_iff (byWorker : ℕ → Option (ℕ × ℕ)) (claim : Claim) :
    auditClaim store byWorker claim = .ok () ↔ Supported store byWorker claim := by
  have hfound : [claim.sample, claim.last].find? (fun token =>
      trim (output (tokenCount store (literal claim.worker) token)) = ['0']) = none ↔
      claim.sample ∈ (store.eventsOf (literal claim.worker)).map Event.token ∧
        claim.last ∈ (store.eventsOf (literal claim.worker)).map Event.token := by
    simp only [List.find?_eq_none, List.forall_mem_cons, decide_eq_true_eq, token_missing_iff,
      not_not, List.not_mem_nil, false_imp_iff, implies_true, and_true]
  constructor
  · intro h
    unfold auditClaim at h
    rcases htotal : byWorker claim.worker with _ | ⟨count, sumSeq⟩
    · rw [htotal] at h
      cases h
    rw [htotal] at h
    dsimp only at h
    by_cases hsums : count ≠ claim.writes ∨ sumSeq ≠ claim.sumSeq
    · rw [if_pos hsums] at h
      cases h
    rw [if_neg hsums] at h
    rcases hfind : [claim.sample, claim.last].find? (fun token =>
      trim (output (tokenCount store (literal claim.worker) token)) = ['0']) with _ | token
    · rw [hfind, balance_columns] at h
      dsimp only at h
      by_cases hbalance : printInt (inserted store (literal claim.worker) -
          deleted store (literal claim.worker)) =
        Nat.toDigits 10 (store.itemsOf (literal claim.worker)).length
      · obtain ⟨hsample, hlast⟩ := hfound.mp hfind
        obtain ⟨hcount, hsum⟩ := not_or.mp hsums
        rw [not_not] at hcount hsum
        exact ⟨by rw [htotal, hcount, hsum], hsample, hlast, (printInt_eq_iff _ _).mp hbalance⟩
      · have hstop := (if_pos hbalance).symm.trans h
        cases hstop
    · rw [hfind] at h
      cases h
  · intro h
    have hsums : ¬ (claim.writes ≠ claim.writes ∨ claim.sumSeq ≠ claim.sumSeq) := by simp
    have hbalance := (printInt_eq_iff _ _).mpr h.balance
    unfold auditClaim
    rw [h.total]
    dsimp only
    rw [if_neg hsums, hfound.mpr ⟨h.sample, h.last⟩, balance_columns]
    exact if_neg (not_not_intro hbalance)

/-- A row of the totals as text. -/
def totalLine (store : Store) (worker : ℕ) : List Char :=
  ['|'].intercalate [printWorker worker, Nat.toDigits 10 (store.eventsOf worker).length,
    Nat.toDigits 10 ((store.eventsOf worker).map Event.seq).sum]

theorem totalLine_not_mem {c : Char} (hc : c.isDigit = false) (hbar : c ≠ '|') {worker : ℕ}
    (hworker : worker < 2 ^ 63) : c ∉ totalLine store worker := by
  have hdigits := toDigits_not_mem hc
  rw [totalLine, printWorker, if_pos hworker]
  simp [hbar, hdigits]

/-- The numbers of a worker's events fit the types that they are read into. -/
structure Fits (store : Store) (worker : ℕ) : Prop where
  id : worker < 2 ^ 63
  count : (store.eventsOf worker).length < 2 ^ 64
  sum : ((store.eventsOf worker).map Event.seq).sum < 2 ^ 64

/-- Numbers that fit are read from their line. -/
theorem readTotal_numbers {worker count sumSeq : ℕ} (hworker : worker < 2 ^ 64)
    (hcount : count < 2 ^ 64) (hsum : sumSeq < 2 ^ 64) (byWorker : ℕ → Option (ℕ × ℕ)) :
    readTotal byWorker (['|'].intercalate
        [Nat.toDigits 10 worker, Nat.toDigits 10 count, Nat.toDigits 10 sumSeq]) =
      .ok (Function.update byWorker worker (some (count, sumSeq))) := by
  have hcols : (['|'].intercalate
      [Nat.toDigits 10 worker, Nat.toDigits 10 count, Nat.toDigits 10 sumSeq]).splitOn '|' =
      [Nat.toDigits 10 worker, Nat.toDigits 10 count, Nat.toDigits 10 sumSeq] := by
    apply List.splitOn_intercalate
    · simp only [List.forall_mem_cons]
      exact ⟨toDigits_not_mem (by decide) _, toDigits_not_mem (by decide) _,
        toDigits_not_mem (by decide) _, nofun⟩
    · exact List.cons_ne_nil _ _
  have hcolumn : ∀ {line : List Char} {cols : List (List Char)} {n m : ℕ},
      cols[n]? = some (Nat.toDigits 10 m) → m < 2 ^ 64 → column line cols n = .ok m := by
    intro line cols n m hcell hm
    unfold column
    rw [hcell, Option.getD_some, fromStr_toDigits hm]
  unfold readTotal
  dsimp only
  rw [hcols, hcolumn rfl hworker, hcolumn rfl hcount, hcolumn rfl hsum]
  rfl

theorem readTotal_line {worker : ℕ} (hfits : Fits store worker)
    (byWorker : ℕ → Option (ℕ × ℕ)) : readTotal byWorker (totalLine store worker) =
      .ok (Function.update byWorker worker (some ((store.eventsOf worker).length,
        ((store.eventsOf worker).map Event.seq).sum))) := by
  have hworker : worker < 2 ^ 64 := Nat.lt_trans hfits.id (by decide)
  rw [totalLine, printWorker, if_pos hfits.id]
  exact readTotal_numbers hworker hfits.count hfits.sum byWorker

theorem readTotals_lines {workers : List ℕ} (hfits : ∀ worker ∈ workers, Fits store worker)
    (byWorker : ℕ → Option (ℕ × ℕ)) :
    ∃ byWorker', (workers.map (totalLine store)).foldlM readTotal byWorker = .ok byWorker' ∧
      (∀ worker ∈ workers, byWorker' worker = some ((store.eventsOf worker).length,
        ((store.eventsOf worker).map Event.seq).sum)) ∧
      ∀ worker, worker ∉ workers → byWorker' worker = byWorker worker := by
  induction workers generalizing byWorker with
  | nil => exact ⟨byWorker, rfl, nofun, fun _ _ => rfl⟩
  | cons first rest ih =>
    obtain ⟨byWorker', hfold, hin, hout⟩ := ih
      (fun worker hmem => hfits worker (List.mem_cons_of_mem first hmem))
      (Function.update byWorker first (some ((store.eventsOf first).length,
        ((store.eventsOf first).map Event.seq).sum)))
    refine ⟨byWorker', ?_, ?_, ?_⟩
    · rw [List.map_cons, List.foldlM_cons, readTotal_line (hfits first List.mem_cons_self)]
      exact hfold
    · intro worker hmem
      by_cases hrest : worker ∈ rest
      · exact hin worker hrest
      · have hfirst := (List.mem_cons.mp hmem).resolve_right hrest
        rw [hout worker hrest, hfirst, Function.update_self]
    · intro worker hmem
      obtain ⟨hfirst, hrest⟩ := not_or.mp (mt List.mem_cons.mpr hmem)
      rw [hout worker hrest, Function.update_of_ne hfirst]

/-- The totals are read back as they are in the table. -/
theorem readTotals_events (hfits : ∀ e ∈ store.events, Fits store e.worker) :
    ∃ byWorker, readTotals (output (eventTotals store)) = .ok byWorker ∧
      ∀ e ∈ store.events, byWorker e.worker = some ((store.eventsOf e.worker).length,
        ((store.eventsOf e.worker).map Event.seq).sum) := by
  have hmem : ∀ worker, worker ∈ (store.events.map Event.worker).dedup.insertionSort (· ≤ ·) ↔
      ∃ e ∈ store.events, e.worker = worker := by
    intro worker
    rw [List.mem_insertionSort, List.mem_dedup, List.mem_map]
  have hworkers : ∀ worker ∈ (store.events.map Event.worker).dedup.insertionSort (· ≤ ·),
      Fits store worker := by
    intro worker hworker
    obtain ⟨e, he, rfl⟩ := (hmem worker).mp hworker
    exact hfits e he
  obtain ⟨byWorker, hfold, hin, _⟩ := readTotals_lines hworkers (fun _ => none)
  refine ⟨byWorker, ?_, fun e he => hin _ ((hmem _).mpr ⟨e, he, rfl⟩)⟩
  have houtput : output (eventTotals store) =
      (((store.events.map Event.worker).dedup.insertionSort (· ≤ ·)).map
        (totalLine store)).flatMap (· ++ ['\n']) := by
    unfold output eventTotals
    rw [List.flatMap_map, List.flatMap_map]
    rfl
  unfold readTotals
  rw [houtput, lines_flatMap, hfold]
  intro line hline
  obtain ⟨worker, hworker, rfl⟩ := List.mem_map.mp hline
  have hid := (hworkers worker hworker).id
  exact ⟨totalLine_not_mem (by decide) (by decide) hid,
    totalLine_not_mem (by decide) (by decide) hid⟩

end Audit

section Storms

variable {ι : Type} {configs : ι → Config} {s : Storm ι} {i : ι}

/-- The numbers of the workers are integers of SQLite. -/
def Small (configs : ι → Config) : Prop := ∀ i, (configs i).worker.toNat < 2 ^ 63

theorem Small.literal_eq (h : Small configs) (i : ι) :
    literal (keyOf configs i) = keyOf configs i :=
  literal_of_lt (h i)

theorem Small.apart (h : Small configs)
    (hids : Function.Injective (fun i => (configs i).worker)) : Apart (keyOf configs) := by
  intro i j hij
  dsimp only at hij
  rw [h.literal_eq, h.literal_eq] at hij
  exact hids (UInt64.toNat_inj.mp hij)

/-- The worker has left its loop, and it has written. -/
structure Done (configs : ι → Config) (s : Storm ι) (i : ι) : Prop where
  finished : (s.runs i).step = (configs i).ops.toNat
  wrote : 0 < (s.runs i).writes

theorem step_lt (h : Sound configs s) (i : ι) : (s.runs i).step < 2 ^ 32 :=
  Nat.lt_of_le_of_lt (h.bounded i) (configs i).ops.toNat_lt

/-- A sum of steps stays below the bound of the integers of SQLite. -/
theorem sumSeq_lt (h : Sound configs s) (i : ι) : (s.runs i).sumSeq < 2 ^ 63 := by
  have hbound := (h.booked i).bound
  have hstep := step_lt h i
  have hsquare : (s.runs i).step * (s.runs i).step < 2 ^ 32 * 2 ^ 32 :=
    Nat.mul_lt_mul'' hstep hstep
  omega

theorem fits_of_sound (h : Sound configs s) (hsmall : Small configs) :
    ∀ e ∈ s.store.events, Fits s.store e.worker := by
  intro e he
  obtain ⟨i, hi⟩ := h.tables.recorded e he
  rw [hi]
  have hsteps := (h.booked i).steps.1
  have hstep := step_lt h i
  have hsum := sumSeq_lt h i
  constructor
  case id =>
    rw [hsmall.literal_eq]
    exact hsmall i
  case count =>
    rw [(h.booked i).count]
    omega
  case sum =>
    rw [(h.booked i).sum]
    omega

theorem token_fresh (h : Sound configs s) {token : String}
    (hmem : token ∈ (s.store.eventsOf (literal (keyOf configs i))).map Event.token) :
    ∀ c ∈ token.toList, Utf8.isWhitespace c = false := by
  obtain ⟨e, he, rfl⟩ := List.mem_map.mp hmem
  obtain ⟨k, hk⟩ := (h.booked i).made e he
  rw [hk]
  exact fresh_solid _ k

theorem Done.tokens (h : Sound configs s) (hdone : Done configs s i) :
    (s.runs i).sample ∈ (s.store.eventsOf (literal (keyOf configs i))).map Event.token ∧
      (s.runs i).last ∈ (s.store.eventsOf (literal (keyOf configs i))).map Event.token :=
  (h.booked i).tokens.resolve_left (Nat.ne_of_gt hdone.wrote)

/-- The line is read back as the claim that the worker means. -/
theorem parseClaim_summary (h : Sound configs s) (hdone : Done configs s i) (bootDdl ms : ℕ) :
    parseClaim (trim (summary (configs i) (s.runs i) bootDdl ms ++ "\n").toList) =
      .ok (claimOf (configs i) (s.runs i)) := by
  obtain ⟨hsample, hlast⟩ := hdone.tokens h
  have hwords := isWord_summary (configs i) bootDdl ms (token_fresh h hsample)
    (token_fresh h hlast)
  have hstep := step_lt h i
  have hsum := sumSeq_lt h i
  obtain ⟨hsteps, hexecuted⟩ := (h.booked i).steps
  have hwrites : (s.runs i).inserts + (s.runs i).updates + (s.runs i).deletes =
      (s.runs i).writes := rfl
  have hfold := fold_words (configs i) bootDdl ms (r := s.runs i) (by omega)
  have htotal : ((s.runs i).reads + (s.runs i).writes) % 2 ^ 64 = (configs i).ops.toNat := by
    have hfinished := hdone.finished
    omega
  unfold parseClaim
  rw [String.toList_append, summary_toList, show "\n".toList = ['\n'] from rfl,
    trim_intercalate hwords, splitWhitespace_intercalate hwords, hfold]
  exact if_neg (not_not_intro htotal)

/-- What an audit asks of the tables about a claim. -/
structure Matches (store : Store) (claim : Claim) : Prop where
  count : (store.eventsOf claim.worker).length = claim.writes
  sum : ((store.eventsOf claim.worker).map Event.seq).sum = claim.sumSeq
  sample : claim.sample ∈ (store.eventsOf claim.worker).map Event.token
  last : claim.last ∈ (store.eventsOf claim.worker).map Event.token
  balance : (inserted store claim.worker : ℤ) - deleted store claim.worker =
    (store.itemsOf claim.worker).length
  total : claim.reads + claim.writes = claim.ops

theorem matches_of_sound (h : Sound configs s) (hsmall : Small configs)
    (hdone : Done configs s i) : Matches s.store (claimOf (configs i) (s.runs i)) := by
  have hkey := hsmall.literal_eq i
  obtain ⟨hsample, hlast⟩ := hdone.tokens h
  have hbooked := h.booked i
  have hlive := hbooked.live
  have hcount := hbooked.count
  have hsum := hbooked.sum
  have hbalance := hbooked.balance
  rw [hkey] at hsample hlast hlive hcount hsum hbalance
  constructor
  case count => exact hcount
  case sum => exact hsum
  case sample => exact hsample
  case last => exact hlast
  case balance =>
    have hitems : (s.store.itemsOf (keyOf configs i)).length = (s.runs i).live.length := by
      rw [← hlive]
      exact (List.length_map _).symm
    have hinserted : inserted s.store (keyOf configs i) =
      deleted s.store (keyOf configs i) + (s.runs i).live.length := hbalance
    change (inserted s.store (keyOf configs i) : ℤ) - deleted s.store (keyOf configs i) =
      (s.store.itemsOf (keyOf configs i)).length
    omega
  case total => exact hbooked.steps.1.trans hdone.finished

/-- A claim that the tables match passes. -/
theorem supported_of_matches {store : Store} {claim : Claim} (h : Matches store claim)
    (hsmall : claim.worker < 2 ^ 63) {byWorker : ℕ → Option (ℕ × ℕ)}
    (htotals : ∀ e ∈ store.events, byWorker e.worker = some ((store.eventsOf e.worker).length,
      ((store.eventsOf e.worker).map Event.seq).sum)) : Supported store byWorker claim := by
  have hkey := literal_of_lt hsmall
  constructor
  case total =>
    obtain ⟨e, he, _⟩ := List.mem_map.mp h.sample
    obtain ⟨hevent, howner⟩ := List.mem_filter.mp he
    have htotal := htotals e hevent
    rwa [of_decide_eq_true howner, h.count, h.sum] at htotal
  case sample =>
    rw [hkey]
    exact h.sample
  case last =>
    rw [hkey]
    exact h.last
  case balance =>
    rw [hkey]
    exact h.balance

theorem audit_ok (h : Sound configs s) (hsmall : Small configs) {done : List ι}
    (hdone : ∀ i ∈ done, Done configs s i) :
    audit s.store (done.map (fun i => claimOf (configs i) (s.runs i))) = .ok () := by
  obtain ⟨byWorker, hread, htotals⟩ := readTotals_events (fits_of_sound h hsmall)
  have hclaims : forM (done.map (fun i => claimOf (configs i) (s.runs i)))
      (auditClaim s.store byWorker) = .ok () := by
    apply forM_ok_iff.mpr
    intro claim hclaim
    obtain ⟨i, hi, rfl⟩ := List.mem_map.mp hclaim
    have hmatches := matches_of_sound h hsmall (hdone i hi)
    exact (auditClaim_iff byWorker _).mpr (supported_of_matches hmatches (hsmall i) htotals)
  unfold audit
  rw [hread]
  exact hclaims

variable [DecidableEq ι]

/-- A storm of workers with different numbers below `2 ^ 63`, under any schedule: no write
breaks a constraint, each changes one row, the tables match the claim of every worker that has
finished, as it is printed and read back, and an audit reports nothing about these workers. -/
theorem no_false_alarm (configs : ι → Config)
    (hids : Function.Injective (fun i => (configs i).worker)) (hsmall : Small configs)
    (schedule : List ι) :
    let s := Storm.run configs schedule
    (∀ o ∈ s.log, o.2 = .ok 1) ∧ (∀ i, s.failed i = false) ∧
      (∀ i, Done configs s i → outcome (configs i) (s.runs i) = .ok () ∧
        (∀ bootDdl ms,
          parseClaim (trim (summary (configs i) (s.runs i) bootDdl ms ++ "\n").toList) =
            .ok (claimOf (configs i) (s.runs i))) ∧
        Matches s.store (claimOf (configs i) (s.runs i))) ∧
      ∀ done : List ι, (∀ i ∈ done, Done configs s i) →
        audit s.store (done.map (fun i => claimOf (configs i) (s.runs i))) = .ok () := by
  intro s
  have hsound : Sound configs s := sound_run (hsmall.apart hids) schedule
  refine ⟨hsound.outcomes, hsound.alive, fun i hdone => ⟨?_, ?_, ?_⟩, fun done hdone => ?_⟩
  · have hexecuted : (s.runs i).executed = (configs i).ops.toNat :=
      (hsound.booked i).steps.2.trans hdone.finished
    unfold outcome
    rw [if_neg (not_not_intro hexecuted), if_neg (Nat.ne_of_gt hdone.wrote)]
  · exact parseClaim_summary hsound hdone
  · exact matches_of_sound hsound hsmall hdone
  · exact audit_ok hsound hsmall hdone

/-- Two workers of a storm with four rounds each. -/
def pair (worker : Bool) : Config where
  worker := worker.toUInt64
  ops := 4
  seed := 0x9E3779B9 + worker.toUInt64 * 0x1000

def alternating : List Bool := [true, false, false, true, true, false, true, false]

theorem alternating_done (worker : Bool) : Done pair (Storm.run pair alternating) worker := by
  cases worker
  · exact ⟨rfl, by decide⟩
  · exact ⟨rfl, by decide⟩

theorem pair_audited :
    let s := Storm.run pair alternating
    (∀ i, Matches s.store (claimOf (pair i) (s.runs i))) ∧
      audit s.store ([false, true].map (fun i => claimOf (pair i) (s.runs i))) = .ok () := by
  have hids : Function.Injective (fun i => (pair i).worker) := by
    unfold Function.Injective
    decide
  have hsmall : Small pair := by
    unfold Small
    decide
  obtain ⟨_, _, hclaims, haudit⟩ := no_false_alarm pair hids hsmall alternating
  exact ⟨fun i => (hclaims i (alternating_done i)).2.2,
    haudit [false, true] fun i _ => alternating_done i⟩

/-- Two workers whose numbers are the same double. -/
def large (worker : Bool) : Config where
  worker := 0x8000000000000000 + worker.toUInt64
  ops := 4
  seed := 0x9E3779B9

/-- Workers with the numbers `2 ^ 63` and `2 ^ 63 + 1` are one worker to the primary key. -/
theorem large_collide : ¬ ∀ configs : Bool → Config,
    Function.Injective (fun i => (configs i).worker) →
    ∀ schedule, ∀ o ∈ (Storm.run configs schedule).log, o.2 = .ok 1 := by
  intro h
  have hids : Function.Injective (fun i => (large i).worker) := by
    unfold Function.Injective
    decide
  have hlog : (Storm.run large [false, true]).log.map Prod.snd = [.ok 1, .error .primaryKey] := by
    rfl
  have hmem : Except.error Violation.primaryKey ∈
      (Storm.run large [false, true]).log.map Prod.snd := by
    rw [hlog]
    exact List.mem_cons_of_mem _ List.mem_cons_self
  obtain ⟨o, ho, herror⟩ := List.mem_map.mp hmem
  cases herror.symm.trans (h large hids [false, true] o ho)

end Storms

end SqliteBroker.StormAudit
