import Mathlib.Data.List.Induction
import SqliteBroker.Hammer

/-!
What the workers of a storm keep in memory agrees with the tables, whatever the order of
their writes. The rows of one worker, in the order of their insertion, are its live names;
no other worker's write touches them, because a name says who has made it.
-/
namespace SqliteBroker.Bookkeeping

open Hammer

section Names

theorem fresh_chars (worker step : ℕ) : (fresh worker step).toList =
    'w' :: (Nat.toDigits 10 worker ++ '-' :: 's' :: Nat.toDigits 10 step) := by
  unfold fresh
  simp [String.toList_append, toString]

theorem takeWhile_digits (n : ℕ) (rest : List Char) :
    (Nat.toDigits 10 n ++ '-' :: rest).takeWhile (· ≠ '-') = Nat.toDigits 10 n := by
  have hdigits : ∀ c ∈ Nat.toDigits 10 n, decide (c ≠ '-') = true := by
    intro c hc
    have hdigit := Nat.isDigit_of_mem_toDigits (by decide) (by decide) hc
    apply decide_eq_true
    rintro rfl
    cases hdigit
  rw [List.takeWhile_append_of_pos hdigits]
  simp

theorem toDigits_injective {m n : ℕ} (h : Nat.toDigits 10 m = Nat.toDigits 10 n) : m = n := by
  have hread := congrArg (fun cs => Nat.ofDigitChars 10 cs 0) h
  simpa only [Nat.ofDigitChars_ten_toDigits] using hread

/-- A name says which worker has made it and in which step. -/
theorem fresh_injective {worker worker' step step' : ℕ}
    (h : fresh worker step = fresh worker' step') : worker = worker' ∧ step = step' := by
  have hchars := congrArg String.toList h
  rw [fresh_chars, fresh_chars] at hchars
  have htail := (List.cons.inj hchars).2
  have hworker := congrArg (List.takeWhile (· ≠ '-')) htail
  rw [takeWhile_digits, takeWhile_digits] at hworker
  rw [hworker] at htail
  have hstep := List.append_cancel_left htail
  simp only [List.cons.injEq, true_and] at hstep
  exact ⟨toDigits_injective hworker, toDigits_injective hstep⟩

end Names

section Writing

variable {r r' : Run} {w : Write}

/-- What a worker's memory holds after the choice of a write. -/
structure Chosen (key : ℕ) (r r' : Run) (w : Write) : Prop where
  worker : w.worker = literal key
  step : w.step = r.step
  writes : r'.writes = r.writes + 1
  same : r'.step = r.step ∧ r'.executed = r.executed ∧ r'.reads = r.reads ∧ r'.sumSeq = r.sumSeq ∧
    r'.sample = r.sample ∧ r'.last = r.last
  live : match w.kind with
    | .insert => w.name = fresh key r.step ∧ r'.live = r.live ++ [w.name]
    | .update => w.name ∈ r.live ∧ r'.live = r.live
    | .delete => r.live = r'.live ++ [w.name]

/-- The name of a write, and every name left after it, was live or is the one just made. -/
theorem Chosen.source {key : ℕ} (hw : Chosen key r r' w) :
    ∀ name, name = w.name ∨ name ∈ r'.live → name ∈ r.live ∨ name = fresh key r.step := by
  intro name hname
  have hlive := hw.live
  cases hkind : w.kind with
  | insert =>
    rw [hkind] at hlive
    obtain ⟨hfresh, hafter⟩ := hlive
    rcases hname with rfl | hmem
    · exact .inr hfresh
    · rw [hafter] at hmem
      rcases List.mem_append.mp hmem with hbefore | hnew
      · exact .inl hbefore
      · exact .inr ((List.mem_singleton.mp hnew).trans hfresh)
  | update =>
    rw [hkind] at hlive
    rcases hname with rfl | hmem
    · exact .inl hlive.1
    · exact .inl (hlive.2 ▸ hmem)
  | delete =>
    rw [hkind] at hlive
    rw [show r.live = r'.live ++ [w.name] from hlive]
    rcases hname with rfl | hmem
    · exact .inl (List.mem_append_right _ (List.mem_singleton_self _))
    · exact .inl (List.mem_append_left _ hmem)

/-- An insertion makes one name more live and a deletion one less. -/
theorem Chosen.live_length {key : ℕ} (hw : Chosen key r r' w) :
    r.live.length + (if w.kind = .insert then 1 else 0) =
      r'.live.length + if w.kind = .delete then 1 else 0 := by
  have hlive := hw.live
  cases hkind : w.kind with
  | insert =>
    rw [hkind] at hlive
    rw [hlive.2]
    simp
  | update =>
    rw [hkind] at hlive
    rw [hlive.2]
    simp
  | delete =>
    rw [hkind] at hlive
    rw [show r.live = r'.live ++ [w.name] from hlive]
    simp

/-- The choice does not panic: an index is below the length, and a pop finds a name. -/
theorem write_chosen (hlen : r.live.length < 2 ^ 32) (key : ℕ) :
    ∃ r' w, r.write key = some (r', w) ∧ Chosen key r r' w := by
  unfold Run.write
  generalize r.rng.below 3 = coin
  obtain ⟨kind, rng⟩ := coin
  dsimp only
  by_cases hfirst : kind = 0 ∨ r.live.isEmpty
  · rw [if_pos hfirst]
    refine ⟨_, _, rfl, rfl, rfl, ?_, ⟨rfl, rfl, rfl, rfl, rfl, rfl⟩, rfl, rfl⟩
    simp only [Run.writes]
    omega
  · rw [if_neg hfirst]
    have hsome : r.live ≠ [] := fun h => hfirst (.inr (by rw [h]; rfl))
    have hpos := List.length_pos_iff.mpr hsome
    by_cases hsecond : kind = 1
    · rw [if_pos hsecond]
      have hsize : (UInt32.ofNat r.live.length).toNat = r.live.length :=
        UInt32.toNat_ofNat_of_lt' hlen
      have hindex := Rng.below_lt rng (hsize ▸ hpos)
      rw [hsize] at hindex
      generalize rng.below (UInt32.ofNat r.live.length) = choice at hindex
      obtain ⟨index, rng'⟩ := choice
      dsimp only at hindex ⊢
      rw [List.getElem?_eq_getElem hindex]
      refine ⟨_, _, rfl, rfl, rfl, ?_, ⟨rfl, rfl, rfl, rfl, rfl, rfl⟩, ?_, rfl⟩
      · simp only [Run.writes]
        omega
      · exact List.getElem_mem hindex
    · rw [if_neg hsecond, List.getLast?_eq_some_getLast hsome]
      refine ⟨_, _, rfl, rfl, rfl, ?_, ⟨rfl, rfl, rfl, rfl, rfl, rfl⟩, ?_⟩
      · simp only [Run.writes]
        omega
      · exact (List.dropLast_append_getLast hsome).symm

end Writing

section Tables

variable {items : List Item} {w : Write} {key : ℕ}

/-- The names of one worker's rows. -/
def namesOf (items : List Item) (key : ℕ) : List String :=
  (items.filter (fun item => item.worker = key)).map Item.name

theorem namesOf_insert : namesOf (items ++ [Store.newItem w]) key =
    namesOf items key ++ if w.worker = key then [w.name] else [] := by
  unfold namesOf
  rw [List.filter_append, List.map_append]
  by_cases h : w.worker = key
  · simp [Store.newItem, h]
  · simp [Store.newItem, h]

/-- An edit changes neither the name nor the worker of a row. -/
theorem names_update (items : List Item) (w : Write) :
    let edit := fun item : Item => if item.name = w.name then Store.edited w item else item
    (items.map edit).map Item.name = items.map Item.name ∧
      (items.map edit).map Item.worker = items.map Item.worker ∧
      ∀ key, namesOf (items.map edit) key = namesOf items key := by
  intro edit
  have hname : Item.name ∘ edit = Item.name := by
    funext item
    simp only [Function.comp_apply, edit]
    split <;> rfl
  have hworker : Item.worker ∘ edit = Item.worker := by
    funext item
    simp only [Function.comp_apply, edit]
    split <;> rfl
  refine ⟨by rw [List.map_map, hname], by rw [List.map_map, hworker], fun key => ?_⟩
  have hfilter : (fun item : Item => decide (item.worker = key)) ∘ edit =
      fun item => decide (item.worker = key) := by
    funext item
    exact congrArg (fun k => decide (k = key)) (congrFun hworker item)
  unfold namesOf
  rw [List.filter_map, hfilter, List.map_map, hname]

theorem namesOf_delete : namesOf (items.filter (fun item => item.name ≠ w.name)) key =
    (namesOf items key).filter (· ≠ w.name) := by
  unfold namesOf
  rw [List.filter_map, List.filter_filter, List.filter_filter]
  refine congrArg (List.map Item.name) (List.filter_congr fun item _ => ?_)
  exact Bool.and_comm ..

theorem mem_namesOf {item : Item} (h : item ∈ items) : item.name ∈ namesOf items item.worker :=
  List.mem_map.mpr ⟨item, List.mem_filter.mpr ⟨h, decide_eq_true rfl⟩, rfl⟩

theorem mem_names {name : String} (h : name ∈ namesOf items key) : name ∈ items.map Item.name := by
  obtain ⟨item, hitem, rfl⟩ := List.mem_map.mp h
  exact List.mem_map_of_mem (List.mem_of_mem_filter hitem)

end Tables

/-- What worker `key` keeps in memory is what the tables hold of it, under the value of its
number. -/
structure Booked (key : ℕ) (store : Store) (r : Run) : Prop where
  live : namesOf store.items (literal key) = r.live
  named : ∀ name ∈ r.live, ∃ k, k < r.step ∧ name = fresh key k
  made : ∀ e ∈ store.eventsOf (literal key), ∃ k, e.token = fresh key k
  count : (store.eventsOf (literal key)).length = r.writes
  sum : ((store.eventsOf (literal key)).map Event.seq).sum = r.sumSeq
  bound : 2 * r.sumSeq ≤ r.step * r.step
  earlier : ∀ e ∈ store.eventsOf (literal key), e.seq < r.step
  balance : (store.eventsOf (literal key)).countP (fun e => e.kind = .insert) =
    (store.eventsOf (literal key)).countP (fun e => e.kind = .delete) + r.live.length
  steps : r.reads + r.writes = r.step ∧ r.executed = r.step
  unset : r.writes = 0 → r.sample = ""
  tokens : r.writes = 0 ∨ r.sample ∈ (store.eventsOf (literal key)).map Event.token ∧
    r.last ∈ (store.eventsOf (literal key)).map Event.token

variable {ι : Type} {key : ι → ℕ} {store : Store} {runs : ι → Run}

/-- The numbers of different workers have different values in the file. -/
def Apart (key : ι → ℕ) : Prop := Function.Injective (fun i => literal (key i))

/-- The table `item` meets its `UNIQUE`, and every row belongs to a worker of the storm. -/
structure Tables (key : ι → ℕ) (store : Store) : Prop where
  unique : (store.items.map Item.name).Nodup
  owned : ∀ item ∈ store.items, ∃ i, item.worker = literal (key i)
  recorded : ∀ e ∈ store.events, ∃ i, e.worker = literal (key i)

section Execution

variable {i j : ι} {w : Write} {r' : Run}

theorem live_short (h : Booked (key i) store (runs i)) : (runs i).live.length ≤ (runs i).step := by
  have hinserts : (store.eventsOf (literal (key i))).countP (fun e => e.kind = .insert) ≤
    (store.eventsOf (literal (key i))).length := List.countP_le_length
  have hbalance := h.balance
  have hcount := h.count
  have hsteps := h.steps.1
  omega

/-- A new name is in no row. -/
theorem fresh_new (hkey : Apart key) (htables : Tables key store)
    (hbooked : ∀ j, Booked (key j) store (runs j)) (i : ι) :
    fresh (key i) (runs i).step ∉ store.items.map Item.name := by
  intro hmem
  obtain ⟨item, hitem, hname⟩ := List.mem_map.mp hmem
  obtain ⟨j, hj⟩ := htables.owned item hitem
  have hlive := mem_namesOf hitem
  rw [hj, (hbooked j).live, hname] at hlive
  obtain ⟨k, hk, heq⟩ := (hbooked j).named _ hlive
  obtain ⟨hsame, hstep⟩ := fresh_injective heq
  have hij := hkey (congrArg literal hsame)
  subst hij
  omega

/-- A live name of one worker is in no row of another. -/
theorem live_apart (hkey : Apart key)
    (hbooked : ∀ j, Booked (key j) store (runs j)) (hne : j ≠ i) {name : String}
    (hmem : name ∈ (runs i).live) : name ∉ namesOf store.items (literal (key j)) := by
  intro hother
  rw [(hbooked j).live] at hother
  obtain ⟨k, _, hk⟩ := (hbooked i).named name hmem
  obtain ⟨k', _, hk'⟩ := (hbooked j).named name hother
  exact hne (hkey (congrArg literal (fresh_injective (hk'.symm.trans hk)).1))

/-- What a write leaves in the table `item`. -/
structure Changed (key : ι → ℕ) (i : ι) (items items' : List Item) (r' : Run) : Prop where
  unique : (items'.map Item.name).Nodup
  owned : ∀ item ∈ items', item.worker = literal (key i) ∨ item.worker ∈ items.map Item.worker
  own : namesOf items' (literal (key i)) = r'.live
  others : ∀ j, j ≠ i → namesOf items' (literal (key j)) = namesOf items (literal (key j))

theorem change_ok (hkey : Apart key) (htables : Tables key store)
    (hbooked : ∀ j, Booked (key j) store (runs j)) (hw : Chosen (key i) (runs i) r' w) :
    ∃ items', Store.change store.items w = .ok (1, items') ∧
      Changed key i store.items items' r' := by
  have hlive := hw.live
  cases hkind : w.kind with
  | insert =>
    rw [hkind] at hlive
    obtain ⟨hname, hlive⟩ := hlive
    have hnew := fresh_new hkey htables hbooked i
    rw [← hname] at hnew
    refine ⟨store.items ++ [Store.newItem w], ?_, ?_, ?_, ?_, ?_⟩
    · unfold Store.change
      rw [hkind]
      exact if_neg hnew
    · rw [List.map_append]
      refine htables.unique.append (List.nodup_singleton _) ?_
      intro name hold hone
      rw [List.mem_singleton.mp hone] at hold
      exact hnew hold
    · intro item hitem
      rcases List.mem_append.mp hitem with hold | hone
      · exact .inr (List.mem_map_of_mem hold)
      · rw [List.mem_singleton.mp hone]
        exact .inl hw.worker
    · rw [namesOf_insert, if_pos hw.worker, (hbooked i).live, hlive]
    · intro j hne
      have hother : ¬ w.worker = literal (key j) := fun h => hne (hkey (h.symm.trans hw.worker))
      rw [namesOf_insert, if_neg hother, List.append_nil]
  | update =>
    rw [hkind] at hlive
    obtain ⟨hmem, hlive⟩ := hlive
    obtain ⟨hnames, hworkers, hviews⟩ := names_update store.items w
    have hrow : w.name ∈ store.items.map Item.name := mem_names ((hbooked i).live ▸ hmem)
    refine ⟨_, ?_, by rw [hnames]; exact htables.unique, ?_, ?_, fun j _ => hviews _⟩
    · unfold Store.change
      rw [hkind, ← List.count_eq_one_of_mem htables.unique hrow]
    · intro item hitem
      have hworker := List.mem_map_of_mem (f := Item.worker) hitem
      rw [hworkers] at hworker
      exact .inr hworker
    · rw [hviews, (hbooked i).live, hlive]
  | delete =>
    rw [hkind] at hlive
    have hmem : w.name ∈ (runs i).live := by
      rw [hlive]
      exact List.mem_append_right _ (List.mem_singleton_self _)
    have hrow : w.name ∈ store.items.map Item.name := mem_names ((hbooked i).live ▸ hmem)
    refine ⟨store.items.filter (fun item => item.name ≠ w.name), ?_, ?_, ?_, ?_, ?_⟩
    · unfold Store.change
      rw [hkind, ← List.count_eq_one_of_mem htables.unique hrow]
    · exact htables.unique.sublist ((List.filter_sublist ..).map Item.name)
    · intro item hitem
      exact .inr (List.mem_map_of_mem (List.mem_of_mem_filter hitem))
    · have hnodup : (runs i).live.Nodup := by
        rw [← (hbooked i).live]
        exact htables.unique.sublist ((List.filter_sublist ..).map Item.name)
      rw [hlive] at hnodup
      have hlast : w.name ∉ r'.live := fun h =>
        (List.nodup_append.mp hnodup).2.2 _ h _ (List.mem_singleton_self _) rfl
      have hkept : r'.live.filter (· ≠ w.name) = r'.live := by
        rw [List.filter_eq_self]
        intro name hname
        apply decide_eq_true
        rintro rfl
        exact hlast hname
      rw [namesOf_delete, (hbooked i).live, hlive, List.filter_append, hkept]
      simp
    · intro j hne
      have hapart := live_apart hkey hbooked hne hmem
      rw [namesOf_delete, List.filter_eq_self]
      intro name hname
      apply decide_eq_true
      rintro rfl
      exact hapart hname

theorem eventsOf_append (store : Store) (items : List Item) (e : Event) (k : ℕ) :
    Store.eventsOf ⟨items, store.events ++ [e]⟩ k =
      store.eventsOf k ++ if e.worker = k then [e] else [] := by
  unfold Store.eventsOf
  rw [List.filter_append]
  by_cases h : e.worker = k
  · simp [h]
  · simp [h]

/-- The write goes through and affects one row. -/
theorem exec_ok (hkey : Apart key) (htables : Tables key store)
    (hbooked : ∀ j, Booked (key j) store (runs j)) (hw : Chosen (key i) (runs i) r' w) :
    ∃ items', store.exec w =
        .ok (1, ⟨items', store.events ++ [⟨w.worker, w.step, w.kind, w.name⟩]⟩) ∧
      Changed key i store.items items' r' := by
  obtain ⟨items', hchange, hchanged⟩ := change_ok hkey htables hbooked hw
  have hnew : (w.worker, w.step) ∉ store.events.map (fun e => (e.worker, e.seq)) := by
    intro hmem
    obtain ⟨e, he, heq⟩ := List.mem_map.mp hmem
    obtain ⟨hworker, hseq⟩ := Prod.ext_iff.mp heq
    have hown : e ∈ store.eventsOf (literal (key i)) :=
      List.mem_filter.mpr ⟨he, decide_eq_true (hworker.trans hw.worker)⟩
    have hearlier := (hbooked i).earlier e hown
    rw [show e.seq = w.step from hseq, hw.step] at hearlier
    exact Nat.lt_irrefl _ hearlier
  refine ⟨items', ?_, hchanged⟩
  unfold Store.exec
  rw [hchange]
  exact if_neg hnew

/-- The worker's own books after its write. -/
theorem booked_own (hbooked : Booked (key i) store (runs i))
    (hw : Chosen (key i) (runs i) r' w) {items' : List Item}
    (hchanged : Changed key i store.items items' r') :
    Booked (key i) ⟨items', store.events ++ [⟨w.worker, w.step, w.kind, w.name⟩]⟩
      (r'.record w.name).advance := by
  obtain ⟨hstep, hexecuted, hreads, hsum, hsample, hlast⟩ := hw.same
  have hevents : Store.eventsOf ⟨items', store.events ++ [⟨w.worker, w.step, w.kind, w.name⟩]⟩
      (literal (key i)) =
        store.eventsOf (literal (key i)) ++ [⟨w.worker, w.step, w.kind, w.name⟩] := by
    rw [eventsOf_append, if_pos hw.worker]
  have hmade : ∀ name, name = w.name ∨ name ∈ r'.live →
      ∃ k, k < (runs i).step + 1 ∧ name = fresh (key i) k := by
    intro name hname
    rcases hw.source name hname with hold | hnew
    · obtain ⟨k, hk, heq⟩ := hbooked.named name hold
      exact ⟨k, Nat.lt_succ_of_lt hk, heq⟩
    · exact ⟨(runs i).step, Nat.lt_succ_self _, hnew⟩
  constructor
  case live => exact hchanged.own
  case named =>
    intro name hname
    change ∃ k, k < r'.step + 1 ∧ name = fresh (key i) k
    rw [hstep]
    exact hmade name (.inr hname)
  case made =>
    rw [hevents]
    intro e he
    rcases List.mem_append.mp he with hold | hnew
    · exact hbooked.made e hold
    · rw [List.mem_singleton.mp hnew]
      obtain ⟨k, _, heq⟩ := hmade w.name (.inl rfl)
      exact ⟨k, heq⟩
  case count =>
    rw [hevents, List.length_append, hbooked.count]
    exact hw.writes.symm
  case sum =>
    rw [hevents, List.map_append, List.sum_append, hbooked.sum]
    change _ = r'.sumSeq + r'.step
    rw [hsum, hstep, ← hw.step]
    rfl
  case bound =>
    have hbound := hbooked.bound
    change 2 * (r'.sumSeq + r'.step) ≤ (r'.step + 1) * (r'.step + 1)
    rw [hsum, hstep]
    have hsquare : ((runs i).step + 1) * ((runs i).step + 1) =
        (runs i).step * (runs i).step + (runs i).step + ((runs i).step + 1) := by
      rw [Nat.succ_mul, Nat.mul_succ]
    omega
  case earlier =>
    rw [hevents]
    intro e he
    change e.seq < r'.step + 1
    rw [hstep]
    rcases List.mem_append.mp he with hold | hnew
    · exact Nat.lt_succ_of_lt (hbooked.earlier e hold)
    · rw [List.mem_singleton.mp hnew]
      exact Nat.lt_succ_of_le (Nat.le_of_eq hw.step)
  case balance =>
    have hlength := hw.live_length
    rw [hevents, List.countP_append, List.countP_append, hbooked.balance]
    change _ = _ + r'.live.length
    simp only [List.countP_singleton, decide_eq_true_eq]
    omega
  case steps =>
    have hsteps := hbooked.steps
    have hwrites := hw.writes
    change r'.reads + r'.writes = r'.step + 1 ∧ r'.executed + 1 = r'.step + 1
    omega
  case unset =>
    intro hnone
    have hwrites := hw.writes
    rw [show (r'.record w.name).advance.writes = r'.writes from rfl] at hnone
    omega
  case tokens =>
    rw [hevents, List.map_append]
    refine .inr ⟨?_, List.mem_append_right _ (List.mem_singleton_self _)⟩
    change (if r'.sample = "" then w.name else r'.sample) ∈ _
    rw [hsample]
    split
    · exact List.mem_append_right _ (List.mem_singleton_self _)
    · next hset =>
      rcases hbooked.tokens with hnone | ⟨hsampled, _⟩
      · exact absurd (hbooked.unset hnone) hset
      · exact List.mem_append_left _ hsampled

/-- The books of another worker stay as they are. -/
theorem booked_other (hkey : Apart key) (hne : j ≠ i) {w' : Event}
    (howner : w'.worker = literal (key i)) (hbooked : Booked (key j) store (runs j))
    {items' : List Item} (hchanged : Changed key i store.items items' r') :
    Booked (key j) ⟨items', store.events ++ [w']⟩ (runs j) := by
  have hevents : Store.eventsOf ⟨items', store.events ++ [w']⟩ (literal (key j)) =
      store.eventsOf (literal (key j)) := by
    have hother : ¬ w'.worker = literal (key j) := fun h => hne (hkey (h.symm.trans howner))
    rw [eventsOf_append, if_neg hother, List.append_nil]
  constructor
  case live => exact (hchanged.others j hne).trans hbooked.live
  case named => exact hbooked.named
  case bound => exact hbooked.bound
  case steps => exact hbooked.steps
  case unset => exact hbooked.unset
  all_goals rw [hevents]
  case made => exact hbooked.made
  case count => exact hbooked.count
  case sum => exact hbooked.sum
  case earlier => exact hbooked.earlier
  case balance => exact hbooked.balance
  case tokens => exact hbooked.tokens

/-- A read changes no table. -/
theorem booked_read {k : ℕ} {r : Run} (h : Booked k store r) : Booked k store r.read.advance where
  live := h.live
  named := by
    intro name hname
    obtain ⟨m, hm, heq⟩ := h.named name hname
    exact ⟨m, Nat.lt_succ_of_lt hm, heq⟩
  made := h.made
  count := h.count
  sum := h.sum
  bound := Nat.le_trans h.bound (Nat.mul_le_mul (Nat.le_succ _) (Nat.le_succ _))
  earlier e he := Nat.lt_succ_of_lt (h.earlier e he)
  balance := h.balance
  steps := by
    obtain ⟨hsteps, hexecuted⟩ := h.steps
    change r.reads + 1 + r.writes = r.step + 1 ∧ r.executed + 1 = r.step + 1
    omega
  unset := h.unset
  tokens := h.tokens

theorem booked_rng {k : ℕ} {r : Run} (h : Booked k store r) (rng : Rng) :
    Booked k store { r with rng } :=
  ⟨h.live, h.named, h.made, h.count, h.sum, h.bound, h.earlier, h.balance, h.steps, h.unset,
    h.tokens⟩

end Execution

section Runs

variable {configs : ι → Config} {s : Storm ι}

/-- The number of a worker. -/
def keyOf (configs : ι → Config) (i : ι) : ℕ := (configs i).worker.toNat

/-- What holds in every state of a storm. -/
structure Sound (configs : ι → Config) (s : Storm ι) : Prop where
  tables : Tables (keyOf configs) s.store
  booked : ∀ i, Booked (keyOf configs i) s.store (s.runs i)
  bounded : ∀ i, (s.runs i).step ≤ (configs i).ops.toNat
  alive : ∀ i, s.failed i = false
  outcomes : ∀ o ∈ s.log, o.2 = .ok 1

theorem sound_start (configs : ι → Config) : Sound configs (Storm.start configs) where
  tables := ⟨List.nodup_nil, nofun, nofun⟩
  booked _ := ⟨rfl, nofun, nofun, rfl, rfl, Nat.le_refl _, nofun, rfl, ⟨rfl, rfl⟩, fun _ => rfl,
    .inl rfl⟩
  bounded _ := Nat.zero_le _
  alive _ := rfl
  outcomes := nofun

variable [DecidableEq ι]

theorem sound_turn (hkey : Apart (keyOf configs)) (h : Sound configs s) (i : ι) :
    Sound configs (s.turn configs i) := by
  unfold Storm.turn
  dsimp only
  by_cases hstop : s.failed i = true ∨ (configs i).ops.toNat ≤ (s.runs i).step
  · rw [if_pos hstop]
    exact h
  rw [if_neg hstop]
  have hmore : (s.runs i).step < (configs i).ops.toNat := by
    simp only [not_or, Nat.not_le] at hstop
    exact hstop.2
  generalize (s.runs i).rng.below 2 = coin
  obtain ⟨coin, rng⟩ := coin
  dsimp only
  have hbooked : ∀ j, Booked (keyOf configs j) s.store
      (Function.update s.runs i { s.runs i with rng } j) := by
    intro j
    by_cases hj : j = i
    · subst hj
      rw [Function.update_self]
      exact booked_rng (h.booked j) rng
    · rw [Function.update_of_ne hj]
      exact h.booked j
  have hown : Function.update s.runs i { s.runs i with rng } i = { s.runs i with rng } :=
    Function.update_self ..
  have hlen : (s.runs i).live.length < 2 ^ 32 :=
    Nat.lt_of_le_of_lt (live_short (h.booked i)) (Nat.lt_trans hmore (configs i).ops.toNat_lt)
  by_cases hwrite : coin = 0
  · obtain ⟨r', w, hchoice, hchosen⟩ :=
      @write_chosen { s.runs i with rng } hlen (configs i).worker.toNat
    rw [← hown] at hchosen
    obtain ⟨items', hexec, hchanged⟩ := exec_ok hkey h.tables hbooked hchosen
    rw [if_pos hwrite, hchoice]
    dsimp only
    rw [hexec]
    constructor
    case tables =>
      refine ⟨hchanged.unique, fun item hitem => ?_, fun e he => ?_⟩
      · rcases hchanged.owned item hitem with hmine | hbefore
        · exact ⟨i, hmine⟩
        · obtain ⟨item', hitem', heq⟩ := List.mem_map.mp hbefore
          obtain ⟨j, hj⟩ := h.tables.owned item' hitem'
          exact ⟨j, heq.symm.trans hj⟩
      · rcases List.mem_append.mp he with hold | hnew
        · exact h.tables.recorded e hold
        · rw [List.mem_singleton.mp hnew]
          exact ⟨i, hchosen.worker⟩
    case booked =>
      intro j
      by_cases hj : j = i
      · subst hj
        dsimp only
        rw [Function.update_self]
        exact booked_own (hbooked j) hchosen hchanged
      · dsimp only
        rw [Function.update_of_ne hj]
        exact booked_other hkey hj hchosen.worker (h.booked j) hchanged
    case bounded =>
      intro j
      by_cases hj : j = i
      · subst hj
        dsimp only
        rw [Function.update_self]
        change r'.step + 1 ≤ _
        rw [hchosen.same.1, hown]
        exact hmore
      · dsimp only
        rw [Function.update_of_ne hj]
        exact h.bounded j
    case alive => exact h.alive
    case outcomes =>
      intro o ho
      rcases List.mem_append.mp ho with hold | hnew
      · exact h.outcomes o hold
      · rw [List.mem_singleton.mp hnew]
  · rw [if_neg hwrite]
    refine ⟨h.tables, fun j => ?_, fun j => ?_, h.alive, h.outcomes⟩
    · by_cases hj : j = i
      · subst hj
        dsimp only
        rw [Function.update_self]
        exact booked_read (booked_rng (h.booked j) rng)
      · dsimp only
        rw [Function.update_of_ne hj]
        exact h.booked j
    · by_cases hj : j = i
      · subst hj
        dsimp only
        rw [Function.update_self]
        exact hmore
      · dsimp only
        rw [Function.update_of_ne hj]
        exact h.bounded j

/-- Every schedule keeps the books. -/
theorem sound_run (hkey : Apart (keyOf configs)) (schedule : List ι) :
    Sound configs (Storm.run configs schedule) := by
  unfold Storm.run
  induction schedule using List.reverseRecOn with
  | nil => exact sound_start configs
  | append_singleton before i ih =>
    rw [List.foldl_append]
    exact sound_turn hkey ih i

end Runs

end SqliteBroker.Bookkeeping
