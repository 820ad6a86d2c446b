import SqliteBroker.FileNames
import SqliteBroker.Stub
import SqliteBroker.SmallSqlite
import SqliteBroker.Runs
import Mathlib.Logic.Function.Basic

/-!
How the address of the broker reaches its clients. `serve` creates the storage file, writes the
stub under a temporary name and moves it into its place, and `sqlite3_open` reads what it finds
there. A server process may end at any point and be followed by another one, while any number of
clients are reading. A client never reads half a stub: it reads the one that was in its place
when it opened it. What the statements of clients do to files once the broker serves is left out.
-/
namespace SqliteBroker.Publication

open Utf8 Engine FileNames Stub Runs

abbrev Ino := ℕ

/-- Files and the names that lead to them. A file keeps its number for ever, `next` is not in
use yet. -/
structure FileSystem where
  entries : Path → Option Ino
  contents : Ino → Bytes
  next : Ino

namespace FileSystem

/-- What a reader who opens `p` now can read. -/
def visible (fs : FileSystem) (p : Path) : Option Bytes := (fs.entries p).map fs.contents

/-- `File::create`: a file that is there is emptied. -/
def create (fs : FileSystem) (p : Path) : Ino × FileSystem :=
  match fs.entries p with
  | some ino => (ino, { fs with contents := Function.update fs.contents ino [] })
  | none => (fs.next,
      { entries := Function.update fs.entries p (some fs.next)
        contents := Function.update fs.contents fs.next []
        next := fs.next + 1 })

/-- An open with `O_CREAT`: a file that is there stays as it is. -/
def touch (fs : FileSystem) (p : Path) : FileSystem :=
  match fs.entries p with
  | some _ => fs
  | none => (fs.create p).2

def append (fs : FileSystem) (ino : Ino) (bytes : Bytes) : FileSystem :=
  { fs with contents := Function.update fs.contents ino (fs.contents ino ++ bytes) }

/-- `fs::rename`: nothing happens between two names of one file. -/
def rename (fs : FileSystem) (src dst : Path) : Option FileSystem :=
  match fs.entries src with
  | none => none
  | some ino =>
    if fs.entries dst = some ino then some fs
    else some { fs with
      entries := Function.update (Function.update fs.entries dst (some ino)) src none }

end FileSystem

structure Config where
  storage : Path
  stub : Path

/-- The name under which `write_stub` writes. -/
def Config.tmp (c : Config) : Path := withExtension c.stub ['t', 'm', 'p']

/-- Where a server process is in `serve` and `write_stub`. -/
inductive Phase
  | down
  | starting (advertise : Option String)
  | opening (advertise : Option String)
  | binding (advertise : Option String)
  | naming (published : String)
  | creating (published : String)
  | writing (published : String) (ino : Ino) (rest : Bytes)
  | renaming (published : String)
  | serving (published : String)

/-- A client in `fs::read`. -/
inductive Reader
  | idle
  | reading (ino : Ino) (got : Bytes)
  | done (found : Option Bytes)

structure World (S : Sqlite) where
  fs : FileSystem
  storage : S.File
  server : Phase
  readers : ℕ → Reader
  /-- The addresses whose stubs have been moved into place, the newest first. -/
  announced : List String

/-- A call that the system may refuse has its outcome in its action. -/
inductive Action
  | start (advertise : Option String)
  | createStorageDir (ok : Bool)
  /-- Whether an open that fails has created the file. -/
  | openStorage (created : Bool)
  | bind (addr : Option String)
  | createStubDir (ok : Bool)
  | createTmp (ok : Bool)
  /-- The number of bytes that the system takes. -/
  | write (n : Option ℕ)
  | rename (ok : Bool)
  | stop
  | openStub (id : ℕ) (ok : Bool)
  /-- The room in the buffer. -/
  | readStub (id : ℕ) (room : Option ℕ)

/-- Whether a directory has to be there before a file can be written. -/
def needsDir (p : Path) : Bool :=
  match parent p with
  | none => false
  | some dir => decide (dir ≠ [])

/-- What is left to do of `fs::write`. -/
def writingRest (published : String) (ino : Ino) (rest : Bytes) : Phase :=
  if rest = [] then .renaming published else .writing published ino rest

namespace World

variable {S : Sqlite}

def toPhase (w : World S) (p : Phase) : World S := { w with server := p }

def setReader (w : World S) (id : ℕ) (r : Reader) : World S :=
  { w with readers := Function.update w.readers id r }

/-- `serve` up to its listener; an error ends the process. -/
def prepare (c : Config) (w : World S) : Action → Option (World S)
  | .start advertise =>
    match w.server with
    | .down => some (w.toPhase (.starting advertise))
    | _ => none
  | .createStorageDir ok =>
    match w.server with
    | .starting advertise =>
      some (w.toPhase (if needsDir c.storage && !ok then .down else .opening advertise))
    | _ => none
  | .openStorage created =>
    match w.server with
    | .opening advertise =>
      match Engine.openStorage S w.storage with
      | (.ok conn, f) =>
        some { w with
          fs := w.fs.touch c.storage
          storage := S.closeConnection f conn
          server := .binding advertise }
      | (.error _, f) =>
        some { w with
          fs := if created then w.fs.touch c.storage else w.fs
          storage := f
          server := .down }
    | _ => none
  | .bind addr =>
    match w.server with
    | .binding advertise =>
      some (w.toPhase (match addr with
        | some addr => .naming (advertise.getD addr)
        | none => .down))
    | _ => none
  | _ => none

/-- `write_stub`; an error ends the process. -/
def writeStub (c : Config) (w : World S) : Action → Option (World S)
  | .createStubDir ok =>
    match w.server with
    | .naming published =>
      some (w.toPhase (if needsDir c.stub && !ok then .down else .creating published))
    | _ => none
  | .createTmp ok =>
    match w.server with
    | .creating published =>
      if ok then
        some { w with
          fs := (w.fs.create c.tmp).2
          server := .writing published (w.fs.create c.tmp).1 (stubBytes published) }
      else some (w.toPhase .down)
    | _ => none
  | .write n =>
    match w.server with
    | .writing published ino rest =>
      match n with
      | none | some 0 => some (w.toPhase .down)
      | some (n + 1) =>
        some { w with
          fs := w.fs.append ino (rest.take (n + 1))
          server := writingRest published ino (rest.drop (n + 1)) }
    | _ => none
  | .rename ok =>
    match w.server with
    | .renaming published =>
      match ok, w.fs.rename c.tmp c.stub with
      | true, some fs =>
        some { w with
          fs := fs
          server := .serving published
          announced := published :: w.announced }
      | _, _ => some (w.toPhase .down)
    | _ => none
  | _ => none

/-- `fs::read` in `stub_addr`. -/
def readStub (c : Config) (w : World S) : Action → Option (World S)
  | .openStub id ok =>
    match w.readers id with
    | .idle =>
      some (w.setReader id (match ok, w.fs.entries c.stub with
        | true, some ino => .reading ino []
        | _, _ => .done none))
    | _ => none
  | .readStub id room =>
    match w.readers id with
    | .reading ino got =>
      match room with
      | none => some (w.setReader id (.done none))
      | some 0 => none
      | some (n + 1) =>
        let rest := (w.fs.contents ino).drop got.length
        some (w.setReader id (if rest = [] then .done (some got)
          else .reading ino (got ++ rest.take (n + 1))))
    | _ => none
  | _ => none

def step (c : Config) (w : World S) (a : Action) : Option (World S) :=
  match a with
  | .stop => some (w.toPhase .down)
  | .start _ | .createStorageDir _ | .openStorage _ | .bind _ => w.prepare c a
  | .createStubDir _ | .createTmp _ | .write _ | .rename _ => w.writeStub c a
  | .openStub _ _ | .readStub _ _ => w.readStub c a

def Step (c : Config) (w : World S) (a : Action) (w' : World S) : Prop := w.step c a = some w'

end World

/-- `stub_addr`, with what `fs::read` has returned for the path. -/
def stubAddr (path : List Char) (found : Option Bytes) : Option String :=
  if path = [] ∨ path = ":memory:".toList then none else found.bind parseStub

section Files

variable {fs fs' : FileSystem} {tmp stub p q : Path} {ino j : Ino} {bytes : Bytes}

/-- The name `tmp` leads to a file of its own. -/
structure Sound (tmp : Path) (fs : FileSystem) : Prop where
  named : ∀ p ino, fs.entries p = some ino → ino < fs.next
  unshared : ∀ p ino, p ≠ tmp → fs.entries p = some ino → fs.entries tmp ≠ some ino

/-- A file that nobody writes to. -/
structure Settled (tmp : Path) (fs : FileSystem) (ino : Ino) : Prop where
  used : ino < fs.next
  apart : fs.entries tmp ≠ some ino

theorem Sound.settled (h : Sound tmp fs) (hp : p ≠ tmp) (hentry : fs.entries p = some ino) :
    Settled tmp fs ino :=
  ⟨h.named p ino hentry, h.unshared p ino hp hentry⟩

/-- What a change to the file named `tmp` leaves alone. -/
structure Keeps (tmp : Path) (fs fs' : FileSystem) : Prop where
  sound : Sound tmp fs'
  entries : ∀ p, p ≠ tmp → fs'.entries p = fs.entries p
  settled : ∀ ino, Settled tmp fs ino → Settled tmp fs' ino ∧ fs'.contents ino = fs.contents ino

theorem Keeps.visible (h : Keeps tmp fs fs') (hs : Sound tmp fs) (hp : p ≠ tmp) :
    fs'.visible p = fs.visible p := by
  unfold FileSystem.visible
  rw [h.entries p hp]
  cases hentry : fs.entries p with
  | none => rfl
  | some ino => exact congrArg some (h.settled ino (hs.settled hp hentry)).2

theorem keeps_contents (hs : Sound tmp fs) (hentry : fs.entries tmp = some ino) :
    Keeps tmp fs { fs with contents := Function.update fs.contents ino bytes } where
  sound := ⟨hs.named, hs.unshared⟩
  entries _ _ := rfl
  settled j hj := by
    have hne : j ≠ ino := by
      rintro rfl
      exact hj.apart hentry
    exact ⟨⟨hj.used, hj.apart⟩, Function.update_of_ne hne ..⟩

theorem entry_of_named (hs : Sound tmp fs)
    (h : Function.update fs.entries q (some fs.next) p = some ino) :
    (p = q ∧ ino = fs.next) ∨ (p ≠ q ∧ ino < fs.next) := by
  by_cases hpq : p = q
  · subst hpq
    rw [Function.update_self] at h
    exact Or.inl ⟨rfl, (Option.some.inj h).symm⟩
  · rw [Function.update_of_ne hpq] at h
    exact Or.inr ⟨hpq, hs.named p ino h⟩

theorem named_used (hs : Sound tmp fs)
    (h : Function.update fs.entries q (some fs.next) p = some ino) : ino < fs.next + 1 := by
  rcases entry_of_named hs h with ⟨_, rfl⟩ | ⟨_, hlt⟩
  · exact Nat.lt_succ_self _
  · exact Nat.lt_succ_of_lt hlt

theorem contents_named (hino : ino < fs.next) :
    Function.update fs.contents fs.next bytes ino = fs.contents ino :=
  Function.update_of_ne (Nat.ne_of_lt hino) ..

/-- A name that is given to a file for the first time. -/
theorem keeps_named (hs : Sound tmp fs) (hnone : fs.entries tmp = none) :
    Keeps tmp fs
      { entries := Function.update fs.entries tmp (some fs.next)
        contents := Function.update fs.contents fs.next bytes
        next := fs.next + 1 } := by
  have hother : ∀ p, p ≠ tmp →
      Function.update fs.entries tmp (some fs.next) p = fs.entries p := fun p hp =>
    Function.update_of_ne hp ..
  have hfresh : ∀ ino, ino < fs.next →
      Function.update fs.entries tmp (some fs.next) tmp ≠ some ino := by
    intro ino hlt h
    rcases entry_of_named hs h with ⟨_, rfl⟩ | ⟨hne, _⟩
    · exact Nat.lt_irrefl _ hlt
    · exact hne rfl
  refine ⟨⟨fun p ino => named_used hs, fun p ino hp hino => ?_⟩, hother, fun ino hino => ?_⟩
  · exact hfresh ino (hs.named p ino ((hother p hp).symm.trans hino))
  · exact ⟨⟨Nat.lt_succ_of_lt hino.used, hfresh ino hino.used⟩, contents_named hino.used⟩

/-- A created file is empty, and it is the one with that name. -/
theorem create_spec (hs : Sound tmp fs) : Keeps tmp fs (fs.create tmp).2 ∧
    (fs.create tmp).2.entries tmp = some (fs.create tmp).1 ∧
    (fs.create tmp).2.contents (fs.create tmp).1 = [] := by
  unfold FileSystem.create
  cases hentry : fs.entries tmp with
  | some ino => exact ⟨keeps_contents hs hentry, hentry, Function.update_self ..⟩
  | none => exact ⟨keeps_named hs hentry, Function.update_self .., Function.update_self ..⟩

/-- An opened file is there, and nothing else changes. -/
theorem touch_spec (hs : Sound tmp fs) (hne : q ≠ tmp) :
    Sound tmp (fs.touch q) ∧
      (∀ p, p ≠ q → (fs.touch q).visible p = fs.visible p) ∧
      ((fs.touch q).visible q = fs.visible q ∨
        fs.visible q = none ∧ (fs.touch q).visible q = some []) ∧
      ∀ ino, Settled tmp fs ino →
        Settled tmp (fs.touch q) ino ∧ (fs.touch q).contents ino = fs.contents ino := by
  unfold FileSystem.touch
  cases hentry : fs.entries q with
  | some ino => exact ⟨hs, fun _ _ => rfl, Or.inl rfl, fun _ h => ⟨h, rfl⟩⟩
  | none =>
    simp only [FileSystem.create, hentry]
    have hother : ∀ p, p ≠ q → Function.update fs.entries q (some fs.next) p = fs.entries p :=
      fun p hp => Function.update_of_ne hp ..
    refine ⟨⟨fun p ino => named_used hs, fun p ino hp hino htmp => ?_⟩, fun p hp => ?_,
      Or.inr ⟨?_, ?_⟩, fun ino hino => ⟨⟨Nat.lt_succ_of_lt hino.used, ?_⟩,
        contents_named hino.used⟩⟩
    · have hold : fs.entries tmp = some ino := (hother tmp hne.symm).symm.trans htmp
      rcases entry_of_named hs hino with ⟨_, rfl⟩ | ⟨hpq, _⟩
      · exact Nat.lt_irrefl _ (hs.named tmp _ hold)
      · exact hs.unshared p ino hp ((hother p hpq).symm.trans hino) hold
    · unfold FileSystem.visible
      dsimp only
      rw [hother p hp]
      cases hentry : fs.entries p with
      | none => rfl
      | some ino => exact congrArg some (contents_named (hs.named p ino hentry))
    · exact congrArg (Option.map _) hentry
    · unfold FileSystem.visible
      dsimp only
      rw [Function.update_self]
      exact congrArg some (Function.update_self ..)
    · dsimp only
      rw [hother tmp hne.symm]
      exact hino.apart

theorem append_spec (bytes : Bytes) (hs : Sound tmp fs) (hentry : fs.entries tmp = some ino) :
    Keeps tmp fs (fs.append ino bytes) ∧ (fs.append ino bytes).entries tmp = some ino ∧
      (fs.append ino bytes).contents ino = fs.contents ino ++ bytes :=
  ⟨keeps_contents hs hentry, hentry, Function.update_self ..⟩

/-- The file moves with its contents to the new name. -/
theorem rename_spec (hs : Sound tmp fs) (hne : stub ≠ tmp) (h : fs.rename tmp stub = some fs') :
    Sound tmp fs' ∧ fs'.visible stub = fs.visible tmp ∧
      (∀ p, p ≠ stub → p ≠ tmp → fs'.visible p = fs.visible p) ∧
      ∀ ino, Settled tmp fs ino → Settled tmp fs' ino ∧ fs'.contents ino = fs.contents ino := by
  unfold FileSystem.rename at h
  cases hentry : fs.entries tmp with
  | none =>
    rw [hentry] at h
    cases h
  | some ino =>
    rw [hentry] at h
    simp only [if_neg (fun hdst => hs.unshared stub ino hne hdst hentry)] at h
    obtain rfl := Option.some.inj h
    have htmp : Function.update (Function.update fs.entries stub (some ino)) tmp none tmp = none :=
      Function.update_self ..
    have hstub : Function.update (Function.update fs.entries stub (some ino)) tmp none stub =
        some ino := (Function.update_of_ne hne ..).trans (Function.update_self ..)
    have hother : ∀ p, p ≠ stub → p ≠ tmp →
        Function.update (Function.update fs.entries stub (some ino)) tmp none p = fs.entries p :=
      fun p hp hpt => (Function.update_of_ne hpt ..).trans (Function.update_of_ne hp ..)
    refine ⟨⟨fun p j hp => ?_, fun p j _ _ hj => ?_⟩, ?_, fun p hp hpt => ?_,
      fun j hj => ⟨⟨hj.used, fun hmem => ?_⟩, rfl⟩⟩
    · by_cases hpt : p = tmp
      · subst hpt
        cases htmp.symm.trans hp
      · by_cases hps : p = stub
        · subst hps
          cases hstub.symm.trans hp
          exact hs.named tmp _ hentry
        · exact hs.named p j ((hother p hps hpt).symm.trans hp)
    · cases htmp.symm.trans hj
    · exact (congrArg (Option.map _) hstub).trans (congrArg (Option.map _) hentry.symm)
    · exact congrArg (Option.map _) (hother p hp hpt)
    · cases htmp.symm.trans hmem

end Files

section Steps

variable {S : Sqlite} {c : Config} {w₀ w w' : World S} {a : Action} {acts : List Action}

/-- What the phase of the server process says about the files. -/
def Holds (c : Config) (fs : FileSystem) (announced : List String) : Phase → Prop
  | .writing published ino rest =>
    fs.entries c.tmp = some ino ∧ fs.contents ino ++ rest = stubBytes published
  | .renaming published => fs.visible c.tmp = some (stubBytes published)
  | .serving published => announced.head? = some published
  | _ => True

/-- What a step can do. -/
inductive Effect (c : Config) (w : World S) : Action → World S → Prop
  | settles {a : Action} {storage : S.File} {p : Phase} :
      (∀ fs announced, Holds c fs announced p) →
      Effect c w a { w with storage := storage, server := p }
  | touches {created : Bool} {storage : S.File} {p : Phase} :
      (∀ fs announced, Holds c fs announced p) →
      Effect c w (.openStorage created)
        { w with fs := w.fs.touch c.storage, storage := storage, server := p }
  | creates {published : String} : w.server = .creating published →
      Effect c w (.createTmp true) { w with
        fs := (w.fs.create c.tmp).2
        server := .writing published (w.fs.create c.tmp).1 (stubBytes published) }
  | writes {published : String} {ino : Ino} {rest : Bytes} {n : ℕ} :
      w.server = .writing published ino rest →
      Effect c w (.write (some n)) { w with
        fs := w.fs.append ino (rest.take n)
        server := writingRest published ino (rest.drop n) }
  | moves {published : String} {fs : FileSystem} : w.server = .renaming published →
      w.fs.rename c.tmp c.stub = some fs →
      Effect c w (.rename true) { w with
        fs := fs, server := .serving published, announced := published :: w.announced }
  | opens {id : ℕ} {ino : Ino} : w.fs.entries c.stub = some ino →
      Effect c w (.openStub id true) (w.setReader id (.reading ino []))
  | reads {id n : ℕ} {ino : Ino} {got : Bytes} : w.readers id = .reading ino got →
      Effect c w (.readStub id (some n)) (w.setReader id
        (.reading ino (got ++ ((w.fs.contents ino).drop got.length).take n)))
  | finishes {id n : ℕ} {ino : Ino} {got : Bytes} : w.readers id = .reading ino got →
      (w.fs.contents ino).drop got.length = [] →
      Effect c w (.readStub id (some n)) (w.setReader id (.done (some got)))
  | fails {a : Action} {id : ℕ} : Effect c w a (w.setReader id (.done none))

theorem prepare_effect (h : w.prepare c a = some w') : Effect c w a w' := by
  cases a with
  | start advertise =>
    simp only [World.prepare] at h
    split at h
    · cases h
      exact .settles (fun _ _ => trivial)
    · cases h
  | createStorageDir ok =>
    simp only [World.prepare] at h
    split at h
    · cases h
      refine .settles (fun _ _ => ?_)
      split <;> trivial
    · cases h
  | openStorage created =>
    simp only [World.prepare] at h
    split at h
    · split at h
      · cases h
        exact .touches (fun _ _ => trivial)
      · cases h
        cases created with
        | true => exact .touches (fun _ _ => trivial)
        | false => exact .settles (fun _ _ => trivial)
    · cases h
  | bind addr =>
    simp only [World.prepare] at h
    split at h
    · cases h
      refine .settles (fun _ _ => ?_)
      cases addr <;> trivial
    · cases h
  | _ => cases h

theorem writeStub_effect (h : w.writeStub c a = some w') : Effect c w a w' := by
  cases a with
  | createStubDir ok =>
    simp only [World.writeStub] at h
    split at h
    · cases h
      refine .settles (fun _ _ => ?_)
      split <;> trivial
    · cases h
  | createTmp ok =>
    simp only [World.writeStub] at h
    split at h
    · next published hserver =>
      split at h
      · next hok =>
        cases h
        rw [hok]
        exact .creates hserver
      · cases h
        exact .settles (fun _ _ => trivial)
    · cases h
  | write n =>
    simp only [World.writeStub] at h
    split at h
    · next published ino rest hserver =>
      split at h
      · cases h
        exact .settles (fun _ _ => trivial)
      · cases h
        exact .settles (fun _ _ => trivial)
      · cases h
        exact .writes hserver
    · cases h
  | rename ok =>
    simp only [World.writeStub] at h
    split at h
    · next published hserver =>
      split at h
      · next fs hfs =>
        cases h
        exact .moves hserver hfs
      · cases h
        exact .settles (fun _ _ => trivial)
    · cases h
  | _ => cases h

theorem readStub_effect (h : w.readStub c a = some w') : Effect c w a w' := by
  cases a with
  | openStub id ok =>
    simp only [World.readStub] at h
    split at h
    · split at h
      · next ino hentry =>
        cases h
        exact .opens hentry
      · cases h
        exact .fails
    · cases h
  | readStub id room =>
    simp only [World.readStub] at h
    split at h
    · next ino got hreader =>
      split at h
      · cases h
        exact .fails
      · cases h
      · split at h
        · next hend =>
          cases h
          exact .finishes hreader hend
        · cases h
          exact .reads hreader
    · cases h
  | _ => cases h

theorem step_effect (h : w.step c a = some w') : Effect c w a w' := by
  unfold World.step at h
  split at h
  · cases h
    exact .settles (fun _ _ => trivial)
  all_goals first
    | exact prepare_effect h
    | exact writeStub_effect h
    | exact readStub_effect h

/-- What is in the place of the stub: the last one moved there, or what was there before. -/
def latest (before : Option Bytes) : List String → Option Bytes
  | [] => before
  | published :: _ => some (stubBytes published)

/-- Three different files. -/
structure Config.Apart (c : Config) : Prop where
  tmp : c.stub ≠ c.tmp
  storage : c.storage ≠ c.stub
  storage_tmp : c.storage ≠ c.tmp

/-- The storage file is as it was, or it has been created and is empty. -/
def Kept (before now : Option Bytes) : Prop := now = before ∨ before = none ∧ now = some []

structure Tidy (c : Config) (w₀ w : World S) : Prop where
  sound : Sound c.tmp w.fs
  server : Holds c w.fs w.announced w.server
  shown : w.fs.visible c.stub = latest (w₀.fs.visible c.stub) w.announced
  others : ∀ p, p ≠ c.stub → p ≠ c.tmp → p ≠ c.storage → w.fs.visible p = w₀.fs.visible p
  stored : Kept (w₀.fs.visible c.storage) (w.fs.visible c.storage)
  settled : ∀ id ino got, w.readers id = .reading ino got → Settled c.tmp w.fs ino
  prefixes : ∀ id ino got, w.readers id = .reading ino got → got <+: w.fs.contents ino

theorem step_settled (hc : c.Apart) (h : Tidy c w₀ w) (hstep : Effect c w a w') {ino : Ino}
    (hino : Settled c.tmp w.fs ino) :
    Settled c.tmp w'.fs ino ∧ w'.fs.contents ino = w.fs.contents ino := by
  cases hstep with
  | touches _ => exact (touch_spec h.sound hc.storage_tmp).2.2.2 ino hino
  | creates _ => exact (create_spec h.sound).1.settled ino hino
  | writes hserver =>
    have hholds := h.server
    rw [hserver] at hholds
    exact (append_spec _ h.sound hholds.1).1.settled ino hino
  | moves _ hfs => exact (rename_spec h.sound hc.tmp hfs).2.2.2 ino hino
  | _ => exact ⟨hino, rfl⟩

/-- A reader other than the one that a step is about stays where it is. -/
theorem reader_cases {id i : ℕ} {r r' : Reader} (h : (w.setReader id r).readers i = r') :
    (i = id ∧ r = r') ∨ w.readers i = r' := by
  unfold World.setReader at h
  by_cases hi : i = id
  · subst hi
    exact Or.inl ⟨rfl, (Function.update_self ..).symm.trans h⟩
  · exact Or.inr ((Function.update_of_ne hi ..).symm.trans h)

theorem tidy_keeps {fs : FileSystem} {p : Phase} (h : Tidy c w₀ w) (hc : c.Apart)
    (hkeeps : Keeps c.tmp w.fs fs) (hserver : Holds c fs w.announced p) :
    Tidy c w₀ { w with fs := fs, server := p } where
  sound := hkeeps.sound
  server := hserver
  shown := (hkeeps.visible h.sound hc.tmp).trans h.shown
  others q hq hqt hqs := (hkeeps.visible h.sound hqt).trans (h.others q hq hqt hqs)
  stored := by
    change Kept _ (fs.visible c.storage)
    rw [hkeeps.visible h.sound hc.storage_tmp]
    exact h.stored
  settled id ino got hreader := (hkeeps.settled ino (h.settled id ino got hreader)).1
  prefixes id ino got hreader := by
    change got <+: fs.contents ino
    rw [(hkeeps.settled ino (h.settled id ino got hreader)).2]
    exact h.prefixes id ino got hreader

theorem tidy_reader {id : ℕ} {r : Reader} (h : Tidy c w₀ w)
    (hr : ∀ ino got, r = .reading ino got → Settled c.tmp w.fs ino ∧ got <+: w.fs.contents ino) :
    Tidy c w₀ (w.setReader id r) where
  sound := h.sound
  server := h.server
  shown := h.shown
  others := h.others
  stored := h.stored
  settled i ino got hreader := by
    rcases reader_cases hreader with ⟨_, hr'⟩ | hold
    · exact (hr ino got hr').1
    · exact h.settled i ino got hold
  prefixes i ino got hreader := by
    rcases reader_cases hreader with ⟨_, hr'⟩ | hold
    · exact (hr ino got hr').2
    · exact h.prefixes i ino got hold

theorem holds_written {published : String} {fs : FileSystem} {ino : Ino} {rest : Bytes}
    {announced : List String} (hentry : fs.entries c.tmp = some ino)
    (hbody : fs.contents ino ++ rest = stubBytes published) :
    Holds c fs announced (writingRest published ino rest) := by
  unfold writingRest
  split
  · next hrest =>
    rw [hrest, List.append_nil] at hbody
    change (fs.entries c.tmp).map fs.contents = _
    rw [hentry, Option.map_some, hbody]
  · exact ⟨hentry, hbody⟩

theorem tidy_step (hc : c.Apart) (h : Tidy c w₀ w) (hstep : Effect c w a w') :
    Tidy c w₀ w' := by
  cases hstep with
  | settles hholds =>
    exact ⟨h.sound, hholds _ _, h.shown, h.others, h.stored, h.settled, h.prefixes⟩
  | touches hholds =>
    obtain ⟨hsound, hothers, hstored, hkept⟩ := touch_spec h.sound hc.storage_tmp
    refine ⟨hsound, hholds _ _, (hothers _ hc.storage.symm).trans h.shown,
      fun p hp hpt hps => (hothers p hps).trans (h.others p hp hpt hps), ?_,
      fun id ino got hreader => ?_, fun id ino got hreader => ?_⟩
    · rcases hstored with hsame | ⟨hnone, hempty⟩
      · change Kept _ ((w.fs.touch c.storage).visible c.storage)
        rw [hsame]
        exact h.stored
      · rcases h.stored with hbefore | ⟨_, hsome⟩
        · exact Or.inr ⟨hbefore.symm.trans hnone, hempty⟩
        · cases hsome.symm.trans hnone
    · exact (hkept ino (h.settled id ino got hreader)).1
    · change got <+: (w.fs.touch c.storage).contents ino
      rw [(hkept ino (h.settled id ino got hreader)).2]
      exact h.prefixes id ino got hreader
  | creates hserver =>
    obtain ⟨hkeeps, hentry, hempty⟩ := create_spec h.sound
    refine tidy_keeps h hc hkeeps ⟨hentry, ?_⟩
    rw [hempty, List.nil_append]
  | @writes published ino rest n hserver =>
    have hholds := h.server
    rw [hserver] at hholds
    obtain ⟨hentry, hbody⟩ := hholds
    obtain ⟨hkeeps, hentry', hcontents⟩ := append_spec (rest.take n) h.sound hentry
    refine tidy_keeps h hc hkeeps (holds_written hentry' ?_)
    rw [hcontents, List.append_assoc, List.take_append_drop, hbody]
  | moves hserver hfs =>
    have hholds := h.server
    rw [hserver] at hholds
    obtain ⟨hsound, hstub, hothers, hkept⟩ := rename_spec h.sound hc.tmp hfs
    refine ⟨hsound, rfl, hstub.trans hholds,
      fun p hp hpt hps => (hothers p hp hpt).trans (h.others p hp hpt hps), ?_,
      fun id ino got hreader => ?_, fun id ino got hreader => ?_⟩
    · dsimp only
      rw [hothers _ hc.storage hc.storage_tmp]
      exact h.stored
    · exact (hkept ino (h.settled id ino got hreader)).1
    · rw [(hkept ino (h.settled id ino got hreader)).2]
      exact h.prefixes id ino got hreader
  | opens hentry =>
    refine tidy_reader h (fun ino got hr => ?_)
    cases hr
    exact ⟨h.sound.settled hc.tmp hentry, List.nil_prefix⟩
  | @reads id n ino got hreader =>
    refine tidy_reader h (fun ino got hr => ?_)
    cases hr
    refine ⟨h.settled _ _ _ hreader, ?_⟩
    obtain ⟨rest, hrest⟩ := h.prefixes _ _ _ hreader
    rw [← hrest, List.drop_left]
    exact List.prefix_append_right_inj _ |>.mpr (List.take_prefix ..)
  | finishes hreader hend => exact tidy_reader h nofun
  | fails => exact tidy_reader h nofun

/-- Reader `id` has opened the stub when `found` was in it. -/
def Opened (c : Config) (w₀ : World S) (past : List Action) (id : ℕ) (found : Bytes) : Prop :=
  ∃ before after w₁, past = before ++ .openStub id true :: after ∧
    Trace (World.Step c) w₀ before w₁ ∧ w₁.fs.visible c.stub = some found

theorem Opened.snoc {past : List Action} {id : ℕ} {found : Bytes} (h : Opened c w₀ past id found) :
    Opened c w₀ (past ++ [a]) id found := by
  obtain ⟨before, after, w₁, rfl, hrun, hfound⟩ := h
  exact ⟨before, after ++ [a], w₁, List.append_assoc .., hrun, hfound⟩

/-- What readers have and will have read is what was in the stub when they opened it. -/
structure Snapshots (c : Config) (w₀ : World S) (past : List Action) (w : World S) : Prop where
  run : Trace (World.Step c) w₀ past w
  tidy : Tidy c w₀ w
  reading : ∀ id ino got, w.readers id = .reading ino got →
    Opened c w₀ past id (w.fs.contents ino)
  done : ∀ id found, w.readers id = .done (some found) → Opened c w₀ past id found

theorem snapshots_step (hc : c.Apart) {past : List Action} (h : Snapshots c w₀ past w)
    (hstep : World.Step c w a w') : Snapshots c w₀ (past ++ [a]) w' := by
  have heffect := step_effect hstep
  have hkept : ∀ id ino got, w.readers id = .reading ino got →
      Opened c w₀ (past ++ [a]) id (w'.fs.contents ino) := by
    intro id ino got hreader
    rw [(step_settled hc h.tidy heffect (h.tidy.settled id ino got hreader)).2]
    exact (h.reading id ino got hreader).snoc
  have hread : ∀ id found, w.readers id = .done (some found) → Opened c w₀ (past ++ [a]) id found :=
    fun id found hreader => (h.done id found hreader).snoc
  refine ⟨h.run.snoc hstep, tidy_step hc h.tidy heffect, ?_, ?_⟩
  · cases heffect with
    | @opens id ino hentry =>
      intro i j got hreader
      rcases reader_cases hreader with ⟨rfl, hr⟩ | hold
      · cases hr
        exact ⟨past, [], w, rfl, h.run, congrArg (Option.map _) hentry⟩
      · exact hkept i j got hold
    | @reads id n ino got hold =>
      intro i j got' hreader
      rcases reader_cases hreader with ⟨rfl, hr⟩ | hother
      · cases hr
        exact hkept i ino got hold
      · exact hkept i j got' hother
    | finishes _ _ | fails =>
      intro i j got hreader
      rcases reader_cases hreader with ⟨rfl, hr⟩ | hother
      · cases hr
      · exact hkept i j got hother
    | _ => exact hkept
  · cases heffect with
    | @finishes id n ino got hreader hend =>
      intro i found hdone
      rcases reader_cases hdone with ⟨rfl, hr⟩ | hother
      · cases hr
        -- what has been read is all there is
        obtain ⟨rest, hrest⟩ := h.tidy.prefixes i ino got hreader
        rw [← hrest, List.drop_left] at hend
        rw [hend, List.append_nil] at hrest
        rw [hrest]
        exact hkept i ino got hreader
      · exact hread i found hother
    | opens _ | reads _ | fails =>
      intro i found hdone
      rcases reader_cases hdone with ⟨rfl, hr⟩ | hother
      · cases hr
      · exact hread i found hother
    | _ => exact hread

/-- Before the first server process; the temporary name does not lead to another file. -/
structure Fresh (c : Config) (w : World S) : Prop where
  sound : Sound c.tmp w.fs
  down : w.server = .down
  idle : ∀ id, w.readers id = .idle
  unannounced : w.announced = []

theorem run_snapshots (hc : c.Apart) (hfresh : Fresh c w₀)
    (h : Trace (World.Step c) w₀ acts w) : Snapshots c w₀ acts w := by
  refine h.history (m := []) (fun _ _ _ _ => snapshots_step hc)
    ⟨.nil w₀, ⟨hfresh.sound, ?_, ?_, fun _ _ _ _ => rfl, Or.inl rfl, ?_, ?_⟩, ?_, ?_⟩
  · rw [hfresh.down]
    trivial
  · rw [hfresh.unannounced]
    rfl
  all_goals
    intros
    next hreader => cases (hfresh.idle _).symm.trans hreader

/-- In every run of server processes and clients, stopped at any points, with the storage file
apart from the stub and its temporary name: the stub in its place is the last one that was moved
there, that of the process that serves; the storage file is created if it is not there, and no
other file is touched; and who reads a stub reads all of the one that was in place when it opened
it, and from it the address that was announced last at that moment, exactly if that is a word. -/
theorem stub_published (hstub : fileName c.stub ≠ none)
    (hext : extension c.stub ≠ some ['t', 'm', 'p']) (hstorage : c.storage ≠ c.stub)
    (hstorage' : c.storage ≠ c.tmp) (hfresh : Fresh c w₀)
    (h : Trace (World.Step c) w₀ acts w) :
    w.fs.visible c.stub = latest (w₀.fs.visible c.stub) w.announced ∧
      (∀ published, w.server = .serving published → w.announced.head? = some published) ∧
      (∀ p, p ≠ c.stub → p ≠ c.tmp → p ≠ c.storage → w.fs.visible p = w₀.fs.visible p) ∧
      Kept (w₀.fs.visible c.storage) (w.fs.visible c.storage) ∧
      ∀ id found, w.readers id = .done (some found) →
        ∃ before after w₁, acts = before ++ .openStub id true :: after ∧
          Trace (World.Step c) w₀ before w₁ ∧
          latest (w₀.fs.visible c.stub) w₁.announced = some found ∧
          ∀ path published, components path = c.stub → path ≠ ":memory:".toList →
            w₁.announced.head? = some published →
            (stubAddr path (some found) = some published ↔ IsAddr published) := by
  have hne : c.stub ≠ c.tmp := by
    intro h
    rcases (withExtension_eq_iff (by decide)).mp h.symm with hname | htmp
    · exact hstub hname
    · exact hext htmp
  have hc : c.Apart := ⟨hne, hstorage, hstorage'⟩
  have hs := run_snapshots hc hfresh h
  refine ⟨hs.tidy.shown, fun published hserver => ?_, hs.tidy.others, hs.tidy.stored,
    fun id found hreader => ?_⟩
  · have hholds := hs.tidy.server
    rw [hserver] at hholds
    exact hholds
  · obtain ⟨before, after, w₁, hacts, hbefore, hfound⟩ := hs.done id found hreader
    have hshown := (run_snapshots hc hfresh hbefore).tidy.shown
    rw [hfound] at hshown
    refine ⟨before, after, w₁, hacts, hbefore, hshown.symm, ?_⟩
    intro path published hpath hmemory hlast
    have hnil : path ≠ [] := by
      rintro rfl
      exact hstub (hpath ▸ rfl)
    obtain ⟨older, hannounced⟩ := List.head?_eq_some_iff.mp hlast
    rw [hannounced] at hshown
    obtain rfl := Option.some.inj hshown
    rw [stubAddr, if_neg (not_or.mpr ⟨hnil, hmemory⟩), Option.bind_some]
    constructor
    · intro hread
      obtain ⟨_, _, _, _, _, _, haddr⟩ := parseStub_eq_some_iff.mp hread
      exact haddr
    · exact parseStub_stubBytes

/-- Nothing is in the place of the stub. -/
def emptyWorld : World SmallSqlite.engine :=
  ⟨⟨fun _ => none, fun _ => [], 0⟩, SmallSqlite.newFile, .down, fun _ => .idle, []⟩

def smallConfig : Config := ⟨components "store.db".toList, components "stub.db".toList⟩

/-- `serve` up to the file with the temporary name. -/
def naming : List Action :=
  [.start none, .createStorageDir true, .openStorage true, .bind (some "127.0.0.1:9"),
    .createStubDir true, .createTmp true]

/-- A server process that ends in the middle of its stub, another one, and a client. -/
theorem interrupted_published : ∃ w : World SmallSqlite.engine,
    Trace (World.Step smallConfig) emptyWorld (naming ++ [.write (some 3), .stop] ++ naming ++
      [.write (some 100), .rename true, .openStub 0 true, .readStub 0 (some 100),
        .readStub 0 (some 100)]) w ∧
      w.fs.visible smallConfig.stub = some (stubBytes "127.0.0.1:9") ∧
      w.fs.visible smallConfig.storage = some [] ∧
      w.readers 0 = .done (some (stubBytes "127.0.0.1:9")) ∧
      ∃ published, w.announced.head? = some published := by
  have hfresh : Fresh smallConfig emptyWorld := ⟨⟨nofun, nofun⟩, rfl, fun _ => rfl, rfl⟩
  have hrun : ∃ w : World SmallSqlite.engine, Trace (World.Step smallConfig) emptyWorld
      (naming ++ [.write (some 3), .stop] ++ naming ++
        [.write (some 100), .rename true, .openStub 0 true, .readStub 0 (some 100),
          .readStub 0 (some 100)]) w ∧ w.server = .serving "127.0.0.1:9" ∧
      w.fs.visible smallConfig.storage = some [] ∧
      w.readers 0 = .done (some (stubBytes "127.0.0.1:9")) :=
    ⟨_, .cons rfl (.cons rfl (.cons rfl (.cons rfl (.cons rfl (.cons rfl (.cons rfl (.cons rfl
      (.cons rfl (.cons rfl (.cons rfl (.cons rfl (.cons rfl (.cons rfl (.cons rfl (.cons rfl
      (.cons rfl (.cons rfl (.cons rfl (.nil _))))))))))))))))))), rfl, rfl, rfl⟩
  obtain ⟨w, hrun, hserver, hstored, hreader⟩ := hrun
  obtain ⟨hshown, hcurrent, _⟩ :=
    stub_published (by decide) (by decide) (by decide) (by decide) hfresh hrun
  have hlast := hcurrent _ hserver
  obtain ⟨older, hannounced⟩ := List.head?_eq_some_iff.mp hlast
  rw [hannounced] at hshown
  exact ⟨w, hrun, hshown, hstored, hreader, _, hlast⟩

end Steps

end SqliteBroker.Publication
