import SqliteBroker.Frames
import SqliteBroker.Segments

/-!
A stream of frames. The messages written into a buffer are read back one after the other, and
every proper beginning of the buffer gives the messages it contains and then an error.
-/
namespace SqliteBroker.FrameStream

open Utf8 Serde Wire Frames Segments

/-- What `write_msg` asks of its writer. -/
structure Sink (W : Type) where
  writeAll : Bytes → ExceptT String (StateM W) Unit
  flush : ExceptT String (StateM W) Unit

/-- A buffer in memory takes all bytes. -/
def buffer : Sink Bytes where
  writeAll bytes := modify (· ++ bytes)
  flush := pure ()

variable (J : SerdeJson) {α ι W : Type} [Wire α] {M : ι → Type} [∀ i, Wire (M i)]

/-- `write_msg` into a writer. -/
def writeTo (sink : Sink W) (msg : α) : ExceptT String (StateM W) Unit := do
  let body := J.toVec (toJson msg)
  if body.length > frameLimit then throw "message too large"
  sink.writeAll (toLeBytes body.length)
  sink.writeAll body
  sink.flush

/-- Calls of `write_msg` on a buffer, up to the first error: the outcome and what the buffer
holds then. -/
def written : List (Sigma M) → Bytes → Except String Unit × Bytes
  | [], held => (.ok (), held)
  | m :: rest, held =>
    match (writeTo J buffer m.2).run.run held with
    | (.ok (), held) => written rest held
    | failed => failed

/-- `read_msg` of the type that the caller asks for. -/
def reader : Reader UInt8 String M := fun i stream => readMsg (α := M i) J stream

/-- Calls of `read_msg` for these types, up to the first error. -/
def readMsgs (types : List ι) (stream : Bytes) :
    List (Sigma M) × Except String Bytes :=
  readAll (reader J) unexpectedEof types stream

variable {J} {msg : α} {m : Sigma M} {msgs : List (Sigma M)} {frame : Bytes}

/-- A message that is too large leaves every writer as it was. -/
theorem writeTo_large (h : frameLimit < (J.toVec (toJson msg)).length) (sink : Sink W) (w : W) :
    (writeTo J sink msg).run.run w = (.error "message too large", w) := by
  unfold writeTo
  simp only [gt_iff_lt, h, if_true]
  rfl

theorem writeTo_buffer (h : writeMsg J msg = .ok frame) (before : Bytes) :
    (writeTo J buffer msg).run.run before = (.ok (), before ++ frame) := by
  obtain ⟨hlen, rfl⟩ := writeMsg_ok_iff.mp h
  have hfits : ¬ frameLimit < (J.toVec (toJson msg)).length := Nat.not_lt.mpr hlen
  unfold writeTo
  simp only [gt_iff_lt, hfits, if_false, ← List.append_assoc]
  rfl

/-- What a buffer takes of a message is its frame, or nothing. -/
theorem writeTo_buffer_eq (before : Bytes) : (writeTo J buffer msg).run.run before =
    match writeMsg J msg with
    | .ok frame => (.ok (), before ++ frame)
    | .error err => (.error err, before) := by
  by_cases hlen : frameLimit < (J.toVec (toJson msg)).length
  · rw [writeTo_large hlen, writeMsg]
    simp only [gt_iff_lt, hlen, if_true]
  · have hok : writeMsg J msg = .ok _ := writeMsg_ok_iff.mpr ⟨Nat.not_lt.mp hlen, rfl⟩
    rw [writeTo_buffer hok, hok]

/-- The buffer of a run of accepted messages holds their frames. -/
theorem written_ok_iff {held bytes : Bytes} : written J msgs held = (.ok (), bytes) ↔
    ∃ frames, List.Forall₂ (fun m frame => writeMsg J (Sigma.snd m) = .ok frame) msgs frames ∧
      bytes = held ++ frames.flatten := by
  induction msgs generalizing held with
  | nil => simp [written, eq_comm]
  | cons m rest ih =>
    rw [written, writeTo_buffer_eq]
    cases hm : writeMsg J m.2 with
    | error err =>
      refine iff_of_false (by simp) ?_
      rintro ⟨frames, hframes, _⟩
      obtain ⟨frame, _, hframe, _⟩ := List.forall₂_cons_left_iff.mp hframes
      rw [hm] at hframe
      cases hframe
    | ok frame =>
      simp only [ih, List.forall₂_cons_left_iff, hm, Except.ok.injEq]
      constructor
      · rintro ⟨frames, hframes, rfl⟩
        exact ⟨frame :: frames, ⟨frame, frames, rfl, hframes, rfl⟩, by simp⟩
      · rintro ⟨_, ⟨_, frames, rfl, hframes, rfl⟩, rfl⟩
        exact ⟨frames, hframes, by simp⟩

/-- The prefix of a frame is the length of its body, below the limit of the reader. -/
theorem frame_size (h : writeMsg J msg = .ok frame) :
    fromLeBytes (frame.take 4) = (frame.drop 4).length ∧
      fromLeBytes (frame.take 4) ≤ frameLimit := by
  obtain ⟨hlen, rfl⟩ := writeMsg_ok_iff.mp h
  have hstart : (toLeBytes (J.toVec (toJson msg)).length).length = 4 := rfl
  rw [List.take_left' hstart, List.drop_left' hstart,
    fromLeBytes_toLeBytes (by unfold frameLimit at hlen; omega)]
  exact ⟨rfl, hlen⟩

/-- A part of a frame ends inside the prefix or inside the body. -/
theorem readMsg_cut (h : writeMsg J msg = .ok frame) {start : Bytes} (hstart : start <+: frame)
    (hne : start ≠ frame) : readMsg (α := α) J start = none := by
  have hshort : start.length < frame.length :=
    Nat.lt_of_le_of_ne hstart.length_le (fun heq => hne (hstart.eq_of_length heq))
  obtain ⟨hsize, hlimit⟩ := frame_size h
  unfold readMsg
  by_cases hprefix : start.length < 4
  · rw [if_pos hprefix]
  · have htake : start.take 4 = frame.take 4 := by
      obtain ⟨more, rfl⟩ := hstart
      rw [List.take_append_of_le_length (Nat.le_of_not_lt hprefix)]
    have hbody : (start.drop 4).length < fromLeBytes (frame.take 4) := by
      rw [hsize, List.length_drop, List.length_drop]
      omega
    rw [if_neg hprefix, htake]
    dsimp only
    rw [if_neg (Nat.not_lt.mpr hlimit), if_pos hbody]

/-- The frame of a message that serde_json decodes. -/
def FrameOf (J : SerdeJson) (m : Sigma M) (frame : Bytes) : Prop :=
  writeMsg J m.2 = .ok frame ∧ decodeBody J (J.toVec (toJson m.2)) = .ok m.2

/-- A frame is read as a whole, and nothing is read from a part of it. -/
theorem FrameOf.reads (m : Sigma M) (frame : Bytes) (h : FrameOf J m frame) :
    Reads (reader J) m frame where
  whole more := by
    rw [reader, readMsg_writeMsg h.1, h.2]
  cut start hstart hne := readMsg_cut h.1 hstart hne

theorem frames_of_written {held bytes : Bytes}
    (hmsgs : ∀ m ∈ msgs, decodeBody J (J.toVec (toJson m.2)) = .ok m.2)
    (h : written J msgs held = (.ok (), bytes)) :
    ∃ frames, List.Forall₂ (FrameOf J) msgs frames ∧ bytes = held ++ frames.flatten := by
  obtain ⟨frames, hframes, hbytes⟩ := written_ok_iff.mp h
  refine ⟨frames, ?_, hbytes⟩
  clear h hbytes
  induction hframes with
  | nil => exact .nil
  | cons hfirst _ ih =>
    obtain ⟨hm, hrest⟩ := List.forall_mem_cons.mp hmsgs
    exact .cons ⟨hfirst, hm⟩ (ih hrest)

theorem written_of_frames {frames : List Bytes} (h : List.Forall₂ (FrameOf J) msgs frames) :
    written J msgs [] = (.ok (), frames.flatten) :=
  written_ok_iff.mpr ⟨frames, h.imp (fun _ _ hframe => hframe.1), rfl⟩

/-- The frames of messages that serde_json decodes are read back in order from the bytes they
are written to, and from a proper beginning of these bytes the messages it contains, up to the
one that it cuts. A message that is too large leaves no byte in any writer, and the prefix of
a frame is the length of its body, which the reader lets pass. -/
theorem stream_framed (J : SerdeJson) :
    (∀ (msgs : List (Sigma M)) (bytes : Bytes),
      (∀ m ∈ msgs, decodeBody J (J.toVec (toJson m.2)) = .ok m.2) →
      written J msgs [] = (.ok (), bytes) →
        readMsgs J (msgs.map Sigma.fst) bytes = (msgs, .ok []) ∧
        ∀ start, start <+: bytes → start ≠ bytes →
          ∃ before m after contained cut, msgs = before ++ m :: after ∧
            written J before [] = (.ok (), contained) ∧
            written J (before ++ [m]) [] = (.ok (), cut) ∧
            contained <+: start ∧ start.length < cut.length ∧
            readMsgs J (msgs.map Sigma.fst) start = (before, .error unexpectedEof)) ∧
    (∀ (i : ι) (msg : M i), frameLimit < (J.toVec (toJson msg)).length →
      ∀ (W : Type) (sink : Sink W) (w : W),
        (writeTo J sink msg).run.run w = (.error "message too large", w)) ∧
    (∀ (i : ι) (msg : M i) (frame : Bytes), writeMsg J msg = .ok frame →
      fromLeBytes (frame.take 4) = (frame.drop 4).length ∧
        fromLeBytes (frame.take 4) ≤ frameLimit) := by
  refine ⟨fun msgs bytes hmsgs hwritten => ?_, fun i msg hlarge W sink w =>
    writeTo_large hlarge sink w, fun i msg frame h => frame_size h⟩
  obtain ⟨frames, hframes, rfl⟩ := frames_of_written hmsgs hwritten
  refine ⟨readAll_flatten FrameOf.reads hframes, fun start hstart hne => ?_⟩
  obtain ⟨before, m, after, done, frame, rfl, hbefore, hm, hinside, hshort, hread⟩ :=
    readAll_beginning FrameOf.reads hframes hstart hne
  have hcut : List.Forall₂ (FrameOf J) (before ++ [m]) (done ++ [frame]) :=
    List.rel_append hbefore (.cons hm .nil)
  exact ⟨before, m, after, _, _, rfl, written_of_frames hbefore, written_of_frames hcut, hinside,
    hshort, hread⟩

section Example

open Messages

/-- A connection carries a Hello and requests. -/
def Spoken : Bool → Type
  | false => Hello
  | true => Request

instance : ∀ b, Wire (Spoken b)
  | false => inferInstanceAs (Wire Hello)
  | true => inferInstanceAs (Wire Request)

def welcome : Hello := ⟨true, 1, none⟩

def longPrepare : Request := .prepare (String.ofList (List.replicate frameLimit 'x'))

def welcomeText : Bytes :=
  encode "\x7b\"ok\":true,\"session\":1,\"error\":null\x7d".toList

def closeText : Bytes := encode "\x7b\"op\":\"close\"\x7d".toList

def longText : Bytes :=
  encode "\x7b\"op\":\"prepare\",\"sql\":\"".toList ++ List.replicate frameLimit 0x78 ++
    encode "\"\x7d".toList

def texts : List (Json × Bytes) :=
  [(toJson welcome, welcomeText), (toJson Request.close, closeText),
    (toJson longPrepare, longText)]

noncomputable def spokenJson : SerdeJson := .table texts

theorem texts_keys : (texts.map Prod.fst).Nodup := by
  have hclose : toJson Request.close ≠ toJson longPrepare :=
    fun h => Request.noConfusion (toJson_injective (a := Request.close) rfl h)
  simp [texts, hello_ne_request, hclose]

theorem longText_length : frameLimit < longText.length := by
  unfold longText
  rw [List.length_append, List.length_append, List.length_replicate]
  have hstart : 0 < (encode "\x7b\"op\":\"prepare\",\"sql\":\"".toList).length := by decide
  omega

theorem texts_values : (texts.map Prod.snd).Nodup := by
  have hlong := longText_length
  have hwelcome : welcomeText ≠ longText := by
    intro h
    have hshort : welcomeText.length < 100 := by decide
    rw [h] at hshort
    unfold frameLimit at hlong
    omega
  have hclose : closeText ≠ longText := by
    intro h
    have hshort : closeText.length < 100 := by decide
    rw [h] at hshort
    unfold frameLimit at hlong
    omega
  have hboth : welcomeText ≠ closeText := by decide
  simp [texts, hwelcome, hclose, hboth]

def spoken : List (Sigma Spoken) := [⟨false, welcome⟩, ⟨true, Request.close⟩]

/-- A Hello and a close request cross the stream; a request of more than the limit leaves it as
it is. -/
theorem spoken_framed : ∃ bytes, written spokenJson spoken [] = (.ok (), bytes) ∧
    readMsgs spokenJson [false, true] bytes = (spoken, .ok []) ∧
    (readMsgs (M := Spoken) spokenJson [false, true] (bytes.take 3)).2 = .error unexpectedEof ∧
    (writeTo spokenJson buffer longPrepare).run.run bytes = (.error "message too large", bytes) ∧
    fromLeBytes (bytes.take 4) = welcomeText.length := by
  obtain ⟨first, hfirst, hwelcome⟩ : Carries spokenJson welcome :=
    table_carries texts_keys texts_values (by decide : welcomeText.length ≤ frameLimit) rfl
      (by simp [texts])
  obtain ⟨second, hsecond, hclose⟩ : Carries spokenJson Request.close :=
    table_carries texts_keys texts_values (by decide : closeText.length ≤ frameLimit) rfl
      (by simp [texts])
  have hlarge : frameLimit < (spokenJson.toVec (toJson longPrepare)).length := by
    have hmem : (toJson longPrepare, longText) ∈ texts := by simp [texts]
    rw [spokenJson, table_toVec texts_keys hmem]
    exact longText_length
  have hvec : spokenJson.toVec (toJson welcome) = welcomeText :=
    table_toVec texts_keys (by simp [texts])
  obtain ⟨hstream, hrefused, hframe⟩ := stream_framed (M := Spoken) spokenJson
  have hmsgs : ∀ m ∈ spoken, decodeBody spokenJson (spokenJson.toVec (toJson m.2)) = .ok m.2 := by
    unfold spoken
    simp only [List.forall_mem_cons]
    exact ⟨hwelcome, hclose, nofun⟩
  have hwritten : written spokenJson spoken [] = (.ok (), first ++ (second ++ [])) :=
    written_ok_iff.mpr ⟨[first, second], .cons hfirst (.cons hsecond .nil), rfl⟩
  obtain ⟨hlen, hbytes⟩ := writeMsg_ok_iff.mp hfirst
  rw [hvec] at hbytes
  have hfour : first.length = 4 + welcomeText.length := by
    rw [hbytes, List.length_append]
    rfl
  obtain ⟨hall, hcut⟩ := hstream spoken _ hmsgs hwritten
  obtain ⟨before, m, after, contained, cut, _, _, _, _, _, hread⟩ :=
    hcut ((first ++ (second ++ [])).take 3) (List.take_prefix ..) (by
      intro heq
      have hthree := congrArg List.length heq
      rw [List.length_take, List.length_append] at hthree
      omega)
  refine ⟨_, hwritten, hall, congrArg Prod.snd hread,
    hrefused true longPrepare hlarge _ buffer _, ?_⟩
  rw [List.take_append_of_le_length (by omega), (hframe false welcome first hfirst).1,
    List.length_drop]
  omega

end Example

end SqliteBroker.FrameStream
