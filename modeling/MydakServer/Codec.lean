import MydakServer.Moves

/-! The relay as a codec: the message loop of `start` on the stream of bytes that a client
sends, and the frames that it makes of them. -/
namespace MydakServer.Proto

/-- `async_read` of `n` bytes from a stream that ends, or throws. -/
def asyncRead (n : Nat) (bytes : List UInt8) : Option (Vector UInt8 n × List UInt8) :=
  if h : n ≤ bytes.length then
    some (⟨(bytes.take n).toArray, List.length_take_of_le h⟩, bytes.drop n)
  else none

theorem asyncRead_eq_some {n : Nat} {bytes rest : List UInt8} {v : Vector UInt8 n} :
    asyncRead n bytes = some (v, rest) ↔ bytes = v.toList ++ rest := by
  unfold asyncRead
  constructor
  · intro h
    split at h
    · cases h
      simp [Vector.toList]
    · cases h
  · intro h
    subst h
    have hn : n ≤ (v.toList ++ rest).length := by simp
    rw [dif_pos hn]
    simp only [Option.some.injEq, Prod.mk.injEq]
    constructor
    · apply Vector.toList_inj.mp
      simp [Vector.toList]
    · simp

/-- A message as a client sends it, of a size that the protocol allows. -/
structure Outgoing where
  recipient : PublicKey
  payload : List UInt8
  sized : minMessageSize ≤ payload.length ∧ payload.length ≤ maxMessageSize

namespace Outgoing

/-- `[0x67][message size][recipient][message]`. -/
def wire (f : Outgoing) : List UInt8 :=
  (greetingsOf f.payload.length f.recipient).toList ++ f.payload

/-- `[message size][public key][message]`, in little endian. -/
def relayed (sender : PublicKey) (f : Outgoing) : List UInt8 :=
  (storeUInt32 .little f.payload.length).toList ++ sender.toList ++ f.payload

theorem length_lt (f : Outgoing) : f.payload.length < 2 ^ 32 := by
  have h := f.sized.2
  simp only [maxMessageSize] at h
  omega

end Outgoing

/-- The message loop of `start` on a stream: what is handed over, and to whom. -/
def readLoop (native : Endian) (sender : PublicKey) (bytes : List UInt8) :
    List (PublicKey × List UInt8) :=
  match _hg : asyncRead 37 bytes with
  | none => []
  | some (g, rest) =>
    match parseGreetings native g with
    | .error _ => []
    | .ok (size, recipient) =>
      match _hm : asyncRead size rest with
      | none => []
      | some (message, rest') =>
        (recipient, queuedMessage native size sender message.toList) ::
          readLoop native sender rest'
termination_by bytes.length
decreasing_by
  rw [asyncRead_eq_some.mp _hg, asyncRead_eq_some.mp _hm]
  simp
  omega

theorem readLoop_eq (native : Endian) (sender : PublicKey) (bytes : List UInt8) :
    readLoop native sender bytes =
      match asyncRead 37 bytes with
      | none => []
      | some (g, rest) =>
        match parseGreetings native g with
        | .error _ => []
        | .ok (size, recipient) =>
          match asyncRead size rest with
          | none => []
          | some (message, rest') =>
            (recipient, queuedMessage native size sender message.toList) ::
              readLoop native sender rest' := by
  rw [readLoop]
  split <;> rename_i hg
  · simp only [hg]
  · simp only [hg]
    split <;> rename_i hp
    · rfl
    · split <;> rename_i hm <;> simp only [hm]

theorem queuedMessage_eq (native : Endian) (sender : PublicKey) (f : Outgoing) :
    queuedMessage native f.payload.length sender f.payload = f.relayed sender := by
  simp only [queuedMessage, Outgoing.relayed, store_native]

theorem asyncRead_payload {n : Nat} {payload : List UInt8} (hn : payload.length = n)
    (rest : List UInt8) : asyncRead n (payload ++ rest) = some (⟨payload.toArray, hn⟩, rest) := by
  rw [asyncRead_eq_some]
  simp [Vector.toList]

/-- A frame at the front of the stream is handed over, and the loop goes on behind it. -/
theorem readLoop_wire (native : Endian) (sender : PublicKey) (f : Outgoing)
    (rest : List UInt8) : readLoop native sender (f.wire ++ rest) =
      (f.recipient, f.relayed sender) :: readLoop native sender rest := by
  have hg : asyncRead 37 (f.wire ++ rest) =
      some (greetingsOf f.payload.length f.recipient, f.payload ++ rest) := by
    rw [asyncRead_eq_some, Outgoing.wire, List.append_assoc]
  have hp : parseGreetings native (greetingsOf f.payload.length f.recipient) =
      .ok (f.payload.length, f.recipient) := parseGreetings_eq_ok.mpr ⟨rfl, f.sized⟩
  rw [readLoop_eq]
  simp only [hg, hp, asyncRead_payload rfl]
  rw [← queuedMessage_eq native]
  rfl

/-- Nothing is handed over of a stream that does not start with a whole valid frame. -/
theorem readLoop_rest (native : Endian) (sender : PublicKey) {rest : List UInt8}
    (h : ∀ f : Outgoing, ¬ f.wire <+: rest) : readLoop native sender rest = [] := by
  rw [readLoop_eq]
  split
  · rfl
  · rename_i g rest₁ hg
    split
    · rfl
    · rename_i size recipient hp
      split
      · rfl
      · rename_i message rest₂ hm
        obtain ⟨rfl, hsize⟩ := parseGreetings_eq_ok.mp hp
        have hlen : message.toList.length = size := message.length_toList
        refine absurd ⟨rest₂, ?_⟩ (h ⟨recipient, message.toList, hlen.symm ▸ hsize⟩)
        rw [asyncRead_eq_some.mp hg, asyncRead_eq_some.mp hm, ← List.append_assoc]
        simp only [Outgoing.wire, hlen]

theorem readLoop_frames (native : Endian) (sender : PublicKey) (fs : List Outgoing)
    {rest : List UInt8} (h : ∀ f : Outgoing, ¬ f.wire <+: rest) :
    readLoop native sender (fs.flatMap Outgoing.wire ++ rest) =
      fs.map fun f => (f.recipient, f.relayed sender) := by
  induction fs with
  | nil => exact readLoop_rest native sender h
  | cons f fs ih =>
    rw [List.flatMap_cons, List.append_assoc, readLoop_wire, ih, List.map_cons]

/-- The sender and the message of the frame at the front, and the bytes behind it. -/
def decodeFrame (bytes : List UInt8) : Option ((PublicKey × List UInt8) × List UInt8) :=
  (asyncRead 4 bytes).bind fun (size, rest) =>
    (asyncRead 32 rest).bind fun (sender, rest) =>
      (asyncRead (loadUInt32 .little size) rest).map fun (message, rest) =>
        ((sender, message.toList), rest)

theorem decodeFrame_length {bytes rest : List UInt8} {p : PublicKey × List UInt8}
    (h : decodeFrame bytes = some (p, rest)) : rest.length < bytes.length := by
  obtain ⟨⟨size, rest₁⟩, hs, h⟩ := Option.bind_eq_some_iff.mp h
  obtain ⟨⟨sender, rest₂⟩, hk, h⟩ := Option.bind_eq_some_iff.mp h
  obtain ⟨⟨message, rest₃⟩, hm, h⟩ := Option.map_eq_some_iff.mp h
  cases h
  rw [asyncRead_eq_some.mp hs, asyncRead_eq_some.mp hk, asyncRead_eq_some.mp hm]
  simp
  omega

/-- What a client makes of the bytes that it receives: senders and messages, and the bytes
behind the last whole frame. -/
def decode (bytes : List UInt8) : List (PublicKey × List UInt8) × List UInt8 :=
  match _h : decodeFrame bytes with
  | none => ([], bytes)
  | some (p, rest) => (p :: (decode rest).1, (decode rest).2)
termination_by bytes.length
decreasing_by all_goals exact decodeFrame_length _h

theorem decodeFrame_relayed (sender : PublicKey) (f : Outgoing) (rest : List UInt8) :
    decodeFrame (f.relayed sender ++ rest) = some ((sender, f.payload), rest) := by
  have hs : asyncRead 4 (f.relayed sender ++ rest) =
      some (storeUInt32 .little f.payload.length, sender.toList ++ (f.payload ++ rest)) := by
    rw [asyncRead_eq_some, Outgoing.relayed, List.append_assoc, List.append_assoc]
  have hk : asyncRead 32 (sender.toList ++ (f.payload ++ rest)) =
      some (sender, f.payload ++ rest) := asyncRead_eq_some.mpr rfl
  have hm := asyncRead_payload (loadUInt32_storeUInt32 .little f.length_lt).symm rest
  simp only [decodeFrame, hs, hk, Option.bind_some, hm, Option.map_some]
  rfl

theorem decode_relayed (xs : List (PublicKey × Outgoing)) :
    decode (xs.flatMap fun x => x.2.relayed x.1) = (xs.map fun x => (x.1, x.2.payload), []) := by
  induction xs with
  | nil =>
    rw [decode]
    split
    · rfl
    · rename_i h
      exact absurd (decodeFrame_length h) (by simp)
  | cons x xs ih =>
    have hx := decodeFrame_relayed x.1 x.2 (xs.flatMap fun x => x.2.relayed x.1)
    rw [List.flatMap_cons, decode]
    split
    · rename_i h
      rw [hx] at h
      cases h
    · rename_i h
      rw [hx] at h
      cases h
      rw [ih, List.map_cons]

/-- Whole frames are read off whatever comes behind them. -/
theorem decode_relayed_append (xs : List (PublicKey × Outgoing)) (rest : List UInt8) :
    decode ((xs.flatMap fun x => x.2.relayed x.1) ++ rest) =
      ((xs.map fun x => (x.1, x.2.payload)) ++ (decode rest).1, (decode rest).2) := by
  induction xs with
  | nil => rfl
  | cons x xs ih =>
    have hx := decodeFrame_relayed x.1 x.2 ((xs.flatMap fun x => x.2.relayed x.1) ++ rest)
    rw [List.flatMap_cons, List.append_assoc, decode]
    split
    · rename_i h
      rw [hx] at h
      cases h
    · rename_i h
      rw [hx] at h
      cases h
      rw [ih, List.map_cons, List.cons_append]

theorem asyncRead_append {n : Nat} {bytes more rest : List UInt8} {v : Vector UInt8 n}
    (h : asyncRead n bytes = some (v, rest)) :
    asyncRead n (bytes ++ more) = some (v, rest ++ more) := by
  rw [asyncRead_eq_some] at h ⊢
  rw [h, List.append_assoc]

/-- A frame that is whole stays what it is when more arrives. -/
theorem decodeFrame_append {bytes rest : List UInt8} {p : PublicKey × List UInt8}
    (h : decodeFrame bytes = some (p, rest)) (more : List UInt8) :
    decodeFrame (bytes ++ more) = some (p, rest ++ more) := by
  obtain ⟨⟨size, rest₁⟩, hs, h⟩ := Option.bind_eq_some_iff.mp h
  obtain ⟨⟨sender, rest₂⟩, hk, h⟩ := Option.bind_eq_some_iff.mp h
  obtain ⟨⟨message, rest₃⟩, hm, h⟩ := Option.map_eq_some_iff.mp h
  cases h
  simp [decodeFrame, asyncRead_append hs, asyncRead_append hk, asyncRead_append hm]

/-- Nothing is read off a frame before its last byte has come. -/
theorem decode_of_isPrefix {sender : PublicKey} {f : Outgoing} {p : List UInt8}
    (hp : p <+: f.relayed sender) (hne : p ≠ f.relayed sender) : decode p = ([], p) := by
  obtain ⟨more, hmore⟩ := hp
  have hwhole := decodeFrame_relayed sender f []
  rw [List.append_nil, ← hmore] at hwhole
  rw [decode]
  split
  · rfl
  · rename_i q rest h
    have hlong := decodeFrame_append h more
    rw [hwhole] at hlong
    -- the frame would end where `p` does
    have hnil : more = [] := by
      have hrest : [] = rest ++ more := congrArg Prod.snd (Option.some.inj hlong)
      exact (List.append_eq_nil_iff.mp hrest.symm).2
    rw [hnil, List.append_nil] at hmore
    exact absurd hmore hne

end MydakServer.Proto

namespace MydakServer.Server
open Proto

/-- The bytes that the action reads from the socket of the connection behind its key. -/
def Action.reads (c : ConnId) : Action → List UInt8
  | .greetings d g => if d = c then g.toList else []
  | .message d bytes _ => if d = c then bytes else []
  | _ => []

/-- The action takes `start` of the connection to this state. -/
inductive Starts (s : Server) : Action → ConnId → StartState → Prop
  | accept (hc : s.start s.accepted = .unborn) : Starts s .accept s.accepted .readKey
  | keyFails (c : ConnId) (bytes : List UInt8) (hc : s.start c = .readKey) :
    Starts s (.keyFails c bytes) c .ended
  | keyRead (c : ConnId) (key : PublicKey) (state : StartState) (hc : s.start c = .readKey)
    (hstate : state = .addClient ∨ state = .readGreetings) : Starts s (.keyRead c key) c state
  | resume (c : ConnId) (hc : s.start c = .addClient ∨ s.start c = .addMessageToQueue) :
    Starts s (.resume (.start c)) c .readGreetings
  | badGreetings (c : ConnId) (g : Vector UInt8 37) (e : Break) (hc : s.start c = .readGreetings)
    (hp : parseGreetings s.native g = .error e) : Starts s (.greetings c g) c .ended
  | greetings (c : ConnId) (g : Vector UInt8 37) (size : Nat) (recipient : PublicKey)
    (hc : s.start c = .readGreetings) (hp : parseGreetings s.native g = .ok (size, recipient)) :
    Starts s (.greetings c g) c (.readMessage size recipient)
  | message (c : ConnId) (bytes : List UInt8) (lookup : Bool) (size : Nat)
    (recipient : PublicKey) (state : StartState) (hc : s.start c = .readMessage size recipient)
    (hb : bytes.length = size) (hstate : state = .readGreetings ∨ state = .addMessageToQueue) :
    Starts s (.message c bytes lookup) c state
  | readFails (c : ConnId) (hc : (s.start c).phase = .running) : Starts s (.readFails c) c .ended

theorem userAdded_start {s s' : Server} {c : ConnId} {id : Nat} (hw : s.registry.WellFormed)
    (h : s.userAdded c id = some s') : s'.start = Function.update s.start c .readGreetings := by
  obtain ⟨g, v, -, -, hstart, -⟩ := userAdded_registry hw h
  exact hstart

theorem resume_start {s s' : Server} {t : Task} (hs : Sound s) (h : s.resume t = some s') :
    s'.start = s.start ∨ ∃ c state, s'.start = Function.update s.start c state ∧
      s.Starts (.resume t) c state := by
  have hw := hs.wellFormed
  cases resume_cases h with
  | userAdded c db id _ hc hd h =>
    exact .inr ⟨c, _, userAdded_start (s := { s with db }) hw h, .resume c (.inl hc)⟩
  | relayed c hc => exact .inr ⟨c, _, rfl, .resume c (.inr hc)⟩
  | signalled c => exact .inl (s.signalled_same c).start
  | fetched c db rows _ hc hd h =>
    exact .inl (sendDelayed_same (s := { s with db }) hw h).start
  | taken c current rest sent _ hc hsig h => exact .inl (sendDelayed_same hw h).start
  | aborted c current rest sent _ hc hsig h =>
    obtain ⟨db, v, -, rfl⟩ := deleteSent_cases h
    exact .inl rfl
  | _ => exact .inl rfl

/-- A step takes `start` of one connection to another state, or of none. -/
theorem step_start {s s' : Server} {a : Action} (hs : Sound s) (hstep : s.step a = some s') :
    (s'.start = s.start ∧ s.framesOf a = [] ∧ ∀ c, a.reads c = []) ∨
      ∃ c state, s'.start = Function.update s.start c state ∧ s.Starts a c state := by
  have hw := hs.wellFormed
  cases step_cases hstep with
  | accept => exact .inr ⟨_, _, rfl, .accept (hs.numbered _ (Nat.le_refl _))⟩
  | keyFails c bytes hc => exact .inr ⟨c, _, rfl, .keyFails c bytes hc⟩
  | keyRead c key _ hc h =>
    obtain ⟨-, h⟩ | ⟨-, db, v, -, ⟨id, -, h⟩ | ⟨-, rfl⟩⟩ := addClient_cases h
    · have hw' := (hw.setKey c key).answer c (g := .empty) fun hg => absurd rfl hg
      have hsame := sendDelayedMessages_same (by rw [answered_registry]; exact hw') h
      exact .inr ⟨c, _, hsame.start, .keyRead c key _ hc (.inr rfl)⟩
    · exact .inr ⟨c, _, userAdded_start (s := { s.setKey c key with db }) (hw.setKey c key) h,
        .keyRead c key _ hc (.inr rfl)⟩
    · exact .inr ⟨c, _, rfl, .keyRead c key _ hc (.inl rfl)⟩
  | badGreetings c g e hc hp => exact .inr ⟨c, _, rfl, .badGreetings c g e hc hp⟩
  | greetings c g size recipient hc hp =>
    exact .inr ⟨c, _, rfl, .greetings c g size recipient hc hp⟩
  | message c bytes lookup size recipient _ hc h =>
    have hb : bytes.length = size := by
      simp only [step, messageRead, hc] at hstep
      split at hstep
      · assumption
      · cases hstep
    obtain ⟨r, s₁, -, -, hs₁, rfl⟩ | ⟨e, d, generation, -, -, rfl⟩ :=
      relay_cases (s := s.addFrame (s.frame c size recipient bytes)) hw h
    · obtain ⟨db, v, -, rfl⟩ := addMessageToDb_cases hs₁
      exact .inr ⟨c, _, rfl, .message c bytes lookup size recipient _ hc hb (.inl rfl)⟩
    · refine .inr ⟨c, .addMessageToQueue, ?_,
        .message c bytes lookup size recipient _ hc hb (.inr rfl)⟩
      rw [setStart, (asyncSend_same _ d _).start]
      rfl
  | readFails c hc => exact .inr ⟨c, _, rfl, .readFails c hc⟩
  | written c socket q channel message front rest =>
    exact .inl ⟨(writeMessages_same (s.popped socket q message rest) c _ q).start, rfl,
      fun _ => rfl⟩
  | resume t _ h => exact (resume_start hs hstep).imp_left fun h => ⟨h, rfl, fun _ => rfl⟩
  | _ => exact .inl ⟨rfl, rfl, fun _ => rfl⟩

/-- The messages read from the connection that were handed over to the relay. -/
def relayedOf (s : Server) (c : ConnId) : List (PublicKey × List UInt8) :=
  (s.frames.filter (·.sender = c)).map fun f => (f.message.recipient, f.message.data)

/-- What `start` in this state has read behind the whole frames `fs`. -/
def Tail (fs : List Outgoing) (rest : List UInt8) : StartState → Prop
  | .unborn | .readKey | .addClient => fs = [] ∧ rest = []
  | .readMessage size recipient => rest = (greetingsOf size recipient).toList ∧
      minMessageSize ≤ size ∧ size ≤ maxMessageSize
  | .ended => ∀ f : Outgoing, ¬ f.wire <+: rest
  | _ => rest = []

/-- The connection has read these bytes, and handed over the frames that they consist of. -/
structure Reading (s : Server) (c : ConnId) (bytes : List UInt8) (fs : List Outgoing)
    (rest : List UInt8) : Prop where
  bytes : bytes = fs.flatMap Outgoing.wire ++ rest
  relayed : s.relayedOf c = fs.map fun f => (f.recipient, f.relayed (s.connection c).publicKey)
  tail : Tail fs rest (s.start c)
  answered : fs ≠ [] → s.answer c ≠ none

theorem wire_length (f : Outgoing) : 37 < f.wire.length := by
  have h := f.sized.1
  simp only [minMessageSize] at h
  simp [Outgoing.wire]
  omega

theorem Tail.ended {fs : List Outgoing} {rest : List UInt8} {state : StartState}
    (h : Tail fs rest state) (f : Outgoing) : ¬ f.wire <+: rest := by
  intro hp
  have hlen := hp.length_le
  have hw := wire_length f
  cases state with
  | ended => exact h f hp
  | readMessage size recipient =>
    rw [h.1, Vector.length_toList] at hlen
    omega
  | unborn | readKey | addClient =>
    rw [h.2, List.length_nil] at hlen
    omega
  | readGreetings | addMessageToQueue =>
    rw [show rest = [] from h, List.length_nil] at hlen
    omega

theorem relayedOf_step {s s' : Server} {a : Action} (hs : Sound s) (hstep : s.step a = some s')
    (c : ConnId) : s'.relayedOf c = s.relayedOf c ++
      ((s.framesOf a).filter (·.sender = c)).map fun f =>
        (f.message.recipient, f.message.data) := by
  rw [relayedOf, step_frames hs hstep, List.filter_append, List.map_append]
  rfl

section Reading
variable {s s' : Server} {c : ConnId} {bytes : List UInt8} {fs : List Outgoing}
  {rest : List UInt8}

/-- The frames of the connection stay, and `start` goes on behind them. -/
theorem Reading.keep (h : Reading s c bytes fs rest)
    (hkeep : s.answer c ≠ none → s'.connection c = s.connection c ∧ s'.answer c ≠ none)
    (hr : s'.relayedOf c = s.relayedOf c) {read : List UInt8}
    (ht : Tail fs (rest ++ read) (s'.start c)) :
    Reading s' c (bytes ++ read) fs (rest ++ read) := by
  refine ⟨by rw [h.bytes, List.append_assoc], ?_, ht, fun hfs => (hkeep (h.answered hfs)).2⟩
  rw [hr, h.relayed]
  cases fs with
  | nil => rfl
  | cons f fs => rw [(hkeep (h.answered (by simp))).1]

/-- A message is read, and handed over. -/
theorem Reading.message (h : Reading s c bytes fs rest) {size : Nat} {recipient : PublicKey}
    (hc : s.start c = .readMessage size recipient) {payload : List UInt8}
    (hb : payload.length = size)
    (hkeep : s'.connection c = s.connection c ∧ s'.answer c ≠ none)
    (hr : s'.relayedOf c = s.relayedOf c ++
      [(recipient, queuedMessage s.native size (s.connection c).publicKey payload)])
    (hstate : s'.start c = .readGreetings ∨ s'.start c = .addMessageToQueue) :
    ∃ fs', Reading s' c (bytes ++ payload) fs' [] := by
  subst hb
  have ht := h.tail
  rw [hc] at ht
  obtain ⟨rfl, hsized⟩ := ht
  let f : Outgoing := ⟨recipient, payload, hsized⟩
  refine ⟨fs ++ [f], ?_, ?_, ?_, fun _ => hkeep.2⟩
  · rw [h.bytes, List.append_nil, List.flatMap_append, List.append_assoc]
    simp [Outgoing.wire, f]
  · rw [hr, h.relayed, hkeep.1, List.map_append, queuedMessage_eq s.native _ f]
    rfl
  · obtain hstate | hstate := hstate <;> rw [hstate] <;> exact rfl

theorem Reading.step (hs : Sound s) (hl : Linked (fun _ => True) none s) {a : Action}
    (hstep : s.step a = some s') (h : Reading s c bytes fs rest) :
    ∃ fs' rest', Reading s' c (bytes ++ a.reads c) fs' rest' := by
  have hkeep : s.answer c ≠ none → s'.connection c = s.connection c ∧ s'.answer c ≠ none := by
    intro hans
    obtain ⟨g, hg⟩ := Option.ne_none_iff_exists'.mp hans
    obtain ⟨t, hm, ha⟩ := step_move hs hl hstep
    obtain ⟨hg', hconn, -⟩ := hm.session hs hg
    rw [ha.connection, ha.answer, hg']
    exact ⟨hconn, by simp⟩
  have hframes := relayedOf_step hs hstep c
  obtain ⟨hstart, hf, hread⟩ | ⟨d, state, hstart, hd⟩ := step_start hs hstep
  · rw [hread c]
    refine ⟨fs, _, h.keep hkeep (by simpa [hf] using hframes) ?_⟩
    rw [hstart, List.append_nil]
    exact h.tail
  by_cases hdc : d = c
  · subst hdc
    have hnew : s'.start d = state := by simp [hstart]
    have ht := h.tail
    have hlong : ∀ g : Vector UInt8 37, ∀ f : Outgoing, ¬ f.wire <+: g.toList := by
      intro g f hp
      have hlen := hp.length_le
      have hw := wire_length f
      rw [Vector.length_toList] at hlen
      omega
    cases hd with
    | accept hc =>
      refine ⟨fs, _, h.keep hkeep (by simpa [framesOf] using hframes) ?_⟩
      rw [hc] at ht
      rw [hnew]
      exact ⟨ht.1, by simp [ht.2, Action.reads]⟩
    | keyFails _ bytes hc =>
      refine ⟨fs, _, h.keep hkeep (by simpa [framesOf] using hframes) ?_⟩
      rw [hnew, show Action.reads d (.keyFails d bytes) = [] from rfl, List.append_nil]
      exact ht.ended
    | keyRead _ key _ hc hstate =>
      refine ⟨fs, _, h.keep hkeep (by simpa [framesOf] using hframes) ?_⟩
      rw [hc] at ht
      obtain rfl | rfl := hstate <;> rw [hnew]
      · exact ⟨ht.1, by simp [ht.2, Action.reads]⟩
      · show _ = _
        simp [ht.2, Action.reads]
    | resume _ hc =>
      refine ⟨fs, _, h.keep hkeep (by simpa [framesOf] using hframes) ?_⟩
      rw [hnew]
      show _ = _
      obtain hc | hc := hc <;> rw [hc] at ht
      · simp [ht.2, Action.reads]
      · simp [show rest = [] from ht, Action.reads]
    | badGreetings _ g e hc hp =>
      refine ⟨fs, _, h.keep hkeep (by simpa [framesOf] using hframes) ?_⟩
      rw [hc] at ht
      rw [hnew, show rest = [] from ht]
      show ∀ f : Outgoing, ¬ f.wire <+: _
      simpa [Action.reads] using hlong g
    | greetings _ g size recipient hc hp =>
      refine ⟨fs, _, h.keep hkeep (by simpa [framesOf] using hframes) ?_⟩
      rw [hc] at ht
      obtain ⟨rfl, hsize⟩ := parseGreetings_eq_ok.mp hp
      rw [hnew, show rest = [] from ht]
      exact ⟨by simp [Action.reads], hsize⟩
    | message _ payload lookup size recipient _ hc hb hstate =>
      have hans : s.answer d ≠ none :=
        hs.wellFormed.answered d (by simp [registry, hc, StartState.phase])
      obtain ⟨fs', h'⟩ := h.message hc hb (hkeep hans)
        (by simpa [framesOf, hc, frame] using hframes) (hnew ▸ hstate)
      exact ⟨fs', _, by simpa [Action.reads] using h'⟩
    | readFails _ hc =>
      refine ⟨fs, _, h.keep hkeep (by simpa [framesOf] using hframes) ?_⟩
      rw [hnew, show Action.reads d (.readFails d) = [] from rfl, List.append_nil]
      exact ht.ended
  · have hother : a.reads c = [] ∧ (s.framesOf a).filter (·.sender = c) = [] := by
      cases hd with
      | message _ payload lookup size recipient _ hc =>
        simp [Action.reads, framesOf, hc, frame, hdc]
      | _ => simp [Action.reads, framesOf, hdc]
    rw [hother.1]
    refine ⟨fs, _, h.keep hkeep (by simpa [hother.2] using hframes) ?_⟩
    rw [hstart, Function.update_of_ne (Ne.symm hdc), List.append_nil]
    exact h.tail

end Reading

/-- The bytes that a connection has read in a run are those of the frames it has handed over
and less than a whole frame. -/
theorem run_reading {native : Endian} {succeeds : StartStep → Bool} {tables : Tables}
    {as : List Action} {s : Server}
    (hr : Lts.run step (init native succeeds tables) as = some s) (c : ConnId) :
    ∃ fs rest, Reading s c (as.flatMap (Action.reads c)) fs rest := by
  have hgo : ∀ (as : List Action) (s t : Server) (bytes : List UInt8), Sound s →
      Linked (fun _ => True) none s → (∃ fs rest, Reading s c bytes fs rest) →
      Lts.run Server.step s as = some t →
      ∃ fs rest, Reading t c (bytes ++ as.flatMap (Action.reads c)) fs rest := by
    intro as
    induction as with
    | nil =>
      intro s t bytes _ _ h ht
      cases ht
      simpa using h
    | cons a as ih =>
      intro s t bytes hs hl ⟨fs, rest, h⟩ ht
      obtain ⟨m, hm, ht⟩ := Lts.run_cons.mp ht
      have hl' := (hl.step hs (fun _ _ _ _ _ => trivial) hm).1
      have h' := ih m t _ (hs.step hm) hl' (h.step hs hl hm) ht
      rwa [List.append_assoc] at h'
  have hinit : Reading (init native succeeds tables) c [] [] [] :=
    ⟨rfl, rfl, ⟨rfl, rfl⟩, fun h => absurd rfl h⟩
  exact hgo as _ s [] (init_sound native succeeds tables)
    (init_linked native succeeds trivial) ⟨[], [], hinit⟩ hr

/-- The server hands over what the message loop makes of the bytes that it has read. -/
theorem relayedOf_eq_readLoop {native : Endian} {succeeds : StartStep → Bool} {tables : Tables}
    {as : List Action} {s : Server}
    (hr : Lts.run step (init native succeeds tables) as = some s) (c : ConnId) :
    s.relayedOf c =
      readLoop native (s.connection c).publicKey (as.flatMap (Action.reads c)) := by
  obtain ⟨fs, rest, h⟩ := run_reading hr c
  rw [h.bytes, readLoop_frames native _ fs h.tail.ended, h.relayed]

/-- Of a stream of frames and a rest that does not start with one, the frames are handed over
and nothing else, each under the sender's key, and a client gets them back from the bytes. -/
theorem relay_codec (native : Endian) (fs : List Outgoing) (rest : List UInt8)
    (h : ∀ f : Outgoing, ¬ f.wire <+: rest) :
    (∀ sender, readLoop native sender (fs.flatMap Outgoing.wire ++ rest) =
      fs.map fun f => (f.recipient, f.relayed sender)) ∧
    (∀ xs : List (PublicKey × Outgoing), decode (xs.flatMap fun x => x.2.relayed x.1) =
      (xs.map fun x => (x.1, x.2.payload), [])) ∧
    ∀ succeeds tables as s c, Lts.run step (init native succeeds tables) as = some s →
      as.flatMap (Action.reads c) = fs.flatMap Outgoing.wire ++ rest →
      s.relayedOf c = fs.map fun f => (f.recipient, f.relayed (s.connection c).publicKey) := by
  refine ⟨fun sender => readLoop_frames native sender fs h, decode_relayed, ?_⟩
  intro succeeds tables as s c hr hreads
  rw [relayedOf_eq_readLoop hr, hreads, readLoop_frames native _ fs h]

/-- One frame, and the first byte of another. -/
theorem relay_codec_truncated :
    readLoop .big (.replicate 32 1) ([(⟨.replicate 32 2, [7], by decide⟩ : Outgoing)].flatMap
        Outgoing.wire ++ [0x67]) =
      [(.replicate 32 2, [1, 0, 0, 0] ++ List.replicate 32 1 ++ [7])] := by
  have hrest : ∀ f : Outgoing, ¬ f.wire <+: [0x67] := by
    intro f hp
    have hlen := hp.length_le
    have hw := wire_length f
    simp only [List.length_singleton] at hlen
    omega
  rw [(relay_codec .big _ _ hrest).1]
  decide

end MydakServer.Server
