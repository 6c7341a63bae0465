import MydakServer.ServerDatabase

/-! What a step of the server does outside its database: at most one move of its
connections, queues and signals. -/
namespace MydakServer.Server
open Rendezvous

/-- The same registry, queues, signals and coroutines, up to how far `start` is in its
message loop. -/
structure Alike (s s' : Server) : Prop where
  registry : s'.registry = s.registry
  signalChannel : s'.signalChannel = s.signalChannel
  messages : s'.messages = s.messages
  socket : s'.socket = s.socket
  delayed : s'.delayed = s.delayed
  signal : s'.signal = s.signal
  written : s'.written = s.written
  torn : s'.torn = s.torn

section Alike
variable {s s' : Server}

theorem Alike.refl (s : Server) : Alike s s := ⟨rfl, rfl, rfl, rfl, rfl, rfl, rfl, rfl⟩

theorem Alike.trans {u : Server} (h : Alike s s') (h' : Alike s' u) : Alike s u where
  registry := h'.registry.trans h.registry
  signalChannel := h'.signalChannel.trans h.signalChannel
  messages := h'.messages.trans h.messages
  socket := h'.socket.trans h.socket
  delayed := h'.delayed.trans h.delayed
  signal := h'.signal.trans h.signal
  written := h'.written.trans h.written
  torn := h'.torn.trans h.torn

theorem Alike.connection (h : Alike s s') : s'.connection = s.connection :=
  congrArg Registry.connection h.registry

theorem Alike.answer (h : Alike s s') : s'.answer = s.answer :=
  congrArg Registry.answer h.registry

theorem Alike.clientIndices (h : Alike s s') : s'.clientIndices = s.clientIndices :=
  congrArg Registry.clientIndices h.registry

theorem Alike.clientsSlotVector (h : Alike s s') : s'.clientsSlotVector = s.clientsSlotVector :=
  congrArg Registry.clientsSlotVector h.registry

theorem ended_iff (s : Server) (c : ConnId) : s.start c = .ended ↔ s.registry.phase c = .ended := by
  show _ ↔ (s.start c).phase = .ended
  cases s.start c <;> simp [StartState.phase]

theorem Alike.ended (h : Alike s s') (c : ConnId) : s'.start c = .ended ↔ s.start c = .ended := by
  rw [ended_iff, ended_iff, h.registry]

theorem alike_db (s : Server) (db : Database Task) : Alike s { s with db } :=
  ⟨rfl, rfl, rfl, rfl, rfl, rfl, rfl, rfl⟩

theorem Alike.setStart {c : ConnId} {state : StartState} (h : Alike s s')
    (hc : s.registry.phase c = state.phase) : Alike s (s'.setStart c state) := by
  refine h.trans ⟨?_, rfl, rfl, rfl, rfl, rfl, rfl, rfl⟩
  rw [registry_setStart]
  exact setPhase_self (by rw [h.registry, hc])

theorem Alike.push (h : Alike s s') (c : ConnId) (message : Message) :
    Alike (s.push c message) (s'.push c message) :=
  { h with messages := by simp only [Server.push, h.messages] }

theorem Alike.asyncSend (h : Alike s s') (c : ConnId) (t : Task) :
    Alike (s.asyncSend c t) (s'.asyncSend c t) := by
  unfold Server.asyncSend
  rw [h.signalChannel]
  split
  · exact { h with
      signalChannel := by simp only [setChannel, setSignal, h.signalChannel]
      signal := by simp only [setChannel, setSignal, h.signal] }
  · exact { h with
      signalChannel := by simp only [setChannel, setSignal, h.signalChannel]
      signal := by simp only [setChannel, setSignal, h.signal] }

theorem Alike.setDelayed (h : Alike s s') (c : ConnId) (state : DelayedState) :
    Alike (s.setDelayed c state) (s'.setDelayed c state) :=
  { h with delayed := by simp only [Server.setDelayed, h.delayed] }

theorem Alike.socketCoroutine (h : Alike s s') (c : ConnId) :
    Alike (s.socketCoroutine c) (s'.socketCoroutine c) := by
  unfold Server.socketCoroutine
  rw [h.signalChannel]
  by_cases hc : s.start c = .ended
  · rw [if_pos hc, if_pos ((h.ended c).mpr hc)]
    exact { h with socket := by simp only [setSocket, h.socket] }
  · rw [if_neg hc, if_neg (mt (h.ended c).mp hc)]
    split
    · exact { h with
        signalChannel := by simp only [setChannel, setSignal, setSocket, h.signalChannel]
        signal := by simp only [setChannel, setSignal, setSocket, h.signal]
        socket := by simp only [setChannel, setSignal, setSocket, h.socket] }
    · exact { h with
        signalChannel := by simp only [setChannel, setSignal, setSocket, h.signalChannel]
        signal := by simp only [setChannel, setSignal, setSocket, h.signal]
        socket := by simp only [setChannel, setSignal, setSocket, h.socket] }

theorem Alike.emplaced (h : Alike s s') (c : ConnId) (v : SlotVector Client) (g : ClientIndex) :
    Alike (s.emplaced c v g) (s'.emplaced c v g) := by
  refine { h with registry := ?_ }
  show s'.registry.emplaced c v g = s.registry.emplaced c v g
  rw [h.registry]

theorem Alike.answered (h : Alike s s') (c : ConnId) (g : ClientIndex) :
    Alike (s.answered c g) (s'.answered c g) := by
  refine { h with registry := ?_ }
  rw [answered_registry, answered_registry, h.registry]

end Alike

/-- The server when `add_client` has granted the connection a slot. -/
def granted (s : Server) (c : ConnId) (v : SlotVector Client) (g : ClientIndex) : Server :=
  ((s.emplaced c v g).socketCoroutine c).answered c g

theorem granted_eq (s : Server) (c : ConnId) (v : SlotVector Client) (g : ClientIndex) :
    ∃ channel signal state, s.granted c v g = { s with
      clientsSlotVector := v
      clientIndices := Function.update s.clientIndices (s.connection c).publicKey (some g)
      connection := Function.update s.connection c { s.connection c with indices := g }
      signalChannel := Function.update s.signalChannel c channel
      start := Function.update s.start c .readGreetings
      socket := Function.update s.socket c state
      signal
      answer := Function.update s.answer c (some g) } ∧
    (s.start c ≠ .ended → state = .asyncReceive) := by
  obtain ⟨channel, signal, state, he, hstate⟩ := (s.emplaced c v g).socketCoroutine_eq c
  refine ⟨channel, signal, state, by rw [granted, he]; rfl, fun hc => ?_⟩
  obtain ⟨hc', -⟩ | ⟨-, hstate⟩ := hstate
  · exact absurd hc' hc
  · exact hstate

/-- In the action `add_client` goes on to grant a slot to the connection with this key. -/
def Logs (s : Server) (a : Action) (c : ConnId) (key : PublicKey) : Prop :=
  a = .keyRead c key ∧ s.start c = .readKey ∨
    a = .resume (.start c) ∧ s.start c = .addClient ∧ (s.connection c).publicKey = key

/-- `send_delayed_messages` can hand over this row next: the first it has fetched, or the
one after a message that was taken. -/
def MayHand (I : Tables → Prop) (s : Server) (c : ConnId) (row : Row) (rest : List Row)
    (sent : List Nat) : Prop :=
  (s.delayed c = .fetching ∧ sent = [] ∧ ∀ r ∈ row :: rest,
    r.userId = (s.connection c).indices.dbIndex ∧ Tables.Fetched I s.db.tables r) ∨
  ∃ current sent', s.delayed c = .sending current (row :: rest) sent' ∧
    s.signal (.delayed c) = .taken ∧ sent = sent' ++ [current.id]

inductive Move (I : Tables → Prop) (s : Server) : Action → Server → Prop
  | other (a : Action) : Move I s a s
  | login (c : ConnId) (key : PublicKey) (hc : s.start c = .readKey)
    (hk : s.clientIndices key = none) :
    Move I s (.keyRead c key) ((s.setKey c key).setStart c .addClient)
  | reject (c : ConnId) (key : PublicKey) (state : DelayedState) (hc : s.start c = .readKey)
    (hk : s.clientIndices key ≠ none) (hstate : state = .fetching ∨ state = .finished) :
    Move I s (.keyRead c key) (((s.setKey c key).answered c .empty).setDelayed c state)
  | grant (a : Action) (c : ConnId) (key : PublicKey) (g : ClientIndex) (v : SlotVector Client)
    (id : Nat) (state : DelayedState) (hc : s.Logs a c key)
    (hv : s.clientsSlotVector.emplaceBack (.new c) = some (g, v))
    (hev : .grant c id ∈ s.events a)
    (hid : id = maxUInt64 ∨ ⟨id, key⟩ ∈ s.db.tables.users)
    (hstate : state = .fetching ∨ state = .finished) :
    Move I s a (((s.setKey c key).granted c v { g with dbIndex := id }).setDelayed c state)
  | fail (c : ConnId) (bytes : List UInt8) (hc : s.start c = .readKey) :
    Move I s (.keyFails c bytes) ((s.setKey c (partialKey bytes)).endConnection c)
  | close (a : Action) (c : ConnId) (hc : s.registry.phase c = .running)
    (ha : a = .readFails c ∨
      ∃ g e, a = .greetings c g ∧ Proto.parseGreetings s.native g = .error e) :
    Move I s a (s.endConnection c)
  | relay (c : ConnId) (bytes : List UInt8) (lookup : Bool) (size : Nat) (recipient : PublicKey)
    (e : ClientIndex) (d : ConnId) (generation : Nat)
    (hc : s.start c = .readMessage size recipient) (he : s.clientIndices recipient = some e)
    (hd : s.clientsSlotVector.slotAt e.index = some ⟨some (.new d), generation⟩) :
    Move I s (.message c bytes lookup)
      ((s.push d (s.frame c size recipient bytes).message).asyncSend d (.start c))
  | hand (c d : ConnId) (row : Row) (rest : List Row) (sent : List Nat)
    (hc : MayHand I s c row rest sent)
    (hd : s.clientsSlotVector.slotAt (s.connection c).indices.index =
      some ⟨some (.new d), (s.connection c).indices.generation⟩) :
    Move I s (.resume (.delayed c))
      (((s.push d row.data).asyncSend d (.delayed c)).setDelayed c (.sending row rest sent))
  | stop (c : ConnId) (state : DelayedState) (hc : s.delayed c ≠ .unborn)
    (hstate : state = .finished ∨
      state = .deleting ∧ ∃ current rest sent, s.delayed c = .sending current rest sent) :
    Move I s (.resume (.delayed c)) (s.setDelayed c state)
  | park (c : ConnId) (hc : s.socket c = .asyncReceive) (hs : s.signal (.socket c) = .taken) :
    Move I s (.resume (.socket c)) (s.socketCoroutine c)
  | write (c e : ConnId) (generation : Nat) (message : Message) (rest : List Message)
    (hc : s.socket c = .asyncReceive) (hs : s.signal (.socket c) = .taken)
    (he : s.clientsSlotVector.slotAt (s.connection c).indices.index =
      some ⟨some (.new e), generation⟩)
    (hm : s.messages e = message :: rest) :
    Move I s (.resume (.socket c)) (s.setSocket c (.writing (Client.new e).data message))
  | wrote (c socket q : ConnId) (channel : Option ConnId) (message front : Message)
    (rest : List Message) (hc : s.socket c = .writing ⟨some socket, some q, channel⟩ message)
    (hq : s.messages q = front :: rest) :
    Move I s (.written c)
      ((s.popped socket q message rest).writeMessages c ⟨some socket, some q, channel⟩ q)
  | wroteNone (c socket q : ConnId) (channel : Option ConnId) (message : Message)
    (hc : s.socket c = .writing ⟨some socket, some q, channel⟩ message)
    (hq : s.messages q = []) :
    Move I s (.written c) ((s.addWritten socket message).setSocket c .noMessage)
  | tear (c socket : ConnId) (n : Nat) (q channel : Option ConnId) (message : Message)
    (hc : s.socket c = .writing ⟨some socket, q, channel⟩ message)
    (hn : n < message.data.length) :
    Move I s (.writeFails c n)
      ((s.addTorn socket (message.data.take n)).setSocket c .terminated)
  | terminate (c : ConnId) (hc : s.socket c = .asyncReceive)
    (hs : s.signal (.socket c) = .aborted) :
    Move I s (.resume (.socket c)) (s.setSocket c .terminated)
  | cancel (c : ConnId) (t : Task) (channel : Channel Task) (hc : s.unowned c)
    (ht : (s.signalChannel c).cancel = some (t, channel)) :
    Move I s (.cancel c) ((s.setChannel c channel).setSignal t .aborted)

variable {I : Tables → Prop}

theorem setKey_self {s : Server} {c : ConnId} {key : PublicKey}
    (h : (s.connection c).publicKey = key) : s.setKey c key = s := by
  have hc : { s.connection c with publicKey := key } = s.connection c := by rw [← h]
  rw [setKey, hc, Function.update_eq_self]

theorem deleteSent_alike {s s' : Server} {c : ConnId} {ids : List Nat}
    (h : s.deleteSent c ids = some s') :
    ∃ state, (state = .finished ∨ state = .deleting ∧ ids ≠ []) ∧
      Alike (s.setDelayed c state) s' := by
  obtain ⟨db, v, hd, rfl⟩ := deleteSent_cases h
  refine ⟨if v.isSome then .finished else .deleting, ?_, (alike_db s db).setDelayed c _⟩
  cases ids with
  | nil =>
    cases hd
    exact .inl rfl
  | cons id ids =>
    cases v.isSome
    · exact .inr ⟨rfl, by simp⟩
    · exact .inl rfl

theorem sendDelayed_move {s s₁ s' : Server} {c : ConnId} {rows : List Row} {ids : List Nat}
    (hw : s.registry.WellFormed) (ha : Alike s s₁)
    (hc : ∀ row rest, rows = row :: rest → MayHand I s c row rest ids)
    (hdel : s.delayed c ≠ .unborn)
    (hids : ids ≠ [] → ∃ current rest sent, s.delayed c = .sending current rest sent)
    (h : s₁.sendDelayed c rows ids = some s') :
    ∃ t, Move I s (.resume (.delayed c)) t ∧ Alike t s' := by
  have hw₁ : s₁.registry.WellFormed := ha.registry ▸ hw
  obtain h | ⟨row, rest, s₂, rfl, hq, rfl⟩ := sendDelayed_cases hw₁ h
  · obtain ⟨state, hstate, h⟩ := deleteSent_alike h
    exact ⟨_, .stop c state hdel (hstate.imp_right fun hd => ⟨hd.1, hids hd.2⟩),
      (ha.setDelayed c state).trans h⟩
  · obtain ⟨-, code, hr, -⟩ | ⟨d, -, hd, rfl⟩ := addMessageToQueue_cases hw₁ hq
    · cases hr
    · rw [ha.connection, ha.clientsSlotVector] at hd
      exact ⟨_, .hand c d row rest ids (hc row rest rfl) hd,
        ((ha.push d row.data).asyncSend d (.delayed c)).setDelayed c _⟩

/-- A coroutine `send_delayed_messages` that has just been spawned hands nothing over yet. -/
theorem sendDelayedMessages_alike {s s' : Server} {c : ConnId}
    (h : s.sendDelayedMessages c = some s') :
    ∃ state, (state = .fetching ∨ state = .finished) ∧ Alike (s.setDelayed c state) s' := by
  obtain ⟨⟨db, v⟩, hd, h⟩ := Option.bind_eq_some_iff.mp h
  obtain ⟨-, rfl, rfl⟩ | ⟨q, -, -, -, rfl⟩ := Database.request_cases hd
  · obtain ⟨db, v, hdel, rfl⟩ := deleteSent_cases (show Server.deleteSent _ c [] = some s' from h)
    cases hdel
    exact ⟨.finished, .inr rfl, (alike_db s _).setDelayed c _⟩
  · cases h
    exact ⟨.fetching, .inl rfl, (alike_db s db).setDelayed c _⟩

theorem userAdded_move {s s₁ s' : Server} {a : Action} {c : ConnId} {key : PublicKey} {id : Nat}
    (hc : s.Logs a c key) (ha : Alike (s.setKey c key) s₁) (hev : .grant c id ∈ s.events a)
    (hid : id = maxUInt64 ∨ ⟨id, key⟩ ∈ s.db.tables.users) (h : s₁.userAdded c id = some s') :
    ∃ t, Move I s a t ∧ Alike t s' := by
  obtain ⟨g, v, hv, h⟩ := userAdded_cases h
  obtain ⟨state, hstate, h⟩ := sendDelayedMessages_alike h
  have hv' : s.clientsSlotVector.emplaceBack (.new c) = some (g, v) := by
    rw [← hv, ha.clientsSlotVector]
    rfl
  refine ⟨_, .grant a c key g v id state hc hv' hev hid hstate, Alike.trans ?_ h⟩
  exact ((((ha.emplaced c v _).socketCoroutine c).answered c _).setDelayed c state)

theorem signalled_move {s : Server} {c : ConnId} (hw : s.registry.WellFormed)
    (hc : s.socket c = .asyncReceive) (hs : s.signal (.socket c) = .taken) :
    Move I s (.resume (.socket c)) (s.signalled c) := by
  unfold signalled
  split
  · rename_i client generation he
    obtain ⟨e, rfl⟩ := hw.objects _ _ client he rfl
    simp only [Client.new]
    unfold writeMessages
    split
    · exact .park c hc hs
    · rename_i message rest hm
      exact .write c e generation message rest hc hs he hm
  · exact .park c hc hs

theorem resume_move {s s' : Server} {t : Task} (hw : s.registry.WellFormed)
    (h : Linked I none s) (hs : s.resume t = some s') :
    ∃ u, Move I s (.resume t) u ∧ Alike u s' := by
  cases resume_cases hs with
  | userAdded c db id _ hc hd hs =>
    obtain ⟨-, stmt, hasked, hv⟩ := h.answered.resume hd
    have hid : id = maxUInt64 ∨ ⟨id, (s.connection c).publicKey⟩ ∈ s.db.tables.users := by
      obtain ⟨value, hval, hans, -⟩ | ⟨key, e, -, hval, -⟩ := hv
      · cases hval
        obtain hk | hk := h.adding c (by simp) hc <;> rw [hasked, Option.some.injEq] at hk <;>
          subst hk <;> exact hans
      · cases hval
    refine userAdded_move (.inr ⟨rfl, hc, rfl⟩) (by rw [setKey_self rfl]; exact alike_db s db)
      ?_ hid hs
    simp [events, hc, hd]
  | addUser c db => exact ⟨s, .other _, alike_db s db⟩
  | relayed c hc =>
    exact ⟨s, .other _, (Alike.refl s).setStart (by simp [registry, hc, StartState.phase])⟩
  | signalled c hc hsig => exact ⟨_, signalled_move hw hc hsig, .refl _⟩
  | socketAborted c hc hsig => exact ⟨_, .terminate c hc hsig, .refl _⟩
  | fetched c db rows _ hc hd hs =>
    have hk := h.fetching c (by simp) hc
    obtain ⟨-, stmt, hasked, hv⟩ := h.answered.resume hd
    rw [hasked, Option.some.injEq] at hk
    subst hk
    refine sendDelayed_move hw (alike_db s db) ?_ (by simp [hc]) (fun hn => absurd rfl hn) hs
    intro row rest heq
    subst heq
    obtain ⟨value, hval, hans, -⟩ | ⟨key, e, hstmt, -⟩ := hv
    · cases hval
      exact .inl ⟨hc, rfl, hans⟩
    · cases hstmt
  | fetching c db => exact ⟨s, .other _, alike_db s db⟩
  | taken c current rest sent _ hc hsig hs =>
    refine sendDelayed_move hw (.refl s) ?_ (by simp [hc]) (fun _ => ⟨_, _, _, hc⟩) hs
    intro row rest heq
    subst heq
    exact .inr ⟨current, sent, hc, hsig, rfl⟩
  | aborted c current rest sent _ hc hsig hs =>
    obtain ⟨state, hstate, ha⟩ := deleteSent_alike hs
    exact ⟨_, .stop c state (by simp [hc]) (hstate.imp_right fun hd => ⟨hd.1, _, _, _, hc⟩), ha⟩
  | deleted c db v hc =>
    exact ⟨_, .stop c .finished (by simp [hc]) (.inl rfl), (alike_db s db).setDelayed c _⟩
  | stored n db => exact ⟨s, .other _, alike_db s db⟩

theorem addClient_move {s s' : Server} {c : ConnId} {key : PublicKey}
    (hc : s.start c = .readKey) (hs : (s.setKey c key).addClient c = some s') :
    ∃ t, Move I s (.keyRead c key) t ∧ Alike t s' := by
  have hkey : ((s.setKey c key).connection c).publicKey = key := by simp [setKey]
  obtain ⟨hk, hs⟩ | ⟨hk, db, v, hd, hv⟩ := addClient_cases hs
  · rw [hkey] at hk
    obtain ⟨state, hstate, ha⟩ := sendDelayedMessages_alike hs
    exact ⟨_, .reject c key state hc hk hstate, ha⟩
  · rw [hkey] at hk hd
    obtain ⟨id, rfl, hs⟩ | ⟨-, rfl⟩ := hv
    · obtain ⟨-, -, hval⟩ | ⟨q, -, -, -, hval⟩ := Database.request_cases hd
      · cases hval
        refine userAdded_move (.inl ⟨rfl, hc⟩) (alike_db _ db) ?_ (.inl rfl) hs
        have hd' : s.db.addUser (.start c) key = some (db, some (.userId maxUInt64)) := hd
        have hk' : s.clientIndices key = none := hk
        simp [events, hk', hd']
      · cases hval
    · refine ⟨_, .login c key hc hk, ?_⟩
      have ha : Alike ((s.setKey c key).setStart c .addClient)
        { (s.setKey c key).setStart c .addClient with db } := alike_db _ db
      exact ha

theorem endConnection_move {s : Server} {a : Action} {c : ConnId}
    (hc : s.registry.phase c = .running)
    (ha : a = .readFails c ∨
      ∃ g e, a = .greetings c g ∧ Proto.parseGreetings s.native g = .error e) :
    ∃ t, Move I s a t ∧ Alike t (s.endConnection c) :=
  ⟨_, .close a c hc ha, .refl _⟩

/-- A message is read for a recipient without a live slot, and its `INSERT` is queued, or it
goes into the queue of the client that the recipient's entry leads to. -/
theorem message_cases {s s' : Server} {c : ConnId} {bytes : List UInt8} {lookup : Bool}
    (hs : Sound s) (h : Linked I none s) (hstep : s.step (.message c bytes lookup) = some s') :
    ∃ size recipient, s.start c = .readMessage size recipient ∧
      ((∃ r, s.getClientIndex recipient lookup = some r ∧ r.index = invalidIndex ∧ Alike s s' ∧
        (s.db.connected →
          s'.db.pending = s.db.pending ++
            [.insertMessage r.dbIndex (s.frame c size recipient bytes).message] ∧
          s'.db.issued = s.db.issued ++
            [.insertMessage r.dbIndex (s.frame c size recipient bytes).message])) ∨
      ∃ e d generation, s.clientIndices recipient = some e ∧
        s.clientsSlotVector.slotAt e.index = some ⟨some (.new d), generation⟩ ∧
        Alike ((s.push d (s.frame c size recipient bytes).message).asyncSend d (.start c)) s') := by
  cases step_cases hstep with
  | message _ _ _ size recipient _ hc hstep =>
    refine ⟨size, recipient, hc, ?_⟩
    have hph : s.registry.phase c = .running := by simp [registry, hc, StartState.phase]
    have ha : Alike s (s.addFrame (s.frame c size recipient bytes)) :=
      ⟨rfl, rfl, rfl, rfl, rfl, rfl, rfl, rfl⟩
    have hl : Linked I none (s.addFrame (s.frame c size recipient bytes)) :=
      ⟨h.answered, h.adding, h.fetching⟩
    obtain ⟨r, s₁, hr, hi, hs₁, rfl⟩ | ⟨e, d, generation, he, hd, rfl⟩ :=
      relay_cases (s := s.addFrame (s.frame c size recipient bytes)) hs.wellFormed hstep
    · refine .inl ⟨r, hr, hi, ?_, fun hconn => ?_⟩
      · obtain ⟨db, v, -, rfl⟩ := addMessageToDb_cases hs₁
        have ha₁ : Alike s { s.addFrame (s.frame c size recipient bytes) with
            db, stores := s.stores + 1 } := ⟨rfl, rfl, rfl, rfl, rfl, rfl, rfl, rfl⟩
        exact ha₁.setStart hph
      · obtain ⟨-, -, ⟨hd, -⟩ | ⟨-, hpending, hissued⟩, -⟩ := hl.addMessageToDb hs₁
        · exact absurd hd (by simp [addFrame, hconn])
        · exact ⟨hpending, hissued⟩
    · refine .inr ⟨e, d, generation, he, hd, ?_⟩
      refine ((ha.push d _).asyncSend d (.start c)).setStart ?_
      rw [(asyncSend_same _ d _).registry]
      exact hph

/-- Every step of the server is a move, up to its database and to the point its `start`
coroutines have reached. -/
theorem step_move {s s' : Server} {a : Action} (hs : Sound s) (h : Linked I none s)
    (hstep : s.step a = some s') : ∃ t, Move I s a t ∧ Alike t s' := by
  have hw := hs.wellFormed
  cases step_cases hstep with
  | accept =>
    have hu := hs.numbered s.accepted (Nat.le_refl _)
    have ha : Alike s (s.setStart s.accepted .readKey) :=
      (Alike.refl s).setStart (by simp [registry, hu, StartState.phase])
    exact ⟨s, .other _, { ha with }⟩
  | keyFails c bytes hc => exact ⟨_, .fail c bytes hc, .refl _⟩
  | keyRead c key _ hc hstep => exact addClient_move hc hstep
  | badGreetings c g e hc hp =>
    exact endConnection_move (by simp [registry, hc, StartState.phase]) (.inr ⟨g, e, rfl, hp⟩)
  | greetings c g size recipient hc =>
    exact ⟨s, .other _, (Alike.refl s).setStart (by simp [registry, hc, StartState.phase])⟩
  | message c bytes lookup =>
    obtain ⟨size, recipient, hc, ⟨r, -, -, ha, -⟩ | ⟨e, d, generation, he, hd, ha⟩⟩ :=
      message_cases hs h hstep
    · exact ⟨s, .other _, ha⟩
    · exact ⟨_, .relay c bytes lookup size recipient e d generation hc he hd, ha⟩
  | readFails c hc => exact endConnection_move hc (.inl rfl)
  | written c socket q channel message front rest hc hq =>
    exact ⟨_, .wrote c socket q channel message front rest hc hq, .refl _⟩
  | writtenNone c socket q channel message hc hq =>
    exact ⟨_, .wroteNone c socket q channel message hc hq, .refl _⟩
  | writeFails c socket n q channel message hc hn =>
    exact ⟨_, .tear c socket n q channel message hc hn, .refl _⟩
  | resume t _ hs => exact resume_move hw h hstep
  | cancel c t channel hc ht => exact ⟨_, .cancel c t channel hc ht, .refl _⟩
  | loop db | execute db | executeThrows db => exact ⟨s, .other _, alike_db s db⟩

theorem Move.db {s t : Server} {a : Action} (hm : Move I s a t) : t.db = s.db := by
  cases hm with
  | grant _ c key g v id state => exact socketCoroutine_db _ c
  | relay c bytes lookup size recipient e d => exact asyncSend_db _ d _
  | hand c d => exact asyncSend_db _ d _
  | park c => exact s.socketCoroutine_db c
  | wrote c socket q channel message front rest =>
    unfold writeMessages
    split
    · exact socketCoroutine_db _ c
    · rfl
  | _ => rfl

theorem answer_of_logs {s : Server} (hs : Sound s) {a : Action} {c : ConnId} {key : PublicKey}
    (hc : s.Logs a c key) : s.answer c = none := by
  obtain ⟨-, hc⟩ | ⟨-, hc, -⟩ := hc
  · exact hs.answer_none (.inr (.inl hc))
  · exact hs.answer_none (.inr (.inr hc))

/-- A connection that has its answer keeps it and its key, and ends only in its own step. -/
theorem Move.session {s t : Server} {a : Action} (hs : Sound s) (hm : Move I s a t) {c : ConnId}
    {g : ClientIndex} (hc : s.answer c = some g) :
    t.answer c = some g ∧ t.connection c = s.connection c ∧
      (t.registry.phase c = s.registry.phase c ∨ t = s.endConnection c ∧ (a = .readFails c ∨
        ∃ g e, a = .greetings c g ∧ Proto.parseGreetings s.native g = .error e)) := by
  have hsame : t.registry = s.registry → t.answer c = some g ∧
      t.connection c = s.connection c ∧ (t.registry.phase c = s.registry.phase c ∨
        t = s.endConnection c ∧ (a = .readFails c ∨
        ∃ g e, a = .greetings c g ∧ Proto.parseGreetings s.native g = .error e)) := by
    intro hr
    have hans : t.answer = s.answer := congrArg Registry.answer hr
    have hconn : t.connection = s.connection := congrArg Registry.connection hr
    exact ⟨by rw [hans, hc], by rw [hconn], .inl (by rw [hr])⟩
  have hother : ∀ d, s.answer d = none → c ≠ d := by
    intro d hd heq
    subst heq
    simp [hc] at hd
  have hread : ∀ d, s.start d = .readKey → c ≠ d := fun d hd =>
    hother d (hs.answer_none (.inr (.inl hd)))
  cases hm with
  | other => exact hsame rfl
  | login d key hd =>
    have hcd := hread d hd
    simp [setKey, setStart, registry, Function.update_of_ne hcd, hc]
  | reject d key state hd =>
    have hcd := hread d hd
    simp [setKey, answered, setStart, setDelayed, registry, Function.update_of_ne hcd, hc]
  | grant _ d key g' v id state hd =>
    have hcd := hother d (answer_of_logs hs hd)
    obtain ⟨channel, signal, socket, he, -⟩ :=
      (s.setKey d key).granted_eq d v { g' with dbIndex := id }
    rw [he]
    simp [setKey, setDelayed, registry, Function.update_of_ne hcd, hc]
  | fail d bytes hd =>
    have hcd := hread d hd
    simp [setKey, endConnection, removeClient, setStart, registry, Function.update_of_ne hcd, hc]
  | close _ d hd ha =>
    by_cases hcd : c = d
    · subst hcd
      exact ⟨hc, rfl, .inr ⟨rfl, ha⟩⟩
    · simp [endConnection, removeClient, setStart, registry, Function.update_of_ne hcd, hc]
  | relay d bytes lookup size recipient e f =>
    exact hsame (asyncSend_same (s.push f _) f _).registry
  | hand d f row => exact hsame (asyncSend_same (s.push f row.data) f _).registry
  | park d => exact hsame (s.socketCoroutine_same d).registry
  | wrote d socket q channel m front rest =>
    exact hsame (writeMessages_same (s.popped socket q m rest) d _ q).registry
  | _ => exact hsame rfl

/-- The frame that a step reads, if any. -/
def framesOf (s : Server) : Action → List Frame
  | .message c bytes _ =>
    match s.start c with
    | .readMessage size recipient => [s.frame c size recipient bytes]
    | _ => []
  | _ => []

theorem step_frames {s s' : Server} {a : Action} (hs : Sound s) (hstep : s.step a = some s') :
    s'.frames = s.frames ++ s.framesOf a := by
  have hw := hs.wellFormed
  cases step_cases hstep with
  | keyRead c key _ hc hstep =>
    simpa [framesOf] using (addClient_registry hs.numbered hw hc hstep).2.2
  | resume t => simpa [framesOf] using (resume_registry hs.numbered hw hstep).2.2
  | message c bytes lookup size recipient _ hc hstep =>
    have hph : s.registry.phase c = .running := by simp [registry, hc, StartState.phase]
    obtain ⟨-, -, hf, -⟩ := relay_registry (s := s.addFrame (s.frame c size recipient bytes))
      hw hph hstep
    simp [hf, addFrame, framesOf, hc]
  | written c socket q channel message front rest =>
    simpa [framesOf, popped] using
      (writeMessages_same (s.popped socket q message rest) c _ q).frames
  | _ =>
    simp [framesOf, endConnection, removeClient, setStart, setKey, setSocket, setChannel, setSignal,
      addWritten, addTorn]

end MydakServer.Server
