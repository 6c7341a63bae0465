import MydakServer.Server

/-! The server in which one connection has closed and done nothing else: what the other
coroutines do there is what they do without that. -/
namespace MydakServer.Server
open Rendezvous

/-- The connection has closed, without a call of `end_connection`. -/
def closed (s : Server) (c : ConnId) : Server := s.setStart c .ended

/-- The connection whose `start` acts. -/
def Action.startOf : Action → Option ConnId
  | .keyFails c _ | .keyRead c _ | .greetings c _ | .message c _ _ | .readFails c
  | .resume (.start c) => some c
  | _ => none

theorem closed_setStart (s : Server) (c : ConnId) (state : StartState) :
    (s.setStart c state).closed c = s.closed c := by
  simp [closed, setStart]

theorem setStart_closed (s : Server) {c d : ConnId} (hd : d ≠ c) (state : StartState) :
    (s.closed c).setStart d state = (s.setStart d state).closed c := by
  simp only [closed, setStart, Function.update_comm hd]

@[simp] theorem closed_native (s : Server) (c : ConnId) : (s.closed c).native = s.native := rfl
@[simp] theorem closed_clientsSlotVector (s : Server) (c : ConnId) :
    (s.closed c).clientsSlotVector = s.clientsSlotVector := rfl
@[simp] theorem closed_connection (s : Server) (c : ConnId) :
    (s.closed c).connection = s.connection := rfl
@[simp] theorem closed_socket (s : Server) (c : ConnId) : (s.closed c).socket = s.socket := rfl
@[simp] theorem closed_signal (s : Server) (c : ConnId) : (s.closed c).signal = s.signal := rfl
@[simp] theorem closed_messages (s : Server) (c : ConnId) :
    (s.closed c).messages = s.messages := rfl
@[simp] theorem closed_delayed (s : Server) (c : ConnId) :
    (s.closed c).delayed = s.delayed := rfl
@[simp] theorem closed_db (s : Server) (c : ConnId) : (s.closed c).db = s.db := rfl

theorem start_closed (s : Server) {c d : ConnId} (hd : d ≠ c) :
    (s.closed c).start d = s.start d := by
  simp [closed, setStart, Function.update_of_ne hd]

variable {c : ConnId}

theorem asyncSend_closed (s : Server) (d : ConnId) (t : Task) :
    (s.closed c).asyncSend d t = (s.asyncSend d t).closed c := by
  unfold asyncSend
  simp only [closed, setStart]
  split <;> rfl

theorem addMessage_closed (s : Server) (client : Client) (message : Message) :
    (s.closed c).addMessage client message = (s.addMessage client message).closed c := by
  unfold addMessage
  simp only [closed, setStart]
  split
  · split <;> rfl
  · rfl

theorem addMessageToQueue_closed (s : Server) (i generation : Nat) (message : Message)
    (t : Task) : (s.closed c).addMessageToQueue i generation message t =
      (s.addMessageToQueue i generation message t).map fun p => (p.1.closed c, p.2) := by
  show (s.clientsSlotVector.slotAt i).bind _ = Option.map _ ((s.clientsSlotVector.slotAt i).bind _)
  cases s.clientsSlotVector.slotAt i with
  | none => rfl
  | some slot =>
    obtain ⟨object, generation'⟩ := slot
    cases object with
    | none => rfl
    | some client =>
      simp only [Option.bind_some]
      split
      · rfl
      · cases client.data.signalChannel with
        | none => rfl
        | some channel =>
          simp only [Option.map_some, addMessage_closed, asyncSend_closed]

theorem deleteSent_closed (s : Server) (d : ConnId) (ids : List Nat) :
    (s.closed c).deleteSent d ids = (s.deleteSent d ids).map (·.closed c) := by
  show Option.map _ (s.db.deleteDelayedMessages (.delayed d) ids) =
    Option.map _ (Option.map _ (s.db.deleteDelayedMessages (.delayed d) ids))
  rw [Option.map_map]
  rfl

theorem sendDelayed_closed (s : Server) (d : ConnId) (rows : List Row) (ids : List Nat) :
    (s.closed c).sendDelayed d rows ids = (s.sendDelayed d rows ids).map (·.closed c) := by
  induction rows generalizing s ids with
  | nil => exact s.deleteSent_closed d ids
  | cons row rest ih =>
    simp only [sendDelayed, addMessageToQueue_closed]
    show Option.bind (Option.map _ (s.addMessageToQueue (s.connection d).indices.index
      (s.connection d).indices.generation row.data (.delayed d))) _ = _
    cases s.addMessageToQueue (s.connection d).indices.index
      (s.connection d).indices.generation row.data (.delayed d) with
    | none => rfl
    | some p =>
      obtain ⟨t, r⟩ := p
      cases r with
      | suspended => rfl
      | code code =>
        cases code with
        | success => exact ih t _
        | _ => exact t.deleteSent_closed d ids

theorem sendDelayedMessages_closed (s : Server) (d : ConnId) :
    (s.closed c).sendDelayedMessages d = (s.sendDelayedMessages d).map (·.closed c) := by
  unfold sendDelayedMessages
  show Option.bind (s.db.getDelayedMessages (.delayed d) (s.connection d).indices.dbIndex) _ = _
  cases s.db.getDelayedMessages (.delayed d) (s.connection d).indices.dbIndex with
  | none => rfl
  | some p =>
    obtain ⟨db, v⟩ := p
    simp only [Option.bind_some]
    split
    · rename_i rows heq
      cases heq
      exact sendDelayed_closed { s with db } d rows []
    · rfl

theorem socketCoroutine_closed (s : Server) {d : ConnId} (hd : d ≠ c) :
    (s.closed c).socketCoroutine d = (s.socketCoroutine d).closed c := by
  unfold socketCoroutine
  rw [s.start_closed hd]
  split
  · rfl
  · simp only [closed, setStart]
    split <;> rfl

theorem writeMessages_closed (s : Server) {d : ConnId} (hd : d ≠ c) (data : ClientData)
    (q : ConnId) : (s.closed c).writeMessages d data q = (s.writeMessages d data q).closed c := by
  simp only [writeMessages, closed_messages]
  cases s.messages q with
  | nil => exact s.socketCoroutine_closed hd
  | cons message rest => rfl

theorem signalled_closed (s : Server) {d : ConnId} (hd : d ≠ c) :
    (s.closed c).signalled d = (s.signalled d).closed c := by
  simp only [signalled, closed_clientsSlotVector, closed_connection]
  split
  · split
    · exact s.writeMessages_closed hd _ _
    · exact s.socketCoroutine_closed hd
  · exact s.socketCoroutine_closed hd

theorem loggedIn_closed (s : Server) {d : ConnId} (hd : d ≠ c) (g : ClientIndex) :
    (s.closed c).loggedIn d g = (s.loggedIn d g).map (·.closed c) := by
  unfold loggedIn
  rw [← sendDelayedMessages_closed, ← setStart_closed _ hd]
  rfl

theorem userAdded_closed (s : Server) {d : ConnId} (hd : d ≠ c) (id : Nat) :
    (s.closed c).userAdded d id = (s.userAdded d id).map (·.closed c) := by
  unfold userAdded
  show Option.bind (s.clientsSlotVector.emplaceBack (.new d)) _ = _
  dsimp only
  cases s.clientsSlotVector.emplaceBack (.new d) with
  | none => rfl
  | some p =>
    obtain ⟨g, v⟩ := p
    simp only [Option.bind_some]
    rw [← loggedIn_closed _ hd, ← socketCoroutine_closed _ hd]
    rfl

theorem addClient_closed (s : Server) {d : ConnId} (hd : d ≠ c) :
    (s.closed c).addClient d = (s.addClient d).map (·.closed c) := by
  unfold addClient
  show (if (s.clientIndices (s.connection d).publicKey).isSome then _ else
    Option.bind (s.db.addUser (.start d) (s.connection d).publicKey) _) = _
  dsimp only
  split
  · exact s.loggedIn_closed hd .empty
  · cases s.db.addUser (.start d) (s.connection d).publicKey with
    | none => rfl
    | some p =>
      obtain ⟨db, v⟩ := p
      simp only [Option.bind_some]
      cases v with
      | none => exact congrArg some (setStart_closed { s with db } hd _)
      | some value =>
        cases value with
        | userId id => exact userAdded_closed { s with db } hd id
        | _ => exact congrArg some (setStart_closed { s with db } hd _)

theorem endConnection_closed (s : Server) {d : ConnId} (hd : d ≠ c) :
    (s.closed c).endConnection d = (s.endConnection d).closed c := by
  unfold endConnection
  rw [← setStart_closed _ hd]
  rfl

theorem addMessageToDb_closed (s : Server) (index : Nat) (message : Message) :
    (s.closed c).addMessageToDb index message =
      (s.addMessageToDb index message).map (·.closed c) := by
  show Option.map _ (s.db.addMessage (.store s.stores) index message) =
    Option.map _ (Option.map _ (s.db.addMessage (.store s.stores) index message))
  rw [Option.map_map]
  rfl

theorem tryRelay_closed (s : Server) {d : ConnId} (hd : d ≠ c) (recipient : PublicKey)
    (message : Message) (lookup : Bool) {again again' : Option Server}
    (ha : again' = again.map (·.closed c)) :
    (s.closed c).tryRelay d recipient message lookup again' =
      (s.tryRelay d recipient message lookup again).map (·.closed c) := by
  unfold tryRelay
  show Option.bind (s.getClientIndex recipient lookup) _ = _
  cases s.getClientIndex recipient lookup with
  | none => rfl
  | some r =>
    simp only [Option.bind_some, addMessageToDb_closed, addMessageToQueue_closed]
    split
    · cases s.addMessageToDb r.dbIndex message with
      | none => rfl
      | some t => exact congrArg some (t.setStart_closed hd _)
    · cases s.addMessageToQueue r.index r.generation message (.start d) with
      | none => rfl
      | some p =>
        obtain ⟨t, code⟩ := p
        cases code with
        | suspended => exact congrArg some (t.setStart_closed hd _)
        | code code =>
          cases code with
          | expiredClient => exact ha
          | _ => exact congrArg some (t.setStart_closed hd _)

theorem relay_closed (s : Server) {d : ConnId} (hd : d ≠ c) (recipient : PublicKey)
    (message : Message) (lookup : Bool) (tries : Nat) :
    (s.closed c).relay d recipient message lookup tries =
      (s.relay d recipient message lookup tries).map (·.closed c) := by
  induction tries with
  | zero => exact s.tryRelay_closed hd _ _ _ (congrArg some (s.setStart_closed hd _))
  | succ tries ih => exact s.tryRelay_closed hd _ _ _ ih

theorem resume_closed (s : Server) {t : Task} (ht : (Action.resume t).startOf ≠ some c)
    (hs : s.socket c = .unborn) :
    (s.closed c).resume t = (s.resume t).map (·.closed c) := by
  cases t with
  | start d =>
    have hd : d ≠ c := fun hd => ht (congrArg some hd)
    unfold resume
    simp only [s.start_closed hd]
    cases s.start d with
    | addClient =>
      show Option.bind (s.db.resume (.start d)) _ = Option.map _ (Option.bind _ _)
      cases s.db.resume (.start d) with
      | none => rfl
      | some p =>
        obtain ⟨db, v⟩ := p
        simp only [Option.bind_some]
        split
        · rename_i id heq
          cases heq
          exact userAdded_closed { s with db } hd id
        · rfl
    | addMessageToQueue =>
      show (if s.signal (.start d) = .waiting then none else
        some ((s.closed c).setStart d .readGreetings)) = _
      dsimp only
      split
      · rfl
      · exact congrArg some (s.setStart_closed hd _)
    | _ => rfl
  | socket d =>
    by_cases hd : d = c
    · subst hd
      unfold resume
      simp only [closed, setStart, hs, Option.map_none]
    · simp only [resume, closed_socket, closed_signal]
      split
      · exact congrArg some (s.signalled_closed hd)
      · rfl
      · rfl
  | delayed d =>
    simp only [resume, closed_delayed, closed_db, closed_signal]
    cases s.delayed d with
    | fetching =>
      dsimp only
      cases s.db.resume (.delayed d) with
      | none => rfl
      | some p =>
        obtain ⟨db, v⟩ := p
        simp only [Option.bind_some]
        split
        · rename_i rows heq
          cases heq
          exact sendDelayed_closed { s with db } d rows []
        · rfl
    | sending current rest sent =>
      dsimp only
      cases s.signal (.delayed d) with
      | waiting => rfl
      | taken => exact s.sendDelayed_closed d rest _
      | aborted => exact s.deleteSent_closed d sent
    | deleting =>
      dsimp only
      cases s.db.resume (.delayed d) <;> rfl
    | _ => rfl
  | store n =>
    simp only [resume, closed_db]
    cases s.db.resume (.store n) <;> rfl

theorem unowned_closed (s : Server) {d : ConnId} (hd : d ≠ c) :
    (s.closed c).unowned d = s.unowned d := by
  simp only [unowned, s.start_closed hd, closed_clientsSlotVector, closed_socket]
  rfl

theorem messageWritten_closed (s : Server) {d : ConnId} (hd : d ≠ c) :
    (s.closed c).messageWritten d = (s.messageWritten d).map (·.closed c) := by
  simp only [messageWritten, closed_socket, closed_messages]
  split
  · rename_i socket q channel message hw
    cases s.messages q with
    | nil => rfl
    | cons front rest =>
      exact congrArg some (writeMessages_closed { s with
        written := Function.update s.written socket (s.written socket ++ [message])
        messages := Function.update s.messages q rest } hd _ q)
  · rfl

/-- The other coroutines cannot tell whether a connection without a socket coroutine has
closed, if no signal waits in its channel. -/
theorem step_closed (s : Server) {a : Action} (ha : a.startOf ≠ some c) (hc : c < s.accepted)
    (hs : s.socket c = .unborn) (hch : s.signalChannel c = {}) :
    (s.closed c).step a = (s.step a).map (·.closed c) := by
  cases a with
  | accept =>
    have hne : c ≠ s.accepted := Nat.ne_of_lt hc
    have hstart := Function.update_comm hne StartState.ended StartState.readKey s.start
    exact congrArg (fun start => some { s with start, accepted := s.accepted + 1 }) hstart
  | keyFails d bytes =>
    have hd : d ≠ c := fun hd => ha (congrArg some hd)
    simp only [step, keyFails, s.start_closed hd]
    split
    · exact congrArg some ((s.setKey d (partialKey bytes)).endConnection_closed hd)
    · rfl
  | keyRead d key =>
    have hd : d ≠ c := fun hd => ha (congrArg some hd)
    simp only [step, keyRead, s.start_closed hd]
    split
    · exact (s.setKey d key).addClient_closed hd
    · rfl
  | greetings d g =>
    have hd : d ≠ c := fun hd => ha (congrArg some hd)
    simp only [step, greetings, s.start_closed hd, closed_native]
    split
    · split
      · exact congrArg some (s.endConnection_closed hd)
      · exact congrArg some (s.setStart_closed hd _)
    · rfl
  | message d bytes lookup =>
    have hd : d ≠ c := fun hd => ha (congrArg some hd)
    simp only [step, messageRead, s.start_closed hd]
    split
    · rename_i size recipient hr
      split
      · exact (s.addFrame (s.frame d size recipient bytes)).relay_closed hd _ _ _ _
      · rfl
    · rfl
  | readFails d =>
    have hd : d ≠ c := fun hd => ha (congrArg some hd)
    simp only [step, readFails, s.start_closed hd]
    split
    · exact congrArg some (s.endConnection_closed hd)
    · exact congrArg some (s.endConnection_closed hd)
    · rfl
  | written d =>
    by_cases hd : d = c
    · subst hd
      simp only [step, messageWritten, closed_socket, hs, Option.map_none]
    · exact s.messageWritten_closed hd
  | writeFails d n =>
    simp only [step, writeFails, closed_socket]
    split
    · split <;> rfl
    · rfl
  | resume t => exact s.resume_closed ha hs
  | cancel d =>
    by_cases hd : d = c
    · subst hd
      have hn : (s.signalChannel d).cancel = none := by rw [hch]; rfl
      have hn' : ((s.closed d).signalChannel d).cancel = none := hn
      simp only [step, cancel, hn, hn', Option.map_none, ite_self]
    · simp only [step, cancel, s.unowned_closed hd]
      split
      · show Option.map _ (s.signalChannel d).cancel = Option.map _ (Option.map _ _)
        rw [Option.map_map]
        rfl
      · rfl
  | loop =>
    simp only [step, closed_db, Option.map_map]
    rfl
  | execute =>
    simp only [step, closed_db, Option.map_map]
    rfl
  | executeThrows =>
    simp only [step, closed_db, Option.map_map]
    rfl

end MydakServer.Server
