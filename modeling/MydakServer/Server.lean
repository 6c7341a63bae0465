import MydakServer.Database
import MydakServer.SlotVector

/-! The server: connections, the registry of logged in clients, and the coroutines that
relay, store and deliver messages, interleaved at their suspension points. -/
namespace MydakServer
open Rendezvous

/-- Connections in the order in which they were accepted. A pointer to a connection's
socket, channel or message queue is the number of that connection. -/
abbrev ConnId := Nat

/-- The coroutines: `connection::start`, `socket_coroutine` and `send_delayed_messages` of
a connection, and the `n`-th `add_message_to_db_internal`. -/
inductive Task where
  | start (c : ConnId)
  | socket (c : ConnId)
  | delayed (c : ConnId)
  | store (n : Nat)
  deriving DecidableEq

/-- The operation on a signal channel a coroutine is in: it waits, it has met a partner,
or its channel was destroyed. -/
inductive Signal where
  | waiting
  | taken
  | aborted
  deriving DecidableEq

inductive StartState where
  | unborn
  | readKey
  | addClient
  | readGreetings
  | readMessage (size : Nat) (recipient : PublicKey)
  | addMessageToQueue
  | ended
  deriving DecidableEq

structure ClientData where
  socket : Option ConnId
  messages : Option ConnId
  signalChannel : Option ConnId
  deriving DecidableEq

structure Client where
  active : Bool
  data : ClientData
  deriving DecidableEq

/-- `client(socket, signal_channel)`, with a queue of its own. -/
def Client.new (c : ConnId) : Client := ⟨true, some c, some c, some c⟩

/-- `noChannel`: the loop has gone on with a reference to a destroyed channel. `noMessage`: it has
popped an empty queue. -/
inductive SocketState where
  | unborn
  | asyncReceive
  | writing (data : ClientData) (message : Message)
  | terminated
  | noChannel
  | noMessage
  deriving DecidableEq

/-- What the coroutine does next is undefined. -/
def SocketState.undefined : SocketState → Bool
  | .noChannel | .noMessage => true
  | _ => false

/-- Whether the coroutine's copy of `client_data` points to the channel of `c`. -/
def SocketState.holds : SocketState → ConnId → Bool
  | .writing data _, c => data.signalChannel = some c
  | _, _ => false

/-- `sentIndices` is `db_indices`. -/
inductive DelayedState where
  | unborn
  | fetching
  | sending (current : Row) (rest : List Row) (sentIndices : List Nat)
  | deleting
  | finished
  deriving DecidableEq

inductive SendCode where
  | noClient | expiredClient | badSignal | success | exception
  deriving DecidableEq

/-- How far a call of `add_message_to_queue` has come when it leaves the thread. -/
inductive SendResult where
  | code (c : SendCode)
  | suspended
  deriving DecidableEq

structure Connection where
  indices : ClientIndex := {}
  publicKey : PublicKey := .replicate 32 0
  deriving DecidableEq

/-- A message `start` has read: its sender, and the id of the recipient's row at that time. -/
structure Frame where
  sender : ConnId
  message : Message
  userId : Option Nat
  deriving DecidableEq

/-- A slot that `remove_client` has cleared, as it was before. -/
structure Clear where
  connection : ConnId
  index : Nat
  slot : Slot Client
  deriving DecidableEq

/-- The last five fields record what has happened; no function of the server reads them. `written`
has the messages of a socket in the order in which their writes complete, and `torn` what its
failed writes have transferred. -/
structure Server where
  native : Proto.Endian
  db : Database Task
  clientsSlotVector : SlotVector Client := .empty
  clientIndices : PublicKey → Option ClientIndex := fun _ => none
  accepted : Nat := 0
  stores : Nat := 0
  connection : ConnId → Connection := fun _ => {}
  signalChannel : ConnId → Channel Task := fun _ => {}
  messages : ConnId → List Message := fun _ => []
  start : ConnId → StartState := fun _ => .unborn
  socket : ConnId → SocketState := fun _ => .unborn
  delayed : ConnId → DelayedState := fun _ => .unborn
  signal : Task → Signal := fun _ => .waiting
  answer : ConnId → Option ClientIndex := fun _ => none
  written : ConnId → List Message := fun _ => []
  torn : ConnId → List UInt8 := fun _ => []
  frames : List Frame := []
  cleared : List Clear := []

namespace Server

def init (native : Proto.Endian) (succeeds : StartStep → Bool) (tables : Tables) : Server :=
  { native, db := .start succeeds tables }

def setStart (s : Server) (c : ConnId) (state : StartState) : Server :=
  { s with start := Function.update s.start c state }

def setSocket (s : Server) (c : ConnId) (state : SocketState) : Server :=
  { s with socket := Function.update s.socket c state }

def setDelayed (s : Server) (c : ConnId) (state : DelayedState) : Server :=
  { s with delayed := Function.update s.delayed c state }

def setChannel (s : Server) (c : ConnId) (channel : Channel Task) : Server :=
  { s with signalChannel := Function.update s.signalChannel c channel }

def setSignal (s : Server) (t : Task) (signal : Signal) : Server :=
  { s with signal := Function.update s.signal t signal }

def setKey (s : Server) (c : ConnId) (key : PublicKey) : Server :=
  { s with connection :=
      Function.update s.connection c { s.connection c with publicKey := key } }

/-- `signal_channel->async_send` by the coroutine `t`. -/
def asyncSend (s : Server) (c : ConnId) (t : Task) : Server :=
  match (s.signalChannel c).asyncSend t with
  | (channel, none) => (s.setChannel c channel).setSignal t .waiting
  | (channel, some r) => ((s.setChannel c channel).setSignal r .taken).setSignal t .taken

/-- `client.add_message`. -/
def addMessage (s : Server) (client : Client) (message : Message) : Server :=
  match client.data.messages with
  | some q =>
    if client.active then
      { s with messages := Function.update s.messages q (s.messages q ++ [message]) }
    else s
  | none => s

/-- `add_message_to_queue` called by `t`; `none` where it is undefined. -/
def addMessageToQueue (s : Server) (recipientIndex generation : Nat) (message : Message)
    (t : Task) : Option (Server × SendResult) :=
  (s.clientsSlotVector.slotAt recipientIndex).bind fun slot =>
    match slot.object with
    | none => some (s, .code .noClient)
    | some client =>
      if slot.generation ≠ generation then some (s, .code .expiredClient)
      else client.data.signalChannel.map fun channel =>
        ((s.addMessage client message).asyncSend channel t, .suspended)

/-- `get_client_index`; `none` where it is undefined. -/
def getClientIndex (s : Server) (key : PublicKey) (lookup : Bool) : Option ClientIndex :=
  match s.clientIndices key with
  | none => some ⟨invalidIndex, invalidIndex, s.db.getDbIndex key lookup⟩
  | some e => (s.clientsSlotVector.slotAt e.index).map fun slot =>
      if slot.object.isNone then .empty else ⟨e.index, slot.generation, e.dbIndex⟩

/-- The missing row is logged, and the coroutine is spawned all the same. -/
def addMessageToDb (s : Server) (index : Nat) (message : Message) : Option Server :=
  (s.db.addMessage (.store s.stores) index message).map fun (db, _) =>
    { s with db, stores := s.stores + 1 }

def deleteSent (s : Server) (c : ConnId) (sentIndices : List Nat) : Option Server :=
  (s.db.deleteDelayedMessages (.delayed c) sentIndices).map fun (db, v) =>
    { s with db }.setDelayed c (if v.isSome then .finished else .deleting)

/-- The loop of `send_delayed_messages`, from its next message on. -/
def sendDelayed (s : Server) (c : ConnId) : List Row → List Nat → Option Server
  | [], sentIndices => s.deleteSent c sentIndices
  | row :: rest, sentIndices =>
    let indices := (s.connection c).indices
    (s.addMessageToQueue indices.index indices.generation row.data (.delayed c)).bind fun
      | (s, .suspended) => some (s.setDelayed c (.sending row rest sentIndices))
      | (s, .code .success) => s.sendDelayed c rest (sentIndices ++ [row.id])
      | (s, .code _) => s.deleteSent c sentIndices

/-- `send_delayed_messages` from its start. -/
def sendDelayedMessages (s : Server) (c : ConnId) : Option Server :=
  (s.db.getDelayedMessages (.delayed c) (s.connection c).indices.dbIndex).bind fun
    | (db, some (.messages rows)) => { s with db }.sendDelayed c rows []
    | (db, _) => some ({ s with db }.setDelayed c .fetching)

/-- The head of the loop of `socket_coroutine`. Its `signal_channel` is a reference to the
member of the connection. -/
def socketCoroutine (s : Server) (c : ConnId) : Server :=
  if s.start c = .ended then s.setSocket c .noChannel
  else
    match (s.signalChannel c).asyncReceive (.socket c) with
    | (channel, none) =>
      ((s.setChannel c channel).setSignal (.socket c) .waiting).setSocket c .asyncReceive
    | (channel, some t) =>
      (((s.setChannel c channel).setSignal t .taken).setSignal (.socket c) .taken).setSocket c
        .asyncReceive

/-- The head of its loop over the messages. -/
def writeMessages (s : Server) (c : ConnId) (data : ClientData) (q : ConnId) : Server :=
  match s.messages q with
  | [] => s.socketCoroutine c
  | message :: _ => s.setSocket c (.writing data message)

/-- `socket_coroutine` after a signal. -/
def signalled (s : Server) (c : ConnId) : Server :=
  match s.clientsSlotVector.slotAt (s.connection c).indices.index with
  | some ⟨some client, _⟩ =>
    match client.data.socket, client.data.messages with
    | some _, some q => s.writeMessages c client.data q
    | _, _ => s.socketCoroutine c
  | _ => s.socketCoroutine c

/-- `add_client` has answered: `start` goes on to its message loop. -/
def loggedIn (s : Server) (c : ConnId) (indices : ClientIndex) : Option Server :=
  ({ s with
    connection := Function.update s.connection c { s.connection c with indices }
    answer := Function.update s.answer c (some indices) }.setStart c
    .readGreetings).sendDelayedMessages c

/-- `add_client` after `db.add_user`. The iterator `add_client_to_db` took before it is
the end iterator, since `add_client` has just found no entry. -/
def userAdded (s : Server) (c : ConnId) (dbIndex : Nat) : Option Server :=
  let key := (s.connection c).publicKey
  let s := { s with
    clientIndices := Function.update s.clientIndices key
      (some { index := invalidIndex, generation := dbIndex }) }
  (s.clientsSlotVector.emplaceBack (.new c)).bind fun (indices, clientsSlotVector) =>
    let indices := { indices with dbIndex }
    let s := { s with
      clientsSlotVector
      clientIndices := Function.update s.clientIndices key (some indices) }
    (s.socketCoroutine c).loggedIn c indices

/-- `add_client`. -/
def addClient (s : Server) (c : ConnId) : Option Server :=
  let key := (s.connection c).publicKey
  if (s.clientIndices key).isSome then s.loggedIn c .empty
  else
    (s.db.addUser (.start c) key).bind fun
      | (db, some (.userId id)) => { s with db }.userAdded c id
      | (db, _) => some ({ s with db }.setStart c .addClient)

/-- `remove_client`, called for the connection `c`. -/
def removeClient (s : Server) (c : ConnId) (index : Nat) (key : PublicKey) : Server :=
  { s with
    clientsSlotVector := s.clientsSlotVector.pop index
    clientIndices := Function.update s.clientIndices key none
    cleared := s.cleared ++ (s.clientsSlotVector.slotAt index).toList.map (⟨c, index, ·⟩) }

/-- `end_connection`, after which `start` returns. -/
def endConnection (s : Server) (c : ConnId) : Server :=
  (s.removeClient c (s.connection c).indices.index (s.connection c).publicKey).setStart c .ended

/-- One try to hand the message over; `again` is the jump back. -/
def tryRelay (s : Server) (c : ConnId) (recipient : PublicKey) (message : Message)
    (lookup : Bool) (again : Option Server) : Option Server :=
  (s.getClientIndex recipient lookup).bind fun r =>
    if r.index = invalidIndex then
      (s.addMessageToDb r.dbIndex message).map (·.setStart c .readGreetings)
    else
      (s.addMessageToQueue r.index r.generation message (.start c)).bind fun
        | (s, .suspended) => some (s.setStart c .addMessageToQueue)
        | (_, .code .expiredClient) => again
        | (s, .code _) => some (s.setStart c .readGreetings)

/-- From the label on, with the number of times it may still jump back. -/
def relay (s : Server) (c : ConnId) (recipient : PublicKey) (message : Message)
    (lookup : Bool) : Nat → Option Server
  | 0 => s.tryRelay c recipient message lookup (some (s.setStart c .readGreetings))
  | tries + 1 =>
    s.tryRelay c recipient message lookup (s.relay c recipient message lookup tries)

def accept (s : Server) : Option Server :=
  some { s with
    start := Function.update s.start s.accepted .readKey
    accepted := s.accepted + 1 }

/-- What the buffer holds after these bytes. -/
def partialKey (bytes : List UInt8) : PublicKey := .ofFn fun i : Fin 32 => bytes.getD i 0

/-- The key arrives in part only, or `remote_endpoint` throws. -/
def keyFails (s : Server) (c : ConnId) (bytes : List UInt8) : Option Server :=
  if s.start c = .readKey ∧ bytes.length ≤ 32 then
    some ((s.setKey c (partialKey bytes)).endConnection c)
  else none

def keyRead (s : Server) (c : ConnId) (key : PublicKey) : Option Server :=
  if s.start c = .readKey then (s.setKey c key).addClient c else none

def greetings (s : Server) (c : ConnId) (g : Vector UInt8 37) : Option Server :=
  if s.start c = .readGreetings then
    match Proto.parseGreetings s.native g with
    | .error _ => some (s.endConnection c)
    | .ok (size, recipient) => some (s.setStart c (.readMessage size recipient))
  else none

/-- The frame read with these bytes. -/
def frame (s : Server) (c : ConnId) (size : Nat) (recipient : PublicKey) (bytes : List UInt8) :
    Frame :=
  { sender := c
    message := ⟨Proto.queuedMessage s.native size (s.connection c).publicKey bytes, recipient,
      some s.frames.length⟩
    userId := s.db.tables.idOf recipient }

def addFrame (s : Server) (f : Frame) : Server := { s with frames := s.frames ++ [f] }

def messageRead (s : Server) (c : ConnId) (bytes : List UInt8) (lookup : Bool) :
    Option Server :=
  match s.start c with
  | .readMessage size recipient =>
    if bytes.length = size then
      let f := s.frame c size recipient bytes
      (s.addFrame f).relay c recipient f.message lookup 2
    else none
  | _ => none

/-- A read in the message loop throws. -/
def readFails (s : Server) (c : ConnId) : Option Server :=
  match s.start c with
  | .readGreetings | .readMessage _ _ => some (s.endConnection c)
  | _ => none

def addWritten (s : Server) (socket : ConnId) (message : Message) : Server :=
  { s with written := Function.update s.written socket (s.written socket ++ [message]) }

/-- `async_write` has written the message. Popping an empty queue is undefined. -/
def messageWritten (s : Server) (c : ConnId) : Option Server :=
  match s.socket c with
  | .writing ⟨some socket, some q, channel⟩ message =>
    match s.messages q with
    | [] => some ((s.addWritten socket message).setSocket c .noMessage)
    | _ :: rest =>
      some ({ s.addWritten socket message with
        messages := Function.update s.messages q rest }.writeMessages c
          ⟨some socket, some q, channel⟩ q)
  | _ => none

def addTorn (s : Server) (socket : ConnId) (bytes : List UInt8) : Server :=
  { s with torn := Function.update s.torn socket (s.torn socket ++ bytes) }

/-- `async_write` fails when it has transferred the first `n` bytes of the message. -/
def writeFails (s : Server) (c : ConnId) (n : Nat) : Option Server :=
  match s.socket c with
  | .writing ⟨some socket, _, _⟩ message =>
    if n < message.data.length then
      some ((s.addTorn socket (message.data.take n)).setSocket c .terminated)
    else none
  | _ => none

/-- No pointer to the channel of `c` is left. -/
def unowned (s : Server) (c : ConnId) : Bool :=
  s.start c = .ended &&
    s.clientsSlotVector.clients.all (·.object.all (·.data.signalChannel ≠ some c)) &&
    (List.range s.accepted).all fun e => !(s.socket e).holds c

/-- The destroyed channel of `c` gives up an operation. -/
def cancel (s : Server) (c : ConnId) : Option Server :=
  if s.unowned c then
    (s.signalChannel c).cancel.map fun (t, channel) =>
      (s.setChannel c channel).setSignal t .aborted
  else none

/-- A posted resumption of a coroutine runs. -/
def resume (s : Server) : Task → Option Server
  | .start c =>
    match s.start c with
    | .addClient =>
      (s.db.resume (.start c)).bind fun
        | (db, some (.userId id)) => { s with db }.userAdded c id
        | (db, _) => some { s with db }
    | .addMessageToQueue =>
      if s.signal (.start c) = .waiting then none else some (s.setStart c .readGreetings)
    | _ => none
  | .socket c =>
    match s.socket c, s.signal (.socket c) with
    | .asyncReceive, .taken => some (s.signalled c)
    | .asyncReceive, .aborted => some (s.setSocket c .terminated)
    | _, _ => none
  | .delayed c =>
    match s.delayed c with
    | .fetching =>
      (s.db.resume (.delayed c)).bind fun
        | (db, some (.messages rows)) => { s with db }.sendDelayed c rows []
        | (db, _) => some { s with db }
    | .sending current rest sentIndices =>
      match s.signal (.delayed c) with
      | .waiting => none
      | .taken => s.sendDelayed c rest (sentIndices ++ [current.id])
      | .aborted => s.deleteSent c sentIndices
    | .deleting => (s.db.resume (.delayed c)).map fun (db, _) =>
        { s with db }.setDelayed c .finished
    | _ => none
  | .store n => (s.db.resume (.store n)).map fun (db, _) => { s with db }

inductive Action where
  | accept
  | keyFails (c : ConnId) (bytes : List UInt8)
  | keyRead (c : ConnId) (key : PublicKey)
  | greetings (c : ConnId) (g : Vector UInt8 37)
  | message (c : ConnId) (bytes : List UInt8) (lookup : Bool)
  | readFails (c : ConnId)
  | written (c : ConnId)
  | writeFails (c : ConnId) (n : Nat)
  | resume (t : Task)
  | cancel (c : ConnId)
  | loop
  | execute
  | executeThrows

def step (s : Server) : Action → Option Server
  | .accept => s.accept
  | .keyFails c bytes => s.keyFails c bytes
  | .keyRead c key => s.keyRead c key
  | .greetings c g => s.greetings c g
  | .message c bytes lookup => s.messageRead c bytes lookup
  | .readFails c => s.readFails c
  | .written c => s.messageWritten c
  | .writeFails c n => s.writeFails c n
  | .resume t => s.resume t
  | .cancel c => s.cancel c
  | .loop => s.db.runLoop.map fun db => { s with db }
  | .execute => s.db.execute.map fun db => { s with db }
  | .executeThrows => s.db.executeThrows.map fun db => { s with db }

end Server
end MydakServer
