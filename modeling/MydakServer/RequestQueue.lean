import Mathlib.Logic.Function.Basic
import MydakServer.Channel
import MydakServer.Run

/-! The request queue of the database component: callers push statements into a deque
and wait on a channel of their own, one loop executes them from the other end. -/
namespace MydakServer
open Rendezvous

/-- The operations `database::start` performs before it spawns the loop. -/
inductive StartStep where
  | connect | createDatabase | useDatabase | createUsers | createMessages
  deriving DecidableEq

/-- Who waits on a channel of the queue: the loop or a caller. -/
inductive Party (ι : Type*) where
  | loop
  | caller (i : ι)
  deriving DecidableEq

/-- One call of `add_request`. The id numbers the calls and stands for the address of the
deque element; the caller stands for the `results` object it passed by reference. -/
structure Ticket (ι σ : Type*) where
  id : Nat
  caller : ι
  request : σ

structure Entry (ι σ : Type*) where
  ticket : Ticket ι σ
  channel : Channel (Party ι) := {}

/-- Where `async_execute_queued_loop` is. The `ref` of the later points is the reference
`lock_channels.back()` gave it. -/
inductive LoopState where
  | unborn
  | spawned
  | waiting
  | pinged
  | executing (ref : Nat)
  | signalling (ref : Nat)
  | signalled (ref : Nat)
  | terminated
  | undefined
  deriving DecidableEq

inductive CallerState (σ : Type*) where
  | idle
  | suspended (ref : Nat) (request : σ)
  | resumed (ref : Nat) (request : σ)

/-- What has happened so far, each list oldest first. No function of the queue reads it. -/
structure History (ι σ ρ : Type*) where
  queued : List (Ticket ι σ) := []
  started : List (Ticket ι σ) := []
  completed : List (Ticket ι σ × ρ) := []
  popped : List (Ticket ι σ) := []

/-- `lockChannels` lists the deque from its back to its front. -/
structure RequestQueue (ι σ ρ : Type*) where
  lockChannels : List (Entry ι σ) := []
  requestAddChannel : Channel (Party ι) := {}
  loop : LoopState := .unborn
  caller : ι → CallerState σ := fun _ => .idle
  results : ι → Option ρ := fun _ => none
  history : History ι σ ρ := {}

namespace RequestQueue
variable {ι σ ρ : Type*} [DecidableEq ι]

/-- `database::start`: the first operation that throws ends it, and then no loop is
spawned. -/
def start (succeeds : StartStep → Bool) : RequestQueue ι σ ρ :=
  if [.connect, .createDatabase, .useDatabase, .createUsers, .createMessages].all succeeds then
    { loop := .spawned }
  else {}

def modifyEntry (q : RequestQueue ι σ ρ) (ref : Nat) (f : Entry ι σ → Entry ι σ) :
    RequestQueue ι σ ρ :=
  { q with lockChannels := q.lockChannels.map fun e => if e.ticket.id = ref then f e else e }

def entryAt (q : RequestQueue ι σ ρ) (ref : Nat) : Option (Entry ι σ) :=
  q.lockChannels.find? fun e => e.ticket.id = ref

/-- `add_request`: `emplace_front`, then a ping that is lost unless the loop is waiting. -/
def addRequest (q : RequestQueue ι σ ρ) (i : ι) (request : σ) : RequestQueue ι σ ρ × Nat :=
  let ticket : Ticket ι σ := ⟨q.history.queued.length, i, request⟩
  let entry : Entry ι σ := { ticket }
  let q := { q with
    lockChannels := q.lockChannels ++ [entry]
    history := { q.history with queued := q.history.queued ++ [ticket] } }
  match q.requestAddChannel.trySend with
  | some (_, c) => ({ q with requestAddChannel := c, loop := .pinged }, ticket.id)
  | none => (q, ticket.id)

/-- The caller's `async_receive` on the channel of its own entry. -/
def receiveOn (q : RequestQueue ι σ ρ) (ref : Nat) (i : ι) (request : σ) : RequestQueue ι σ ρ :=
  match q.entryAt ref with
  | none => q
  | some e =>
    match e.channel.asyncReceive (.caller i) with
    | (c, none) =>
      { q.modifyEntry ref ({ · with channel := c }) with
        caller := Function.update q.caller i (.suspended ref request) }
    | (c, some _) =>
      { q.modifyEntry ref ({ · with channel := c }) with
        loop := .signalled ref
        caller := Function.update q.caller i (.resumed ref request) }

/-- `async_execute_queued`, up to its suspension. Only a coroutine that is not suspended
in the queue already can call it. -/
def asyncExecuteQueued (q : RequestQueue ι σ ρ) (i : ι) (request : σ) :
    Option (RequestQueue ι σ ρ) :=
  match q.caller i with
  | .idle =>
    let (q, ref) := q.addRequest i request
    some (q.receiveOn ref i request)
  | _ => none

/-- The loop takes a reference to `lock_channels.back()` and starts its statement. -/
def executeBack (q : RequestQueue ι σ ρ) : RequestQueue ι σ ρ :=
  match q.lockChannels with
  | [] => { q with loop := .undefined }
  | e :: _ =>
    { q with
      loop := .executing e.ticket.id
      history := { q.history with started := q.history.started ++ [e.ticket] } }

/-- `wait_until_non_empty` and what the loop does after it, if it does not suspend there. -/
def waitUntilNonEmpty (q : RequestQueue ι σ ρ) : RequestQueue ι σ ρ :=
  if q.lockChannels.isEmpty then
    match q.requestAddChannel.asyncReceive .loop with
    | (c, none) => { q with requestAddChannel := c, loop := .waiting }
    | (c, some _) => { q with requestAddChannel := c, loop := .pinged }
  else q.executeBack

def popBack (q : RequestQueue ι σ ρ) : Option (RequestQueue ι σ ρ) :=
  match q.lockChannels with
  | [] => none
  | e :: rest =>
    some { q with
      lockChannels := rest
      history := { q.history with popped := q.history.popped ++ [e.ticket] } }

/-- A posted resumption of the loop runs. After a ping the deque is not tested again. -/
def runLoop (q : RequestQueue ι σ ρ) : Option (RequestQueue ι σ ρ) :=
  match q.loop with
  | .spawned => some q.waitUntilNonEmpty
  | .pinged => some q.executeBack
  | .signalled _ =>
    match q.popBack with
    | some q => some q.waitUntilNonEmpty
    | none => some { q with loop := .undefined }
  | _ => none

/-- The loop's `channel.async_send(ec)` on the entry it holds a reference to. -/
def sendOn (q : RequestQueue ι σ ρ) (ref : Nat) (e : Entry ι σ) : RequestQueue ι σ ρ :=
  match e.channel.asyncSend .loop with
  | (c, none) => { q.modifyEntry ref ({ · with channel := c }) with loop := .signalling ref }
  | (c, some _) =>
    { q.modifyEntry ref ({ · with channel := c }) with
      loop := .signalled ref
      caller := Function.update q.caller e.ticket.caller (.resumed ref e.ticket.request) }

/-- `async_execute` completes and has written `r` into the entry's results object. -/
def complete (q : RequestQueue ι σ ρ) (r : ρ) : Option (RequestQueue ι σ ρ) :=
  match q.loop with
  | .executing ref =>
    match q.entryAt ref with
    | none => some { q with loop := .undefined }
    | some e =>
      let q := { q with
        results := Function.update q.results e.ticket.caller (some r)
        history := { q.history with completed := q.history.completed ++ [(e.ticket, r)] } }
      some (q.sendOn ref e)
  | _ => none

/-- `async_execute` throws: the handler stands outside the loop. -/
def throws (q : RequestQueue ι σ ρ) : Option (RequestQueue ι σ ρ) :=
  match q.loop with
  | .executing _ => some { q with loop := .terminated }
  | _ => none

/-- The caller continues after its `async_execute_queued` and reads its results object. -/
def take (q : RequestQueue ι σ ρ) (i : ι) : Option (ρ × RequestQueue ι σ ρ) :=
  match q.caller i, q.results i with
  | .resumed _ _, some r => some (r, { q with caller := Function.update q.caller i .idle })
  | _, _ => none

inductive Action (ι σ ρ : Type*) where
  | call (i : ι) (request : σ)
  | resume (i : ι)
  | loop
  | complete (r : ρ)
  | throws

def step (q : RequestQueue ι σ ρ) : Action ι σ ρ → Option (RequestQueue ι σ ρ)
  | .call i request => q.asyncExecuteQueued i request
  | .resume i => (q.take i).map Prod.snd
  | .loop => q.runLoop
  | .complete r => q.complete r
  | .throws => q.throws

end RequestQueue
end MydakServer
