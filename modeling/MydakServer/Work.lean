import MydakServer.Atomicity
import MydakServer.Backlog
import MydakServer.Measure

/-! How much the server still has to do when its connections send nothing more: every step of
its coroutines takes something away, so that they come to rest. -/
namespace MydakServer
open Weights

namespace RequestQueue
variable {ι σ ρ : Type*}

/-- What the loop has before it at this point of a round. -/
def loopWork : LoopState → Nat
  | .spawned | .pinged => 4
  | .executing _ => 3
  | .signalling _ => 2
  | .signalled _ => 1
  | _ => 0

def work (q : RequestQueue ι σ ρ) : Nat := 5 * q.lockChannels.length + loopWork q.loop

theorem work_queuedBy [DecidableEq ι] (q : RequestQueue ι σ ρ) (i : ι) (request : σ) :
    (q.queuedBy i request).work ≤ q.work + 9 := by
  by_cases hw : q.loop = .waiting
  · simp [work, queuedBy, hw, loopWork]
    omega
  · simp [work, queuedBy, hw]
    omega

theorem Coherent.work_executeBack {q : RequestQueue ι σ ρ} (hq : q.lockChannels ≠ []) :
    q.executeBack.work = 5 * q.lockChannels.length + 3 := by
  obtain ⟨e, rest, hb⟩ := List.exists_cons_of_ne_nil hq
  simp [RequestQueue.executeBack, hb, work, loopWork]

theorem work_waitUntilNonEmpty (q : RequestQueue ι σ ρ) (hs : q.requestAddChannel.senders = []) :
    q.waitUntilNonEmpty.work ≤ 5 * q.lockChannels.length + 3 := by
  unfold waitUntilNonEmpty
  split
  · simp [Rendezvous.Channel.asyncReceive, hs, work, loopWork]
  · rename_i hq
    exact (Coherent.work_executeBack (by simpa using hq)).le

/-- A turn of the loop brings it nearer to its end. -/
theorem Coherent.work_runLoop {q q' : RequestQueue ι σ ρ} (h : Coherent q)
    (hq : q.runLoop = some q') : q'.work < q.work := by
  unfold RequestQueue.runLoop at hq
  cases hl : q.loop with
  | spawned =>
    simp only [hl, Option.some.injEq] at hq
    have hle := q.work_waitUntilNonEmpty h.senders
    simp only [← hq, work, hl, loopWork] at hle ⊢
    omega
  | pinged =>
    simp only [hl, Option.some.injEq] at hq
    rw [← hq, Coherent.work_executeBack (h.pinged hl)]
    simp [work, hl, loopWork]
  | signalled ref =>
    obtain ⟨e, rest, hb, -, -⟩ := h.popBack hl
    simp only [hl, RequestQueue.popBack, hb, Option.some.injEq] at hq
    have hle := work_waitUntilNonEmpty { q with
      lockChannels := rest
      loop := .signalled ref
      history := { q.history with popped := q.history.popped ++ [e.ticket] } } h.senders
    simp only [hq, work, hl, hb, loopWork, List.length_cons] at hle ⊢
    omega
  | _ => simp [hl] at hq

theorem Coherent.work_complete [DecidableEq ι] {q q' : RequestQueue ι σ ρ} (h : Coherent q)
    {r : ρ} (hq : q.complete r = some q') : q'.work < q.work := by
  obtain ⟨e, rest, hl, hb, rfl⟩ := h.complete_eq hq
  simp [work, RequestQueue.completedBy, hl, hb, loopWork]

theorem work_throws {q q' : RequestQueue ι σ ρ} (hq : q.throws = some q') : q'.work < q.work := by
  unfold throws at hq
  split at hq
  · rename_i ref hl
    cases hq
    simp [work, hl, loopWork]
  · cases hq

end RequestQueue

namespace Database
variable {ι : Type*} [DecidableEq ι] {I : Tables → Prop}

theorem work_request {d d' : Database ι} (h : d.queue.Coherent) {i : ι} {op : Operation}
    {stmt : Statement} {failed : Value} {v : Option Value}
    (hd : d.request i op stmt failed = some (d', v)) : d'.queue.work ≤ d.queue.work + 9 := by
  obtain ⟨-, rfl, -⟩ | ⟨q, -, hq, rfl, -⟩ := request_cases hd
  · omega
  · obtain ⟨-, rfl⟩ := h.asyncExecuteQueued hq
    exact d.queue.work_queuedBy i stmt

/-- An operation that goes on gives the queue no work, but for the second statement of
`add_user`. -/
theorem work_resume {d d' : Database ι} (h : d.queue.Coherent) {i : ι} {v : Option Value}
    (hd : d.resume i = some (d', v)) :
    d'.queue.work ≤ d.queue.work + if v.isSome then 0 else 9 := by
  obtain ⟨r, q, ht, ⟨rfl, rfl, -⟩ | ⟨key, -, -, hreq⟩⟩ := resume_cases hd
  · obtain ⟨-, -, rfl⟩ := RequestQueue.take_eq_some.mp ht
    exact Nat.le_refl _
  · have hq := h.take ht
    obtain ⟨-, -, rfl⟩ := RequestQueue.take_eq_some.mp ht
    obtain ⟨-, rfl, rfl⟩ | ⟨q, -, hq', rfl, rfl⟩ := request_cases hreq
    · exact Nat.le_refl _
    · obtain ⟨-, rfl⟩ := hq.asyncExecuteQueued hq'
      exact RequestQueue.work_queuedBy _ i _

end Database

namespace Server
open Rendezvous
variable {I : Tables → Prop}

/-- What `socket_coroutine` has before it up to its next wait for a signal. -/
def socketWork (s : Server) (c : ConnId) : Nat :=
  match s.socket c, s.signal (.socket c) with
  | .asyncReceive, .waiting => 2
  | .asyncReceive, .taken => 4
  | .asyncReceive, .aborted => 1
  | .writing _ _, _ => 3
  | _, _ => 0

/-- The work that the queue of the connection, the calls that wait on its channel and its socket
coroutine make. -/
def traffic (s : Server) (c : ConnId) : Nat :=
  s.socketWork c + 3 * (s.signalChannel c).senders.length + (s.messages c).length

/-- A login has its two statements before it, its first signal, and its stored messages. -/
def startWork (s : Server) (c : ConnId) : Nat :=
  match s.start c, s.db.asked (.start c) with
  | .addClient, some (.insertUser _) => 34 + 5 * s.db.stored.length
  | .addClient, _ => 24 + 5 * s.db.stored.length
  | .addMessageToQueue, _ => 1
  | _, _ => 0

/-- What `send_delayed_messages` has before it, apart from its backlog. -/
def stageWork : DelayedState → Nat
  | .fetching => 12
  | .sending _ _ _ => 11
  | .deleting => 1
  | _ => 0

def delayedWork (s : Server) (c : ConnId) : Nat :=
  stageWork (s.delayed c) + 5 * (s.backlog c).length

def storeWork (s : Server) (n : Nat) : Nat := if s.db.asked (.store n) = none then 0 else 1

/-- The steps that the server can still take at most, if its connections send nothing more. -/
def work (s : Server) : Nat :=
  s.db.queue.work + total s.accepted s.startWork + total s.accepted s.delayedWork +
    total s.accepted s.traffic + total s.stores s.storeWork

section Parts
variable {s s' : Server} {c : ConnId}

theorem traffic_of_eq (hso : s'.socket c = s.socket c)
    (hsig : s'.signal (.socket c) = s.signal (.socket c))
    (hch : s'.signalChannel c = s.signalChannel c)
    (hm : s'.messages c = s.messages c) : s'.traffic c = s.traffic c := by
  simp only [traffic, socketWork, hso, hsig, hch, hm]

theorem startWork_le (hc : s'.start c = s.start c)
    (ha : s'.db.asked (.start c) = s.db.asked (.start c))
    (hst : s'.db.stored.length ≤ s.db.stored.length) : s'.startWork c ≤ s.startWork c := by
  simp only [startWork, hc, ha]
  split <;> omega

theorem startWork_idle (hc : s.start c = .readGreetings) : s.startWork c = 0 := by
  simp [startWork, hc]

theorem startWork_addClient (s : Server) {c : ConnId} (hc : s.start c = .addClient) :
    24 + 5 * s.db.stored.length ≤ s.startWork c := by
  simp only [startWork, hc]
  cases s.db.asked (.start c) with
  | none => simp
  | some stmt => cases stmt <;> simp

theorem delayedWork_of_rests {x : Prop} (h : Rests x s s' c) :
    s'.delayedWork c = s.delayedWork c := by
  have hback : s'.backlog c = s.backlog c := by simp only [backlog, h.1, h.2.found]
  simp only [delayedWork, h.1, hback]

theorem storeWork_of_eq {n : Nat} (h : s'.db.asked (.store n) = s.db.asked (.store n)) :
    s'.storeWork n = s.storeWork n := by
  simp only [storeWork, h]

end Parts

/-- The socket coroutine of the connection goes over to another state. -/
theorem traffic_setSocket (s : Server) {c : ConnId} {n : Nat} (hc : c < n) (state : SocketState) :
    total n (s.setSocket c state).traffic + s.socketWork c =
      total n s.traffic + (s.setSocket c state).socketWork c := by
  have hle := total_change (f := s.traffic) (g := (s.setSocket c state).traffic) hc
    fun d hd => traffic_of_eq (by simp [setSocket, Function.update_of_ne hd]) rfl rfl rfl
  have hnew : (s.setSocket c state).traffic c = (s.setSocket c state).socketWork c +
      3 * (s.signalChannel c).senders.length + (s.messages c).length := rfl
  have hold : s.traffic c = s.socketWork c + 3 * (s.signalChannel c).senders.length +
      (s.messages c).length := rfl
  omega

theorem traffic_setSocket_lt {s : Server} {c : ConnId} {n : Nat} {state : SocketState} (hc : c < n)
    (hlt : (s.setSocket c state).socketWork c < s.socketWork c) :
    total n (s.setSocket c state).traffic < total n s.traffic := by
  have hle := s.traffic_setSocket hc state
  omega

/-- The socket coroutine goes on to wait, or takes the signal of a coroutine that waits. -/
theorem traffic_socketCoroutine {s : Server} {c : ConnId} {n : Nat}
    (h : ∀ t ∈ (s.signalChannel c).senders, ∀ d, t ≠ .socket d) (hc : c < n) :
    total n (s.socketCoroutine c).traffic + s.socketWork c ≤ total n s.traffic + 2 := by
  by_cases hend : s.start c = .ended
  · rw [socketCoroutine, if_pos hend, s.traffic_setSocket hc]
    simp [socketWork, setSocket]
  have hold : s.traffic c = s.socketWork c + 3 * (s.signalChannel c).senders.length +
      (s.messages c).length := rfl
  obtain ⟨channel, ⟨hs, hs', -, he⟩ | ⟨t, ht, -, he⟩⟩ := socketCoroutine_cases hend
  · have hnew : (s.socketCoroutine c).traffic c = 2 + (s.messages c).length := by
      simp [he, traffic, socketWork, hs']
    have hle := total_change (f := s.traffic) (g := (s.socketCoroutine c).traffic) hc fun d hd => by
      have hsd : Task.socket d ≠ .socket c := by simpa using hd
      rw [he]
      exact traffic_of_eq (by simp [Function.update_of_ne hd])
        (by simp [Function.update_of_ne hsd]) (by simp [Function.update_of_ne hd]) rfl
    simp only [hs, List.length_nil] at hold
    omega
  · have hnew : (s.socketCoroutine c).traffic c =
        4 + 3 * channel.senders.length + (s.messages c).length := by
      simp [he, traffic, socketWork]
    have hle := total_change (f := s.traffic) (g := (s.socketCoroutine c).traffic) hc fun d hd => by
      have hsd : Task.socket d ≠ .socket c := by simpa using hd
      have hst : Task.socket d ≠ t := (h t (ht ▸ List.mem_cons_self) d).symm
      rw [he]
      exact traffic_of_eq (by simp [Function.update_of_ne hd])
        (by simp [Function.update_of_ne hsd, Function.update_of_ne hst])
        (by simp [Function.update_of_ne hd]) rfl
    simp only [ht, List.length_cons] at hold
    omega

/-- A message and its signal make work for its login. -/
theorem Heard.traffic_push {s : Server} (h : Heard s) {d : ConnId} {n : Nat} (hd : d < n)
    (m : Message) {t : Task} (ht : ∀ e, t ≠ .socket e) :
    total n ((s.push d m).asyncSend d t).traffic ≤ total n s.traffic + 4 := by
  have hst : ∀ e, Task.socket e ≠ t := fun e => (ht e).symm
  have hold : s.traffic d = s.socketWork d + 3 * (s.signalChannel d).senders.length +
      (s.messages d).length := rfl
  obtain ⟨channel, ⟨-, hsend, -, he⟩ | ⟨r, hr, hsend, he⟩⟩ := (s.push d m).asyncSend_cases d t
  · have hnew : ((s.push d m).asyncSend d t).traffic d = s.socketWork d +
        3 * ((s.signalChannel d).senders.length + 1) + ((s.messages d).length + 1) := by
      rw [he]
      simp [traffic, socketWork, hsend, push, Function.update_of_ne (hst d)]
    have hle := total_change (f := s.traffic) (g := ((s.push d m).asyncSend d t).traffic) hd
      fun e hed => by
        rw [he]
        exact traffic_of_eq rfl (by simp [push, Function.update_of_ne (hst e)])
          (by simp [push, Function.update_of_ne hed]) (by simp [push, Function.update_of_ne hed])
    omega
  · -- only the socket coroutine of the login waits to receive there
    have hrecv : (s.signalChannel d).receivers = r :: channel.receivers := hr
    obtain hnil | ⟨hone, hso, hsig⟩ := h.receivers d
    · simp [hnil] at hrecv
    obtain ⟨rfl, -⟩ := List.cons.inj (hone.symm.trans hrecv)
    have hwork : s.socketWork d = 2 := by simp [socketWork, hso, hsig]
    have hnew : ((s.push d m).asyncSend d t).traffic d = 4 + ((s.messages d).length + 1) := by
      rw [he]
      simp [traffic, socketWork, hsend, hso, push, Function.update_of_ne (hst d)]
    have hle := total_change (f := s.traffic) (g := ((s.push d m).asyncSend d t).traffic) hd
      fun e hed => by
        have hsd : Task.socket e ≠ .socket d := by simpa using hed
        rw [he]
        exact traffic_of_eq rfl
          (by simp [push, Function.update_of_ne (hst e), Function.update_of_ne hsd])
          (by simp [push, Function.update_of_ne hed]) (by simp [push, Function.update_of_ne hed])
    omega

/-- A message has been written and is taken out of its queue. -/
theorem traffic_popped {s : Server} {q n : Nat} (hq : q < n) (socket : ConnId)
    (message : Message) {front : Message} {rest : List Message}
    (hm : s.messages q = front :: rest) :
    total n (s.popped socket q message rest).traffic + 1 = total n s.traffic := by
  have hle := total_change (f := s.traffic) (g := (s.popped socket q message rest).traffic) hq
    fun d hd => traffic_of_eq rfl rfl rfl (by simp [popped, Function.update_of_ne hd])
  have hnew : (s.popped socket q message rest).traffic q = s.socketWork q +
      3 * (s.signalChannel q).senders.length + rest.length := by
    simp [traffic, socketWork, popped]
  have hold : s.traffic q = s.socketWork q + 3 * (s.signalChannel q).senders.length +
      (rest.length + 1) := by
    simp [traffic, hm]
  omega

/-- A destroyed channel gives up an operation. -/
theorem Heard.traffic_cancel {s : Server} (h : Heard s) {c : ConnId} {n : Nat} (hc : c < n)
    {t : Task} {channel : Channel Task} (ht : (s.signalChannel c).cancel = some (t, channel)) :
    total n ((s.setChannel c channel).setSignal t .aborted).traffic < total n s.traffic := by
  have hold : s.traffic c = s.socketWork c + 3 * (s.signalChannel c).senders.length +
      (s.messages c).length := rfl
  obtain ⟨hs, -⟩ | ⟨hs, hs', hr⟩ := Channel.cancel_cases ht
  · have hst : ∀ d, Task.socket d ≠ t := fun d =>
      (h.senders c t (hs ▸ List.mem_cons_self) d).symm
    have hnew : ((s.setChannel c channel).setSignal t .aborted).traffic c = s.socketWork c +
        3 * channel.senders.length + (s.messages c).length := by
      simp [traffic, socketWork, setSignal, setChannel, Function.update_of_ne (hst c)]
    have hle := total_change (f := s.traffic)
      (g := ((s.setChannel c channel).setSignal t .aborted).traffic) hc fun d hd =>
        traffic_of_eq rfl (by simp [setSignal, setChannel, Function.update_of_ne (hst d)])
          (by simp [setSignal, setChannel, Function.update_of_ne hd]) rfl
    simp only [hs, List.length_cons] at hold
    omega
  · obtain hnil | ⟨hone, hso, hsig⟩ := h.receivers c
    · simp [hnil] at hr
    obtain ⟨rfl, -⟩ := List.cons.inj (hone.symm.trans hr)
    have hwork : s.socketWork c = 2 := by simp [socketWork, hso, hsig]
    have hnew : ((s.setChannel c channel).setSignal (.socket c) .aborted).traffic c =
        1 + (s.messages c).length := by
      simp [traffic, socketWork, setSignal, setChannel, hso, hs']
    have hle := total_change (f := s.traffic)
      (g := ((s.setChannel c channel).setSignal (.socket c) .aborted).traffic) hc fun d hd => by
        have hsd : Task.socket d ≠ .socket c := by simpa using hd
        exact traffic_of_eq rfl (by simp [setSignal, setChannel, Function.update_of_ne hsd])
          (by simp [setSignal, setChannel, Function.update_of_ne hd]) rfl
    omega

theorem writeMessages_cases (s : Server) (c : ConnId) (data : ClientData) (q : ConnId) :
    s.writeMessages c data q = s.socketCoroutine c ∨
      ∃ m, s.writeMessages c data q = s.setSocket c (.writing data m) := by
  unfold writeMessages
  split
  · exact .inl rfl
  · exact .inr ⟨_, rfl⟩

theorem signalled_cases (s : Server) (c : ConnId) : s.signalled c = s.socketCoroutine c ∨
    ∃ data m, s.signalled c = s.setSocket c (.writing data m) := by
  unfold signalled
  split
  · split
    · obtain h | ⟨m, h⟩ := s.writeMessages_cases c _ _
      · exact .inl h
      · exact .inr ⟨_, m, h⟩
    · exact .inl rfl
  · exact .inl rfl

theorem Settled.accepted_of_slot {s : Server} (h : Settled s) {i generation : Nat} {c : ConnId}
    (hc : s.clientsSlotVector.slotAt i = some ⟨some (.new c), generation⟩) : c < s.accepted := by
  obtain ⟨g, hg, -⟩ := h.granted hc
  exact h.steady.sound.accepted hg

/-- A step of a socket coroutine, or a destroyed channel, takes work away. -/
theorem Settled.traffic_lt {s s' : Server} {a : Action} (h : Settled s) (hh : Heard s)
    (hstep : s.step a = some s') (ha : (∃ c, a = .written c ∨ (∃ n, a = .writeFails c n) ∨
      a = .resume (.socket c) ∨ a = .cancel c)) :
    total s.accepted s'.traffic < total s.accepted s.traffic := by
  cases step_cases hstep with
  | written c socket q channel m front rest hc hq =>
    obtain ⟨e, hdata⟩ := h.clients c _ m hc
    cases hdata
    obtain ⟨g, hg⟩ := Option.ne_none_iff_exists'.mp (h.reached.writing c socket m hc)
    have hlt : c < s.accepted := h.steady.accepted_of_socket (by simp [hc])
    have hpop := traffic_popped (h.steady.sound.accepted hg) socket m hq
    have hwork : (s.popped socket socket m rest).socketWork c = 3 := by
      simp [socketWork, popped, hc]
    obtain he | ⟨m', he⟩ := (s.popped socket socket m rest).writeMessages_cases c
      (Client.new socket).data socket
    · have hle := traffic_socketCoroutine (s := s.popped socket socket m rest) (hh.senders c) hlt
      rw [show (s.popped socket socket m rest).writeMessages c ⟨some socket, some socket,
        some socket⟩ socket = _ from he]
      omega
    · have hle := (s.popped socket socket m rest).traffic_setSocket hlt
        (.writing (Client.new socket).data m')
      have hnew : ((s.popped socket socket m rest).setSocket c
          (.writing (Client.new socket).data m')).socketWork c = 3 := by
        simp [socketWork, setSocket]
      rw [show (s.popped socket socket m rest).writeMessages c ⟨some socket, some socket,
        some socket⟩ socket = _ from he]
      omega
  | writtenNone c socket q channel m hc =>
    exact traffic_setSocket_lt (s := s.addWritten socket m)
      (h.steady.accepted_of_socket (c := c) (by simp [hc]))
      (by simp [socketWork, setSocket, addWritten, hc])
  | writeFails c socket n q channel m hc =>
    exact traffic_setSocket_lt (s := s.addTorn socket (m.data.take n))
      (h.steady.accepted_of_socket (c := c) (by simp [hc]))
      (by simp [socketWork, setSocket, addTorn, hc])
  | resume t _ hs =>
    cases hs with
    | signalled c hc hsig =>
      have hlt : c < s.accepted := h.steady.accepted_of_socket (by simp [hc])
      have hwork : s.socketWork c = 4 := by simp [socketWork, hc, hsig]
      obtain he | ⟨data, m, he⟩ := s.signalled_cases c
      · have hle := traffic_socketCoroutine (hh.senders c) hlt
        rw [he]
        omega
      · rw [he]
        exact traffic_setSocket_lt hlt (by simp [socketWork, setSocket, hc, hsig])
    | socketAborted c hc hsig =>
      exact traffic_setSocket_lt (h.steady.accepted_of_socket (c := c) (by simp [hc]))
        (by simp [socketWork, setSocket, hc, hsig])
    | _ => simp at ha
  | cancel c t channel hun ht =>
    refine hh.traffic_cancel (h.steady.accepted fun hnone => ?_) ht
    rw [h.steady.aside.channel c hnone] at ht
    cases ht
  | _ => simp at ha

end Server
end MydakServer
