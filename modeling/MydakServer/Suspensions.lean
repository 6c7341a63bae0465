import MydakServer.Stranded
import MydakServer.Termination

/-! What each suspended coroutine waits for, and on which channel. -/
namespace MydakServer.Server
open Rendezvous
variable {I : Tables → Prop}

/-- A socket coroutine that waits for a signal waits on its own channel. -/
def Parked (s : Server) : Prop := ∀ c, s.socket c = .asyncReceive →
  s.signal (.socket c) = .waiting → (s.signalChannel c).receivers = [.socket c]

/-- While its client is in a slot, a socket coroutine writes its own queue, and waits for a signal
only when the queue is empty. -/
structure Writes (s : Server) : Prop where
  own : ∀ c e m, s.registered c → s.socket c = .writing (Client.new e).data m → e = c
  drained : ∀ c, s.registered c → s.socket c = .asyncReceive →
    s.signal (.socket c) = .waiting → s.messages c = []

/-- A login has a socket coroutine. -/
def Born (s : Server) : Prop := ∀ c, ¬ s.Unserved c → s.socket c ≠ .unborn

/-- A coroutine that waits in `add_message_to_queue` waits on a channel. -/
def Suspended (s : Server) : Prop :=
  ∀ t, s.calling t → s.signal t = .waiting → ∃ c, t ∈ s.senders c

/-- `send_delayed_messages` that deletes waits for its `DELETE`. -/
def Deleting (s : Server) : Prop := ∀ c, s.delayed c = .deleting → s.db.place (.delayed c) ≠ none

theorem Parked.of_eq {s t : Server} (h : Parked s) (hch : t.signalChannel = s.signalChannel)
    (hsig : t.signal = s.signal) (hso : t.socket = s.socket) : Parked t := by
  intro c
  rw [hch, hsig, hso]
  exact h c

theorem Parked.setSocket {s : Server} (h : Parked s) (c : ConnId) {state : SocketState}
    (hstate : state ≠ .asyncReceive) : Parked (s.setSocket c state) := by
  intro d hd hsig
  by_cases hdc : d = c
  · subst hdc
    exact absurd (by simpa [Server.setSocket] using hd) hstate
  · exact h d (by simpa [Server.setSocket, Function.update_of_ne hdc] using hd) hsig

/-- A signal wakes the socket coroutine that it finds waiting. -/
theorem Parked.asyncSend {s : Server} (h : Parked s) (hh : Heard s) (d : ConnId) {t : Task}
    (ht : ∀ e, t ≠ .socket e) : Parked (s.asyncSend d t) ∧
      ((s.asyncSend d t).socket d = .asyncReceive →
        (s.asyncSend d t).signal (.socket d) ≠ .waiting) := by
  have hne : ∀ c, Task.socket c ≠ t := fun c => (ht c).symm
  obtain ⟨channel, ⟨hr, -, -, he⟩ | ⟨r, hr, -, he⟩⟩ := s.asyncSend_cases d t
  · have hd : s.socket d = .asyncReceive → s.signal (.socket d) ≠ .waiting := by
      intro hso hsig
      simp [h d hso hsig] at hr
    rw [he]
    refine ⟨fun c hc hsig => ?_, fun hso => ?_⟩
    · simp only [Function.update_of_ne (hne c)] at hsig
      by_cases hcd : c = d
      · subst hcd
        exact absurd hsig (hd hc)
      · simpa [Function.update_of_ne hcd] using h c hc hsig
    · simpa [Function.update_of_ne (hne d)] using hd hso
  · obtain hnil | ⟨hone, -⟩ := hh.receivers d
    · simp [hnil] at hr
    obtain ⟨rfl, -⟩ := List.cons.inj (hone.symm.trans hr)
    rw [he]
    refine ⟨fun c hc hsig => ?_, fun _ => by simp [Function.update_of_ne (hne d)]⟩
    simp only [Function.update_of_ne (hne c)] at hsig
    by_cases hcd : c = d
    · subst hcd
      simp at hsig
    · have hsd : Task.socket c ≠ .socket d := by simpa using hcd
      rw [Function.update_of_ne hsd] at hsig
      simpa [Function.update_of_ne hcd] using h c hc hsig

theorem Parked.socketCoroutine {s : Server} (h : Parked s) {c : ConnId}
    (hsend : ∀ t ∈ (s.signalChannel c).senders, ∀ d, t ≠ .socket d)
    (hrecv : (s.signalChannel c).receivers = []) : Parked (s.socketCoroutine c) := by
  by_cases hend : s.start c = .ended
  · rw [Server.socketCoroutine, if_pos hend]
    exact h.setSocket c (by simp)
  have hother : ∀ d, d ≠ c → Task.socket d ≠ .socket c := by simp
  obtain ⟨channel, ⟨-, -, hr, he⟩ | ⟨t, ht, -, he⟩⟩ := socketCoroutine_cases hend
  · rw [he]
    intro d hd hsig
    by_cases hdc : d = c
    · subst hdc
      simp [hr, hrecv]
    · simp only [Function.update_of_ne hdc, Function.update_of_ne (hother d hdc)] at hd hsig ⊢
      exact h d hd hsig
  · have hne : ∀ d, Task.socket d ≠ t := fun d => (hsend t (ht ▸ List.mem_cons_self) d).symm
    rw [he]
    intro d hd hsig
    by_cases hdc : d = c
    · subst hdc
      simp at hsig
    · simp only [Function.update_of_ne hdc, Function.update_of_ne (hother d hdc),
        Function.update_of_ne (hne d)] at hd hsig ⊢
      exact h d hd hsig

/-- A destroyed channel aborts the coroutine that waits to receive on it. -/
theorem Parked.cancel {s : Server} (h : Parked s) {c : ConnId} {t : Task}
    {channel : Channel Task} (ht : (s.signalChannel c).cancel = some (t, channel)) :
    Parked ((s.setChannel c channel).setSignal t .aborted) := by
  have hc : s.socket c = .asyncReceive → s.signal (.socket c) = .waiting → t = .socket c := by
    intro hso hsig
    have hr := h c hso hsig
    obtain ⟨hs, -⟩ | ⟨-, -, hr'⟩ := Channel.cancel_cases ht
    · have := (s.signalChannel c).exclusive
      simp [hs, hr] at this
    · exact (List.cons.inj (hr'.symm.trans hr)).1
  intro d hd hsig
  have hdt : Task.socket d ≠ t := by
    intro heq
    subst heq
    simp [setSignal] at hsig
  have hsig' : s.signal (.socket d) = .waiting := by
    simpa [setSignal, setChannel, Function.update_of_ne hdt] using hsig
  have hdc : d ≠ c := by
    intro heq
    subst heq
    exact hdt (hc hd hsig').symm
  simpa [setSignal, setChannel, Function.update_of_ne hdc] using h d hd hsig'

theorem Parked.move {s t : Server} {a : Action} (h : Parked s) (hs : Settled s) (hh : Heard s)
    (hm : Move I s a t) : Parked t := by
  have hpush : ∀ d m, Heard (s.push d m) := fun d m =>
    hh.registry rfl rfl rfl fun _ hp hr => ⟨hp, hr⟩
  cases hm with
  | grant _ c key g v id state hl =>
    have hnil : (s.signalChannel c).receivers = [] :=
      hh.receivers_nil (.inl (by simp [socket_of_logs hs.steady.sound hs.steady.aside hl]))
    have h₁ : Parked ((s.setKey c key).emplaced c v { g with dbIndex := id }) := h.of_eq rfl rfl rfl
    exact (h₁.socketCoroutine (hh.senders c) hnil).of_eq rfl rfl rfl
  | relay c bytes lookup size recipient e d =>
    have h₁ : Parked (s.push d (s.frame c size recipient bytes).message) := h.of_eq rfl rfl rfl
    exact (h₁.asyncSend (hpush d _) d (by simp)).1
  | hand c d row rest sent =>
    have h₁ : Parked (s.push d row.data) := h.of_eq rfl rfl rfl
    exact (h₁.asyncSend (hpush d _) d (t := .delayed c) (by simp)).1.of_eq rfl rfl rfl
  | park c hc hsig =>
    exact h.socketCoroutine (hh.senders c) (hh.receivers_nil (.inr (by simp [hsig])))
  | write c => exact h.setSocket c (by simp)
  | wrote c socket q channel m front rest hc =>
    have h₁ : Parked (s.popped socket q m rest) := h.of_eq rfl rfl rfl
    obtain he | ⟨m', he⟩ := (s.popped socket q m rest).writeMessages_cases c
      ⟨some socket, some q, channel⟩ q
    · rw [he]
      exact h₁.socketCoroutine (hh.senders c) (hh.receivers_nil (.inl (by simp [hc])))
    · rw [he]
      exact h₁.setSocket c (by simp)
  | wroteNone c | tear c | terminate c => exact h.setSocket c (by simp)
  | cancel c t channel hun ht => exact h.cancel ht
  | _ => exact h.of_eq rfl rfl rfl

/-- The client of a connection is in the slot that the connection was granted. -/
theorem Settled.slot_of_registered {s : Server} (h : Settled s) {c : ConnId}
    (hc : s.registered c) : ∃ generation,
      s.clientsSlotVector.slotAt (s.connection c).indices.index =
        some ⟨some (.new c), generation⟩ := by
  obtain ⟨i, generation, hi⟩ := registered_iff.mp hc
  obtain ⟨g, hg, -, rfl, -⟩ := h.granted hi
  have hindices : (s.connection c).indices = (s.answer c).getD {} :=
    h.steady.sound.wellFormed.indices c
  refine ⟨generation, ?_⟩
  rw [hindices, hg]
  exact hi

/-- Sessions keep what they wait for and what they write, but for those that leave their slot. -/
theorem Writes.of {s t : Server} (h : Writes s) (ht : ∀ c, t.registered c →
    (t.socket c ≠ .asyncReceive ∧ ∀ data m, t.socket c ≠ .writing data m) ∨ s.registered c ∧
      t.socket c = s.socket c ∧
      (t.signal (.socket c) = .waiting → s.signal (.socket c) = .waiting ∧
        (s.messages c = [] → t.messages c = []))) : Writes t := by
  constructor
  · intro c e m hc hw
    obtain ⟨-, hs⟩ | ⟨hc', hs, -⟩ := ht c hc
    · exact absurd hw (hs _ m)
    · exact h.own c e m hc' (hs ▸ hw)
  · intro c hc hso hsig
    obtain ⟨hs, -⟩ | ⟨hc', hs, hw⟩ := ht c hc
    · exact absurd hso hs
    · obtain ⟨hsig', hm⟩ := hw hsig
      exact hm (h.drained c hc' (hs ▸ hso) hsig')

theorem Writes.of_eq {s t : Server} (h : Writes s) (hreg : ∀ c, t.registered c → s.registered c)
    (hso : t.socket = s.socket) (hsig : t.signal = s.signal) (hm : t.messages = s.messages) :
    Writes t := by
  refine h.of fun c hc => .inr ⟨hreg c hc, by rw [hso], fun hw => ⟨by rw [← hsig]; exact hw, ?_⟩⟩
  rw [hm]
  exact id

/-- The socket coroutine of a connection goes over to another state. -/
theorem Writes.setSocket {s : Server} (h : Writes s) (c : ConnId) {state : SocketState}
    (hasync : state ≠ .asyncReceive)
    (hstate : ∀ e m, s.registered c → state = .writing (Client.new e).data m → e = c) :
    Writes (s.setSocket c state) := by
  constructor
  · intro d e m hd hw
    by_cases hdc : d = c
    · subst hdc
      exact hstate e m hd (by simpa [Server.setSocket] using hw)
    · exact h.own d e m hd (by simpa [Server.setSocket, Function.update_of_ne hdc] using hw)
  · intro d hd hso hsig
    by_cases hdc : d = c
    · subst hdc
      exact absurd (by simpa [Server.setSocket] using hso) hasync
    · exact h.drained d hd (by simpa [Server.setSocket, Function.update_of_ne hdc] using hso) hsig

/-- The socket coroutine waits for a signal when its queue is empty. -/
theorem Writes.socketCoroutine {s : Server} (h : Writes s) {c : ConnId}
    (hsend : ∀ t ∈ (s.signalChannel c).senders, ∀ d, t ≠ .socket d)
    (hm : s.registered c → s.messages c = []) : Writes (s.socketCoroutine c) := by
  by_cases hend : s.start c = .ended
  · rw [Server.socketCoroutine, if_pos hend]
    exact h.setSocket c (by simp) (by simp)
  have hother : ∀ d, d ≠ c → Task.socket d ≠ .socket c := by simp
  obtain ⟨channel, ⟨-, -, -, he⟩ | ⟨t, ht, -, he⟩⟩ := socketCoroutine_cases hend
  · rw [he]
    constructor
    · intro d e m hd hw
      by_cases hdc : d = c
      · subst hdc
        simp at hw
      · exact h.own d e m hd (by simpa [Function.update_of_ne hdc] using hw)
    · intro d hd hso hsig
      by_cases hdc : d = c
      · subst hdc
        exact hm hd
      · simp only [Function.update_of_ne hdc, Function.update_of_ne (hother d hdc)] at hso hsig
        exact h.drained d hd hso hsig
  · have hne : ∀ d, Task.socket d ≠ t := fun d => (hsend t (ht ▸ List.mem_cons_self) d).symm
    rw [he]
    constructor
    · intro d e m hd hw
      by_cases hdc : d = c
      · subst hdc
        simp at hw
      · exact h.own d e m hd (by simpa [Function.update_of_ne hdc] using hw)
    · intro d hd hso hsig
      by_cases hdc : d = c
      · subst hdc
        exact hm hd
      · simp only [Function.update_of_ne hdc, Function.update_of_ne (hother d hdc),
          Function.update_of_ne (hne d)] at hso hsig
        exact h.drained d hd hso hsig

/-- A message goes into the queue of a session together with a signal. -/
theorem Writes.push {s : Server} (h : Writes s) (hp : Parked s) (hh : Heard s) (d : ConnId)
    (m : Message) {t : Task} (ht : ∀ e, t ≠ .socket e) :
    Writes ((s.push d m).asyncSend d t) := by
  have hh' : Heard (s.push d m) := hh.registry rfl rfl rfl fun _ hp hr => ⟨hp, hr⟩
  have hp' : Parked (s.push d m) := hp.of_eq rfl rfl rfl
  have hwakes := (hp'.asyncSend hh' d ht).2
  have hso : ((s.push d m).asyncSend d t).socket = s.socket := (s.push d m).asyncSend_socket d t
  have hreg : ∀ c, ((s.push d m).asyncSend d t).registered c = s.registered c := by
    obtain ⟨channel, signal, he⟩ := (s.push d m).asyncSend_eq d t
    rw [he]
    exact fun _ => rfl
  have hm : ((s.push d m).asyncSend d t).messages =
      Function.update s.messages d (s.messages d ++ [m]) :=
    ((s.push d m).asyncSend_stays d t).messages
  constructor
  · intro c e x hc hw
    rw [hreg] at hc
    rw [hso] at hw
    exact h.own c e x hc hw
  · intro c hc hc' hsig
    by_cases hcd : c = d
    · subst hcd
      exact absurd hsig (hwakes hc')
    · rw [hreg] at hc
      rw [hso] at hc'
      rw [hm, Function.update_of_ne hcd]
      refine h.drained c hc hc' ?_
      -- only the signals of the sender and of the socket coroutine of `d` change
      have hct : Task.socket c ≠ t := (ht c).symm
      have hcd' : Task.socket c ≠ .socket d := by simpa using hcd
      obtain ⟨channel, ⟨-, -, -, he⟩ | ⟨r, hr, -, he⟩⟩ := (s.push d m).asyncSend_cases d t
      · rw [he] at hsig
        simpa [Server.push, Function.update_of_ne hct] using hsig
      · obtain hnil | ⟨hone, -⟩ := hh'.receivers d
        · simp [hnil] at hr
        obtain ⟨rfl, -⟩ := List.cons.inj (hone.symm.trans hr)
        rw [he] at hsig
        simpa [Server.push, Function.update_of_ne hct, Function.update_of_ne hcd'] using hsig

theorem Writes.move {s t : Server} {a : Action} (h : Writes s) (hs : Settled s) (hp : Parked s)
    (hh : Heard s) (hm : Move I s a t) (hpark : ∀ c, a = .resume (.socket c) → s.registered c →
      t.socket c = .asyncReceive → s.messages c = []) : Writes t := by
  cases hm with
  | grant _ c key g v id state hl hv =>
    have hnone := answer_of_logs hs.steady.sound hl
    have hstart : (s.setKey c key).start c ≠ .ended := (phase_of_logs hl).2
    rw [granted_comm hstart]
    have h₁ : Writes (((s.setKey c key).emplaced c v { g with dbIndex := id }).answered c
        { g with dbIndex := id }) := by
      refine h.of fun d hd => ?_
      by_cases hdc : d = c
      · subst hdc
        refine .inl ?_
        show s.socket d ≠ .asyncReceive ∧ ∀ data m, s.socket d ≠ .writing data m
        simp [socket_of_logs hs.steady.sound hs.steady.aside hl]
      · exact .inr ⟨registered_of_emplaced (s := s) { g with dbIndex := id } hv hdc hd, rfl,
          fun hw => ⟨hw, fun hnil => hnil⟩⟩
    have h₂ := h₁.socketCoroutine (c := c) (hh.senders c) fun _ => (hs.reached.queues c hnone).1
    exact h₂.of_eq (fun _ hd => hd) rfl rfl rfl
  | fail c bytes =>
    exact h.of_eq (fun d hd => registered_of_endConnection (s := s.setKey c (partialKey bytes)) hd)
      rfl rfl rfl
  | close _ c => exact h.of_eq (fun d hd => registered_of_endConnection hd) rfl rfl rfl
  | relay c bytes lookup size recipient e d => exact h.push hp hh d _ (by simp)
  | hand c d row rest sent =>
    exact (h.push hp hh d row.data (t := .delayed c) (by simp)).of_eq (fun _ hd => hd) rfl rfl rfl
  | park c hc hsig =>
    by_cases hend : s.start c = .ended
    · rw [Server.socketCoroutine, if_pos hend]
      exact h.setSocket c (by simp) (by simp)
    refine h.socketCoroutine (hh.senders c) fun hreg => hpark c rfl hreg ?_
    obtain ⟨channel, ⟨-, -, -, he⟩ | ⟨t, -, -, he⟩⟩ := socketCoroutine_cases hend <;> simp [he]
  | write c e generation m rest hc hsig he =>
    refine h.setSocket c (by simp) fun f m' hreg hw => ?_
    obtain ⟨generation', hslot⟩ := hs.slot_of_registered hreg
    rw [he] at hslot
    cases hw
    exact Client.new_inj (Option.some.inj (congrArg Slot.object (Option.some.inj hslot)))
  | wrote c socket q channel m front rest hc hq =>
    obtain ⟨e, hdata⟩ := hs.clients c _ m hc
    cases hdata
    have h₁ : Writes (s.popped socket socket m rest) := by
      refine h.of fun d hd => .inr ⟨hd, rfl, fun hw => ⟨hw, fun hnil => ?_⟩⟩
      have hne : d ≠ socket := by
        intro heq
        subst heq
        simp [hq] at hnil
      simpa [popped, Function.update_of_ne hne] using hnil
    have hown : s.registered c → socket = c := fun hreg => h.own c socket m hreg hc
    unfold writeMessages
    split
    · rename_i hnil
      refine h₁.socketCoroutine (hh.senders c) fun hreg => ?_
      obtain rfl := hown hreg
      exact hnil
    · refine h₁.setSocket c (by simp) fun f m' hreg hw => ?_
      obtain rfl := hown hreg
      cases hw
      rfl
  | wroteNone c socket q channel m =>
    have h₁ : Writes (s.addWritten socket m) := h.of_eq (fun _ hd => hd) rfl rfl rfl
    exact h₁.setSocket c (by simp) (by simp)
  | tear c socket n q channel m =>
    have h₁ : Writes (s.addTorn socket (m.data.take n)) := h.of_eq (fun _ hd => hd) rfl rfl rfl
    exact h₁.setSocket c (by simp) (by simp)
  | terminate c => exact h.setSocket c (by simp) (by simp)
  | cancel c t channel hun ht =>
    refine h.of fun d hd => .inr ⟨hd, rfl, fun hw => ⟨?_, fun hnil => hnil⟩⟩
    by_cases hdt : Task.socket d = t
    · subst hdt
      simp [setSignal] at hw
    · simpa [setSignal, setChannel, Function.update_of_ne hdt] using hw
  | _ => exact h.of_eq (fun _ hd => hd) rfl rfl rfl

theorem Born.of {s t : Server} (h : Born s) (ht : ∀ c, ¬ t.Unserved c →
    t.socket c ≠ .unborn ∨ ¬ s.Unserved c ∧ t.socket c = s.socket c) : Born t := by
  intro c hc
  obtain hb | ⟨hc', heq⟩ := ht c hc
  · exact hb
  · rw [heq]
    exact h c hc'

theorem Born.update {s t : Server} (h : Born s) {c : ConnId} {state : SocketState}
    (ha : t.answer = s.answer) (hs : t.socket = Function.update s.socket c state)
    (hstate : state ≠ .unborn) : Born t := by
  refine h.of fun d hd => ?_
  by_cases hdc : d = c
  · subst hdc
    exact .inl (by simpa [hs] using hstate)
  · exact .inr ⟨by simpa only [Unserved, ha] using hd, by simp [hs, Function.update_of_ne hdc]⟩

theorem Born.socketCoroutine {s : Server} (h : Born s) (c : ConnId) :
    Born (s.socketCoroutine c) := by
  obtain ⟨channel, signal, state, he, hstate⟩ := s.socketCoroutine_eq c
  rw [he]
  refine h.update (c := c) rfl rfl ?_
  obtain ⟨-, rfl⟩ | ⟨-, rfl⟩ := hstate <;> simp

theorem Born.move {s t : Server} {a : Action} (h : Born s) (hm : Move I s a t) : Born t := by
  have hsame : ∀ {u : Server}, u.answer = s.answer → u.socket = s.socket → Born u := by
    intro u ha hs
    exact h.of fun c hc => .inr ⟨by simpa only [Unserved, ha] using hc, by rw [hs]⟩
  cases hm with
  | reject c key state =>
    refine h.of fun d hd => .inr ⟨fun hun => hd fun g hg => ?_, rfl⟩
    by_cases hdc : d = c
    · subst hdc
      simpa [answered, setStart, setDelayed, eq_comm] using hg
    · refine hun g ?_
      simpa [answered, setStart, setDelayed, setKey, Function.update_of_ne hdc] using hg
  | grant _ c key g v id state hl =>
    obtain ⟨channel, signal, socket, he, hso⟩ :=
      (s.setKey c key).granted_eq c v { g with dbIndex := id }
    rw [he]
    refine h.of fun d hd => ?_
    by_cases hdc : d = c
    · subst hdc
      exact .inl (by simp [setDelayed, hso (phase_of_logs hl).2])
    · refine .inr ⟨fun hun => hd fun g' hg' => hun g' ?_, ?_⟩
      · simpa [setDelayed, setKey, Function.update_of_ne hdc] using hg'
      · simp [setDelayed, setKey, Function.update_of_ne hdc]
  | relay c bytes lookup size recipient e d =>
    obtain ⟨channel, signal, he⟩ := (s.push d _).asyncSend_eq d (.start c)
    rw [he]
    exact hsame rfl rfl
  | hand c d row rest sent =>
    obtain ⟨channel, signal, he⟩ := (s.push d row.data).asyncSend_eq d (.delayed c)
    rw [he]
    exact hsame rfl rfl
  | park c => exact h.socketCoroutine c
  | write c => exact h.update (c := c) rfl rfl (by simp)
  | wrote c socket q channel m front rest =>
    have h₁ : Born (s.popped socket q m rest) := hsame rfl rfl
    obtain he | ⟨m', he⟩ := (s.popped socket q m rest).writeMessages_cases c
      ⟨some socket, some q, channel⟩ q
    · rw [he]
      exact h₁.socketCoroutine c
    · rw [he]
      exact h₁.update (c := c) rfl rfl (by simp)
  | wroteNone c | tear c | terminate c => exact h.update (c := c) rfl rfl (by simp)
  | _ => exact hsame rfl rfl

/-- Only a coroutine that has just put a message into a queue begins to wait in
`add_message_to_queue`. -/
theorem Settled.begins {s s' : Server} {a : Action} (h : Settled s) (hstep : s.step a = some s')
    {t : Task} (ht : s'.calling t) : s.calling t ∨ ∃ p, s.pushOf a = some p ∧ p.caller = t := by
  cases t with
  | start c =>
    have hc' : s'.start c = .addMessageToQueue := by simpa [Server.calling] using ht
    obtain ⟨hsame, -⟩ | ⟨d, state, hupdate, hd⟩ := step_start h.steady.sound hstep
    · exact .inl (by simpa [Server.calling, hsame] using hc')
    · by_cases hcd : c = d
      · subst hcd
        rw [hupdate, Function.update_self] at hc'
        subst hc'
        cases hd with
        | keyRead _ key _ _ hstate => simp at hstate
        | message _ bytes lookup size recipient _ hc =>
          refine .inr ?_
          cases step_cases hstep with
          | message _ _ _ size' recipient' _ _ hrelay =>
            obtain ⟨r, s₁, -, -, hs₁, rfl⟩ | ⟨e, d, generation, -, -, rfl⟩ :=
              relay_cases (s := s.addFrame (s.frame c size' recipient' bytes))
                h.steady.sound.wellFormed hrelay
            · have heq := congrFun hupdate c
              simp [setStart] at heq
            · cases hp : s.pushOf (.message c bytes lookup) with
              | some p =>
                obtain ⟨i, generation, -, ⟨_, _, _, _, _, _, heq, -, -, -, hcall⟩ |
                  ⟨_, _, heq, -⟩⟩ := pushOf_cases h.steady.sound.wellFormed hp
                · cases heq
                  exact ⟨p, rfl, by rw [hcall]⟩
                · cases heq
              | none =>
                cases step_queues h.steady.sound h.steady.linked hstep with
                | push _ p _ _ _ hp' => simp [hp] at hp'
                | same _ _ _ hm =>
                  have hmess := congrFun hm d
                  simp only [setStart, ((s.addFrame _).push d _).asyncSend_stays d _ |>.messages]
                    at hmess
                  simp [push, addFrame] at hmess
      · rw [hupdate, Function.update_of_ne hcd] at hc'
        exact .inl (by simpa [Server.calling] using hc')
  | delayed c =>
    by_cases ha : a = .resume (.delayed c)
    · subst ha
      cases resume_continues h.steady.sound.wellFormed h.steady.linked hstep with
      | hand row rest ids d db hdb hg hd =>
        refine .inr ⟨⟨.delayed c, d, row.data, some row.id⟩, ?_, rfl⟩
        simp [pushOf_delayed, hg, hd]
      | delete ids db _ hdb hids hdel =>
        obtain ⟨db', v, -, rfl⟩ := deleteSent_cases hdel
        cases v <;> simp [Server.calling, setDelayed] at ht
      | finish db => simp [Server.calling, setDelayed] at ht
    · obtain hsame | ⟨-, -, hs | hs⟩ := h.steady.delayed hstep ha
      · exact .inl (by simpa [Server.calling, hsame] using ht)
      · simp [Server.calling, hs] at ht
      · simp [Server.calling, hs] at ht
  | _ => cases ht

theorem Suspended.step {s s' : Server} {a : Action} (h : Suspended s) (hs : Settled s)
    (hh : Heard s) (hstep : s.step a = some s') : Suspended s' := by
  intro t ht hsig
  have hsocket := not_socket_of_calling ht
  have hold : (∀ p, s.pushOf a = some p → p.caller ≠ t) → s.signal t = .waiting →
      ∃ c, t ∈ s.senders c := by
    intro hp hw
    obtain hc | ⟨p, hp', hc⟩ := hs.begins hstep ht
    · exact h t hc hw
    · exact absurd hc (hp p hp')
  cases step_signals hs hh hstep with
  | wait p hp hsend hknows =>
    rw [hknows t hsocket] at hsig
    by_cases hpt : p.caller = t
    · refine ⟨p.login, ?_⟩
      simp [hsend, hpt]
    · rw [Function.update_of_ne (Ne.symm hpt)] at hsig
      obtain ⟨c, hc⟩ := hold (fun q hq heq => hpt (Option.some.inj (hp.symm.trans hq) ▸ heq)) hsig
      refine ⟨c, ?_⟩
      rw [hsend]
      by_cases hcp : c = p.login
      · subst hcp
        simp [hc]
      · rwa [Function.update_of_ne hcp]
  | meet p hp _ hsend hknows =>
    rw [hknows t hsocket] at hsig
    by_cases hpt : p.caller = t
    · simp [hpt] at hsig
    · rw [Function.update_of_ne (Ne.symm hpt)] at hsig
      rw [hsend]
      exact hold (fun q hq heq => hpt (Option.some.inj (hp.symm.trans hq) ▸ heq)) hsig
  | leave c u rest signal hp hc hsend hknows hsignal =>
    rw [hknows t hsocket] at hsig
    by_cases htu : t = u
    · subst htu
      rw [Function.update_self] at hsig
      obtain rfl | ⟨rfl, -⟩ := hsignal <;> cases hsig
    · rw [Function.update_of_ne htu] at hsig
      obtain ⟨d, hd⟩ := hold (by simp [hp]) hsig
      refine ⟨d, ?_⟩
      rw [hsend]
      by_cases hdc : d = c
      · subst hdc
        rw [hc] at hd
        simpa [htu] using hd
      · rwa [Function.update_of_ne hdc]
  | same hp hsend hknows =>
    rw [hknows t hsocket] at hsig
    rw [hsend]
    exact hold (by simp [hp]) hsig

/-- A client in a slot belongs to a connection that has not ended. -/
def Running (s : Server) : Prop := ∀ c, s.registered c → s.registry.phase c = .running

theorem Running.of {s t : Server} (h : Running s) (hreg : ∀ c, t.registered c → s.registered c)
    (hphase : ∀ c, t.registered c → t.registry.phase c = s.registry.phase c) : Running t := by
  intro c hc
  rw [hphase c hc]
  exact h c (hreg c hc)

/-- A connection that has a client in a slot takes it out when it ends. -/
theorem Settled.unregistered {s : Server} (h : Settled s) (c : ConnId) :
    (s.endConnection c).registered c = false := by
  by_contra hn
  have hreg : (s.endConnection c).registered c := by simpa using hn
  obtain ⟨i, generation, hi⟩ := registered_iff.mp hreg
  simp only [endConnection, removeClient, setStart, SlotVector.slotAt_pop] at hi
  split at hi
  · obtain ⟨slot, -, heq⟩ := Option.map_eq_some_iff.mp hi
    cases heq
  · rename_i hne
    obtain ⟨g, hg, -, rfl, -⟩ := h.granted hi
    have hindices : (s.connection c).indices = (s.answer c).getD {} :=
      h.steady.sound.wellFormed.indices c
    rw [hindices, hg] at hne
    exact hne rfl

theorem Settled.registered_answer {s : Server} (h : Settled s) {c : ConnId}
    (hc : s.registered c) : s.answer c ≠ none := by
  obtain ⟨i, generation, hi⟩ := registered_iff.mp hc
  obtain ⟨g, hg, -⟩ := h.granted hi
  simp [hg]

theorem Running.move {s t : Server} {a : Action} (h : Running s) (hs : Settled s)
    (hm : Move I s a t) : Running t := by
  have hread : ∀ {c d}, s.start c = .readKey → s.registered d → d ≠ c := by
    intro c d hc hd heq
    subst heq
    exact hs.registered_answer hd (hs.steady.sound.answer_none (.inr (.inl hc)))
  have hsame : ∀ {u : Server}, u.registry = s.registry → Running u := by
    intro u hr
    have hslots : u.clientsSlotVector = s.clientsSlotVector :=
      congrArg Registry.clientsSlotVector hr
    refine h.of (fun c hc => ?_) fun c _ => by rw [hr]
    simpa only [registered, hslots] using hc
  cases hm with
  | login c key hc =>
    refine h.of (fun _ hd => hd) fun d hd => ?_
    simp [setStart, setKey, registry, Function.update_of_ne (hread hc hd)]
  | reject c key state hc =>
    refine h.of (fun _ hd => hd) fun d hd => ?_
    simp [answered, setStart, setDelayed, setKey, registry, Function.update_of_ne (hread hc hd)]
  | grant _ c key g v id state hl hv =>
    obtain ⟨channel, signal, socket, he, -⟩ :=
      (s.setKey c key).granted_eq c v { g with dbIndex := id }
    rw [he]
    intro d hd
    by_cases hdc : d = c
    · subst hdc
      simp [setDelayed, registry, StartState.phase]
    · have hd' := h d (registered_of_emplaced (s := s) { g with dbIndex := id } hv hdc hd)
      simpa [setDelayed, setKey, registry, Function.update_of_ne hdc] using hd'
  | fail c bytes hc =>
    refine h.of (fun d hd =>
      registered_of_endConnection (s := s.setKey c (partialKey bytes)) hd) fun d hd => ?_
    have hdc := hread hc (registered_of_endConnection (s := s.setKey c (partialKey bytes)) hd)
    simp [endConnection, removeClient, setStart, setKey, registry, Function.update_of_ne hdc]
  | close _ c =>
    refine h.of (fun d hd => registered_of_endConnection hd) fun d hd => ?_
    have hdc : d ≠ c := by
      intro heq
      subst heq
      simp [hs.unregistered d] at hd
    simp [endConnection, removeClient, setStart, registry, Function.update_of_ne hdc]
  | relay c bytes lookup size recipient e d =>
    exact hsame (asyncSend_same (s.push d _) d _).registry
  | hand c d row => exact hsame (asyncSend_same (s.push d row.data) d _).registry
  | park c => exact hsame (s.socketCoroutine_same c).registry
  | wrote c socket q channel m front rest =>
    exact hsame (writeMessages_same (s.popped socket q m rest) c _ q).registry
  | _ => exact hsame rfl

theorem Deleting.step {tables : Tables} {s s' : Server} {a : Action} (h : Deleting s)
    (hl : Logged tables s) (hstep : s.step a = some s') : Deleting s' := by
  obtain ⟨-, hgoes⟩ := hl.step hstep
  intro c hc
  by_cases ha : a = .resume (.delayed c)
  · subst ha
    have hcont := resume_continues hl.settled.steady.sound.wellFormed hl.settled.steady.linked hstep
    cases hcont with
    | hand row rest ids d db => simp [setDelayed] at hc
    | delete ids db _ hdb hids hdel =>
      have hans := (hdb.adds hl.settled.steady.linked).1.answered
      obtain ⟨db', v, hd, rfl⟩ := deleteSent_cases hdel
      obtain ⟨-, ⟨-, rfl⟩ | ⟨-, hr⟩⟩ := Database.Answered.deleteDelayedMessages hans hd
      · simp [setDelayed] at hc
      · have hasked : db'.asked (.delayed c) ≠ none := by simp [hr.asked]
        show db'.place (.delayed c) ≠ none
        unfold Database.asked at hasked
        unfold Database.place
        split <;> simp_all
    | finish db => simp [setDelayed] at hc
  · obtain hsame | ⟨-, -, hs | hs⟩ := hl.settled.steady.delayed hstep ha
    · rw [hgoes.place]
      · exact h c (hsame ▸ hc)
      · intro hruns
        obtain ha' | ⟨hnone, -⟩ := hruns c rfl
        · exact ha ha'
        · simp [hl.settled.reached.begun c hnone, hc] at hsame
    · simp [hs] at hc
    · simp [hs] at hc

/-- What every run keeps of the coroutines that wait. -/
structure Composed (tables : Tables) (s : Server) : Prop where
  attentive : Attentive s
  logged : Logged tables s
  parked : Parked s
  writes : Writes s
  born : Born s
  suspended : Suspended s
  deleting : Deleting s
  running : Running s

theorem init_composed (native : Proto.Endian) (succeeds : StartStep → Bool) (tables : Tables) :
    Composed tables (init native succeeds tables) where
  attentive := init_attentive native succeeds tables
  logged := init_logged native succeeds tables
  parked := by
    intro c hc
    cases hc
  writes := by constructor <;> simp [init]
  born := by simp [Born, Unserved, init]
  suspended := by
    intro t ht
    cases t <;> simp [calling, init] at ht
  deleting := by
    intro c hc
    cases hc
  running := by simp [Running, registered, init]

/-- A socket coroutine of a session that goes back to waiting has found its queue empty. -/
theorem Settled.parks {s s' : Server} (h : Settled s) {c : ConnId}
    (hstep : s.step (.resume (.socket c)) = some s') (hreg : s.registered c)
    (hso : s'.socket c = .asyncReceive) : s.messages c = [] := by
  cases step_cases hstep with
  | resume _ _ hs =>
    cases hs with
    | signalled _ hc hsig =>
      obtain ⟨generation, hslot⟩ := h.slot_of_registered hreg
      by_contra hne
      obtain ⟨m, rest, hm⟩ := List.exists_cons_of_ne_nil hne
      simp [signalled, hslot, Client.new, writeMessages, hm, setSocket] at hso
    | socketAborted _ hc hsig => simp [setSocket] at hso

theorem Composed.step {tables : Tables} {s s' : Server} {a : Action} (h : Composed tables s)
    (hstep : s.step a = some s') : Composed tables s' := by
  have hs := h.attentive.settled
  have hh := h.attentive.heard
  obtain ⟨t, hm, ha⟩ := step_move hs.steady.sound hs.steady.linked hstep
  have hreg : ∀ c, s'.registered c = t.registered c := fun c => by
    simp only [registered, ha.clientsSlotVector]
  refine ⟨h.attentive.step hstep, (h.logged.step hstep).1,
    (h.parked.move hs hh hm).of_eq ha.signalChannel ha.signal ha.socket, ?_, ?_,
    h.suspended.step hs hh hstep, h.deleting.step h.logged hstep, ?_⟩
  · refine (h.writes.move hs h.parked hh hm fun c hact hc hso => ?_).of_eq
      (fun c hc => hreg c ▸ hc) ha.socket ha.signal ha.messages
    subst hact
    exact hs.parks hstep hc (by rw [ha.socket]; exact hso)
  · refine (h.born.move hm).of fun c hc => .inr ⟨?_, by rw [ha.socket]⟩
    simpa only [Unserved, ha.answer] using hc
  · refine (h.running.move hs hm).of (fun c hc => hreg c ▸ hc) fun c _ => ?_
    rw [ha.registry]

theorem run_composed {native : Proto.Endian} {succeeds : StartStep → Bool} {tables : Tables}
    {as : List Action} {s : Server} (hr : Lts.run step (init native succeeds tables) as = some s) :
    Composed tables s :=
  Lts.invariant_all (fun _ _ _ h hstep => h.step hstep) (init_composed native succeeds tables) hr

end MydakServer.Server
