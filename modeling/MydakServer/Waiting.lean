import MydakServer.Custody
import MydakServer.Entries
import MydakServer.Streams

/-! Who waits on a signal channel: the socket coroutine it belongs to, or senders that count
on that coroutine. -/
namespace MydakServer.Server
open Rendezvous

/-- The client of the connection is in a slot. -/
def registered (s : Server) (c : ConnId) : Bool :=
  s.clientsSlotVector.clients.any (·.object = some (.new c))

/-- No coroutine waits to send on the channel of a registered session whose socket coroutine
has terminated. -/
def Attended (s : Server) : Prop := ∀ c, s.registered c → (s.signalChannel c).senders ≠ [] →
  s.socket c ≠ .terminated

/-- No write to a registered session fails while coroutines wait to send on its channel, and
`add_message_to_queue` finds no session whose socket coroutine has terminated. -/
def sparesSenders (s : Server) : Action → Bool
  | .writeFails c _ => !s.registered c || (s.signalChannel c).senders.isEmpty
  | a => (s.pushOf a).all fun p => s.socket p.login ≠ .terminated

/-- Only the socket coroutine of a connection waits to receive on its channel, and it waits
nowhere else; a channel is destroyed only when its connection has ended. -/
structure Heard (s : Server) : Prop where
  receivers : ∀ c, (s.signalChannel c).receivers = [] ∨
    (s.signalChannel c).receivers = [.socket c] ∧ s.socket c = .asyncReceive ∧
      s.signal (.socket c) = .waiting
  senders : ∀ c, ∀ t ∈ (s.signalChannel c).senders, ∀ d, t ≠ .socket d
  aborted : ∀ c, s.signal (.socket c) = .aborted →
    s.registry.phase c = .ended ∧ s.registered c = false

theorem registered_iff {s : Server} {c : ConnId} : s.registered c ↔
    ∃ i generation, s.clientsSlotVector.slotAt i = some ⟨some (.new c), generation⟩ := by
  simp only [registered, List.any_eq_true, decide_eq_true_eq, SlotVector.slotAt]
  constructor
  · rintro ⟨slot, hm, ho⟩
    obtain ⟨i, hi⟩ := List.mem_iff_getElem?.mp hm
    exact ⟨i, slot.generation, by rw [hi, ← ho]⟩
  · rintro ⟨i, generation, hi⟩
    exact ⟨_, List.mem_of_getElem? hi, rfl⟩

theorem init_heard (native : Proto.Endian) (succeeds : StartStep → Bool) (tables : Tables) :
    Heard (init native succeeds tables) := by
  constructor <;> simp [init]

/-- Channels, signals and sockets stay, and no client comes into a slot. -/
theorem Heard.registry {s t : Server} (h : Heard s) (hch : t.signalChannel = s.signalChannel)
    (hsig : t.signal = s.signal) (hso : t.socket = s.socket)
    (hend : ∀ c, s.registry.phase c = .ended → s.registered c = false →
      t.registry.phase c = .ended ∧ t.registered c = false) : Heard t := by
  constructor
  · simpa only [hch, hsig, hso] using h.receivers
  · simpa only [hch] using h.senders
  · intro c hc
    rw [hsig] at hc
    obtain ⟨hp, hr⟩ := h.aborted c hc
    exact hend c hp hr

theorem Heard.alike {s s' : Server} (h : Heard s) (ha : Alike s s') : Heard s' := by
  refine h.registry ha.signalChannel ha.signal ha.socket fun c hp hr => ?_
  rw [registered, ha.clientsSlotVector, ha.registry]
  exact ⟨hp, hr⟩

theorem Heard.asyncSend {s : Server} (h : Heard s) (d : ConnId) {t : Task}
    (ht : ∀ e, t ≠ .socket e) : Heard (s.asyncSend d t) := by
  have hne : ∀ c, Task.socket c ≠ t := fun c => (ht c).symm
  obtain ⟨channel, ⟨-, hsend, hrecv, he⟩ | ⟨r, hr, hsend, he⟩⟩ := s.asyncSend_cases d t
  · rw [he]
    constructor
    case receivers =>
      intro c
      by_cases hcd : c = d
      · subst hcd
        exact .inl (by simpa using hrecv)
      · simpa [Function.update_of_ne hcd, Function.update_of_ne (hne c)] using h.receivers c
    case senders =>
      intro c u hu
      by_cases hcd : c = d
      · subst hcd
        simp only [Function.update_self, hsend, List.mem_append, List.mem_singleton] at hu
        obtain hu | rfl := hu
        · exact h.senders c u hu
        · exact ht
      · exact h.senders c u (by simpa [Function.update_of_ne hcd] using hu)
    case aborted =>
      intro c hc
      exact h.aborted c (by simpa [Function.update_of_ne (hne c)] using hc)
  · have hd : r = .socket d ∧ channel.receivers = [] := by
      obtain hd | ⟨hd, -⟩ := h.receivers d
      · simp [hd] at hr
      · simpa [hd, eq_comm] using hr
    obtain ⟨rfl, hrecv⟩ := hd
    rw [he]
    constructor
    case receivers =>
      intro c
      by_cases hcd : c = d
      · subst hcd
        exact .inl (by simpa using hrecv)
      · have hcd' : Task.socket c ≠ .socket d := by simpa using hcd
        simpa [Function.update_of_ne hcd, Function.update_of_ne (hne c),
          Function.update_of_ne hcd'] using h.receivers c
    case senders =>
      intro c u hu
      by_cases hcd : c = d
      · subst hcd
        simp [hsend] at hu
      · exact h.senders c u (by simpa [Function.update_of_ne hcd] using hu)
    case aborted =>
      intro c hc
      by_cases hcd : c = d
      · subst hcd
        simp [Function.update_of_ne (hne c)] at hc
      · have hcd' : Task.socket c ≠ .socket d := by simpa using hcd
        exact h.aborted c
          (by simpa [Function.update_of_ne (hne c), Function.update_of_ne hcd'] using hc)

/-- The socket coroutine goes on to a state in which it does not wait for a signal. -/
theorem Heard.setSocket {s : Server} (h : Heard s) {c : ConnId}
    (hc : (s.signalChannel c).receivers = []) (state : SocketState) :
    Heard (s.setSocket c state) := by
  refine ⟨fun d => ?_, h.senders, h.aborted⟩
  by_cases hdc : d = c
  · subst hdc
    exact .inl hc
  · simpa [Server.setSocket, Function.update_of_ne hdc] using h.receivers d

theorem Heard.socketCoroutine {s : Server} (h : Heard s) {c : ConnId}
    (hc : (s.signalChannel c).receivers = []) : Heard (s.socketCoroutine c) := by
  by_cases hend : s.start c = .ended
  · rw [Server.socketCoroutine, if_pos hend]
    exact h.setSocket hc .noChannel
  have hother : ∀ d, d ≠ c → Task.socket d ≠ .socket c := by simp
  obtain ⟨channel, ⟨-, hsend, hrecv, he⟩ | ⟨t, ht, hrecv, he⟩⟩ := socketCoroutine_cases hend
  · rw [he]
    constructor
    case receivers =>
      intro d
      by_cases hdc : d = c
      · subst hdc
        exact .inr (by simp [hrecv, hc])
      · simpa [Function.update_of_ne hdc, Function.update_of_ne (hother d hdc)] using h.receivers d
    case senders =>
      intro d u hu
      by_cases hdc : d = c
      · subst hdc
        simp [hsend] at hu
      · exact h.senders d u (by simpa [Function.update_of_ne hdc] using hu)
    case aborted =>
      intro d hd
      by_cases hdc : d = c
      · subst hdc
        simp at hd
      · exact h.aborted d (by simpa [Function.update_of_ne (hother d hdc)] using hd)
  · have hne : ∀ d, Task.socket d ≠ t := fun d =>
      (h.senders c t (ht ▸ List.mem_cons_self) d).symm
    rw [he]
    constructor
    case receivers =>
      intro d
      by_cases hdc : d = c
      · subst hdc
        exact .inl (by simpa using hrecv)
      · simpa [Function.update_of_ne hdc, Function.update_of_ne (hother d hdc),
          Function.update_of_ne (hne d)] using h.receivers d
    case senders =>
      intro d u hu
      by_cases hdc : d = c
      · subst hdc
        exact h.senders d u (ht ▸ List.mem_cons_of_mem _ (by simpa using hu))
      · exact h.senders d u (by simpa [Function.update_of_ne hdc] using hu)
    case aborted =>
      intro d hd
      by_cases hdc : d = c
      · subst hdc
        simp at hd
      · exact h.aborted d (by
          simpa [Function.update_of_ne (hother d hdc), Function.update_of_ne (hne d)] using hd)

/-- A destroyed channel gives up an operation. -/
theorem Heard.cancel {s : Server} (h : Heard s) {c : ConnId} {t : Task} {channel : Channel Task}
    (hc : s.registry.phase c = .ended ∧ s.registered c = false)
    (ht : (s.signalChannel c).cancel = some (t, channel)) :
    Heard ((s.setChannel c channel).setSignal t .aborted) := by
  obtain ⟨hsend, hrecv⟩ := Channel.cancel_subset ht
  have hmem : channel.receivers = [] ∧ ∀ d, d ≠ c → t ≠ .socket d := by
    obtain ⟨hs, hnil⟩ | ⟨-, -, hr⟩ := Channel.cancel_cases ht
    · exact ⟨hnil, fun d _ => h.senders c t (hs ▸ List.mem_cons_self) d⟩
    · obtain hnil | ⟨hone, -⟩ := h.receivers c
      · simp [hnil] at hr
      · obtain ⟨rfl, hnil⟩ := List.cons.inj (hone.symm.trans hr)
        exact ⟨hnil.symm, fun d hd heq => hd (Task.socket.inj heq).symm⟩
  constructor
  case receivers =>
    intro d
    by_cases hdc : d = c
    · subst hdc
      exact .inl (by simpa [setSignal, setChannel] using hmem.1)
    · simpa [setSignal, setChannel, Function.update_of_ne hdc,
        Function.update_of_ne (hmem.2 d hdc).symm] using h.receivers d
  case senders =>
    intro d u hu
    by_cases hdc : d = c
    · subst hdc
      exact h.senders d u (hsend (by simpa [setSignal, setChannel] using hu))
    · exact h.senders d u (by simpa [setSignal, setChannel, Function.update_of_ne hdc] using hu)
  case aborted =>
    intro d hd
    by_cases hdc : d = c
    · subst hdc
      exact hc
    · exact h.aborted d (by
        simpa [setSignal, setChannel, Function.update_of_ne (hmem.2 d hdc).symm] using hd)

theorem Heard.receivers_nil {s : Server} (h : Heard s) {c : ConnId}
    (hc : s.socket c ≠ .asyncReceive ∨ s.signal (.socket c) ≠ .waiting) :
    (s.signalChannel c).receivers = [] := by
  obtain hnil | ⟨-, hso, hsig⟩ := h.receivers c
  · exact hnil
  · obtain hc | hc := hc
    · exact absurd hso hc
    · exact absurd hsig hc

theorem registered_of_endConnection {s : Server} {c d : ConnId}
    (h : (s.endConnection c).registered d) : s.registered d := by
  obtain ⟨i, generation, hi⟩ := registered_iff.mp h
  simp only [endConnection, removeClient, setStart, SlotVector.slotAt_pop] at hi
  split at hi
  · obtain ⟨slot, -, heq⟩ := Option.map_eq_some_iff.mp hi
    cases heq
  · exact registered_iff.mpr ⟨i, generation, hi⟩

theorem registered_of_emplaced {s : Server} {c d : ConnId} {g : ClientIndex}
    {v : SlotVector Client} (e : ClientIndex)
    (hv : s.clientsSlotVector.emplaceBack (.new c) = some (g, v))
    (hdc : d ≠ c) (h : (s.emplaced c v e).registered d) : s.registered d := by
  obtain ⟨-, hslots, -⟩ := SlotVector.emplaceBack_cases hv
  obtain ⟨i, generation, hi⟩ := registered_iff.mp h
  have hi' : v.slotAt i = some ⟨some (.new d), generation⟩ := hi
  rw [hslots] at hi'
  split at hi'
  · exact absurd (Client.new_inj (Option.some.inj (congrArg Slot.object
      (Option.some.inj hi')))).symm hdc
  · exact registered_iff.mpr ⟨i, generation, hi'⟩

theorem unregistered_of_unowned {s : Server} {c : ConnId} (h : s.unowned c) :
    s.registry.phase c = .ended ∧ s.registered c = false := by
  simp only [unowned, Bool.and_eq_true, decide_eq_true_eq, List.all_eq_true] at h
  obtain ⟨⟨hend, hslots⟩, -⟩ := h
  refine ⟨(ended_iff s c).mp hend, ?_⟩
  by_contra hn
  obtain ⟨i, generation, hi⟩ := registered_iff.mp (Bool.not_eq_false _ ▸ hn)
  have := hslots _ (List.mem_of_getElem? hi)
  simp [Client.new] at this

/-- The connection is not one that has ended. -/
theorem Heard.phase {s t : Server} (h : Heard s) {c : ConnId} (hc : s.registry.phase c ≠ .ended)
    (hch : t.signalChannel = s.signalChannel) (hsig : t.signal = s.signal)
    (hso : t.socket = s.socket) (hph : ∀ d, d ≠ c → t.registry.phase d = s.registry.phase d)
    (hreg : ∀ d, d ≠ c → t.registered d → s.registered d) : Heard t := by
  refine h.registry hch hsig hso fun d hp hr => ?_
  have hdc : d ≠ c := by
    intro heq
    subst heq
    exact hc hp
  refine ⟨by rw [hph d hdc, hp], ?_⟩
  by_contra hn
  rw [hreg d hdc (by simpa using hn)] at hr
  cases hr

theorem Heard.endConnection {s : Server} (h : Heard s) (c : ConnId) :
    Heard (s.endConnection c) := by
  refine h.registry rfl rfl rfl fun d hp hr => ⟨?_, ?_⟩
  · by_cases hdc : d = c
    · subst hdc
      simp [Server.endConnection, setStart, Server.registry, StartState.phase]
    · simpa [Server.endConnection, removeClient, setStart, Server.registry,
        Function.update_of_ne hdc] using hp
  · by_contra hn
    rw [registered_of_endConnection (by simpa using hn)] at hr
    cases hr

variable {I : Tables → Prop}

theorem Heard.grant {s : Server} (h : Heard s) {c : ConnId} (key : PublicKey) {g : ClientIndex}
    {v : SlotVector Client} (id : Nat) (hphase : s.registry.phase c ≠ .ended)
    (hso : s.socket c ≠ .asyncReceive)
    (hv : s.clientsSlotVector.emplaceBack (.new c) = some (g, v)) :
    Heard ((s.setKey c key).granted c v { g with dbIndex := id }) := by
  have hstart : (s.setKey c key).start c ≠ .ended := mt (ended_iff s c).mp hphase
  rw [granted_comm hstart]
  refine Heard.socketCoroutine ?_ (h.receivers_nil (.inl hso))
  refine h.phase hphase rfl rfl rfl ?_ ?_
  · intro d hdc
    simp [answered, emplaced, setStart, setKey, Server.registry, Function.update_of_ne hdc]
  · intro d hdc hd
    exact registered_of_emplaced (s := s) { g with dbIndex := id } hv hdc hd

/-- `add_client` has not started the socket coroutine of a connection before it answers it. -/
theorem socket_of_logs {s : Server} (hs : Sound s) (ha : Aside s) {a : Action} {c : ConnId}
    {key : PublicKey} (hc : s.Logs a c key) : s.socket c = .unborn := by
  refine ha.socket c fun g hg => ?_
  rw [answer_of_logs hs hc] at hg
  cases hg

theorem Heard.move {s t : Server} {a : Action} (hs : Sound s) (ha : Aside s) (h : Heard s)
    (hm : Move I s a t) : Heard t := by
  have hread : ∀ c, s.start c = .readKey → s.registry.phase c ≠ .ended := by
    intro c hc
    simp [Server.registry, hc, StartState.phase]
  have hpush : ∀ d m, Heard (s.push d m) := fun d m =>
    h.registry rfl rfl rfl fun _ hp hr => ⟨hp, hr⟩
  cases hm with
  | other => exact h
  | login c key hc =>
    refine h.phase (hread c hc) rfl rfl rfl (fun d hdc => ?_) fun _ _ hd => hd
    simp [setStart, setKey, Server.registry, Function.update_of_ne hdc]
  | reject c key state hc =>
    refine h.phase (hread c hc) rfl rfl rfl (fun d hdc => ?_) fun _ _ hd => hd
    simp [answered, setStart, setDelayed, setKey, Server.registry, Function.update_of_ne hdc]
  | grant _ c key g v id state hc hv =>
    have h₁ := h.grant key id (mt (ended_iff s c).mpr (phase_of_logs hc).2)
      (by simp [socket_of_logs hs ha hc]) hv
    exact h₁.registry rfl rfl rfl fun _ hp hr => ⟨hp, hr⟩
  | fail c bytes =>
    have h₁ : Heard (s.setKey c (partialKey bytes)) :=
      h.registry rfl rfl rfl fun _ hp hr => ⟨hp, hr⟩
    exact h₁.endConnection c
  | close _ c => exact h.endConnection c
  | relay c bytes lookup size recipient e d => exact (hpush d _).asyncSend d (by simp)
  | hand c d row rest sent =>
    have h₁ := (hpush d row.data).asyncSend d (t := .delayed c) (by simp)
    exact h₁.registry rfl rfl rfl fun _ hp hr => ⟨hp, hr⟩
  | stop c => exact h.registry rfl rfl rfl fun _ hp hr => ⟨hp, hr⟩
  | park c hc hsig => exact h.socketCoroutine (h.receivers_nil (.inr (by simp [hsig])))
  | write c e generation m rest hc hsig =>
    exact h.setSocket (h.receivers_nil (.inr (by simp [hsig]))) _
  | wrote c socket q channel m front rest hc =>
    have h₁ : Heard (s.popped socket q m rest) := h.registry rfl rfl rfl fun _ hp hr => ⟨hp, hr⟩
    have hnil : (s.signalChannel c).receivers = [] := h.receivers_nil (.inl (by simp [hc]))
    unfold writeMessages
    split
    · exact h₁.socketCoroutine hnil
    · exact h₁.setSocket hnil _
  | wroteNone c socket q channel m hc =>
    have h₁ : Heard (s.addWritten socket m) := h.registry rfl rfl rfl fun _ hp hr => ⟨hp, hr⟩
    have hnil : (s.signalChannel c).receivers = [] := h.receivers_nil (.inl (by simp [hc]))
    exact h₁.setSocket hnil _
  | tear c socket n q channel m hc =>
    have h₁ : Heard (s.addTorn socket (m.data.take n)) :=
      h.registry rfl rfl rfl fun _ hp hr => ⟨hp, hr⟩
    have hnil : (s.signalChannel c).receivers = [] := h.receivers_nil (.inl (by simp [hc]))
    exact h₁.setSocket hnil _
  | terminate c hc hsig => exact h.setSocket (h.receivers_nil (.inr (by simp [hsig]))) _
  | cancel c t channel hc ht => exact h.cancel (unregistered_of_unowned hc) ht

/-- A channel on which coroutines wait is that of a session whose socket coroutine is where it
was, or is not terminated. -/
theorem Attended.of {s t : Server} (h : Attended s)
    (ht : ∀ c, t.registered c → (t.signalChannel c).senders ≠ [] → t.socket c ≠ .terminated ∨
      s.registered c ∧ (s.signalChannel c).senders ≠ [] ∧ t.socket c = s.socket c) :
    Attended t := by
  intro c hc hsend
  obtain hne | ⟨hc', hsend', hso⟩ := ht c hc hsend
  · exact hne
  · rw [hso]
    exact h c hc' hsend'

/-- Only the channel and the state of one connection change, and its socket coroutine has not
terminated. -/
theorem Attended.other {s t : Server} (h : Attended s) (c : ConnId)
    (hc : t.socket c ≠ .terminated) (hreg : ∀ d, d ≠ c → t.registered d → s.registered d)
    (hch : ∀ d, d ≠ c → t.signalChannel d = s.signalChannel d)
    (hso : ∀ d, d ≠ c → t.socket d = s.socket d) : Attended t := by
  refine h.of fun d hd hsend => ?_
  by_cases hdc : d = c
  · subst hdc
    exact .inl hc
  · rw [hch d hdc] at hsend
    exact .inr ⟨hreg d hdc hd, hsend, hso d hdc⟩

theorem Attended.alike {s s' : Server} (h : Attended s) (ha : Alike s s') : Attended s' := by
  refine h.of fun c hc hsend => .inr ?_
  rw [registered, ha.clientsSlotVector] at hc
  rw [ha.signalChannel] at hsend
  exact ⟨hc, hsend, by rw [ha.socket]⟩

theorem Attended.asyncSend {s : Server} (h : Attended s) {d : ConnId}
    (hd : s.socket d ≠ .terminated) (t : Task) : Attended (s.asyncSend d t) := by
  obtain ⟨channel, signal, he⟩ := s.asyncSend_eq d t
  rw [he]
  refine h.other d hd (fun _ _ hc => hc) (fun c hcd => ?_) fun _ _ => rfl
  simp [Function.update_of_ne hcd]

theorem Attended.socketCoroutine {s : Server} (h : Attended s) (c : ConnId) :
    Attended (s.socketCoroutine c) := by
  obtain ⟨channel, signal, state, he, hstate⟩ := s.socketCoroutine_eq c
  rw [he]
  refine h.other c ?_ (fun _ _ hd => hd) (fun d hdc => ?_) fun d hdc => ?_
  · obtain ⟨-, rfl⟩ | ⟨-, rfl⟩ := hstate <;> simp
  · simp [Function.update_of_ne hdc]
  · simp [Function.update_of_ne hdc]

theorem Attended.setSocket {s : Server} (h : Attended s) (c : ConnId) {state : SocketState}
    (hc : state ≠ .terminated) : Attended (s.setSocket c state) := by
  refine h.other c (by simpa [Server.setSocket] using hc) (fun _ _ hd => hd) (fun _ _ => rfl) ?_
  intro d hdc
  simp [Server.setSocket, Function.update_of_ne hdc]

theorem Attended.move {s t : Server} {a : Action} (hh : Heard s) (h : Attended s)
    (hc : s.sparesSenders a) (hm : Move I s a t)
    (hq : ∀ d m, t.messages = Function.update s.messages d (s.messages d ++ [m]) →
      ∃ p, s.pushOf a = some p ∧ p.login = d ∧ p.message = m) : Attended t := by
  have hpush : ∀ d m, t.messages = Function.update s.messages d (s.messages d ++ [m]) →
      s.socket d ≠ .terminated := by
    intro d m hmess
    obtain ⟨p, hp, rfl, -⟩ := hq d m hmess
    cases a with
    | writeFails => cases hp
    | _ => simpa [sparesSenders, hp] using hc
  have hsame : ∀ d m, Attended (s.push d m) := fun d m =>
    h.of fun _ hc hsend => .inr ⟨hc, hsend, rfl⟩
  cases hm with
  | other => exact h
  | grant _ c key g v id state hl hv =>
    obtain ⟨channel, signal, socket, he, hso⟩ :=
      (s.setKey c key).granted_eq c v { g with dbIndex := id }
    rw [he]
    refine h.other c ?_ (fun d hdc hd => ?_) (fun d hdc => ?_) fun d hdc => ?_
    · rw [hso (phase_of_logs hl).2]
      simp [setDelayed]
    · exact registered_of_emplaced (s := s) { g with dbIndex := id } hv hdc hd
    · simp [setDelayed, setKey, Function.update_of_ne hdc]
    · simp [setDelayed, setKey, Function.update_of_ne hdc]
  | fail c bytes =>
    refine h.of fun d hd hsend => .inr ⟨?_, hsend, rfl⟩
    exact registered_of_endConnection (s := s.setKey c (partialKey bytes)) hd
  | close _ c =>
    exact h.of fun d hd hsend => .inr ⟨registered_of_endConnection hd, hsend, rfl⟩
  | relay c bytes lookup size recipient e d =>
    exact (hsame d _).asyncSend (hpush d _ ((s.push d _).asyncSend_stays d _).messages) _
  | hand c d row rest sent =>
    have h₁ := (hsame d row.data).asyncSend
      (hpush d row.data ((s.push d row.data).asyncSend_stays d _).messages) (.delayed c)
    exact h₁.of fun _ hc hsend => .inr ⟨hc, hsend, rfl⟩
  | park c => exact h.socketCoroutine c
  | write c => exact h.setSocket c (by simp)
  | wrote c socket q channel m front rest =>
    have h₁ : Attended (s.popped socket q m rest) :=
      h.of fun _ hc hsend => .inr ⟨hc, hsend, rfl⟩
    unfold writeMessages
    split
    · exact h₁.socketCoroutine c
    · exact h₁.setSocket c (by simp)
  | wroteNone c socket q channel m =>
    have h₁ : Attended (s.addWritten socket m) := h.of fun _ hc hsend => .inr ⟨hc, hsend, rfl⟩
    exact h₁.setSocket c (by simp)
  | tear c socket n =>
    refine h.of fun d hd hsend => ?_
    by_cases hdc : d = c
    · subst hdc
      have hd' : s.registered d := hd
      have hsend' : (s.signalChannel d).senders ≠ [] := hsend
      simp [sparesSenders, hd', hsend'] at hc
    · exact .inr ⟨hd, hsend, by simp [Server.setSocket, addTorn, Function.update_of_ne hdc]⟩
  | terminate c _ hsig =>
    refine h.of fun d hd hsend => ?_
    by_cases hdc : d = c
    · subst hdc
      have hd' : s.registered d := hd
      simp [(hh.aborted d hsig).2] at hd'
    · exact .inr ⟨hd, hsend, by simp [Server.setSocket, Function.update_of_ne hdc]⟩
  | cancel c t channel hun =>
    refine h.of fun d hd hsend => .inr ?_
    have hdc : d ≠ c := by
      intro heq
      subst heq
      have hd' : s.registered d := hd
      simp [(unregistered_of_unowned hun).2] at hd'
    exact ⟨hd, by simpa [setSignal, setChannel, Function.update_of_ne hdc] using hsend, rfl⟩
  | _ => exact h.of fun _ hc hsend => .inr ⟨hc, hsend, rfl⟩

/-- A write that fails while coroutines wait, and a message for a session that does not write
any more, leave a sender waiting for good. -/
theorem sparesSenders_of_attended {s s' : Server} {a : Action} (h : Steady s) (hh : Heard s)
    (hstep : s.step a = some s') (ht : Attended s') : s.sparesSenders a := by
  have hpush : (s.pushOf a).all fun p => s.socket p.login ≠ .terminated := by
    rw [Option.all_eq_true]
    intro p hp
    by_contra hn
    have hdead : s.socket p.login = .terminated := by simpa using hn
    obtain ⟨i, generation, hslot, -⟩ := pushOf_cases h.sound.wellFormed hp
    have hnil := hh.receivers_nil (c := p.login) (.inl (by simp [hdead]))
    cases step_queues h.sound h.linked hstep with
    | push _ p' c state _ hp' ha =>
      obtain rfl : p = p' := Option.some.inj (hp.symm.trans hp')
      obtain ⟨channel, ⟨-, hsend, -, he⟩ | ⟨r, hr, -⟩⟩ :=
        (s.push p.login p.message).asyncSend_cases p.login p.caller
      · rw [he] at ha
        refine ht p.login ?_ ?_ (by rw [ha.socket]; exact hdead)
        · rw [registered, ha.clientsSlotVector]
          exact registered_iff.mpr ⟨i, generation, hslot⟩
        · rw [ha.signalChannel]
          simp [setDelayed, hsend]
      · have hr' : (s.signalChannel p.login).receivers = r :: channel.receivers := hr
        simp [hnil] at hr'
    | pop c => cases hp
    | same _ _ hp' => simp [hp'] at hp
  cases a with
  | writeFails c n =>
    by_contra hn
    cases step_cases hstep with
    | writeFails =>
      simp only [sparesSenders, Bool.or_eq_true, Bool.not_eq_true', not_or, Bool.not_eq_false,
        List.isEmpty_iff] at hn
      exact ht c hn.1 hn.2 (by simp [setSocket])
  | _ => exact hpush

/-- No coroutine waits on the channel of a registered session that has stopped to write, in any
state of a run, exactly when no write to a registered session fails while coroutines wait for
it, and no message is put into the queue of a session after a write to it has failed. -/
theorem attended_iff (native : Proto.Endian) (succeeds : StartStep → Bool) (tables : Tables)
    (as : List Action) (s : Server)
    (hr : Lts.run step (init native succeeds tables) as = some s) :
    Lts.Always step Attended (init native succeeds tables) as ↔
      Lts.Along step (fun s a => s.sparesSenders a) (init native succeeds tables) as := by
  have hstart : Steady (init native succeeds tables) ∧ Heard (init native succeeds tables) :=
    ⟨init_steady native succeeds tables, init_heard native succeeds tables⟩
  have hkeep : ∀ s a t, Steady s ∧ Heard s → s.step a = some t → Steady t ∧ Heard t := by
    intro s a t ⟨h, hh⟩ hstep
    obtain ⟨u, hm, ha⟩ := step_move h.sound h.linked hstep
    exact ⟨h.step hstep, (hh.move h.sound h.aside hm).alike ha⟩
  constructor
  · intro h
    refine Lts.along_of_always (P := fun s => Attended s ∧ Steady s ∧ Heard s) ?_ hr
      fun bs hp t ht => ⟨h bs hp t ht, Lts.invariant_all hkeep hstart ht⟩
    exact fun s a t hstep hs ht => sparesSenders_of_attended hs.2.1 hs.2.2 hstep ht.1
  · intro hc bs hp t ht
    refine (Lts.invariant (I := fun s => (Steady s ∧ Heard s) ∧ Attended s) ?_
      ⟨hstart, fun c hc => ?_⟩ (hc.initial hp) ht).2
    · intro s a t ⟨hi, h⟩ hspares hstep
      obtain ⟨u, hm, ha⟩ := step_move hi.1.sound hi.1.linked hstep
      refine ⟨hkeep s a t hi hstep, Attended.alike ?_ ha⟩
      refine h.move hi.2 hspares hm fun d m hmess => ?_
      exact (step_queues hi.1.sound hi.1.linked hstep).login (ha.messages.trans hmess)
    · simp [registered, init] at hc

/-- Key 2 writes twice to key 1, and waits for its second message to be taken while the first is
being written. -/
def writesTwice : List Action :=
  [.loop, .accept, .keyRead 0 (.replicate 32 1), .loop, .execute, .resume (.start 0), .accept,
    .keyRead 1 (.replicate 32 2), .loop, .execute, .resume (.delayed 0), .loop, .execute,
    .resume (.start 1), .greetings 1 (greetingsTo 1), .loop, .execute, .message 1 [7] true,
    .resume (.socket 0), .resume (.start 1), .greetings 1 (greetingsTo 1), .message 1 [8] true]

/-- The first write fails. -/
theorem not_attended :
    ¬ Lts.Always step Attended (init .little (fun _ => true) .empty)
      (writesTwice ++ [.writeFails 0 0]) := by
  intro h
  have hrun : (Lts.run step (init .little (fun _ => true) .empty)
      (writesTwice ++ [.writeFails 0 0])).any fun s =>
      s.registered 0 && !(s.signalChannel 0).senders.isEmpty && s.socket 0 = .terminated := by
    decide +kernel
  obtain ⟨s, hs, hbad⟩ := (Option.any_eq_true _ _).mp hrun
  simp only [Bool.and_eq_true, Bool.not_eq_true', List.isEmpty_eq_false_iff,
    decide_eq_true_eq] at hbad
  exact h _ (List.prefix_refl _) s hs 0 hbad.1.1 hbad.1.2 hbad.2

/-- Both are written, and the sender goes on. -/
theorem attended_twice :
    Lts.Always step Attended (init .little (fun _ => true) .empty)
      (writesTwice ++ [.written 0, .written 0, .resume (.start 1)]) := by
  have hsome : (Lts.run step (init .little (fun _ => true) .empty)
      (writesTwice ++ [.written 0, .written 0, .resume (.start 1)])).isSome := by
    decide +kernel
  obtain ⟨s, hr⟩ := Option.isSome_iff_exists.mp hsome
  exact (attended_iff .little (fun _ => true) .empty _ s hr).mpr (by decide +kernel)

end MydakServer.Server
