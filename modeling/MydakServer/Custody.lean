import MydakServer.Routing

/-! The signals between the coroutines of a session, and the messages it has in custody:
written to its socket, or in its queue and announced to its socket coroutine. -/
namespace MydakServer.Server
open Rendezvous

/-- The connection has been granted a slot and has not ended. -/
def Live (s : Server) (c : ConnId) : Prop := ∃ g, s.registry.Granted c g

theorem asyncSend_cases (s : Server) (d : ConnId) (t : Task) : ∃ channel,
    ((s.signalChannel d).receivers = [] ∧
      channel.senders = (s.signalChannel d).senders ++ [t] ∧ channel.receivers = [] ∧
      s.asyncSend d t = { s with
        signalChannel := Function.update s.signalChannel d channel
        signal := Function.update s.signal t .waiting }) ∨
    ∃ r, (s.signalChannel d).receivers = r :: channel.receivers ∧ channel.senders = [] ∧
      s.asyncSend d t = { s with
        signalChannel := Function.update s.signalChannel d channel
        signal := Function.update (Function.update s.signal r .taken) t .taken } := by
  unfold asyncSend
  cases hr : (s.signalChannel d).receivers with
  | nil =>
    obtain ⟨h₁, h₂, h₃⟩ := Channel.asyncSend_wait hr t
    split
    · rename_i channel heq
      rw [heq] at h₂ h₃
      exact ⟨channel, .inl ⟨rfl, h₂, h₃, rfl⟩⟩
    · rename_i channel r heq
      rw [heq] at h₁
      cases h₁
  | cons r rs =>
    obtain ⟨h₁, h₂, h₃⟩ := Channel.asyncSend_meet hr t
    split
    · rename_i channel heq
      rw [heq] at h₁
      cases h₁
    · rename_i channel r' heq
      rw [heq] at h₁ h₂ h₃
      cases h₁
      exact ⟨channel, .inr ⟨r, by rw [h₃], h₂, rfl⟩⟩

theorem socketCoroutine_cases {s : Server} {c : ConnId} (hc : s.start c ≠ .ended) : ∃ channel,
    ((s.signalChannel c).senders = [] ∧ channel.senders = [] ∧
      channel.receivers = (s.signalChannel c).receivers ++ [.socket c] ∧
      s.socketCoroutine c = { s with
        signalChannel := Function.update s.signalChannel c channel
        signal := Function.update s.signal (.socket c) .waiting
        socket := Function.update s.socket c .asyncReceive }) ∨
    ∃ t, (s.signalChannel c).senders = t :: channel.senders ∧ channel.receivers = [] ∧
      s.socketCoroutine c = { s with
        signalChannel := Function.update s.signalChannel c channel
        signal := Function.update (Function.update s.signal t .taken) (.socket c) .taken
        socket := Function.update s.socket c .asyncReceive } := by
  unfold socketCoroutine
  rw [if_neg hc]
  cases hs : (s.signalChannel c).senders with
  | nil =>
    obtain ⟨h₁, h₂, h₃⟩ := Channel.asyncReceive_wait hs (.socket c)
    split
    · rename_i channel heq
      rw [heq] at h₂ h₃
      exact ⟨channel, .inl ⟨rfl, h₂, h₃, rfl⟩⟩
    · rename_i channel t heq
      rw [heq] at h₁
      cases h₁
  | cons t ts =>
    obtain ⟨h₁, h₂, h₃⟩ := Channel.asyncReceive_meet hs (.socket c)
    split
    · rename_i channel heq
      rw [heq] at h₁
      cases h₁
    · rename_i channel t' heq
      rw [heq] at h₁ h₂ h₃
      cases h₁
      exact ⟨channel, .inr ⟨t, by rw [h₂], h₃, rfl⟩⟩

theorem granted_comm {s : Server} {c : ConnId} (hc : s.start c ≠ .ended) (v : SlotVector Client)
    (g : ClientIndex) : s.granted c v g = ((s.emplaced c v g).answered c g).socketCoroutine c := by
  have hc' : (s.emplaced c v g).start c ≠ .ended := hc
  have hc'' : ((s.emplaced c v g).answered c g).start c ≠ .ended := by simp [answered, setStart]
  have hch : (s.emplaced c v g).signalChannel = s.signalChannel := rfl
  have hch' : ((s.emplaced c v g).answered c g).signalChannel = s.signalChannel := rfl
  unfold granted socketCoroutine
  rw [if_neg hc', if_neg hc'', hch, hch']
  split <;> rfl

/-- What a step can assume of the channels, the sockets and the stored messages being handed
over, while sessions end only when they have settled. -/
structure Custody (s : Server) : Prop where
  receivers : ∀ c, ∀ t ∈ (s.signalChannel c).receivers, t = .socket c
  senders : ∀ c, ∀ t ∈ (s.signalChannel c).senders, (∃ d, t = .start d) ∨ t = .delayed c
  signalled : ∀ c, s.socket c = .asyncReceive → s.signal (.socket c) = .taken → s.Live c
  writing : ∀ c data m, s.socket c = .writing data m →
    data = (Client.new c).data ∧ s.Live c ∧ ∃ rest, s.messages c = m :: rest
  handed : ∀ c current rest sent, s.delayed c = .sending current rest sent →
    current.data ∈ s.written c ∨ current.data ∈ s.messages c

theorem init_custody (native : Proto.Endian) (succeeds : StartStep → Bool) (tables : Tables) :
    Custody (init native succeeds tables) := by
  constructor <;> simp [init]

/-- Only the registry has changed, and the sessions that ended had nothing under way. -/
theorem Custody.registry {s t : Server} (h : Custody s)
    (hchannel : t.signalChannel = s.signalChannel) (hsignal : t.signal = s.signal)
    (hsocket : t.socket = s.socket) (hmessages : t.messages = s.messages)
    (hwritten : t.written = s.written) (hdelayed : t.delayed = s.delayed)
    (hlive : ∀ c, s.Live c → t.Live c ∨ s.socket c = .terminated ∨
      s.socket c = .asyncReceive ∧ s.signal (.socket c) = .waiting) : Custody t := by
  constructor
  · simpa only [hchannel] using h.receivers
  · simpa only [hchannel] using h.senders
  · intro c hc hs
    rw [hsocket] at hc
    rw [hsignal] at hs
    obtain hl | ht | ⟨-, hw⟩ := hlive c (h.signalled c hc hs)
    · exact hl
    · rw [hc] at ht
      cases ht
    · rw [hs] at hw
      cases hw
  · intro c data m hw
    rw [hsocket] at hw
    obtain ⟨hd, hl, hm⟩ := h.writing c data m hw
    rw [hmessages]
    obtain hl | ht | ⟨ht, -⟩ := hlive c hl
    · exact ⟨hd, hl, hm⟩
    · rw [hw] at ht
      cases ht
    · rw [hw] at ht
      cases ht
  · simpa only [hdelayed, hwritten, hmessages] using h.handed

theorem Custody.alike {s s' : Server} (h : Custody s) (ha : Alike s s') : Custody s' :=
  h.registry ha.signalChannel ha.signal ha.socket ha.messages ha.written ha.delayed
    fun c hc => .inl (by simpa only [Live, ha.registry] using hc)

theorem Custody.setDelayed {s : Server} (h : Custody s) (c : ConnId) {state : DelayedState}
    (hstate : ∀ current rest sent, state = .sending current rest sent →
      current.data ∈ s.written c ∨ current.data ∈ s.messages c) :
    Custody (s.setDelayed c state) := by
  refine ⟨h.receivers, h.senders, h.signalled, h.writing, ?_⟩
  intro d current rest sent hd
  by_cases hdc : d = c
  · subst hdc
    exact hstate current rest sent (by simpa [Server.setDelayed] using hd)
  · exact h.handed d current rest sent
      (by simpa [Server.setDelayed, Function.update_of_ne hdc] using hd)

theorem Custody.setSocket {s : Server} (h : Custody s) {c : ConnId} {state : SocketState}
    (hparked : state ≠ .asyncReceive)
    (hwriting : ∀ data m, state = .writing data m →
      data = (Client.new c).data ∧ s.Live c ∧ ∃ rest, s.messages c = m :: rest) :
    Custody (s.setSocket c state) := by
  refine ⟨h.receivers, h.senders, ?_, ?_, h.handed⟩
  · intro d hd hs
    by_cases hdc : d = c
    · subst hdc
      exact absurd (by simpa [Server.setSocket] using hd) hparked
    · exact h.signalled d (by simpa [Server.setSocket, Function.update_of_ne hdc] using hd) hs
  · intro d data m hd
    by_cases hdc : d = c
    · subst hdc
      exact hwriting data m (by simpa [Server.setSocket] using hd)
    · exact h.writing d data m (by simpa [Server.setSocket, Function.update_of_ne hdc] using hd)

theorem Custody.push {s : Server} (h : Custody s) (d : ConnId) (m : Message) :
    Custody (s.push d m) := by
  have hmem : ∀ c x, x ∈ s.messages c → x ∈ (s.push d m).messages c := by
    intro c x hx
    by_cases hcd : c = d
    · subst hcd
      simp [Server.push, hx]
    · simpa [Server.push, Function.update_of_ne hcd] using hx
  refine ⟨h.receivers, h.senders, h.signalled, ?_, ?_⟩
  · intro c data x hc
    obtain ⟨hd, hl, rest, hm⟩ := h.writing c data x hc
    refine ⟨hd, hl, ?_⟩
    by_cases hcd : c = d
    · subst hcd
      exact ⟨rest ++ [m], by simp [Server.push, hm]⟩
    · exact ⟨rest, by simpa [Server.push, Function.update_of_ne hcd] using hm⟩
  · intro c current rest sent hc
    exact (h.handed c current rest sent hc).imp_right (hmem c _)

/-- A signal is sent to the socket coroutine of a session. -/
theorem Custody.asyncSend {s : Server} (h : Custody s) {d : ConnId} {t : Task} (hd : s.Live d)
    (ht : (∃ c, t = .start c) ∨ t = .delayed d) : Custody (s.asyncSend d t) := by
  have hne : ∀ c, Task.socket c ≠ t := by
    intro c heq
    subst heq
    obtain ⟨e, he⟩ | he := ht <;> cases he
  obtain ⟨channel, ⟨-, hsend, hrecv, he⟩ | ⟨r, hr, hsend, he⟩⟩ := s.asyncSend_cases d t
  · rw [he]
    refine ⟨?_, ?_, ?_, h.writing, h.handed⟩
    · intro c u hu
      by_cases hcd : c = d
      · subst hcd
        simp [hrecv] at hu
      · exact h.receivers c u (by simpa [Function.update_of_ne hcd] using hu)
    · intro c u hu
      by_cases hcd : c = d
      · subst hcd
        simp only [Function.update_self, hsend, List.mem_append, List.mem_singleton] at hu
        obtain hu | rfl := hu
        · exact h.senders c u hu
        · exact ht
      · exact h.senders c u (by simpa [Function.update_of_ne hcd] using hu)
    · intro c hc hs
      exact h.signalled c hc (by simpa [Function.update_of_ne (hne c)] using hs)
  · obtain rfl := h.receivers d r (hr ▸ List.mem_cons_self)
    rw [he]
    refine ⟨?_, ?_, ?_, h.writing, h.handed⟩
    · intro c u hu
      by_cases hcd : c = d
      · subst hcd
        exact h.receivers c u (hr ▸ List.mem_cons_of_mem _ (by simpa using hu))
      · exact h.receivers c u (by simpa [Function.update_of_ne hcd] using hu)
    · intro c u hu
      by_cases hcd : c = d
      · subst hcd
        simp [hsend] at hu
      · exact h.senders c u (by simpa [Function.update_of_ne hcd] using hu)
    · intro c hc hs
      by_cases hcd : c = d
      · subst hcd
        exact hd
      · have hcd' : Task.socket c ≠ .socket d := by simpa using hcd
        exact h.signalled c hc
          (by simpa [Function.update_of_ne (hne c), Function.update_of_ne hcd'] using hs)

theorem start_of_live {s : Server} {c : ConnId} (hc : s.Live c) : s.start c ≠ .ended := by
  obtain ⟨g, hg⟩ := hc
  intro he
  have hp := (ended_iff s c).mp he
  rw [hg.1] at hp
  cases hp

/-- The socket coroutine of a session waits for the next signal. -/
theorem Custody.socketCoroutine {s : Server} (h : Custody s) {c : ConnId} (hc : s.Live c) :
    Custody (s.socketCoroutine c) := by
  obtain ⟨channel, ⟨-, hsend, hrecv, he⟩ | ⟨t, ht, hrecv, he⟩⟩ :=
    socketCoroutine_cases (start_of_live hc)
  · rw [he]
    refine ⟨?_, ?_, ?_, ?_, h.handed⟩
    · intro d u hu
      by_cases hdc : d = c
      · subst hdc
        simp only [Function.update_self, hrecv, List.mem_append, List.mem_singleton] at hu
        obtain hu | rfl := hu
        · exact h.receivers d u hu
        · rfl
      · exact h.receivers d u (by simpa [Function.update_of_ne hdc] using hu)
    · intro d u hu
      by_cases hdc : d = c
      · subst hdc
        simp [hsend] at hu
      · exact h.senders d u (by simpa [Function.update_of_ne hdc] using hu)
    · intro d hd hs
      by_cases hdc : d = c
      · subst hdc
        exact hc
      · have hdc' : Task.socket d ≠ .socket c := by simpa using hdc
        exact h.signalled d (by simpa [Function.update_of_ne hdc] using hd)
          (by simpa [Function.update_of_ne hdc'] using hs)
    · intro d data m hd
      have hdc : d ≠ c := by
        intro heq
        subst heq
        simp at hd
      exact h.writing d data m (by simpa [Function.update_of_ne hdc] using hd)
  · rw [he]
    refine ⟨?_, ?_, ?_, ?_, h.handed⟩
    · intro d u hu
      by_cases hdc : d = c
      · subst hdc
        simp [hrecv] at hu
      · exact h.receivers d u (by simpa [Function.update_of_ne hdc] using hu)
    · intro d u hu
      by_cases hdc : d = c
      · subst hdc
        exact h.senders d u (ht ▸ List.mem_cons_of_mem _ (by simpa using hu))
      · exact h.senders d u (by simpa [Function.update_of_ne hdc] using hu)
    · intro d hd hs
      by_cases hdc : d = c
      · subst hdc
        exact hc
      · have hdc' : Task.socket d ≠ .socket c := by simpa using hdc
        have hdt : Task.socket d ≠ t := by
          intro heq
          subst heq
          obtain ⟨e, he⟩ | he := h.senders c _ (ht ▸ List.mem_cons_self) <;> cases he
        exact h.signalled d (by simpa [Function.update_of_ne hdc] using hd)
          (by simpa [Function.update_of_ne hdc', Function.update_of_ne hdt] using hs)
    · intro d data m hd
      have hdc : d ≠ c := by
        intro heq
        subst heq
        simp at hd
      exact h.writing d data m (by simpa [Function.update_of_ne hdc] using hd)

/-- A session with nothing under way: its socket coroutine waits for a signal with no message
in the queue, or has terminated with no message there, or only one that is still stored since
its `send_delayed_messages` has not got its signal through. -/
def settled (s : Server) (c : ConnId) : Bool :=
  match s.socket c with
  | .asyncReceive => s.signal (.socket c) = .waiting && (s.messages c).isEmpty
  | .terminated => (s.messages c).isEmpty ||
    match s.delayed c with
    | .sending current _ _ =>
      s.signal (.delayed c) = .waiting && s.messages c = [current.data]
    | _ => false
  | _ => false

/-- A session ends only when it has settled. -/
def endsSettled (s : Server) : Action → Bool
  | .readFails c => s.answer c = some .empty || s.settled c
  | .greetings c g =>
    match Proto.parseGreetings s.native g with
    | .error _ => s.answer c = some .empty || s.settled c
    | .ok _ => true
  | _ => true

variable {I : Tables → Prop}

/-- A live session that ends in a step has settled. -/
theorem settled_of_close {s : Server} {a : Action} {c : ConnId} (he : s.endsSettled a)
    (ha : a = .readFails c ∨
      ∃ g e, a = .greetings c g ∧ Proto.parseGreetings s.native g = .error e)
    (hc : s.Live c) : s.settled c := by
  obtain ⟨g, hg⟩ := hc
  have hne : s.answer c ≠ some .empty := by
    intro hn
    exact hg.2.2 (Option.some.inj (hg.2.1.symm.trans hn))
  obtain rfl | ⟨g, e, rfl, hp⟩ := ha
  · simpa [endsSettled, hne] using he
  · simpa [endsSettled, hp, hne] using he

theorem socket_of_settled {s : Server} {c : ConnId} (h : s.settled c) :
    s.socket c = .terminated ∨
      s.socket c = .asyncReceive ∧ s.signal (.socket c) = .waiting := by
  unfold settled at h
  split at h
  · rename_i hs
    simp only [Bool.and_eq_true, decide_eq_true_eq] at h
    exact .inr ⟨hs, h.1⟩
  · rename_i hs
    exact .inl hs
  · cases h

theorem live_setPhase {s : Server} {c d : ConnId} {state : StartState}
    (hc : s.registry.phase c ≠ .running) (hstate : state.phase ≠ .running) :
    (s.setStart c state).Live d ↔ s.Live d := by
  simp only [Live, registry_setStart, Registry.granted_setPhase hc hstate]

theorem live_endConnection {s : Server} {c d : ConnId} :
    (s.endConnection c).Live d ↔ d ≠ c ∧ s.Live d := by
  simp only [Live, endConnection_registry, Registry.granted_remove, exists_and_left]

theorem live_answered {s : Server} {c d : ConnId} {g : ClientIndex}
    (hc : s.registry.phase c ≠ .running) :
    (s.answered c g).Live d ↔ (d = c ∧ g ≠ .empty) ∨ s.Live d := by
  simp only [Live, answered_registry, Registry.granted_answered hc]
  constructor
  · rintro ⟨g', ⟨hd, -, hg⟩ | hd⟩
    · exact .inl ⟨hd, hg⟩
    · exact .inr ⟨g', hd⟩
  · rintro (⟨hd, hg⟩ | ⟨g', hd⟩)
    · exact ⟨g, .inl ⟨hd, rfl, hg⟩⟩
    · exact ⟨g', .inr hd⟩

theorem phase_of_logs {s : Server} {a : Action} {c : ConnId} {key : PublicKey}
    (hc : s.Logs a c key) : s.registry.phase c ≠ .running ∧ s.start c ≠ .ended := by
  obtain ⟨-, hc⟩ | ⟨-, hc, -⟩ := hc <;> simp [registry, hc, StartState.phase]

/-- A client in a slot has a session. -/
theorem live_of_slot {s : Server} (ho : s.registry.Owned) {i generation : Nat} {d : ConnId}
    (hd : s.clientsSlotVector.slotAt i = some ⟨some (.new d), generation⟩) : s.Live d := by
  obtain ⟨g, hg, -⟩ := ho.held i _ d hd rfl
  exact ⟨g, hg⟩

/-- The client in the slot of a live session is its own. -/
theorem slot_of_live {s : Server} (hs : Sound s) (ho : s.registry.Owned) {c e : ConnId}
    {generation : Nat} (hc : s.Live c)
    (he : s.clientsSlotVector.slotAt (s.connection c).indices.index =
      some ⟨some (.new e), generation⟩) : e = c := by
  obtain ⟨g, hg⟩ := hc
  have hholds : s.clientsSlotVector.slotAt g.index = some ⟨some (.new c), g.generation⟩ :=
    ho.holds c g hg
  rw [hs.indices hg.2.1, hholds, Option.some.injEq, Slot.mk.injEq] at he
  exact (Client.new_inj (Option.some.inj he.1)).symm

theorem Custody.grant {s : Server} (h : Custody s) {a : Action} {c : ConnId} {key : PublicKey}
    (hc : s.Logs a c key) (v : SlotVector Client) {g : ClientIndex} (hg : g ≠ .empty)
    {state : DelayedState} (hstate : state = .fetching ∨ state = .finished) :
    Custody (((s.setKey c key).granted c v g).setDelayed c state) := by
  obtain ⟨hphase, hend⟩ := phase_of_logs hc
  have hlive : ∀ d, (((s.setKey c key).emplaced c v g).answered c g).Live d ↔ d = c ∨ s.Live d := by
    intro d
    rw [live_answered (s := (s.setKey c key).emplaced c v g) hphase]
    have hsame : ((s.setKey c key).emplaced c v g).Live d ↔ s.Live d := Iff.rfl
    rw [hsame]
    simp [hg]
  have h₁ : Custody (((s.setKey c key).emplaced c v g).answered c g) :=
    h.registry rfl rfl rfl rfl rfl rfl fun d hd => .inl ((hlive d).mpr (.inr hd))
  rw [granted_comm (s := s.setKey c key) hend]
  refine (h₁.socketCoroutine ((hlive c).mpr (.inl rfl))).setDelayed c ?_
  intro current rest sent heq
  subst heq
  obtain hs | hs := hstate <;> cases hs

/-- After a write the socket coroutine of a session goes on with its queue. -/
theorem Custody.wrote {s : Server} (h : Custody s) {c : ConnId} {m : Message}
    {rest : List Message} (hc : s.Live c) (hm : s.messages c = m :: rest) :
    Custody ((s.popped c c m rest).writeMessages c (Client.new c).data c) := by
  have hhanded : ∀ d current rest' sent, s.delayed d = .sending current rest' sent →
      current.data ∈ (s.popped c c m rest).written d ∨
        current.data ∈ (s.popped c c m rest).messages d := by
    intro d current rest' sent hd
    have hold := h.handed d current rest' sent hd
    by_cases hdc : d = c
    · subst hdc
      rw [hm, List.mem_cons] at hold
      simp only [popped, Function.update_self, List.mem_append, List.mem_singleton]
      obtain hw | hx | hr := hold
      · exact .inl (.inl hw)
      · exact .inl (.inr hx)
      · exact .inr hr
    · simpa [popped, Function.update_of_ne hdc] using hold
  -- the socket coroutine is between two waits, so what it was writing is no longer in the way
  have h₁ : Custody ((s.popped c c m rest).setSocket c .noMessage) := by
    refine ⟨h.receivers, h.senders, ?_, ?_, hhanded⟩
    · intro d hd hs
      have hdc : d ≠ c := by
        intro heq
        subst heq
        simp [Server.setSocket] at hd
      exact h.signalled d
        (by simpa [Server.setSocket, popped, Function.update_of_ne hdc] using hd) hs
    · intro d data x hd
      have hdc : d ≠ c := by
        intro heq
        subst heq
        simp [Server.setSocket] at hd
      obtain ⟨he, hl, rest', hq⟩ := h.writing d data x
        (by simpa [Server.setSocket, popped, Function.update_of_ne hdc] using hd)
      exact ⟨he, hl, rest', by simpa [Server.setSocket, popped, Function.update_of_ne hdc] using hq⟩
  have hsocket : ∀ state, (s.popped c c m rest).setSocket c state =
      ((s.popped c c m rest).setSocket c .noMessage).setSocket c state := by
    intro state
    simp [Server.setSocket]
  unfold writeMessages
  split
  · have hl : ((s.popped c c m rest).setSocket c .noMessage).Live c := hc
    have hcomm : (s.popped c c m rest).socketCoroutine c =
        ((s.popped c c m rest).setSocket c .noMessage).socketCoroutine c := by
      have hst : s.start c ≠ .ended := start_of_live hc
      have hst₁ : (s.popped c c m rest).start c ≠ .ended := hst
      have hst₂ : ((s.popped c c m rest).setSocket c .noMessage).start c ≠ .ended := hst
      have hch₁ : (s.popped c c m rest).signalChannel = s.signalChannel := rfl
      have hch₂ : ((s.popped c c m rest).setSocket c .noMessage).signalChannel =
        s.signalChannel := rfl
      unfold Server.socketCoroutine
      rw [if_neg hst₁, if_neg hst₂, hch₁, hch₂]
      split <;> simp [Server.setSocket, Server.setChannel, Server.setSignal, popped]
    rw [hcomm]
    exact h₁.socketCoroutine hl
  · rename_i x rest' hq
    rw [hsocket]
    refine h₁.setSocket (by simp) fun data y hw => ?_
    cases hw
    exact ⟨rfl, hc, rest', hq⟩

theorem Custody.move {s t : Server} {a : Action} (hs : Sound s) (ho : s.registry.Owned)
    (hr : Routes s) (h : Custody s) (he : s.endsSettled a) (hm : Move I s a t) : Custody t := by
  have hread : ∀ c, s.start c = .readKey → s.registry.phase c ≠ .running := by
    intro c hc
    simp [Server.registry, hc, StartState.phase]
  cases hm with
  | other => exact h
  | login c key hc =>
    refine h.registry rfl rfl rfl rfl rfl rfl fun d hd => .inl ?_
    exact (live_setPhase (s := s.setKey c key) (hread c hc) (by simp [StartState.phase])).mpr hd
  | reject c key state hc hk hstate =>
    have h₁ : Custody ((s.setKey c key).answered c .empty) :=
      h.registry rfl rfl rfl rfl rfl rfl fun d hd => .inl
        ((live_answered (s := s.setKey c key) (hread c hc)).mpr (.inr hd))
    refine h₁.setDelayed c ?_
    intro current rest sent heq
    subst heq
    obtain hs | hs := hstate <;> cases hs
  | grant _ c key g v id state hc hv hev hid hstate =>
    exact h.grant hc v (SlotVector.emplaceBack_ne_empty hv id) hstate
  | fail c bytes hc =>
    refine h.registry rfl rfl rfl rfl rfl rfl fun d hd => .inl ?_
    refine live_endConnection.mpr ⟨?_, hd⟩
    intro heq
    subst heq
    obtain ⟨g, hg⟩ := hd
    exact hread d hc hg.1
  | close _ c hc ha =>
    refine h.registry rfl rfl rfl rfl rfl rfl fun d hd => ?_
    by_cases hdc : d = c
    · subst hdc
      exact .inr (socket_of_settled (settled_of_close he ha hd))
    · exact .inl (live_endConnection.mpr ⟨hdc, hd⟩)
  | relay c bytes lookup size recipient e d generation hc hk hd =>
    exact (h.push d _).asyncSend (s := s.push d _) (live_of_slot ho hd) (.inl ⟨c, rfl⟩)
  | hand c d row rest sent hc hd =>
    obtain rfl : d = c := hr.own c d hc.delivering hd
    refine ((h.push d row.data).asyncSend (s := s.push d row.data) (live_of_slot ho hd)
      (.inr rfl)).setDelayed d ?_
    rintro current rest' sent' hst
    cases hst
    obtain ⟨channel, signal, heq⟩ := (s.push d row.data).asyncSend_eq d (.delayed d)
    rw [heq]
    exact .inr (by simp [Server.push])
  | stop c state hc hstate =>
    refine h.setDelayed c ?_
    intro current rest sent heq
    subst heq
    obtain hs | ⟨hs, -⟩ := hstate <;> cases hs
  | park c hc hsig => exact h.socketCoroutine (h.signalled c hc hsig)
  | write c e generation m rest hc hsig hslot hq =>
    have hlive := h.signalled c hc hsig
    obtain rfl := slot_of_live hs ho hlive hslot
    refine h.setSocket (by simp) fun data x hw => ?_
    cases hw
    exact ⟨rfl, hlive, rest, hq⟩
  | wrote c socket q channel m front rest hc hq =>
    obtain ⟨hd, hl, rest', hm⟩ := h.writing c _ _ hc
    cases hd
    obtain ⟨rfl, rfl⟩ := List.cons.inj (hq.symm.trans hm)
    exact h.wrote hl hq
  | wroteNone c socket q channel m hc hq =>
    obtain ⟨hd, hl, rest', hm⟩ := h.writing c _ _ hc
    cases hd
    cases hq.symm.trans hm
  | tear c socket n q channel m hc =>
    have h' : Custody (s.addTorn socket (m.data.take n)) :=
      ⟨h.receivers, h.senders, h.signalled, h.writing, h.handed⟩
    exact h'.setSocket (by simp) fun data x hw => by cases hw
  | terminate c hc => exact h.setSocket (by simp) fun data x hw => by cases hw
  | cancel c t channel hc ht =>
    have hsub := Channel.cancel_subset ht
    refine ⟨?_, ?_, ?_, h.writing, h.handed⟩
    · intro d u hu
      by_cases hdc : d = c
      · subst hdc
        exact h.receivers d u (hsub.2 (by simpa [setChannel, setSignal] using hu))
      · exact h.receivers d u (by simpa [setChannel, setSignal, Function.update_of_ne hdc] using hu)
    · intro d u hu
      by_cases hdc : d = c
      · subst hdc
        exact h.senders d u (hsub.1 (by simpa [setChannel, setSignal] using hu))
      · exact h.senders d u (by simpa [setChannel, setSignal, Function.update_of_ne hdc] using hu)
    · intro d hd hsig
      have hdt : Task.socket d ≠ t := by
        intro heq
        subst heq
        simp [setSignal] at hsig
      exact h.signalled d hd
        (by simpa [setSignal, setChannel, Function.update_of_ne hdt] using hsig)

end MydakServer.Server
