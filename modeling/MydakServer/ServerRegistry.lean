import MydakServer.DatabaseAnswers
import MydakServer.Ownership
import MydakServer.Steps

/-! The server over its registry: what each of its functions changes, and the registry
steps that a step of the server takes. -/
namespace MydakServer.Server
open Rendezvous

/-- The server without messages, coroutines other than `start`, and database. -/
def registry (s : Server) : Registry where
  clientsSlotVector := s.clientsSlotVector
  clientIndices := s.clientIndices
  phase c := (s.start c).phase
  connection := s.connection
  answer := s.answer
  cleared := s.cleared

/-- The step is none of the registry's, and reads no frame. -/
structure Same (s s' : Server) : Prop where
  registry : s'.registry = s.registry
  start : s'.start = s.start
  accepted : s'.accepted = s.accepted
  frames : s'.frames = s.frames

theorem Same.refl (s : Server) : Same s s := ⟨rfl, rfl, rfl, rfl⟩

theorem Same.trans {s t u : Server} (h : Same s t) (h' : Same t u) : Same s u :=
  ⟨h'.registry.trans h.registry, h'.start.trans h.start, h'.accepted.trans h.accepted,
    h'.frames.trans h.frames⟩

theorem registry_setStart (s : Server) (c : ConnId) (state : StartState) :
    (s.setStart c state).registry = s.registry.setPhase c state.phase := by
  simp only [registry, setStart, Registry.setPhase, Registry.mk.injEq, true_and, and_true]
  funext d
  by_cases hd : d = c
  · simp [hd]
  · simp [Function.update_of_ne hd]

theorem setPhase_self {r : Registry} {c : ConnId} {p : Phase} (h : r.phase c = p) :
    r.setPhase c p = r := by
  simp [Registry.setPhase, ← h]

/-- A sender and its channel change, and nothing else. -/
theorem asyncSend_eq (s : Server) (c : ConnId) (t : Task) : ∃ channel signal,
    s.asyncSend c t =
      { s with signalChannel := Function.update s.signalChannel c channel, signal } := by
  unfold asyncSend
  split <;> exact ⟨_, _, rfl⟩

theorem socketCoroutine_eq (s : Server) (c : ConnId) : ∃ channel signal state,
    s.socketCoroutine c = { s with
      signalChannel := Function.update s.signalChannel c channel
      signal
      socket := Function.update s.socket c state } ∧
    (s.start c = .ended ∧ state = .noChannel ∨ s.start c ≠ .ended ∧ state = .asyncReceive) := by
  unfold socketCoroutine
  split
  · rename_i he
    refine ⟨s.signalChannel c, s.signal, .noChannel, ?_, .inl ⟨he, rfl⟩⟩
    rw [Function.update_eq_self, setSocket]
  · rename_i he
    split <;> exact ⟨_, _, _, rfl, .inr ⟨he, rfl⟩⟩

/-- The message is in the queue of the connection. -/
def push (s : Server) (c : ConnId) (message : Message) : Server :=
  { s with messages := Function.update s.messages c (s.messages c ++ [message]) }

/-- Either nothing happens, or the client in the slot has the right generation, and the
message goes into its queue and a signal into its channel. -/
theorem addMessageToQueue_cases {s s' : Server} {i generation : Nat} {message : Message}
    {t : Task} {r : SendResult} (hw : s.registry.WellFormed)
    (h : s.addMessageToQueue i generation message t = some (s', r)) :
    (s' = s ∧ ∃ code, r = .code code ∧ code ≠ .success) ∨
      (∃ c, r = .suspended ∧ s.clientsSlotVector.slotAt i = some ⟨some (.new c), generation⟩ ∧
        s' = (s.push c message).asyncSend c t) := by
  obtain ⟨⟨object, generation'⟩, hs, h⟩ := Option.bind_eq_some_iff.mp h
  cases object with
  | none =>
    cases h
    exact .inl ⟨rfl, _, rfl, by simp⟩
  | some client =>
    dsimp only at h
    split at h
    · cases h
      exact .inl ⟨rfl, _, rfl, by simp⟩
    · rename_i hg
      obtain rfl : generation' = generation := by simpa using hg
      obtain ⟨c, rfl⟩ := hw.objects i _ client hs rfl
      cases h
      exact .inr ⟨c, rfl, hs, rfl⟩

theorem asyncSend_db (s : Server) (c : ConnId) (t : Task) : (s.asyncSend c t).db = s.db := by
  obtain ⟨channel, signal, he⟩ := s.asyncSend_eq c t
  rw [he]

theorem asyncSend_socket (s : Server) (c : ConnId) (t : Task) :
    (s.asyncSend c t).socket = s.socket := by
  obtain ⟨channel, signal, he⟩ := s.asyncSend_eq c t
  rw [he]

theorem asyncSend_same (s : Server) (c : ConnId) (t : Task) : Same s (s.asyncSend c t) := by
  obtain ⟨channel, signal, he⟩ := s.asyncSend_eq c t
  rw [he]
  exact ⟨rfl, rfl, rfl, rfl⟩

theorem addMessageToQueue_same {s s' : Server} {i generation : Nat} {message : Message}
    {t : Task} {r : SendResult} (hw : s.registry.WellFormed)
    (h : s.addMessageToQueue i generation message t = some (s', r)) : Same s s' := by
  obtain ⟨rfl, -⟩ | ⟨c, -, -, rfl⟩ := addMessageToQueue_cases hw h
  · exact .refl _
  · have hp : Same s (s.push c message) := ⟨rfl, rfl, rfl, rfl⟩
    exact hp.trans (asyncSend_same _ c t)

theorem addMessageToDb_cases {s s' : Server} {index : Nat} {message : Message}
    (h : s.addMessageToDb index message = some s') : ∃ db v,
    s.db.addMessage (.store s.stores) index message = some (db, v) ∧
      s' = { s with db, stores := s.stores + 1 } := by
  obtain ⟨⟨db, v⟩, hd, rfl⟩ := Option.map_eq_some_iff.mp h
  exact ⟨db, v, hd, rfl⟩

theorem deleteSent_cases {s s' : Server} {c : ConnId} {ids : List Nat}
    (h : s.deleteSent c ids = some s') : ∃ db v,
    s.db.deleteDelayedMessages (.delayed c) ids = some (db, v) ∧
      s' = { s with db }.setDelayed c (if v.isSome then .finished else .deleting) := by
  obtain ⟨⟨db, v⟩, hd, rfl⟩ := Option.map_eq_some_iff.mp h
  exact ⟨db, v, hd, rfl⟩

/-- `send_delayed_messages` stops at the first message it cannot hand over. -/
theorem sendDelayed_cases {s s' : Server} {c : ConnId} {rows : List Row} {ids : List Nat}
    (hw : s.registry.WellFormed) (h : s.sendDelayed c rows ids = some s') :
    s.deleteSent c ids = some s' ∨ ∃ row rest s₁, rows = row :: rest ∧
      s.addMessageToQueue (s.connection c).indices.index (s.connection c).indices.generation
        row.data (.delayed c) = some (s₁, .suspended) ∧
      s' = s₁.setDelayed c (.sending row rest ids) := by
  cases rows with
  | nil => exact .inl h
  | cons row rest =>
    obtain ⟨⟨s₁, r⟩, hq, h⟩ := Option.bind_eq_some_iff.mp h
    obtain ⟨rfl, code, rfl, hcode⟩ | ⟨d, rfl, -, -⟩ := addMessageToQueue_cases hw hq
    · cases code with
      | success => exact absurd rfl hcode
      | _ => exact .inl h
    · cases h
      exact .inr ⟨row, rest, s₁, rfl, hq, rfl⟩

theorem sendDelayed_same {s s' : Server} {c : ConnId} {rows : List Row} {ids : List Nat}
    (hw : s.registry.WellFormed) (h : s.sendDelayed c rows ids = some s') : Same s s' := by
  obtain h | ⟨row, rest, s₁, -, hq, rfl⟩ := sendDelayed_cases hw h
  · obtain ⟨db, v, -, rfl⟩ := deleteSent_cases h
    exact ⟨rfl, rfl, rfl, rfl⟩
  · have hs : Same s₁ (s₁.setDelayed c (.sending row rest ids)) := ⟨rfl, rfl, rfl, rfl⟩
    exact (addMessageToQueue_same hw hq).trans hs

theorem sendDelayedMessages_same {s s' : Server} {c : ConnId} (hw : s.registry.WellFormed)
    (h : s.sendDelayedMessages c = some s') : Same s s' := by
  obtain ⟨⟨db, v⟩, -, h⟩ := Option.bind_eq_some_iff.mp h
  split at h
  · rename_i rows heq
    cases heq
    have hs : Same s { s with db } := ⟨rfl, rfl, rfl, rfl⟩
    exact hs.trans (sendDelayed_same hw h)
  · cases h
    exact ⟨rfl, rfl, rfl, rfl⟩

theorem socketCoroutine_db (s : Server) (c : ConnId) : (s.socketCoroutine c).db = s.db := by
  obtain ⟨channel, signal, state, he, -⟩ := s.socketCoroutine_eq c
  rw [he]

theorem socketCoroutine_same (s : Server) (c : ConnId) : Same s (s.socketCoroutine c) := by
  obtain ⟨channel, signal, state, he, -⟩ := s.socketCoroutine_eq c
  rw [he]
  exact ⟨rfl, rfl, rfl, rfl⟩

theorem writeMessages_same (s : Server) (c : ConnId) (data : ClientData) (q : ConnId) :
    Same s (s.writeMessages c data q) := by
  unfold writeMessages
  split
  · exact s.socketCoroutine_same c
  · exact ⟨rfl, rfl, rfl, rfl⟩

/-- The queues stay, what has been written, and every `send_delayed_messages`. -/
structure Stays (s s' : Server) : Prop where
  messages : s'.messages = s.messages
  written : s'.written = s.written
  delayed : s'.delayed = s.delayed
  torn : s'.torn = s.torn

theorem asyncSend_stays (s : Server) (c : ConnId) (t : Task) : Stays s (s.asyncSend c t) := by
  obtain ⟨channel, signal, he⟩ := s.asyncSend_eq c t
  rw [he]
  exact ⟨rfl, rfl, rfl, rfl⟩

theorem socketCoroutine_stays (s : Server) (c : ConnId) : Stays s (s.socketCoroutine c) := by
  obtain ⟨channel, signal, state, he, -⟩ := s.socketCoroutine_eq c
  rw [he]
  exact ⟨rfl, rfl, rfl, rfl⟩

theorem writeMessages_stays (s : Server) (c : ConnId) (data : ClientData) (q : ConnId) :
    Stays s (s.writeMessages c data q) := by
  unfold writeMessages
  split
  · exact s.socketCoroutine_stays c
  · exact ⟨rfl, rfl, rfl, rfl⟩

theorem signalled_same (s : Server) (c : ConnId) : Same s (s.signalled c) := by
  unfold signalled
  split
  · split
    · exact s.writeMessages_same c _ _
    · exact s.socketCoroutine_same c
  · exact s.socketCoroutine_same c

/-- The server when `start` has its answer and has not spawned `send_delayed_messages`. -/
def answered (s : Server) (c : ConnId) (indices : ClientIndex) : Server :=
  { s with
    connection := Function.update s.connection c { s.connection c with indices }
    answer := Function.update s.answer c (some indices) }.setStart c .readGreetings

theorem answered_registry (s : Server) (c : ConnId) (indices : ClientIndex) :
    (s.answered c indices).registry = s.registry.answered c indices :=
  registry_setStart _ c _

/-- The server when `add_client` has entered the connection in both tables. -/
def emplaced (s : Server) (c : ConnId) (v : SlotVector Client) (indices : ClientIndex) :
    Server :=
  { s with
    clientsSlotVector := v
    clientIndices := Function.update s.clientIndices (s.connection c).publicKey (some indices) }

theorem userAdded_cases {s s' : Server} {c : ConnId} {dbIndex : Nat}
    (h : s.userAdded c dbIndex = some s') : ∃ g v,
    s.clientsSlotVector.emplaceBack (.new c) = some (g, v) ∧
      (((s.emplaced c v { g with dbIndex }).socketCoroutine c).answered c
        { g with dbIndex }).sendDelayedMessages c = some s' := by
  obtain ⟨⟨g, v⟩, hv, h⟩ := Option.bind_eq_some_iff.mp h
  refine ⟨g, v, hv, ?_⟩
  simpa only [loggedIn, answered, emplaced, Function.update_idem] using h

theorem addClient_cases {s s' : Server} {c : ConnId} (h : s.addClient c = some s') :
    (s.clientIndices (s.connection c).publicKey ≠ none ∧
      (s.answered c .empty).sendDelayedMessages c = some s') ∨
    (s.clientIndices (s.connection c).publicKey = none ∧
      ∃ db v, s.db.addUser (.start c) (s.connection c).publicKey = some (db, v) ∧
        ((∃ id, v = some (.userId id) ∧ { s with db }.userAdded c id = some s') ∨
          ((∀ id, v ≠ some (.userId id)) ∧ s' = { s with db }.setStart c .addClient))) := by
  unfold addClient at h
  dsimp only at h
  split at h
  · rename_i hk
    exact .inl ⟨by simpa [Option.isSome_iff_ne_none] using hk, h⟩
  · rename_i hk
    refine .inr ⟨by simpa using hk, ?_⟩
    obtain ⟨⟨db, v⟩, hd, h⟩ := Option.bind_eq_some_iff.mp h
    refine ⟨db, v, hd, ?_⟩
    split at h
    · rename_i id heq
      cases heq
      exact .inl ⟨id, rfl, h⟩
    · rename_i hv heq
      cases heq
      cases h
      exact .inr ⟨hv, rfl⟩

theorem getClientIndex_cases {s : Server} {key : PublicKey} {lookup : Bool} {r : ClientIndex}
    (h : s.getClientIndex key lookup = some r) :
    (s.clientIndices key = none ∧
        r = ⟨invalidIndex, invalidIndex, s.db.getDbIndex key lookup⟩) ∨
      ∃ e slot, s.clientIndices key = some e ∧
        s.clientsSlotVector.slotAt e.index = some slot ∧
        (slot.object = none ∧ r = .empty ∨ ∃ client, slot.object = some client ∧
          r = ⟨e.index, slot.generation, e.dbIndex⟩ ∧ r.index ≠ invalidIndex) := by
  unfold getClientIndex at h
  cases hk : s.clientIndices key with
  | none =>
    simp only [hk, Option.some.injEq] at h
    exact .inl ⟨rfl, h.symm⟩
  | some e =>
    simp only [hk] at h
    obtain ⟨slot, hs, rfl⟩ := Option.map_eq_some_iff.mp h
    refine .inr ⟨e, slot, rfl, hs, ?_⟩
    cases ho : slot.object with
    | none => exact .inl ⟨rfl, by simp⟩
    | some client =>
      refine .inr ⟨client, rfl, by simp, ?_⟩
      intro hi
      simp only [Option.isNone_some, Bool.false_eq_true, if_false] at hi
      rw [hi, SlotVector.slotAt_invalid] at hs
      cases hs

/-- A relay stores the message, or puts it into the queue of the client its entry leads
to. The handle is of this moment, so no try fails and none is repeated. -/
theorem relay_cases {s s' : Server} {c : ConnId} {recipient : PublicKey} {message : Message}
    {lookup : Bool} {tries : Nat} (hw : s.registry.WellFormed)
    (h : s.relay c recipient message lookup tries = some s') :
    (∃ r s₁, s.getClientIndex recipient lookup = some r ∧ r.index = invalidIndex ∧
        s.addMessageToDb r.dbIndex message = some s₁ ∧ s' = s₁.setStart c .readGreetings) ∨
      ∃ e d generation, s.clientIndices recipient = some e ∧
        s.clientsSlotVector.slotAt e.index = some ⟨some (.new d), generation⟩ ∧
        s' = ((s.push d message).asyncSend d (.start c)).setStart c .addMessageToQueue := by
  obtain ⟨again, h⟩ : ∃ again, s.tryRelay c recipient message lookup again = some s' := by
    cases tries with
    | zero => exact ⟨_, h⟩
    | succ tries => exact ⟨_, h⟩
  obtain ⟨r, hr, h⟩ := Option.bind_eq_some_iff.mp h
  split at h
  · rename_i hi
    obtain ⟨s₁, hs, rfl⟩ := Option.map_eq_some_iff.mp h
    exact .inl ⟨r, s₁, hr, hi, hs, rfl⟩
  · rename_i hi
    obtain ⟨-, rfl⟩ | ⟨e, ⟨object, generation⟩, hk, hs, ⟨-, rfl⟩ | ⟨client, ho, rfl, -⟩⟩ :=
      getClientIndex_cases hr
    · exact absurd rfl hi
    · exact absurd rfl hi
    · obtain rfl : object = some client := ho
      obtain ⟨d, rfl⟩ := hw.objects _ _ client hs rfl
      simp only [addMessageToQueue, hs, Option.bind_some, ne_eq, not_true, if_false, Client.new,
        Option.map_some, Option.some.injEq] at h
      exact .inr ⟨e, d, generation, hk, hs, h.symm⟩

/-- Connections that have not been accepted have not begun. -/
def Numbered (s : Server) : Prop := ∀ c, s.accepted ≤ c → s.start c = .unborn

/-- The registry steps of a step of the server. -/
def events (s : Server) : Action → List Registry.Action
  | .keyFails c bytes => [.fail c (partialKey bytes)]
  | .keyRead c key =>
    if s.clientIndices key ≠ none then [.reject c key]
    else
      match s.db.addUser (.start c) key with
      | some (_, some (.userId id)) => [.login c key, .grant c id]
      | _ => [.login c key]
  | .greetings c g =>
    match Proto.parseGreetings s.native g with
    | .error _ => [.close c]
    | .ok _ => []
  | .readFails c => [.close c]
  | .resume (.start c) =>
    match s.start c, s.db.resume (.start c) with
    | .addClient, some (_, some (.userId id)) => [.grant c id]
    | _, _ => []
  | _ => []

theorem endConnection_registry (s : Server) (c : ConnId) :
    (s.endConnection c).registry = s.registry.remove c :=
  registry_setStart _ c _

theorem userAdded_registry {s s' : Server} {c : ConnId} {dbIndex : Nat}
    (hw : s.registry.WellFormed) (h : s.userAdded c dbIndex = some s') : ∃ g v,
    s.clientsSlotVector.emplaceBack (.new c) = some (g, v) ∧
      s'.registry = (s.registry.emplaced c v { g with dbIndex }).answered c { g with dbIndex } ∧
      s'.start = Function.update s.start c .readGreetings ∧ s'.accepted = s.accepted ∧
      s'.frames = s.frames := by
  obtain ⟨g, v, hv, h⟩ := userAdded_cases h
  have hsame := socketCoroutine_same (s.emplaced c v { g with dbIndex }) c
  have hr : (((s.emplaced c v { g with dbIndex }).socketCoroutine c).answered c
      { g with dbIndex }).registry =
        (s.registry.emplaced c v { g with dbIndex }).answered c { g with dbIndex } := by
    rw [answered_registry, hsame.registry]
    rfl
  have hw' := (hw.emplace hv dbIndex).answer c (g := { g with dbIndex })
    (fun _ => by simp [Registry.emplaced, (SlotVector.emplaceBack_cases hv).2.1])
  have hend := sendDelayedMessages_same (by rw [hr]; exact hw') h
  refine ⟨g, v, hv, hend.registry.trans hr, ?_, hend.accepted.trans hsame.accepted,
    hend.frames.trans hsame.frames⟩
  rw [hend.start, answered, setStart, hsame.start]
  rfl

theorem Numbered.same {s s' : Server} (hn : s.Numbered) (h : Same s s') : s'.Numbered := by
  intro c hc
  rw [h.start]
  exact hn c (h.accepted ▸ hc)

theorem Numbered.update {s s' : Server} (hn : s.Numbered) {c : ConnId} {state : StartState}
    (hc : s.start c ≠ .unborn) (hs : s'.start = Function.update s.start c state)
    (ha : s'.accepted = s.accepted) : s'.Numbered := by
  intro d hd
  have hdu := hn d (ha ▸ hd)
  have hdc : d ≠ c := fun hdc => hc (hdc ▸ hdu)
  rw [hs, Function.update_of_ne hdc, hdu]

theorem addClient_registry {s s' : Server} {c : ConnId} {key : PublicKey} (hn : s.Numbered)
    (hw : s.registry.WellFormed) (hc : s.start c = .readKey)
    (h : (s.setKey c key).addClient c = some s') :
    Lts.run Registry.step s.registry (s.events (.keyRead c key)) = some s'.registry ∧
      s'.Numbered ∧ s'.frames = s.frames := by
  have hkey : ((s.setKey c key).connection c).publicKey = key := by simp [Server.setKey]
  have hphase : s.registry.phase c = .fresh := by simp [registry, hc, StartState.phase]
  have hu : s.start c ≠ .unborn := by simp [hc]
  obtain ⟨hk, h⟩ | ⟨hk, db, v, hd, hv⟩ := addClient_cases h
  · rw [hkey] at hk
    have hr : ((s.setKey c key).answered c .empty).registry =
        (s.registry.setKey c key).answered c .empty := answered_registry _ c _
    have hw' := (hw.setKey c key).answer c (g := .empty) fun hg => absurd rfl hg
    have hsame := sendDelayedMessages_same (by rw [hr]; exact hw') h
    have hk' : s.clientIndices key ≠ none := hk
    have hk'' : s.registry.clientIndices key ≠ none := hk
    have hn' : ((s.setKey c key).answered c .empty).Numbered := hn.update hu rfl rfl
    refine ⟨?_, hn'.same hsame, hsame.frames⟩
    rw [events, if_pos hk', Lts.run_single, hsame.registry, hr, Registry.step,
      if_pos ⟨hphase, hk''⟩]
  · rw [hkey] at hk hd
    have hk' : ¬ s.clientIndices key ≠ none := fun hne => hne hk
    have hlogin : s.registry.step (.login c key) =
        some ((s.registry.setKey c key).setPhase c .adding) := by
      rw [Registry.step, if_pos ⟨hphase, hk⟩]
    obtain ⟨id, rfl, h⟩ | ⟨hv, rfl⟩ := hv
    · obtain ⟨g, w, hemp, hreg, hstart, hacc, hframes⟩ :=
        userAdded_registry (s := { s.setKey c key with db }) (hw.setKey c key) h
      refine ⟨?_, hn.update hu hstart hacc, hframes⟩
      have hd' : s.db.addUser (.start c) key = some (db, some (.userId id)) := hd
      simp only [events, hk', if_false, hd']
      refine Lts.run_cons.mpr ⟨_, hlogin, Lts.run_single.mpr ?_⟩
      have hemp' : ((s.registry.setKey c key).setPhase c .adding).clientsSlotVector.emplaceBack
          (.new c) = some (g, w) := hemp
      have hph : ((s.registry.setKey c key).setPhase c .adding).phase c = .adding := by
        simp [Registry.setPhase]
      rw [Registry.step, if_pos hph, hemp', hreg]
      exact congrArg some (Registry.answered_setPhase
        ((s.registry.setKey c key).emplaced c w { g with dbIndex := id }) c .adding _)
    · refine ⟨?_, hn.update hu (c := c) rfl rfl, rfl⟩
      have hd' : s.db.addUser (.start c) key = some (db, v) := hd
      have hev : s.events (.keyRead c key) = [.login c key] := by
        simp only [events, hk', if_false, hd']
        split
        · rename_i heq
          cases heq
          exact absurd rfl (hv _)
        · rfl
      rw [hev, Lts.run_single, hlogin, registry_setStart]
      rfl

theorem resume_registry {s s' : Server} {t : Task} (hn : s.Numbered)
    (hw : s.registry.WellFormed) (h : s.resume t = some s') :
    Lts.run Registry.step s.registry (s.events (.resume t)) = some s'.registry ∧
      s'.Numbered ∧ s'.frames = s.frames := by
  have hsame : ∀ {s' : Server}, Same s s' → s.events (.resume t) = [] →
      Lts.run Registry.step s.registry (s.events (.resume t)) = some s'.registry ∧
        s'.Numbered ∧ s'.frames = s.frames := by
    intro s' hs he
    rw [he, hs.registry]
    exact ⟨rfl, hn.same hs, hs.frames⟩
  have hdb : ∀ db, Same s { s with db } := fun db => ⟨rfl, rfl, rfl, rfl⟩
  cases resume_cases h with
  | userAdded c db id _ hc hd h =>
    obtain ⟨g, w, hemp, hreg, hstart, hacc, hframes⟩ :=
      userAdded_registry (s := { s with db }) hw h
    refine ⟨?_, hn.update (by simp [hc]) hstart hacc, hframes⟩
    have hemp' : s.registry.clientsSlotVector.emplaceBack (.new c) = some (g, w) := hemp
    have hph : s.registry.phase c = .adding := by simp [registry, hc, StartState.phase]
    simp only [events, hc, hd]
    rw [Lts.run_single, Registry.step, if_pos hph, hemp', hreg]
    rfl
  | addUser c db v hc hd hv =>
    refine hsame (hdb db) ?_
    simp only [events, hc, hd]
    split
    · rename_i heq
      cases heq
      exact absurd rfl (hv _)
    · rfl
  | relayed c hc =>
    have hph : s.registry.phase c = .running := by simp [registry, hc, StartState.phase]
    refine ⟨?_, hn.update (by simp [hc]) rfl rfl, rfl⟩
    simp only [events, hc, registry_setStart]
    exact congrArg some (setPhase_self hph).symm
  | signalled c => exact hsame (s.signalled_same c) rfl
  | socketAborted c => exact hsame ⟨rfl, rfl, rfl, rfl⟩ rfl
  | fetched c db rows _ hc hd h => exact hsame ((hdb db).trans (sendDelayed_same hw h)) rfl
  | fetching c db => exact hsame (hdb db) rfl
  | taken c current rest sent _ hc hs h => exact hsame (sendDelayed_same hw h) rfl
  | aborted c current rest sent _ hc hs h =>
    obtain ⟨db, v, -, rfl⟩ := deleteSent_cases h
    exact hsame ⟨rfl, rfl, rfl, rfl⟩ rfl
  | deleted c => exact hsame ⟨rfl, rfl, rfl, rfl⟩ rfl
  | stored n db => exact hsame (hdb db) rfl

theorem relay_registry {s s' : Server} {c : ConnId} {recipient : PublicKey} {message : Message}
    {lookup : Bool} {tries : Nat} (hw : s.registry.WellFormed)
    (hc : s.registry.phase c = .running)
    (h : s.relay c recipient message lookup tries = some s') :
    s'.registry = s.registry ∧ s'.accepted = s.accepted ∧ s'.frames = s.frames ∧
      ∃ state, s'.start = Function.update s.start c state := by
  obtain ⟨r, s₁, -, -, hs, rfl⟩ | ⟨e, d, generation, -, -, rfl⟩ := relay_cases hw h
  · obtain ⟨db, v, -, rfl⟩ := addMessageToDb_cases hs
    refine ⟨?_, rfl, rfl, _, rfl⟩
    rw [registry_setStart]
    exact setPhase_self hc
  · have hp : Same s (s.push d message) := ⟨rfl, rfl, rfl, rfl⟩
    have hs := hp.trans (asyncSend_same (s.push d message) d (.start c))
    refine ⟨?_, hs.accepted, hs.frames, .addMessageToQueue, by rw [setStart, hs.start]⟩
    rw [registry_setStart, hs.registry]
    exact setPhase_self hc

/-- A step of the server is a run of its registry. -/
theorem step_registry {s s' : Server} {a : Action} (hn : s.Numbered) (hw : s.registry.WellFormed)
    (h : s.step a = some s') :
    Lts.run Registry.step s.registry (s.events a) = some s'.registry ∧ s'.Numbered := by
  have hsame : ∀ {s' : Server}, Same s s' → s.events a = [] →
      Lts.run Registry.step s.registry (s.events a) = some s'.registry ∧ s'.Numbered := by
    intro s' hs he
    rw [he, hs.registry]
    exact ⟨rfl, hn.same hs⟩
  have hclose : ∀ {c}, (s.start c).phase = .running → s.events a = [.close c] →
      Lts.run Registry.step s.registry (s.events a) = some (s.endConnection c).registry ∧
        (s.endConnection c).Numbered := by
    intro c hc he
    have hph : s.registry.phase c = .running := hc
    refine ⟨?_, hn.update (c := c) ?_ rfl rfl⟩
    · rw [he, Lts.run_single, Registry.step, if_pos hph, endConnection_registry]
    · intro hu
      simp [hu, StartState.phase] at hc
  have hdb : ∀ db, Same s { s with db } := fun db => ⟨rfl, rfl, rfl, rfl⟩
  cases step_cases h with
  | accept =>
    have hu := hn s.accepted (Nat.le_refl _)
    have hreg : (s.setStart s.accepted .readKey).registry = s.registry := by
      rw [registry_setStart]
      exact setPhase_self (by simp [registry, hu, StartState.phase])
    refine ⟨congrArg some hreg.symm, ?_⟩
    intro c hc
    have hcs : s.accepted ≤ c ∧ c ≠ s.accepted := by
      simp only at hc
      omega
    simpa [Function.update_of_ne hcs.2] using hn c hcs.1
  | keyFails c bytes hc =>
    have hph : s.registry.phase c = .fresh := by simp [registry, hc, StartState.phase]
    refine ⟨?_, hn.update (c := c) (by simp [hc]) rfl rfl⟩
    rw [events, Lts.run_single, Registry.step, if_pos hph, endConnection_registry]
    rfl
  | keyRead c key _ hc h =>
    obtain ⟨hr, hn', -⟩ := addClient_registry hn hw hc h
    exact ⟨hr, hn'⟩
  | badGreetings c g e hc hp =>
    exact hclose (by simp [hc, StartState.phase]) (by simp [events, hp])
  | greetings c g size recipient hc hp =>
    refine ⟨?_, hn.update (c := c) (by simp [hc]) rfl rfl⟩
    simp only [events, hp, registry_setStart]
    exact congrArg some (setPhase_self (by simp [registry, hc, StartState.phase])).symm
  | message c bytes lookup size recipient _ hc h =>
    have hph : s.registry.phase c = .running := by simp [registry, hc, StartState.phase]
    obtain ⟨hr, ha, -, state, hs⟩ := relay_registry
      (s := s.addFrame (s.frame c size recipient bytes)) hw hph h
    exact ⟨congrArg some hr.symm, hn.update (by simp [hc]) hs ha⟩
  | readFails c hc => exact hclose hc rfl
  | written c socket q channel message front rest =>
    refine hsame (Same.trans ?_ (writeMessages_same (s.popped socket q message rest) c _ q)) rfl
    exact ⟨rfl, rfl, rfl, rfl⟩
  | writtenNone c => exact hsame ⟨rfl, rfl, rfl, rfl⟩ rfl
  | writeFails c => exact hsame ⟨rfl, rfl, rfl, rfl⟩ rfl
  | resume t _ hs =>
    obtain ⟨hr, hn', -⟩ := resume_registry hn hw h
    exact ⟨hr, hn'⟩
  | cancel c t channel => exact hsame ⟨rfl, rfl, rfl, rfl⟩ rfl
  | loop db | execute db | executeThrows db => exact hsame (hdb db) rfl

end MydakServer.Server
