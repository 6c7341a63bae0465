import MydakServer.Backlog
import MydakServer.Clients

/-! Which coroutine waits for which statement: only the one whose state says so. -/
namespace MydakServer.Server
open Database

/-- In its present state the coroutine can wait for the statement. -/
def Waits (s : Server) : Task → Statement → Prop
  | .start c, stmt => s.start c = .addClient ∧
      ((∃ key, stmt = .insertUser key) ∨ ∃ key, stmt = .selectUser key)
  | .delayed c, stmt => (s.delayed c = .fetching ∧ ∃ userId, stmt = .selectMessages userId) ∨
      s.delayed c = .deleting ∧ ∃ ids, stmt = .deleteMessages ids
  | .socket _, _ => False
  | .store n, stmt => n < s.stores ∧ ∃ userId data, stmt = .insertMessage userId data

def Asking (s : Server) : Prop := ∀ t stmt, s.db.asked t = some stmt → s.Waits t stmt

variable {I : Tables → Prop}

theorem init_asking (native : Proto.Endian) (succeeds : StartStep → Bool) (tables : Tables) :
    Asking (init native succeeds tables) := by
  intro t stmt ht
  simp only [init, asked, Database.start, RequestQueue.start_caller] at ht
  cases ht

/-- The statements asked for stay, and so do the states of the coroutines that wait for them. -/
theorem Asking.same {s u : Server} (h : Asking s) (hasked : u.db.asked = s.db.asked)
    (hstart : ∀ c, s.start c = .addClient → s.db.asked (.start c) ≠ none → u.start c = .addClient)
    (hdelayed : ∀ c, s.db.asked (.delayed c) ≠ none → u.delayed c = s.delayed c)
    (hstores : s.stores ≤ u.stores) : Asking u := by
  intro t stmt ht
  rw [hasked] at ht
  have hne : s.db.asked t ≠ none := by simp [ht]
  have hw := h t stmt ht
  cases t with
  | start c => exact ⟨hstart c hw.1 hne, hw.2⟩
  | delayed c =>
    simp only [Waits, hdelayed c hne]
    exact hw
  | socket c => exact hw
  | store n => exact ⟨Nat.lt_of_lt_of_le hw.1 hstores, hw.2⟩

/-- A coroutine has read its results. -/
theorem Asking.released {s : Server} {t : Task} {db : Database Task} (h : Asking s)
    (hr : Released s.db t db) : Asking { s with db } := by
  intro u stmt hu
  have hut : u ≠ t := by
    intro heq
    subst heq
    simp [hr.asked] at hu
  exact h u stmt (by simpa [hr.asked, Function.update_of_ne hut] using hu)

/-- A coroutine asks for a statement that it can wait for. -/
theorem Asking.requested {s : Server} {t : Task} {stmt : Statement} {d : Database Task}
    (h : Asking s) (hr : Requested s.db t stmt d) (hw : s.Waits t stmt) :
    Asking { s with db := d } := by
  intro u stmt' hu
  by_cases hut : u = t
  · subst hut
    simp only [hr.asked, Function.update_self, Option.some.injEq] at hu
    exact hu ▸ hw
  · exact h u stmt' (by simpa [hr.asked, Function.update_of_ne hut] using hu)

theorem asked_none_of_released {d d' : Database Task} {t : Task} (h : Released d t d') :
    d'.asked t = none := by
  simp [h.asked]

/-- A coroutine that waits for nothing goes over to another state. -/
theorem Asking.setDelayed {s : Server} (h : Asking s) {c : ConnId}
    (hc : s.db.asked (.delayed c) = none) (state : DelayedState) :
    Asking (s.setDelayed c state) := by
  refine h.same rfl (fun _ hd _ => hd) (fun d hd => ?_) (Nat.le_refl _)
  have hdc : d ≠ c := by
    intro heq
    subst heq
    exact hd hc
  simp [Server.setDelayed, Function.update_of_ne hdc]

theorem Asking.setStart {s : Server} (h : Asking s) {c : ConnId}
    (hc : s.db.asked (.start c) = none) (state : StartState) : Asking (s.setStart c state) := by
  refine h.same rfl (fun d hs hd => ?_) (fun _ _ => rfl) (Nat.le_refl _)
  have hdc : d ≠ c := by
    intro heq
    subst heq
    exact hd hc
  simpa [Server.setStart, Function.update_of_ne hdc] using hs

theorem Asking.answered {s : Server} (h : Asking s) {c : ConnId}
    (hc : s.db.asked (.start c) = none) (g : ClientIndex) : Asking (s.answered c g) :=
  (h.setStart hc .readGreetings).same rfl (fun _ hd _ => hd) (fun _ _ => rfl) (Nat.le_refl _)

theorem Asking.deleteSent {s s' : Server} {c : ConnId} {ids : List Nat} (h : Asking s)
    (hans : s.db.Answered I) (hc : s.db.asked (.delayed c) = none)
    (hs : s.deleteSent c ids = some s') : Asking s' := by
  obtain ⟨db, v, hd, rfl⟩ := deleteSent_cases hs
  obtain ⟨-, ⟨rfl, rfl⟩ | ⟨rfl, hr⟩⟩ := hans.deleteDelayedMessages hd
  · exact h.setDelayed hc _
  · exact (h.setDelayed hc .deleting).requested (d := db) hr
      (.inr ⟨by simp [Server.setDelayed], ids, rfl⟩)

theorem Asking.sendDelayed {s s' : Server} {c : ConnId} {rows : List Row} {ids : List Nat}
    (hw : s.registry.WellFormed) (h : Asking s) (hans : s.db.Answered I)
    (hc : s.db.asked (.delayed c) = none) (hs : s.sendDelayed c rows ids = some s') :
    Asking s' := by
  obtain hs | ⟨row, rest, s₁, -, hq, rfl⟩ := sendDelayed_cases hw hs
  · exact h.deleteSent hans hc hs
  · obtain ⟨rfl, -⟩ | ⟨d, -, -, rfl⟩ := addMessageToQueue_cases hw hq
    · exact h.setDelayed hc _
    · obtain ⟨channel, signal, he⟩ := (s.push d row.data).asyncSend_eq d (.delayed c)
      rw [he]
      exact Asking.setDelayed (s := { s.push d row.data with signalChannel := _, signal }) h hc _

theorem Asking.sendDelayedMessages {s s' : Server} {c : ConnId} (h : Asking s)
    (hans : s.db.Answered I) (hc : s.db.asked (.delayed c) = none)
    (hs : s.sendDelayedMessages c = some s') : Asking s' := by
  obtain ⟨⟨db, v⟩, hd, hs⟩ := Option.bind_eq_some_iff.mp hs
  obtain ⟨-, ⟨-, rfl, rfl⟩ | ⟨-, rfl, hr⟩⟩ := hans.request hd ⟨_, rfl⟩
  · exact h.deleteSent hans hc (show s.deleteSent c [] = some s' from hs)
  · cases hs
    exact (h.setDelayed hc .fetching).requested (d := db) hr
      (.inl ⟨by simp [Server.setDelayed], _, rfl⟩)

theorem Asking.userAdded {s s' : Server} {c : ConnId} {id : Nat} (h : Asking s)
    (hans : s.db.Answered I) (hc : s.db.asked (.start c) = none)
    (hd : s.db.asked (.delayed c) = none) (hs : s.userAdded c id = some s') : Asking s' := by
  obtain ⟨g, v, -, hs⟩ := userAdded_cases hs
  obtain ⟨channel, signal, state, he, -⟩ :=
    (s.emplaced c v { g with dbIndex := id }).socketCoroutine_eq c
  have hstart : Asking ((s.emplaced c v { g with dbIndex := id }).socketCoroutine c) := by
    rw [he]
    exact h.same rfl (fun _ hd _ => hd) (fun _ _ => rfl) (Nat.le_refl _)
  have hdb := (s.emplaced c v { g with dbIndex := id }).socketCoroutine_db c
  refine Asking.sendDelayedMessages (hstart.answered (by rw [hdb]; exact hc) _) (I := I) ?_ ?_ hs
  · show Answered I ((s.emplaced c v { g with dbIndex := id }).socketCoroutine c).db
    rw [hdb]
    exact hans
  · show ((s.emplaced c v { g with dbIndex := id }).socketCoroutine c).db.asked _ = none
    rw [hdb]
    exact hd

theorem Asking.addClient {s s' : Server} {c : ConnId} (h : Asking s) (hans : s.db.Answered I)
    (hc : s.db.asked (.start c) = none) (hd : s.db.asked (.delayed c) = none)
    (hs : s.addClient c = some s') : Asking s' := by
  obtain ⟨-, hs⟩ | ⟨-, db, v, hdb, hv⟩ := addClient_cases hs
  · exact (h.answered hc .empty).sendDelayedMessages hans hd hs
  · obtain ⟨hans', ⟨-, rfl, rfl⟩ | ⟨-, rfl, hr⟩⟩ := hans.request hdb rfl
    · obtain ⟨id, -, hs⟩ | ⟨hv, -⟩ := hv
      · exact h.userAdded hans hc hd hs
      · exact absurd rfl (hv _)
    · obtain ⟨id, hv, -⟩ | ⟨-, rfl⟩ := hv
      · cases hv
      · exact (h.setStart hc .addClient).requested (d := db) hr
          ⟨by simp [Server.setStart], .inl ⟨_, rfl⟩⟩

theorem Asking.relay {s s' : Server} {c : ConnId} {recipient : PublicKey} {message : Message}
    {lookup : Bool} {tries : Nat} (hw : s.registry.WellFormed) (h : Asking s)
    (hans : s.db.Answered I) (hc : s.db.asked (.start c) = none)
    (hs : s.relay c recipient message lookup tries = some s') : Asking s' := by
  obtain ⟨r, s₁, -, -, hs₁, rfl⟩ | ⟨e, d, generation, -, -, rfl⟩ := relay_cases hw hs
  · obtain ⟨db, v, hd, rfl⟩ := addMessageToDb_cases hs₁
    have hmore : Asking { s.setStart c .readGreetings with stores := s.stores + 1 } :=
      (h.setStart hc .readGreetings).same rfl (fun _ hd _ => hd) (fun _ _ => rfl) (Nat.le_succ _)
    obtain ⟨-, ⟨-, rfl, -⟩ | ⟨-, -, hr⟩⟩ := hans.request hd ⟨_, _, rfl⟩
    · exact hmore
    · exact hmore.requested (d := db) hr ⟨Nat.lt_succ_self _, _, _, rfl⟩
  · obtain ⟨channel, signal, he⟩ := (s.push d message).asyncSend_eq d (.start c)
    rw [he]
    exact (h.setStart hc .addMessageToQueue).same rfl (fun _ hd _ => hd) (fun _ _ => rfl)
      (Nat.le_refl _)

theorem socketCoroutine_stores (s : Server) (c : ConnId) :
    (s.socketCoroutine c).stores = s.stores := by
  obtain ⟨channel, signal, state, he, -⟩ := s.socketCoroutine_eq c
  rw [he]

theorem writeMessages_stores (s : Server) (c : ConnId) (data : ClientData) (q : ConnId) :
    (s.writeMessages c data q).stores = s.stores := by
  unfold writeMessages
  split
  · exact s.socketCoroutine_stores c
  · rfl

theorem signalled_stores (s : Server) (c : ConnId) : (s.signalled c).stores = s.stores := by
  unfold signalled
  split
  · split
    · exact s.writeMessages_stores c _ _
    · exact s.socketCoroutine_stores c
  · exact s.socketCoroutine_stores c

/-- A coroutine that its state does not let wait has asked for nothing. -/
theorem Asking.start_none {s : Server} (h : Asking s) {c : ConnId} (hc : s.start c ≠ .addClient) :
    s.db.asked (.start c) = none := by
  by_contra hn
  obtain ⟨stmt, hs⟩ := Option.ne_none_iff_exists'.mp hn
  exact hc (h (.start c) stmt hs).1

theorem Asking.delayed_none {s : Server} (h : Asking s) {c : ConnId}
    (hf : s.delayed c ≠ .fetching) (hd : s.delayed c ≠ .deleting) :
    s.db.asked (.delayed c) = none := by
  by_contra hn
  obtain ⟨stmt, hs⟩ := Option.ne_none_iff_exists'.mp hn
  obtain ⟨hc, -⟩ | ⟨hc, -⟩ := h (.delayed c) stmt hs
  · exact hf hc
  · exact hd hc

/-- Before `add_client` has answered, `send_delayed_messages` has asked for nothing. -/
theorem Asking.unborn {s : Server} (h : Asking s) (hs : Settled s) {c : ConnId}
    (hc : s.answer c = none) : s.db.asked (.delayed c) = none := by
  have hb := hs.reached.begun c hc
  exact h.delayed_none (by simp [hb]) (by simp [hb])

theorem resume_asking {s s' : Server} {t : Task} (hs : Settled s) (h : Asking s)
    (hstep : s.resume t = some s') : Asking s' := by
  have hans := hs.steady.linked.answered
  have hw := hs.steady.sound.wellFormed
  have hanswer : ∀ c, s.start c = .addClient → s.answer c = none := fun c hc =>
    hs.steady.sound.answer_none (.inr (.inr hc))
  cases resume_cases hstep with
  | userAdded c db id _ hc hd hstep =>
    obtain ⟨ha, stmt, -, ⟨value, -, -, hr⟩ | ⟨key, e, -, hv, -⟩⟩ := hans.resume hd
    · refine (h.released hr).userAdded (s := { s with db }) ha (asked_none_of_released hr) ?_ hstep
      rw [asked_of_released hr (by simp)]
      exact h.unborn hs (hanswer c hc)
    · cases hv
  | addUser c db v hc hd hv =>
    obtain ⟨ha, stmt, -, ⟨value, -, -, hr⟩ | ⟨key, e, -, -, hr, hq⟩⟩ := hans.resume hd
    · exact h.released hr
    · exact (h.released hr).requested (s := { s with db := e }) hq ⟨hc, .inr ⟨key, rfl⟩⟩
  | relayed c hc => exact h.setStart (h.start_none (by simp [hc])) _
  | signalled c hc =>
    have hsame := s.signalled_same c
    have hdb := (hs.steady.linked.signalled c).2
    refine h.same (by rw [hdb]) (fun d hd _ => by rw [hsame.start, hd])
      (fun d _ => by rw [s.signalled_delayed c]) ?_
    exact (signalled_stores s c).ge
  | socketAborted c => exact h.same rfl (fun _ hd _ => hd) (fun _ _ => rfl) (Nat.le_refl _)
  | fetched c db rows _ hc hd hstep =>
    obtain ⟨ha, stmt, -, ⟨value, -, -, hr⟩ | ⟨key, e, -, hv, -⟩⟩ := hans.resume hd
    · exact (h.released hr).sendDelayed (s := { s with db }) hw ha (asked_none_of_released hr) hstep
    · cases hv
  | fetching c db v hc hd hv =>
    obtain ⟨rows, rfl⟩ := hs.steady.linked.fetches hc hd
    exact absurd rfl (hv rows)
  | taken c current rest sent _ hc hsig hstep =>
    exact h.sendDelayed hw hans (h.delayed_none (by simp [hc]) (by simp [hc])) hstep
  | aborted c current rest sent _ hc hsig hstep =>
    exact h.deleteSent hans (h.delayed_none (by simp [hc]) (by simp [hc])) hstep
  | deleted c db v hc hd =>
    obtain ⟨-, stmt, hasked, ⟨value, -, -, hr⟩ | ⟨key, e, rfl, -⟩⟩ := hans.resume hd
    · exact (h.released hr).setDelayed (s := { s with db }) (asked_none_of_released hr) _
    · obtain ⟨-, userId, hstmt⟩ | ⟨-, ids, hstmt⟩ := h _ _ hasked <;> cases hstmt
  | stored n db v hd =>
    obtain ⟨-, stmt, hasked, ⟨value, -, -, hr⟩ | ⟨key, e, rfl, -⟩⟩ := hans.resume hd
    · exact h.released hr
    · obtain ⟨-, userId, data, hstmt⟩ := h _ _ hasked
      cases hstmt

theorem Asking.step {s s' : Server} {a : Action} (hs : Settled s) (h : Asking s)
    (hstep : s.step a = some s') : Asking s' := by
  have hans := hs.steady.linked.answered
  have hw := hs.steady.sound.wellFormed
  have hsame : ∀ {u : Server}, u.db = s.db → u.start = s.start → u.delayed = s.delayed →
      s.stores ≤ u.stores → Asking u := fun hdb hst hdel hn =>
    h.same (by rw [hdb]) (fun d hd _ => by rw [hst, hd]) (fun d _ => by rw [hdel]) hn
  have hends : ∀ c, s.start c ≠ .addClient → ∀ key, Asking ((s.setKey c key).endConnection c) :=
    fun c hc key => Asking.setStart (s := (s.setKey c key).removeClient c _ _)
      (hsame rfl rfl rfl (Nat.le_refl _)) (h.start_none hc) .ended
  have hend : ∀ c, s.start c ≠ .addClient → Asking (s.endConnection c) := fun c hc =>
    Asking.setStart (s := s.removeClient c _ _) (hsame rfl rfl rfl (Nat.le_refl _))
      (h.start_none hc) .ended
  cases step_cases hstep with
  | accept =>
    have hu := hs.steady.sound.numbered s.accepted (Nat.le_refl _)
    exact (h.setStart (h.start_none (by simp [hu])) .readKey).same rfl (fun _ hd _ => hd)
      (fun _ _ => rfl) (Nat.le_refl _)
  | keyFails c bytes hc => exact hends c (by simp [hc]) _
  | keyRead c key _ hc hstep =>
    exact Asking.addClient (s := s.setKey c key) (hsame rfl rfl rfl (Nat.le_refl _)) hans
      (h.start_none (by simp [hc])) (h.unborn hs (hs.steady.sound.answer_none (.inr (.inl hc))))
      hstep
  | badGreetings c g e hc => exact hend c (by simp [hc])
  | greetings c g size recipient hc => exact h.setStart (h.start_none (by simp [hc])) _
  | message c bytes lookup size recipient _ hc hstep =>
    exact Asking.relay (s := s.addFrame (s.frame c size recipient bytes)) hw
      (hsame rfl rfl rfl (Nat.le_refl _)) hans (h.start_none (by simp [hc])) hstep
  | readFails c hc =>
    refine hend c fun heq => ?_
    simp [heq, StartState.phase] at hc
  | written c socket q channel m front rest =>
    have hw' := s.popped socket q m rest |>.writeMessages_same c ⟨some socket, some q, channel⟩ q
    have hst := s.popped socket q m rest |>.writeMessages_stays c ⟨some socket, some q, channel⟩ q
    obtain ⟨-, hdb⟩ := Linked.writeMessages (s := s.popped socket q m rest)
      ⟨hs.steady.linked.answered, hs.steady.linked.adding, hs.steady.linked.fetching⟩ c
      ⟨some socket, some q, channel⟩ q
    exact hsame hdb hw'.start hst.delayed
      (writeMessages_stores (s.popped socket q m rest) c ⟨some socket, some q, channel⟩ q).ge
  | resume t _ hs' => exact resume_asking hs h hstep
  | loop db hd =>
    obtain ⟨-, hk⟩ := hans.runLoop hd
    exact h.same (u := { s with db }) hk.asked (fun _ hd _ => hd) (fun _ _ => rfl) (Nat.le_refl _)
  | execute db hd =>
    obtain ⟨-, -, hasked, -⟩ := hans.execute (fun _ _ _ _ _ => trivial) hd
    exact h.same (u := { s with db }) hasked (fun _ hd _ => hd) (fun _ _ => rfl) (Nat.le_refl _)
  | executeThrows db hd =>
    obtain ⟨-, hk⟩ := hans.executeThrows hd
    exact h.same (u := { s with db }) hk.asked (fun _ hd _ => hd) (fun _ _ => rfl) (Nat.le_refl _)
  | _ => exact hsame rfl rfl rfl (Nat.le_refl _)

end MydakServer.Server
