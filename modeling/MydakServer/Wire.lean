import MydakServer.Clients
import MydakServer.Waiting

/-! What a socket carries: whole messages, and last a part of one whose write has failed; and
when nothing more can come there. -/
namespace MydakServer.Server

/-- The socket of a login carries the first of these messages, one after the other, and perhaps a
part of the next one. -/
def Transmits (s : Server) (c : ConnId) (ms : List Message) : Prop :=
  ∃ rest, s.written c ++ rest = ms ∧ (s.torn c = [] ∨ ∃ m n, rest.head? = some m ∧
    n < m.data.length ∧ s.torn c = m.data.take n)

/-- A write to a socket that has failed was the last one, and its message is left in the queue. -/
def TornLast (s : Server) : Prop := ∀ c, s.torn c = [] ∨ s.socket c = .terminated ∧
  ∃ m rest n, s.messages c = m :: rest ∧ n < m.data.length ∧ s.torn c = m.data.take n

/-- Messages may yet be written from the queue of the login: it is in its slot, or a coroutine
is writing from it. -/
def drained (s : Server) (c : ConnId) : Bool :=
  s.registered c || (List.range s.accepted).any fun d => (s.socket d).holds c

variable {I : Tables → Prop} {s s' t : Server} {a : Action}

/-- Only a write that fails transfers a part of a message. -/
theorem Move.torn (hm : Move I s a t) : t.torn = s.torn ∨ ∃ c socket n q channel m,
    a = .writeFails c n ∧ s.socket c = .writing ⟨some socket, q, channel⟩ m ∧
      n < m.data.length ∧
        t.torn = Function.update s.torn socket (s.torn socket ++ m.data.take n) := by
  cases hm with
  | grant _ c key g v id =>
    have hstays := ((s.setKey c key).emplaced c v { g with dbIndex := id }).socketCoroutine_stays c
    exact .inl hstays.torn
  | relay c bytes lookup size recipient e d => exact .inl ((s.push d _).asyncSend_stays d _).torn
  | hand c d row => exact .inl ((s.push d row.data).asyncSend_stays d _).torn
  | park c => exact .inl (s.socketCoroutine_stays c).torn
  | wrote c socket q channel m front rest =>
    exact .inl ((s.popped socket q m rest).writeMessages_stays c _ q).torn
  | tear c socket n q channel m hc hn => exact .inr ⟨c, socket, n, q, channel, m, rfl, hc, hn, rfl⟩
  | _ => exact .inl rfl

theorem Settled.torn_step (h : Settled s) (hstep : s.step a = some s') : s'.torn = s.torn ∨
    ∃ c e n m, a = .writeFails c n ∧ s.socket c = .writing (Client.new e).data m ∧
      n < m.data.length ∧ s'.torn = Function.update s.torn e (s.torn e ++ m.data.take n) := by
  obtain ⟨t, hm, ha⟩ := step_move h.steady.sound h.steady.linked hstep
  rw [ha.torn]
  obtain hsame | ⟨c, socket, n, q, channel, m, rfl, hc, hn, ht⟩ := hm.torn
  · exact .inl hsame
  · obtain ⟨e, he⟩ := h.clients c _ m hc
    cases he
    exact .inr ⟨c, socket, n, m, rfl, hc, hn, ht⟩

/-- A coroutine that has terminated does nothing more. -/
theorem Move.terminated (hs : Sound s) (ha : Aside s) (hm : Move I s a t) {c : ConnId}
    (hc : s.socket c = .terminated) : t.socket c = .terminated := by
  have hupdate : ∀ d state, t.socket = Function.update s.socket d state →
      s.socket d ≠ .terminated → t.socket c = .terminated := by
    intro d state ht hd
    have hcd : c ≠ d := by
      rintro rfl
      exact hd hc
    rw [ht, Function.update_of_ne hcd, hc]
  cases hm with
  | grant _ d key g v id state hl =>
    obtain ⟨state', hsock, -⟩ :=
      ((s.setKey d key).emplaced d v { g with dbIndex := id }).socketCoroutine_socket d
    exact hupdate d state' hsock (by simp [socket_of_logs hs ha hl])
  | relay d bytes lookup size recipient e f => exact (congrFun (asyncSend_socket _ f _) c).trans hc
  | hand d f row => exact (congrFun (asyncSend_socket (s.push f row.data) f _) c).trans hc
  | park d hd =>
    obtain ⟨state, hsock, -⟩ := s.socketCoroutine_socket d
    exact hupdate d state hsock (by simp [hd])
  | write d e generation m rest hd => exact hupdate d _ rfl (by simp [hd])
  | wrote d socket q channel m front rest hd =>
    unfold writeMessages at hupdate ⊢
    split at hupdate
    · obtain ⟨state, hsock, -⟩ := (s.popped socket q m rest).socketCoroutine_socket d
      exact hupdate d state hsock (by simp [hd])
    · exact hupdate d _ rfl (by simp [hd])
  | wroteNone d socket q channel m hd => exact hupdate d _ rfl (by simp [hd])
  | tear d socket n q channel m hd => exact hupdate d _ rfl (by simp [hd])
  | terminate d hd => exact hupdate d _ rfl (by simp [hd])
  | _ => exact hc

theorem Settled.terminated (h : Settled s) (hstep : s.step a = some s') {c : ConnId}
    (hc : s.socket c = .terminated) : s'.socket c = .terminated := by
  obtain ⟨t, hm, ha⟩ := step_move h.steady.sound h.steady.linked hstep
  rw [ha.socket]
  exact hm.terminated h.steady.sound h.steady.aside hc

/-- The front of a queue that is not popped stays there. -/
theorem Settled.front (h : Settled s) (hw : WritesOwn s) (hstep : s.step a = some s') {c : ConnId}
    (hc : s.socket c = .terminated) {m : Message} {rest : List Message}
    (hm : s.messages c = m :: rest) : ∃ rest', s'.messages c = m :: rest' := by
  cases step_queues h.steady.sound h.steady.linked hstep with
  | push _ p d state _ hp ha =>
    rw [(queues_of_push ha).1]
    by_cases hcp : c = p.login
    · subst hcp
      exact ⟨rest ++ [p.message], by simp [hm]⟩
    · exact ⟨rest, by rw [Function.update_of_ne hcp, hm]⟩
  | pop d socket q channel message _ hd hm' =>
    obtain ⟨hdata, -⟩ := hw d _ message hd
    cases hdata
    have hcd : c ≠ d := by
      rintro rfl
      simp [hc] at hd
    exact ⟨rest, by rw [hm', Function.update_of_ne hcd, hm]⟩
  | same _ _ _ hm' => exact ⟨rest, by rw [hm', hm]⟩

theorem TornLast.step (h : TornLast s) (hs : Settled s) (hw : WritesOwn s)
    (hstep : s.step a = some s') : TornLast s' := by
  intro c
  have hkeep : s'.torn c = s.torn c → s'.torn c = [] ∨ s'.socket c = .terminated ∧
      ∃ m rest n, s'.messages c = m :: rest ∧ n < m.data.length ∧ s'.torn c = m.data.take n := by
    intro hsame
    rw [hsame]
    obtain hnil | ⟨hc, m, rest, n, hm, hn, htorn⟩ := h c
    · exact .inl hnil
    · obtain ⟨rest', hm'⟩ := hs.front hw hstep hc hm
      exact .inr ⟨hs.terminated hstep hc, m, rest', n, hm', hn, htorn⟩
  obtain hsame | ⟨d, e, n, m, rfl, hd, hn, htorn⟩ := hs.torn_step hstep
  · exact hkeep (by rw [hsame])
  · obtain ⟨hdata, rest, hm⟩ := hw d _ m hd
    cases hdata
    by_cases hcd : c = d
    · subst hcd
      -- nothing was transferred in part before: the coroutine was still writing
      have hnil : s.torn c = [] := (h c).resolve_right fun hc => by simp [hd] at hc
      refine .inr ⟨?_, m, rest, n, ?_, hn, by rw [htorn, Function.update_self, hnil]; rfl⟩
      · cases step_cases hstep with
        | writeFails => simp [setSocket]
      · cases step_cases hstep with
        | writeFails => exact hm
    · exact hkeep (by rw [htorn, Function.update_of_ne hcd])

theorem init_tornLast (native : Proto.Endian) (succeeds : StartStep → Bool) (tables : Tables) :
    TornLast (init native succeeds tables) :=
  fun _ => .inl rfl

/-- The socket of a login carries what was put into its queue, as far as it has come. -/
theorem OwnStreams.transmits {pushed : List Push} (h : OwnStreams s pushed) (ht : TornLast s)
    (c : ConnId) : s.Transmits c (pushedTo pushed c) := by
  refine ⟨s.messages c, h.stream c, (ht c).imp_right ?_⟩
  rintro ⟨-, m, rest, n, hm, hn, htorn⟩
  exact ⟨m, n, by simp [hm], hn, htorn⟩

/-- Only a connection without an answer comes into a slot. -/
theorem Move.registered (hs : Sound s) (hm : Move I s a t) {c : ConnId}
    (hc : t.registered c) : s.registered c ∨ s.answer c = none := by
  have hsame : ∀ u : Server, u.clientsSlotVector = s.clientsSlotVector → u.registered c →
      s.registered c := by
    intro u hu hc
    rwa [Server.registered, hu] at hc
  cases hm with
  | grant _ d key g v id state hl hv =>
    by_cases hcd : c = d
    · subst hcd
      exact .inr (answer_of_logs hs hl)
    · obtain ⟨channel, signal, socket, he, -⟩ :=
        (s.setKey d key).granted_eq d v { g with dbIndex := id }
      rw [he] at hc
      exact .inl (registered_of_emplaced (s := s) { g with dbIndex := id } hv hcd hc)
  | fail d bytes =>
    exact .inl (registered_of_endConnection (s := s.setKey d (partialKey bytes)) hc)
  | close _ d => exact .inl (registered_of_endConnection hc)
  | relay d bytes lookup size recipient e f =>
    obtain ⟨channel, signal, he⟩ := (s.push f _).asyncSend_eq f (.start d)
    exact .inl (hsame _ (by rw [he]; rfl) hc)
  | hand d f row =>
    obtain ⟨channel, signal, he⟩ := (s.push f row.data).asyncSend_eq f (.delayed d)
    exact .inl (hsame _ (by rw [he]; rfl) hc)
  | park d =>
    obtain ⟨channel, signal, state, he, -⟩ := s.socketCoroutine_eq d
    exact .inl (hsame _ (by rw [he]) hc)
  | wrote d socket q channel m front rest =>
    have hslots := congrArg (·.clientsSlotVector)
      (writeMessages_same (s.popped socket q m rest) d ⟨some socket, some q, channel⟩ q).registry
    exact .inl (hsame _ hslots hc)
  | _ => exact .inl hc

theorem Steady.registered (h : Steady s) (hstep : s.step a = some s') {c : ConnId}
    (hc : s'.registered c) : s.registered c ∨ s.answer c = none := by
  obtain ⟨t, hm, ha⟩ := step_move h.sound h.linked hstep
  rw [Server.registered, ha.clientsSlotVector] at hc
  exact hm.registered h.sound hc

/-- Only a connection that has been accepted writes from a queue. -/
theorem drained_of_holds (h : Steady s) {c d : ConnId} (hd : (s.socket d).holds c) :
    s.drained c := by
  simp only [Server.drained, Bool.or_eq_true, List.any_eq_true, List.mem_range]
  refine .inr ⟨d, h.accepted_of_socket fun hunborn => ?_, hd⟩
  simp [hunborn, SocketState.holds] at hd

/-- Nobody begins to write from the queue of a login that has left its slot. -/
theorem Settled.drained (h : Settled s) (hstep : s.step a = some s') {c : ConnId}
    (hc : s'.drained c) : s.drained c ∨ s.answer c = none := by
  obtain ⟨t, hm, ha⟩ := step_move h.steady.sound h.steady.linked hstep
  simp only [Server.drained, Bool.or_eq_true, List.any_eq_true] at hc
  have hregistered : s.registered c → s.drained c := fun hr => by simp [Server.drained, hr]
  obtain hc | ⟨d, -, hd⟩ := hc
  · exact (h.steady.registered hstep hc).imp_left hregistered
  · rw [ha.socket] at hd
    cases hsock : t.socket d with
    | writing data m =>
      simp only [hsock, SocketState.holds, decide_eq_true_eq] at hd
      obtain ⟨m', hw⟩ | ⟨e, i, generation, rfl, hslot⟩ := hm.writing hsock
      · exact .inl (drained_of_holds (d := d) h.steady (by simp [hw, SocketState.holds, hd]))
      · obtain rfl : e = c := Option.some.inj hd
        exact .inl (hregistered (registered_iff.mpr ⟨i, generation, hslot⟩))
    | _ => simp [hsock, SocketState.holds] at hd

/-- Nothing comes to the socket of a login from whose queue nobody writes. -/
theorem Settled.written (h : Settled s) (hstep : s.step a = some s') {c : ConnId}
    (hc : s.drained c = false) : s'.written c = s.written c := by
  cases step_queues h.steady.sound h.steady.linked hstep with
  | push _ p d state _ hp ha => rw [(queues_of_push ha).2]
  | pop d socket q channel m _ hd hm hw =>
    obtain ⟨e, hdata⟩ := h.clients d _ m hd
    cases hdata
    have hce : c ≠ socket := by
      rintro rfl
      have hdrained := drained_of_holds h.steady (c := c) (d := d)
        (by simp [hd, SocketState.holds])
      simp [hdrained] at hc
    rw [hw, Function.update_of_ne hce]
  | same _ _ _ hm hw => rw [hw]

theorem Settled.torn (h : Settled s) (hstep : s.step a = some s') {c : ConnId}
    (hc : s.drained c = false) : s'.torn c = s.torn c := by
  obtain hsame | ⟨d, e, n, m, rfl, hd, -, htorn⟩ := h.torn_step hstep
  · rw [hsame]
  · have hce : c ≠ e := by
      rintro rfl
      have hdrained := drained_of_holds h.steady (c := c) (d := d)
        (by simp [hd, SocketState.holds, Client.new])
      simp [hdrained] at hc
    rw [htorn, Function.update_of_ne hce]

theorem drained_of_unowned {c : ConnId} (hc : s.unowned c) : s.drained c = false := by
  have hregistered := (unregistered_of_unowned hc).2
  simp only [unowned, Bool.and_eq_true, List.all_eq_true, Bool.not_eq_true'] at hc
  simpa [drained, hregistered] using hc.2

/-- A queue that nobody can write from stays so. -/
theorem Settled.undrained {u : Server} (h : Settled s) {c : ConnId} (hc : s.drained c = false)
    (hsome : s.answer c ≠ none) {as : List Action} (hr : Lts.run Server.step s as = some u) :
    u.drained c = false ∧ u.written c = s.written c ∧ u.torn c = s.torn c := by
  obtain ⟨g, hg⟩ := Option.ne_none_iff_exists'.mp hsome
  have hinv := Lts.invariant_all (I := fun u : Server => Settled u ∧ u.answer c = some g ∧
    u.drained c = false ∧ u.written c = s.written c ∧ u.torn c = s.torn c) ?_
    ⟨h, hg, hc, rfl, rfl⟩ hr
  · exact hinv.2.2
  · rintro v a w ⟨hv, hans, hd, hw, ht⟩ hstep
    refine ⟨hv.step hstep, hv.steady.answer_step hans hstep, ?_, (hv.written hstep hd).trans hw,
      (hv.torn hstep hd).trans ht⟩
    by_contra hn
    obtain hdrained | hnone := hv.drained hstep (by simpa using hn)
    · simp [hd] at hdrained
    · simp [hans] at hnone

end MydakServer.Server
