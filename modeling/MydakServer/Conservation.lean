import MydakServer.Custody

/-! Where each message is that the server has read: on its way to a session, written there,
or stored. -/
namespace MydakServer.Server
open Rendezvous

/-- 1 if `send_delayed_messages` of the connection waits to signal this message. -/
def unsignalled (s : Server) (c : ConnId) (m : Message) : Nat :=
  match s.delayed c with
  | .sending current _ _ =>
    if s.signal (.delayed c) = .waiting ∧ current.data = m then 1 else 0
  | _ => 0

/-- The message has been written to the socket, or is in the queue of the running session
once more than its `send_delayed_messages` may still take back. -/
def InCustody (s : Server) (c : ConnId) (m : Message) : Prop :=
  m ∈ s.written c ∨
    s.registry.phase c = .running ∧ s.unsignalled c m < (s.messages c).count m

/-- Some session of the recipient has the message. -/
def Delivered (s : Server) (m : Message) : Prop := ∃ c g, s.answer c = some g ∧ g ≠ .empty ∧
  (s.connection c).publicKey = m.recipient ∧ s.InCustody c m

variable {I : Tables → Prop}

theorem unsignalled_le {s t : Server} {c : ConnId} (m : Message) (hd : t.delayed c = s.delayed c)
    (hs : t.signal (.delayed c) = .waiting → s.signal (.delayed c) = .waiting) :
    t.unsignalled c m ≤ s.unsignalled c m := by
  unfold unsignalled
  rw [hd]
  cases s.delayed c with
  | sending current rest sent =>
    dsimp only
    by_cases h : t.signal (.delayed c) = .waiting ∧ current.data = m
    · rw [if_pos h, if_pos ⟨hs h.1, h.2⟩]
    · rw [if_neg h]
      exact Nat.zero_le _
  | _ => exact Nat.le_refl _

theorem unsignalled_sending {s : Server} {c : ConnId} {current : Row} {rest : List Row}
    {sent : List Nat} (m : Message) (hd : s.delayed c = .sending current rest sent) :
    s.unsignalled c m ≤ [current.data].count m := by
  unfold unsignalled
  rw [hd]
  dsimp only
  by_cases h : s.signal (.delayed c) = .waiting ∧ current.data = m
  · rw [if_pos h]
    simp [h.2]
  · rw [if_neg h]
    exact Nat.zero_le _

/-- What waits to be signalled is in the queue, or written already. -/
theorem Custody.unsignalled {s : Server} (h : Custody s) (c : ConnId) (m : Message) :
    m ∈ s.written c ∨ s.unsignalled c m ≤ (s.messages c).count m := by
  cases hd : s.delayed c with
  | sending current rest sent =>
    have hle := unsignalled_sending m hd
    by_cases hm : current.data = m
    · subst hm
      refine (h.handed c current rest sent hd).imp_right fun hq => ?_
      have hpos := List.count_pos_iff.mpr hq
      simp only [List.count_singleton_self] at hle
      omega
    · right
      rw [List.count_eq_zero_of_not_mem (by simpa using Ne.symm hm)] at hle
      omega
  | _ => simp [Server.unsignalled, hd]

theorem InCustody.keep {s t : Server} {c : ConnId} {m : Message} (h : s.InCustody c m)
    (hphase : t.registry.phase c = s.registry.phase c) (hmessages : t.messages c = s.messages c)
    (hwritten : t.written c = s.written c) (hun : t.unsignalled c m ≤ s.unsignalled c m) :
    t.InCustody c m := by
  obtain hw | ⟨hp, hu⟩ := h
  · exact .inl (hwritten ▸ hw)
  · refine .inr ⟨hphase.trans hp, ?_⟩
    rw [hmessages]
    omega

theorem InCustody.alike {s s' : Server} {c : ConnId} {m : Message} (h : s.InCustody c m)
    (ha : Alike s s') : s'.InCustody c m :=
  h.keep (by rw [ha.registry]) (by rw [ha.messages]) (by rw [ha.written])
    (unsignalled_le m (by rw [ha.delayed]) (by rw [ha.signal]; exact id))

theorem Delivered.alike {s s' : Server} {m : Message} (h : s.Delivered m) (ha : Alike s s') :
    s'.Delivered m := by
  obtain ⟨c, g, hg, hne, hk, hm⟩ := h
  exact ⟨c, g, by rw [ha.answer, hg], hne, by rw [ha.connection, hk], hm.alike ha⟩

/-- Sends are received by socket coroutines only. -/
theorem Custody.signal_asyncSend {s : Server} (h : Custody s) {d c : ConnId} {t : Task}
    (ht : Task.delayed c ≠ t) : (s.asyncSend d t).signal (.delayed c) = s.signal (.delayed c) := by
  obtain ⟨channel, ⟨-, -, -, he⟩ | ⟨r, hr, -, he⟩⟩ := s.asyncSend_cases d t
  · simp [he, Function.update_of_ne ht]
  · obtain rfl := h.receivers d r (hr ▸ List.mem_cons_self)
    simp [he, Function.update_of_ne ht]

theorem signal_socketCoroutine {s : Server} {c d : ConnId}
    (hs : (s.socketCoroutine c).signal (.delayed d) = .waiting) :
    s.signal (.delayed d) = .waiting := by
  by_cases hc : s.start c = .ended
  · simpa [socketCoroutine, hc, setSocket] using hs
  · obtain ⟨channel, ⟨-, -, -, he⟩ | ⟨t, -, -, he⟩⟩ := socketCoroutine_cases hc
    · simpa [he] using hs
    · by_cases ht : Task.delayed d = t
      · subst ht
        simp [he] at hs
      · simpa [he, Function.update_of_ne ht] using hs

theorem signal_writeMessages {s : Server} {c d q : ConnId} {data : ClientData}
    (hs : (s.writeMessages c data q).signal (.delayed d) = .waiting) :
    s.signal (.delayed d) = .waiting := by
  unfold writeMessages at hs
  split at hs
  · exact signal_socketCoroutine hs
  · exact hs

/-- A settled session that ends has nothing that only it has. -/
theorem InCustody.written_of_settled {s : Server} {c : ConnId} {m : Message}
    (h : s.InCustody c m) (hc : s.settled c) : m ∈ s.written c := by
  obtain hw | ⟨-, hu⟩ := h
  · exact hw
  · exfalso
    have hempty : s.messages c = [] → False := by
      intro he
      simp [he] at hu
    unfold settled at hc
    split at hc
    · simp only [Bool.and_eq_true, List.isEmpty_iff] at hc
      exact hempty hc.2
    · simp only [Bool.or_eq_true, List.isEmpty_iff] at hc
      obtain he | hc := hc
      · exact hempty he
      · split at hc
        · rename_i current rest sent hd
          simp only [Bool.and_eq_true, decide_eq_true_eq] at hc
          obtain ⟨hsig, hq⟩ := hc
          simp only [unsignalled, hd, hsig, true_and, hq, List.count_singleton, beq_iff_eq] at hu
          omega
        · cases hc
    · cases hc

theorem count_push_self (s : Server) (d : ConnId) (m x : Message) :
    ((s.push d x).messages d).count m = (s.messages d).count m + [x].count m := by
  simp only [Server.push, Function.update_self, List.count_append]

theorem le_count_push (s : Server) (c d : ConnId) (m x : Message) :
    (s.messages c).count m ≤ ((s.push d x).messages c).count m := by
  by_cases hcd : c = d
  · subst hcd
    rw [count_push_self]
    exact Nat.le_add_right _ _
  · simp [Server.push, Function.update_of_ne hcd]

theorem InCustody.push {s : Server} (h : Custody s) {d c : ConnId} {m x : Message} {t : Task}
    (ht : Task.delayed c ≠ t) (hm : s.InCustody c m) :
    ((s.push d x).asyncSend d t).InCustody c m := by
  obtain ⟨hmess, hwr, hdel⟩ := (s.push d x).asyncSend_stays d t
  have hun : ((s.push d x).asyncSend d t).unsignalled c m ≤ s.unsignalled c m :=
    unsignalled_le m (by rw [hdel]; rfl) (by rw [(h.push d x).signal_asyncSend ht]; exact id)
  obtain hw | ⟨hp, hu⟩ := hm
  · exact .inl (by rw [hwr]; exact hw)
  · refine .inr ⟨?_, ?_⟩
    · rw [(asyncSend_same (s.push d x) d t).registry]
      exact hp
    · rw [hmess]
      exact Nat.lt_of_le_of_lt hun (Nat.lt_of_lt_of_le hu (s.le_count_push c d m x))

/-- A message that is handed over to a session takes the place of the one before it. -/
theorem InCustody.hand {s : Server} (hr : Routes s) (h : Custody s) {c d f : ConnId} {row : Row}
    {rest : List Row} {sent : List Nat} (hd : MayHand I s d row rest sent)
    (hf : s.clientsSlotVector.slotAt (s.connection d).indices.index =
      some ⟨some (.new f), (s.connection d).indices.generation⟩) {m : Message}
    (hm : s.InCustody c m) :
    (((s.push f row.data).asyncSend f (.delayed d)).setDelayed d
      (.sending row rest sent)).InCustody c m := by
  by_cases hcd : c = d
  · subst hcd
    obtain rfl : f = c := hr.own c f hd.delivering hf
    -- nothing of it waited to be signalled, and now at most the message just pushed does
    have hzero : s.unsignalled f m = 0 := by
      obtain ⟨hd, -⟩ | ⟨current, sent', hd, hsig, -⟩ := hd <;> simp [Server.unsignalled, *]
    obtain ⟨hmess, hwr, -⟩ := (s.push f row.data).asyncSend_stays f (.delayed f)
    have hst : (((s.push f row.data).asyncSend f (.delayed f)).setDelayed f
        (.sending row rest sent)).delayed f = .sending row rest sent := by
      simp [setDelayed]
    have hone := unsignalled_sending m hst
    obtain hw | ⟨hp, hu⟩ := hm
    · left
      show m ∈ ((s.push f row.data).asyncSend f (.delayed f)).written f
      rw [hwr]
      exact hw
    · refine .inr ⟨?_, ?_⟩
      · show ((s.push f row.data).asyncSend f (.delayed f)).registry.phase f = .running
        rw [(asyncSend_same (s.push f row.data) f (.delayed f)).registry]
        exact hp
      · show _ < (((s.push f row.data).asyncSend f (.delayed f)).messages f).count m
        rw [hmess, count_push_self]
        omega
  · have hpush := hm.push h (d := f) (x := row.data) (t := .delayed d) (by simpa using hcd)
    refine hpush.keep rfl rfl rfl (unsignalled_le m ?_ id)
    simp [setDelayed, Function.update_of_ne hcd]

/-- The message at the front of the queue of a session goes to its socket, and no other. -/
theorem InCustody.wrote {s : Server} {c d : ConnId} {m front : Message} {rest : List Message}
    (hq : s.messages d = front :: rest) (hm : s.InCustody c m) :
    ((s.popped d d front rest).writeMessages d (Client.new d).data d).InCustody c m := by
  obtain ⟨hmess, hwr, hdel⟩ :=
    (s.popped d d front rest).writeMessages_stays d (Client.new d).data d
  have hphase : ((s.popped d d front rest).writeMessages d (Client.new d).data d).registry.phase
      c = s.registry.phase c := by
    rw [(writeMessages_same (s.popped d d front rest) d _ d).registry]
    rfl
  have hun := unsignalled_le (s := s) m (congrFun hdel c) signal_writeMessages
  by_cases hcd : c = d
  · subst hcd
    have hwritten : (s.popped c c front rest).written c = s.written c ++ [front] := by
      simp [popped]
    have hmessages : (s.popped c c front rest).messages c = rest := by
      simp [popped]
    obtain hw | ⟨hp, hu⟩ := hm
    · left
      rw [hwr, hwritten]
      exact List.mem_append_left _ hw
    · by_cases hmf : m = front
      · left
        rw [hwr, hwritten]
        simp [hmf]
      · have hne : front ≠ m := fun he => hmf he.symm
        rw [hq, List.count_cons_of_ne hne] at hu
        refine .inr ⟨hphase.trans hp, ?_⟩
        rw [hmess, hmessages]
        omega
  · refine hm.keep hphase ?_ ?_ hun
    · exact (congrFun hmess c).trans (by simp [popped, Function.update_of_ne hcd])
    · exact (congrFun hwr c).trans (by simp [popped, Function.update_of_ne hcd])

/-- A session that has a message keeps it until it is written. -/
theorem InCustody.move {s t : Server} {a : Action} (hs : Sound s) (hr : Routes s)
    (h : Custody s) (he : s.endsSettled a) (hmove : Move I s a t) {c : ConnId} {g : ClientIndex}
    {m : Message} (hc : s.answer c = some g) (hg : g ≠ .empty) (hm : s.InCustody c m) :
    t.InCustody c m := by
  obtain ⟨-, -, hphase | ⟨rfl, ha⟩⟩ := hmove.session hs hc
  · have hother : ∀ d, s.answer d = none → c ≠ d := by
      intro d hd heq
      subst heq
      simp [hc] at hd
    have hread : ∀ d, s.start d = .readKey → c ≠ d := fun d hd =>
      hother d (hs.answer_none (.inr (.inl hd)))
    cases hmove with
    | other => exact hm
    | login d key => exact hm.keep hphase rfl rfl (unsignalled_le m rfl id)
    | reject d key state hd =>
      refine hm.keep hphase rfl rfl (unsignalled_le m ?_ id)
      simp [setDelayed, Function.update_of_ne (hread d hd), answered, setStart, setKey]
    | grant _ d key g' v id state hd =>
      have hcd := hother d (answer_of_logs hs hd)
      obtain ⟨hmess, hwr, hdel⟩ :=
        ((s.setKey d key).emplaced d v { g' with dbIndex := id }).socketCoroutine_stays d
      refine hm.keep hphase (congrFun hmess c) (congrFun hwr c) (unsignalled_le m ?_ ?_)
      · simp only [setDelayed, Function.update_of_ne hcd]
        exact congrFun hdel c
      · exact signal_socketCoroutine
          (s := (s.setKey d key).emplaced d v { g' with dbIndex := id })
    | fail d bytes => exact hm.keep hphase rfl rfl (unsignalled_le m rfl id)
    | close _ d => exact hm.keep hphase rfl rfl (unsignalled_le m rfl id)
    | relay d bytes lookup size recipient e f => exact hm.push h (by simp)
    | hand d f row rest sent hd hf => exact hm.hand hr h hd hf
    | stop d state hd hstate =>
      refine hm.keep rfl rfl rfl ?_
      by_cases hcd : c = d
      · subst hcd
        obtain rfl | ⟨rfl, -⟩ := hstate <;> simp [unsignalled, setDelayed]
      · exact unsignalled_le m (by simp [setDelayed, Function.update_of_ne hcd]) id
    | park d =>
      obtain ⟨hmess, hwr, hdel⟩ := s.socketCoroutine_stays d
      exact hm.keep hphase (congrFun hmess c) (congrFun hwr c)
        (unsignalled_le m (congrFun hdel c) signal_socketCoroutine)
    | write d e => exact hm.keep rfl rfl rfl (unsignalled_le m rfl id)
    | wrote d socket q channel x front rest hd hq =>
      obtain ⟨hdata, -, rest', hx⟩ := h.writing d _ _ hd
      cases hdata
      obtain ⟨rfl, rfl⟩ := List.cons.inj (hq.symm.trans hx)
      exact hm.wrote hq
    | wroteNone d socket q channel x hd hq =>
      obtain ⟨hdata, -, rest', hx⟩ := h.writing d _ _ hd
      cases hdata
      cases hq.symm.trans hx
    | tear d => exact hm.keep rfl rfl rfl (unsignalled_le m rfl id)
    | terminate d => exact hm.keep rfl rfl rfl (unsignalled_le m rfl id)
    | cancel d u channel hd hu =>
      refine hm.keep rfl rfl rfl (unsignalled_le m rfl fun hsig => ?_)
      by_cases hcu : Task.delayed c = u
      · subst hcu
        simp [setSignal] at hsig
      · simpa [setSignal, setChannel, Function.update_of_ne hcu] using hsig
  · by_cases hp : s.registry.phase c = .running
    · exact .inl (hm.written_of_settled (settled_of_close he ha ⟨g, hp, hc, hg⟩))
    · exact .inl (hm.resolve_right fun hu => hp hu.1)

theorem Delivered.move {s t : Server} {a : Action} (hs : Sound s) (hr : Routes s)
    (h : Custody s) (he : s.endsSettled a) (hmove : Move I s a t) {m : Message}
    (hm : s.Delivered m) : t.Delivered m := by
  obtain ⟨c, g, hc, hg, hk, hm⟩ := hm
  obtain ⟨hc', hconn, -⟩ := hmove.session hs hc
  exact ⟨c, g, hc', hg, by rw [hconn, hk], hm.move hs hr h he hmove hc hg⟩

/-- Messages that `send_delayed_messages` waits to signal come from what it has fetched. -/
theorem Move.sending {s t : Server} {a : Action} (hm : Move I s a t) {c : ConnId} {current : Row}
    {rest : List Row} {sent : List Nat} (hc : t.delayed c = .sending current rest sent) :
    s.delayed c = .sending current rest sent ∨ MayHand I s c current rest sent := by
  have hset : ∀ (u : Server) d state, (∀ current rest sent, state ≠ .sending current rest sent) →
      (u.setDelayed d state).delayed c = .sending current rest sent →
      u.delayed c = .sending current rest sent := by
    intro u d state hstate h
    by_cases hcd : c = d
    · subst hcd
      exact absurd (by simpa [setDelayed] using h) (hstate current rest sent)
    · simpa [setDelayed, Function.update_of_ne hcd] using h
  cases hm with
  | reject d key state hd hk hstate =>
    refine .inl (hset _ d state ?_ hc)
    intro _ _ _ heq
    subst heq
    obtain hs | hs := hstate <;> cases hs
  | grant _ d key g v id state hd hv hev hid hstate =>
    have h := hset _ d state (by
      intro _ _ _ heq
      subst heq
      obtain hs | hs := hstate <;> cases hs) hc
    exact .inl ((congrFun (((s.setKey d key).emplaced d v
      { g with dbIndex := id }).socketCoroutine_stays d).delayed c).symm.trans h)
  | relay d bytes lookup size recipient e f =>
    exact .inl ((congrFun ((s.push f _).asyncSend_stays f _).delayed c).symm.trans hc)
  | hand d f row rest' sent' hd hf =>
    by_cases hcd : c = d
    · subst hcd
      simp only [setDelayed, Function.update_self, DelayedState.sending.injEq] at hc
      obtain ⟨rfl, rfl, rfl⟩ := hc
      exact .inr hd
    · have h := congrFun ((s.push f row.data).asyncSend_stays f (.delayed d)).delayed c
      simp only [setDelayed, Function.update_of_ne hcd] at hc
      exact .inl (h.symm.trans hc)
  | stop d state hd hstate =>
    refine .inl (hset _ d state ?_ hc)
    intro _ _ _ heq
    subst heq
    obtain hs | ⟨hs, -⟩ := hstate <;> cases hs
  | park d => exact .inl ((congrFun (s.socketCoroutine_stays d).delayed c).symm.trans hc)
  | wrote d socket q channel m front rest =>
    exact .inl ((congrFun ((s.popped socket q m rest).writeMessages_stays d _ q).delayed
      c).symm.trans hc)
  | _ => exact .inl hc

theorem taken_socketCoroutine {s : Server} {c d : ConnId}
    (h : ∀ t ∈ (s.signalChannel c).senders, (∃ e, t = .start e) ∨ t = .delayed c)
    (hd : (s.socketCoroutine c).signal (.delayed d) = .taken) :
    d = c ∨ s.signal (.delayed d) = .taken := by
  by_cases hc : s.start c = .ended
  · exact .inr (by simpa [socketCoroutine, hc, setSocket] using hd)
  · obtain ⟨channel, ⟨-, -, -, he⟩ | ⟨t, ht, -, he⟩⟩ := socketCoroutine_cases hc
    · rw [he] at hd
      exact .inr (by simpa using hd)
    · by_cases hdt : Task.delayed d = t
      · subst hdt
        obtain ⟨e, hs⟩ | hs := h _ (ht ▸ List.mem_cons_self)
        · cases hs
        · exact .inl (Task.delayed.inj hs)
      · rw [he] at hd
        exact .inr (by simpa [Function.update_of_ne hdt] using hd)

/-- A message is taken only from a session that is still there. -/
theorem Move.taken {s t : Server} {a : Action} (ho : s.registry.Owned)
    (hr : Routes s) (h : Custody s) (hm : Move I s a t) {c : ConnId} {current : Row}
    {rest : List Row} {sent : List Nat} (hc : t.delayed c = .sending current rest sent)
    (hsig : t.signal (.delayed c) = .taken) :
    t.Live c ∨ s.delayed c = .sending current rest sent ∧ s.signal (.delayed c) = .taken := by
  cases hm with
  | reject d key state hd hk hstate =>
    have hcd : c ≠ d := by
      intro heq
      subst heq
      obtain rfl | rfl := hstate <;> simp [setDelayed] at hc
    exact .inr ⟨by simpa [setDelayed, Function.update_of_ne hcd, answered, setStart, setKey]
      using hc, hsig⟩
  | grant _ d key g v id state hd hv hev hid hstate =>
    have hcd : c ≠ d := by
      intro heq
      subst heq
      obtain rfl | rfl := hstate <;> simp [setDelayed] at hc
    refine .inr ⟨?_, (taken_socketCoroutine (s := (s.setKey d key).emplaced d v
      { g with dbIndex := id }) (h.senders d) hsig).resolve_left hcd⟩
    simp only [setDelayed, Function.update_of_ne hcd] at hc
    exact (congrFun (((s.setKey d key).emplaced d v
      { g with dbIndex := id }).socketCoroutine_stays d).delayed c).symm.trans hc
  | relay d bytes lookup size recipient e f =>
    refine .inr ⟨(congrFun ((s.push f _).asyncSend_stays f _).delayed c).symm.trans hc, ?_⟩
    exact ((h.push f _).signal_asyncSend (by simp)).symm.trans hsig
  | hand d f row rest' sent' hd hf =>
    by_cases hcd : c = d
    · subst hcd
      obtain rfl : f = c := hr.own c f hd.delivering hf
      left
      show ((s.push f row.data).asyncSend f (.delayed f)).Live f
      simp only [Live, (asyncSend_same (s.push f row.data) f (.delayed f)).registry]
      exact live_of_slot ho hf
    · simp only [setDelayed, Function.update_of_ne hcd] at hc
      refine .inr ⟨(congrFun ((s.push f row.data).asyncSend_stays f (.delayed d)).delayed
        c).symm.trans hc, ?_⟩
      exact ((h.push f row.data).signal_asyncSend (by simpa using hcd)).symm.trans hsig
  | stop d state hd hstate =>
    have hcd : c ≠ d := by
      intro heq
      subst heq
      obtain rfl | ⟨rfl, -⟩ := hstate <;> simp [setDelayed] at hc
    exact .inr ⟨by simpa [setDelayed, Function.update_of_ne hcd] using hc, hsig⟩
  | park d hd hsd =>
    obtain rfl | ht := taken_socketCoroutine (h.senders d) hsig
    · left
      simp only [Live, (s.socketCoroutine_same c).registry]
      exact h.signalled c hd hsd
    · exact .inr ⟨(congrFun (s.socketCoroutine_stays d).delayed c).symm.trans hc, ht⟩
  | wrote d socket q channel m front rest hd hq =>
    obtain ⟨hdata, hl, -⟩ := h.writing d _ _ hd
    cases hdata
    by_cases hcd : c = d
    · subst hcd
      left
      simp only [Live, (writeMessages_same (s.popped c c m rest) c _ c).registry]
      exact hl
    · refine .inr ⟨(congrFun ((s.popped d d m rest).writeMessages_stays d _ d).delayed
        c).symm.trans hc, ?_⟩
      unfold writeMessages at hsig
      split at hsig
      · exact (taken_socketCoroutine (s := s.popped d d m rest) (h.senders d)
          hsig).resolve_left hcd
      · exact hsig
  | cancel d u channel =>
    refine .inr ⟨hc, ?_⟩
    by_cases hcu : Task.delayed c = u
    · subst hcu
      simp [setSignal] at hsig
    · simpa [setSignal, setChannel, Function.update_of_ne hcu] using hsig
  | _ => exact .inr ⟨hc, hsig⟩

/-- A message that has been taken is with the session, or on its socket. -/
theorem Delivered.of_taken {s : Server} (hr : Routes s) (h : Custody s) {c : ConnId}
    {current : Row} {rest : List Row} {sent : List Nat} (hl : s.Live c)
    (hc : s.delayed c = .sending current rest sent) (hsig : s.signal (.delayed c) = .taken) :
    s.Delivered current.data := by
  obtain ⟨g, hp, hg, hne⟩ := hl
  have hkey := hr.sending c current rest sent hc current List.mem_cons_self
  refine ⟨c, g, hg, hne, hkey.symm, (h.handed c current rest sent hc).imp_right fun hq => ?_⟩
  have hzero : s.unsignalled c current.data = 0 := by simp [unsignalled, hc, hsig]
  exact ⟨hp, hzero ▸ List.count_pos_iff.mpr hq⟩

/-- The row with this id may be deleted: its message has been handed over. -/
def Cleared (s : Server) (id : Nat) : Prop := ∃ row,
  Tables.Fetched Tables.Addressed s.db.tables row ∧ row.id = id ∧ s.Delivered row.data

/-- A message for a user with a row is with a session of the user, or stored for it, or its
`INSERT` is queued. -/
def Placed (s : Server) (f : Frame) : Prop := ∀ id, f.userId = some id →
  s.Delivered f.message ∨
    (∃ row ∈ s.db.tables.messages, row.userId = id ∧ row.data = f.message) ∨
    .insertMessage id f.message ∈ s.db.pending

/-- A row leaves the tables only when its message has been handed over. -/
structure Kept (s : Server) : Prop where
  fetched : ∀ c current rest sent, s.delayed c = .sending current rest sent →
    ∀ row ∈ current :: rest, Tables.Fetched Tables.Addressed s.db.tables row
  taken : ∀ c current rest sent, s.delayed c = .sending current rest sent →
    s.signal (.delayed c) = .taken → s.Delivered current.data
  sent : ∀ c current rest sent, s.delayed c = .sending current rest sent →
    ∀ id ∈ sent, s.Cleared id
  deletes : ∀ ids, .deleteMessages ids ∈ s.db.pending → ∀ id ∈ ids, s.Cleared id
  placed : ∀ f ∈ s.frames, s.Placed f

theorem init_kept (native : Proto.Endian) (succeeds : StartStep → Bool) (tables : Tables) :
    Kept (init native succeeds tables) := by
  constructor <;> simp [init, Database.start_pending]

/-- A frame for an offline recipient reaches the database. -/
def reachesDatabase (s : Server) (a : Action) : Bool :=
  (s.offlineRelay a).isNone || s.selectSucceeds a

theorem Cleared.step {s s' : Server} {id : Nat} (h : s.Cleared id)
    (he : s.db.tables.Evolves s'.db.tables) (hm : ∀ m, s.Delivered m → s'.Delivered m) :
    s'.Cleared id := by
  obtain ⟨row, hf, hid, hd⟩ := h
  exact ⟨row, hf.evolves he, hid, hm _ hd⟩

/-- What is stored stays stored until it has been handed over. -/
theorem Placed.step {s s' : Server} {a : Action} (h : Kept s) (hd : DbStep s a s')
    (hm : ∀ m, s.Delivered m → s'.Delivered m) {f : Frame} (hf : s.Placed f) : s'.Placed f := by
  intro id hid
  obtain hdel | ⟨row, hrow, hu, he⟩ | hp := hf id hid
  · exact .inl (hm _ hdel)
  · obtain ⟨-, -, -, stmt, r, hpend, hx⟩ | ⟨ht, -⟩ := hd
    · obtain hrow' | ⟨ids, rfl, hids⟩ := Tables.exec_keeps hx hrow
      · exact .inr (.inl ⟨row, hrow', hu, he⟩)
      · obtain ⟨row', hf', hid', hdel⟩ := h.deletes ids (by simp [hpend]) row.id hids
        obtain rfl := hf'.eq hrow hid'.symm
        exact .inl (he ▸ hm _ hdel)
    · exact .inr (.inl ⟨row, ht ▸ hrow, hu, he⟩)
  · obtain ⟨-, -, -, stmt, r, hpend, hx⟩ | ⟨-, -, stmts, -, hpend, -⟩ := hd
    · rw [hpend, List.mem_cons] at hp
      obtain rfl | hp := hp
      · exact .inr (.inl ⟨_, (Tables.exec_insertMessage hx).2, rfl, rfl⟩)
      · exact .inr (.inr hp)
    · exact .inr (.inr (hpend ▸ List.mem_append_left _ hp))

/-- A message that is put into the queue of a session is delivered. -/
theorem Delivered.push {s : Server} (h : Custody s) {c d : ConnId} {g : ClientIndex}
    (hg : s.registry.Granted d g) {m : Message} (hk : (s.connection d).publicKey = m.recipient) :
    ((s.push d m).asyncSend d (.start c)).Delivered m := by
  obtain ⟨hmess, hwr, hdel⟩ := (s.push d m).asyncSend_stays d (.start c)
  have hreg : ((s.push d m).asyncSend d (.start c)).registry = s.registry :=
    (asyncSend_same (s.push d m) d (.start c)).registry
  refine ⟨d, g, (congrArg (·.answer d) hreg).trans hg.2.1, hg.2.2,
    (congrArg (fun r => (r.connection d).publicKey) hreg).trans hk, ?_⟩
  have hun : ((s.push d m).asyncSend d (.start c)).unsignalled d m ≤ s.unsignalled d m :=
    unsignalled_le m (by rw [hdel]; rfl)
      (by rw [(h.push d m).signal_asyncSend (by simp)]; exact id)
  refine (h.unsignalled d m).imp (fun hw => ?_) fun hle => ⟨?_, ?_⟩
  · rw [hwr]
    exact hw
  · rw [hreg]
    exact hg.1
  · rw [hmess, count_push_self, List.count_singleton_self]
    omega

/-- A frame goes to a session of its recipient, or into an `INSERT` for the recipient's row. -/
theorem placed_frame {s s' : Server} {a : Action} (h : Orderly s) (hcust : Custody s)
    (hreach : s.reachesDatabase a) (hstep : s.step a = some s') {f : Frame}
    (hf : f ∈ s.framesOf a) : s'.Placed f := by
  cases a with
  | message c bytes lookup =>
    obtain ⟨size, key, hc, hcases⟩ := message_cases h.sound h.linked hstep
    simp only [framesOf, hc, List.mem_singleton] at hf
    subst hf
    intro id hid
    have hid' : s.db.tables.idOf key = some id := hid
    obtain ⟨r, hr, hi, -, hstored⟩ | ⟨e, d, generation, hk, hslot, ha⟩ := hcases
    · right
      right
      simp only [reachesDatabase, offlineRelay, hc, hr, hi, if_true, Option.isNone_some,
        Bool.false_or, selectSucceeds, Bool.and_eq_true] at hreach
      obtain ⟨hconn, rfl⟩ := hreach
      rw [(hstored hconn).1]
      obtain ⟨-, rfl⟩ | ⟨e, slot, hk, hslot, ⟨ho, -⟩ | ⟨client, -, -, hn⟩⟩ :=
        getClientIndex_cases hr
      · simp [getDbIndex_eq hconn, hid']
      · obtain ⟨d, -, -, hholds⟩ := session_of_entry h.owned hk
        rw [hslot, Option.some.injEq] at hholds
        simp [hholds] at ho
      · exact absurd hi hn
    · left
      obtain ⟨d', hg, hkey, hholds⟩ := session_of_entry h.owned hk
      rw [hslot, Option.some.injEq, Slot.mk.injEq] at hholds
      obtain rfl := Client.new_inj (Option.some.inj hholds.1)
      have hrecipient : (s.connection d).publicKey =
        (s.frame c size key bytes).message.recipient := hkey
      exact (Delivered.push hcust hg hrecipient).alike ha
  | _ => simp [framesOf] at hf

theorem Kept.step {s s' : Server} {a : Action} (hk : Kept s) (h : Orderly s) (hcust : Custody s)
    (h' : Orderly s') (hcust' : Custody s') (he : s.endsSettled a) (hreach : s.reachesDatabase a)
    (hstep : s.step a = some s') : Kept s' := by
  obtain ⟨-, hd⟩ := h.linked.step h.sound
    (fun stmt r t hm hx => exec_addressed hx h.linked.answered.tables fun userId data he =>
      h.inserts userId data (he ▸ hm)) hstep
  obtain ⟨t, hmove, ha⟩ := step_move h.sound h.linked hstep
  have hev := hd.evolves
  have hdel : ∀ m, s.Delivered m → s'.Delivered m := fun m hm =>
    (hm.move h.sound h.routes hcust he hmove).alike ha
  have hclear : ∀ id, s.Cleared id → s'.Cleared id := fun id hc => hc.step hev hdel
  -- what `send_delayed_messages` holds now it held before the step, or has just moved on to
  have hsend : ∀ c current rest sent, s'.delayed c = .sending current rest sent →
      s.delayed c = .sending current rest sent ∨
        MayHand Tables.Addressed s c current rest sent := by
    intro c current rest sent hc
    rw [ha.delayed] at hc
    exact hmove.sending hc
  constructor
  case fetched =>
    intro c current rest sent hc row hrow
    obtain hc | ⟨-, -, hrows⟩ | ⟨current', sent', hc, -⟩ := hsend c current rest sent hc
    · exact (hk.fetched c current rest sent hc row hrow).evolves hev
    · exact (hrows row hrow).2.evolves hev
    · exact (hk.fetched c current' _ sent' hc row (List.mem_cons_of_mem _ hrow)).evolves hev
  case taken =>
    intro c current rest sent hc hsig
    have hc' := hc
    have hsig' := hsig
    rw [ha.delayed] at hc'
    rw [ha.signal] at hsig'
    obtain hl | ⟨hc', hsig'⟩ := hmove.taken h.owned h.routes hcust hc' hsig'
    · have hl' : s'.Live c := by simpa only [Live, ha.registry] using hl
      exact .of_taken h'.routes hcust' hl' hc hsig
    · exact hdel _ (hk.taken c current rest sent hc' hsig')
  case sent =>
    intro c current rest sent hc id hid
    obtain hc₀ | ⟨-, rfl, -⟩ | ⟨current', sent', hc₀, hsig, rfl⟩ := hsend c current rest sent hc
    · exact hclear id (hk.sent c current rest sent hc₀ id hid)
    · cases hid
    · rw [List.mem_append, List.mem_singleton] at hid
      obtain hid | rfl := hid
      · exact hclear id (hk.sent c current' _ sent' hc₀ id hid)
      · exact hclear _ ⟨current', hk.fetched c current' _ sent' hc₀ current' List.mem_cons_self,
          rfl, hk.taken c current' _ sent' hc₀ hsig⟩
  case deletes =>
    intro ids hp i hi
    obtain ⟨-, -, -, stmt, r, hpend, -⟩ | ⟨-, -, stmts, hmay, hpend, -⟩ := id hd
    · exact hclear i (hk.deletes ids (by simp [hpend, hp]) i hi)
    · rw [hpend, List.mem_append] at hp
      obtain hp | hp := hp
      · exact hclear i (hk.deletes ids hp i hi)
      · obtain rfl | ⟨c, current, rest, sent, -, hc, ⟨hsig, rfl⟩ | ⟨-, rfl⟩⟩ := hmay _ hp
        · cases hi
        · rw [List.mem_append, List.mem_singleton] at hi
          obtain hi | rfl := hi
          · exact hclear i (hk.sent c current rest sent hc i hi)
          · exact hclear _ ⟨current, hk.fetched c current rest sent hc current List.mem_cons_self,
              rfl, hk.taken c current rest sent hc hsig⟩
        · exact hclear i (hk.sent c current rest _ hc i hi)
  case placed =>
    intro f hf
    rw [step_frames h.sound hstep, List.mem_append] at hf
    obtain hf | hf := hf
    · exact (hk.placed f hf).step hk hd hdel
    · exact placed_frame h hcust hreach hstep hf

/-- `start` of its sender has gone on from the frame. -/
def relayed (s : Server) (f : Frame) : Bool :=
  s.start f.sender ≠ .addMessageToQueue ||
    (s.frames.filter (·.sender = f.sender)).getLast? ≠ some f

/-- A message for a user with a row has been written to the socket of a session of the user,
or is in the queue of a live one, or is stored for the user, or its `INSERT` is queued. -/
def Conserved (s : Server) : Prop := ∀ f ∈ s.frames, s.relayed f → ∀ id, f.userId = some id →
  (∃ c g, s.answer c = some g ∧ g ≠ .empty ∧
    (s.connection c).publicKey = f.message.recipient ∧ f.message ∈ s.written c) ∨
  (∃ c g, s.registry.Granted c g ∧
    (s.connection c).publicKey = f.message.recipient ∧ f.message ∈ s.messages c) ∨
  (∃ row ∈ s.db.tables.messages, row.userId = id ∧ row.data = f.message) ∨
  .insertMessage id f.message ∈ s.db.pending

theorem Kept.conserved {s : Server} (h : Kept s) : Conserved s := by
  intro f hf _ id hid
  obtain ⟨c, g, hg, hne, hk, hw | ⟨hp, hu⟩⟩ | hstored := h.placed f hf id hid
  · exact .inl ⟨c, g, hg, hne, hk, hw⟩
  · have hpos := Nat.lt_of_le_of_lt (Nat.zero_le _) hu
    exact .inr (.inl ⟨c, g, ⟨hp, hg, hne⟩, hk, List.count_pos_iff.mp hpos⟩)
  · exact .inr (.inr hstored)

/-- No message is lost in a run in which no unanswered connection ends while there are slots,
every grant is fresh, sessions end only when they have settled, and what is to be stored
reaches the database. -/
theorem messages_conserved (native : Proto.Endian) (succeeds : StartStep → Bool)
    (tables : Tables) (as : List Action) (ht : tables.Addressed)
    (hc : Lts.Along step (fun s a => (s.sparesSlots a ∧ s.freshGrants a) ∧ s.endsSettled a ∧
      s.reachesDatabase a) (init native succeeds tables) as) :
    Lts.Always step Conserved (init native succeeds tables) as := by
  intro bs hp t hr
  have h : Orderly t ∧ Custody t ∧ Kept t := by
    refine Lts.invariant (I := fun s => Orderly s ∧ Custody s ∧ Kept s) ?_
      ⟨init_orderly native succeeds ht, init_custody native succeeds tables,
        init_kept native succeeds tables⟩ (hc.initial hp) hr
    rintro s a t ⟨ho, hcust, hk⟩ ⟨⟨hspare, hfresh⟩, he, hreach⟩ hs
    have ho' := ho.step hspare hfresh hs
    obtain ⟨u, hm, ha⟩ := step_move ho.sound ho.linked hs
    have hcust' := (hcust.move ho.sound ho.owned ho.routes he hm).alike ha
    exact ⟨ho', hcust', hk.step ho hcust ho' hcust' he hreach hs⟩
  exact h.2.2.conserved

/-- Key 2 writes to key 1, which is logged in and leaves before its socket coroutine has
written the message. -/
def leftBeforeWrite : List Action :=
  [.loop, .accept, .keyRead 0 (.replicate 32 1), .loop, .execute, .resume (.start 0), .accept,
    .keyRead 1 (.replicate 32 2), .loop, .execute, .loop, .execute, .resume (.start 1),
    .greetings 1 (greetingsTo 1), .message 1 [7] true, .resume (.start 1), .readFails 0]

theorem not_messages_conserved :
    ¬ Lts.Always step Conserved (init .little (fun _ => true) .empty) leftBeforeWrite := by
  intro h
  have hrun : (Lts.run step (init .little (fun _ => true) .empty) leftBeforeWrite).any fun s =>
      s.frames.any fun f => s.relayed f && f.userId = some 1 &&
        (List.range s.accepted).all (fun c => f.message ∉ s.written c &&
          (s.registry.phase c ≠ .running || f.message ∉ s.messages c)) &&
        s.db.tables.messages.isEmpty && .insertMessage 1 f.message ∉ s.db.pending := by
    decide +kernel
  obtain ⟨s, hs, hbad⟩ := (Option.any_eq_true _ _).mp hrun
  obtain ⟨f, hf, hbad⟩ := List.any_eq_true.mp hbad
  simp only [Bool.and_eq_true, decide_eq_true_eq, List.all_eq_true, List.mem_range,
    List.isEmpty_iff, Bool.or_eq_true] at hbad
  obtain ⟨⟨⟨⟨hrel, hid⟩, hnone⟩, htables⟩, hpending⟩ := hbad
  have hsound : Sound s := Lts.invariant_all (fun s a t h hs => h.step hs)
    (init_sound .little (fun _ => true) .empty) hs
  obtain ⟨c, g, hg, -, -, hw⟩ | ⟨c, g, hg, -, hm⟩ | ⟨row, hrow, -⟩ | hp :=
    h _ (List.prefix_refl _) s hs f hf hrel 1 hid
  · exact (hnone c (hsound.accepted hg)).1 hw
  · obtain hph | hno := (hnone c (hsound.accepted hg.2.1)).2
    · exact hph hg.1
    · exact hno hm
  · simp [htables] at hrow
  · exact hpending hp

theorem messages_conserved_session :
    Lts.Always step Conserved (init .little (fun _ => true) .empty)
      (writtenToSession ++ [.resume (.start 1), .readFails 0]) :=
  messages_conserved .little (fun _ => true) .empty _ (fun row hr => by cases hr)
    (by decide +kernel)

end MydakServer.Server
