import MydakServer.Atomicity
import MydakServer.Codec

/-! Where the bytes that the server writes come from: whole frames, each sent by a connection
under the key that is in it, or stored when the server started. -/
namespace MydakServer

/-- The tables hold only messages with the property. -/
def Tables.Hold (P : Message → Prop) (t : Tables) : Prop := ∀ row ∈ t.messages, P row.data

theorem Tables.Fetched.hold {P : Message → Prop} {t : Tables} {row : Row}
    (h : Tables.Fetched (Tables.Hold P) t row) : P row.data := by
  obtain ⟨t₀, hold, hrow, -⟩ := h
  exact hold row hrow

namespace Server
open Proto

/-- Wherever the server carries a message, the message has the property. -/
structure Carries (P : Message → Prop) (pushed : List Push) (s : Server) : Prop where
  linked : Linked (Tables.Hold P) none s
  inserts : ∀ userId data, .insertMessage userId data ∈ s.db.pending → P data
  sending : ∀ c current rest sent, s.delayed c = .sending current rest sent →
    ∀ row ∈ current :: rest, P row.data
  pushed : ∀ p ∈ pushed, P p.message

variable {P : Message → Prop} {pushed : List Push} {s s' : Server} {a : Action}

theorem Carries.nextRow (h : Carries P pushed s) {c : ConnId} {row : Row}
    (hr : s.nextRow c = some row) : P row.data := by
  unfold Server.nextRow at hr
  cases hc : s.delayed c with
  | fetching =>
    simp only [hc] at hr
    split at hr
    · rename_i db next rest hd
      obtain rfl : next = row := Option.some.inj hr
      have hasks := h.linked.fetching c (by simp) hc
      obtain ⟨-, stmt, hasked, ⟨value, hv, hans, -⟩ | ⟨key, e, -, hv, -⟩⟩ :=
        h.linked.answered.resume hd
      · obtain rfl : stmt = .selectMessages _ := Option.some.inj (hasked.symm.trans hasks)
        cases hv
        exact Tables.Fetched.hold (hans next (by simp)).2
      · cases hv
    · cases hr
  | sending current rest sent =>
    cases rest with
    | nil => simp [hc] at hr
    | cons next rest =>
      simp only [hc] at hr
      split at hr
      · obtain rfl : next = row := Option.some.inj hr
        exact h.sending c current _ sent hc next (by simp)
      · cases hr
  | _ => simp [hc] at hr

theorem exec_hold {t t' : Tables} {stmt : Statement} {r : Results}
    (h : t.exec stmt = some (r, t')) (ht : t.Hold P)
    (hs : ∀ userId data, stmt = .insertMessage userId data → P data) : t'.Hold P := by
  intro row hrow
  obtain hrow | ⟨-, hstmt⟩ := (Tables.exec_new h).2 row hrow
  · exact ht row hrow
  · exact hs _ _ hstmt

/-- If the frame that a step reads has the property, so has whatever is carried afterwards. -/
theorem Carries.step (h : Carries P pushed s) (hs : Sound s)
    (hf : ∀ f ∈ s.framesOf a, P f.message) (hstep : s.step a = some s') :
    Carries P (pushed ++ (s.pushOf a).toList) s' := by
  obtain ⟨hl, hd⟩ := h.linked.step hs
    (fun stmt r t hm hx => exec_hold hx h.linked.answered.tables fun userId data he =>
      h.inserts userId data (he ▸ hm)) hstep
  have hframe : ∀ {c bytes lookup size recipient}, a = .message c bytes lookup →
      s.start c = .readMessage size recipient → P (s.frame c size recipient bytes).message := by
    intro c bytes lookup size recipient ha hc
    refine hf _ ?_
    rw [ha]
    simp [framesOf, hc]
  refine ⟨hl, ?_, ?_, ?_⟩
  · intro userId data hm
    obtain ⟨-, -, -, stmt, r, hp, -⟩ | ⟨-, -, stmts, hmay, hp, -⟩ := hd
    · exact h.inserts userId data (by simp [hp, hm])
    · rw [hp, List.mem_append] at hm
      obtain hm | hm := hm
      · exact h.inserts userId data hm
      · obtain ⟨c, bytes, lookup, size, recipient, r, ha, hc, rfl, -⟩ := hmay _ hm
        exact hframe ha hc
  · intro c current rest sent hc row hrow
    obtain ⟨t, hmove, halike⟩ := step_move hs h.linked hstep
    rw [halike.delayed] at hc
    obtain hold | ⟨-, -, hrows⟩ | ⟨before, sent', hold, -⟩ := hmove.sending hc
    · exact h.sending c current rest sent hold row hrow
    · exact Tables.Fetched.hold (hrows row hrow).2
    · exact h.sending c before _ sent' hold row (List.mem_cons_of_mem _ hrow)
  · intro p hp
    obtain hp | hp := List.mem_append.mp hp
    · exact h.pushed p hp
    · obtain ⟨_, _, -, ⟨c, bytes, lookup, size, recipient, r, ha, hc, -, -, heq⟩ |
        ⟨c, row, -, hrow, -, -, heq⟩⟩ := pushOf_cases hs.wellFormed (Option.mem_toList.mp hp)
      · rw [heq]
        exact hframe ha hc
      · rw [heq]
        exact h.nextRow hrow

theorem init_carries (native : Endian) (succeeds : StartStep → Bool) {tables : Tables}
    (ht : tables.Hold P) : Carries P [] (init native succeeds tables) where
  linked := init_linked native succeeds ht
  inserts := by
    intro userId data hm
    simp [init, Database.start_pending] at hm
  sending := by
    intro c current rest sent hc
    cases hc
  pushed := by simp

theorem run_frames {native : Endian} {succeeds : StartStep → Bool} {tables : Tables}
    {as : List Action} (hr : Lts.run step (init native succeeds tables) as = some s) :
    s.frames = Lts.log step framesOf (init native succeeds tables) as := by
  have h : Sound s ∧ s.frames = [] ++ Lts.log step framesOf (init native succeeds tables) as := by
    refine Lts.invariant_log (C := fun _ _ => True) (I := fun s l => Sound s ∧ s.frames = l) ?_
      ⟨init_sound native succeeds tables, rfl⟩ (Lts.along_true _ _) hr
    rintro s l a t ⟨hs, rfl⟩ - hstep
    exact ⟨hs.step hstep, step_frames hs hstep⟩
  exact h.2

/-- A run carries nothing but what it has read and what was stored before it. -/
theorem run_carries {native : Endian} {succeeds : StartStep → Bool} {tables : Tables}
    {as : List Action} (hr : Lts.run step (init native succeeds tables) as = some s)
    (ht : tables.Hold P) (hf : ∀ f ∈ s.frames, P f.message) :
    Carries P (pushes (init native succeeds tables) as) s := by
  rw [run_frames hr] at hf
  have h : Sound s ∧ Carries P ([] ++ pushes (init native succeeds tables) as) s := by
    refine Lts.invariant_log (C := fun s a => ∀ f ∈ s.framesOf a, P f.message)
      (I := fun s l => Sound s ∧ Carries P l s) ?_
      ⟨init_sound native succeeds tables, init_carries native succeeds ht⟩
      (Lts.along_of_log hr hf) hr
    exact fun s l a t ⟨hs, h⟩ hf hstep => ⟨hs.step hstep, h.step hs hf hstep⟩
  exact h.2

/-- The message was stored when the server started, or some connection has sent it: it is in
what the message loop makes of the bytes from that connection and the key it has sent. -/
def Genuine (native : Endian) (tables : Tables) (as : List Action) (s : Server) (m : Message) :
    Prop :=
  (∃ row ∈ tables.messages, row.data = m) ∨ ∃ c, (m.recipient, m.data) ∈
    readLoop native (s.connection c).publicKey (as.flatMap (Action.reads c))

/-- What comes out of the server was put into a queue: what is in it, what is written to its
socket, and what has been written there. -/
structure Drawn (pushed : List Push) (s : Server) : Prop where
  queue : ∀ c, s.messages c ⊆ pushedTo pushed c
  writing : ∀ c e m, s.socket c = .writing (Client.new e).data m → m ∈ pushedTo pushed e
  written : ∀ c, s.written c ⊆ pushedTo pushed c

/-- A step puts what it pushes into a queue, and writes what was being written. -/
theorem Drawn.queues_step (h : Drawn pushed s) (hs : Settled s) (hstep : s.step a = some s')
    (c : ConnId) : s'.messages c ⊆ pushedTo (pushed ++ (s.pushOf a).toList) c ∧
      s'.written c ⊆ pushedTo (pushed ++ (s.pushOf a).toList) c := by
  have hmono : pushedTo pushed c ⊆ pushedTo (pushed ++ (s.pushOf a).toList) c := by
    rw [pushedTo_append]
    exact List.subset_append_left _ _
  have hqueue := List.Subset.trans (h.queue c) hmono
  have hwritten := List.Subset.trans (h.written c) hmono
  cases step_queues hs.steady.sound hs.steady.linked hstep with
  | push _ p d state _ hp ha =>
    obtain ⟨hm, hw⟩ := queues_of_push ha
    rw [hw, hm]
    refine ⟨?_, hwritten⟩
    by_cases hc : c = p.login
    · subst hc
      rw [Function.update_self, pushedTo_append, hp, Option.toList_some, pushedTo_single,
        if_pos rfl]
      exact List.append_subset.mpr ⟨List.Subset.trans (h.queue _) (List.subset_append_left _ _),
        List.subset_append_right _ _⟩
    · rw [Function.update_of_ne hc]
      exact hqueue
  | pop d socket q channel m _ hd hm hw =>
    obtain ⟨e, hdata⟩ := hs.clients d _ m hd
    cases hdata
    rw [hm, hw]
    by_cases hc : c = socket
    · subst hc
      rw [Function.update_self, Function.update_self]
      refine ⟨List.Subset.trans (List.tail_subset _) hqueue, ?_⟩
      refine List.append_subset.mpr ⟨hwritten, fun x hx => ?_⟩
      rw [List.mem_singleton.mp hx]
      exact hmono (h.writing d c m hd)
    · rw [Function.update_of_ne hc, Function.update_of_ne hc]
      exact ⟨hqueue, hwritten⟩
  | same _ _ _ hm hw =>
    rw [hm, hw]
    exact ⟨hqueue, hwritten⟩

theorem Drawn.step (h : Drawn pushed s) (hs : Settled s) (hstep : s.step a = some s') :
    Drawn (pushed ++ (s.pushOf a).toList) s' where
  queue := fun c => (h.queues_step hs hstep c).1
  written := fun c => (h.queues_step hs hstep c).2
  writing := by
    intro c e m hc
    obtain ⟨t, hm, ha⟩ := step_move hs.steady.sound hs.steady.linked hstep
    rw [ha.socket] at hc
    obtain hold | ⟨-, q, rest, hq, hfront⟩ := hm.writing_front hc
    · rw [pushedTo_append]
      exact List.mem_append_left _ (h.writing c e m hold)
    · obtain rfl : e = q := Option.some.inj hq
      rw [← ha.messages] at hfront
      exact (h.queues_step hs hstep e).1 (by simp [hfront])

theorem run_drawn {native : Endian} {succeeds : StartStep → Bool} {tables : Tables}
    {as : List Action} (hr : Lts.run step (init native succeeds tables) as = some s) :
    Drawn ((init native succeeds tables).pushes as) s := by
  have h : Settled s ∧ Drawn ([] ++ (init native succeeds tables).pushes as) s := by
    refine Lts.invariant_log (C := fun _ _ => True) (I := fun s l => Settled s ∧ Drawn l s) ?_
      ⟨init_settled native succeeds tables, ?_⟩ (Lts.along_true _ _) hr
    · exact fun s l a t ⟨hs, h⟩ _ hstep => ⟨hs.step hstep, h.step hs hstep⟩
    · constructor <;> simp [init]
  exact h.2

/-- The bytes that the socket carries: the messages that have been written, and what a write has
transferred before it failed. -/
def streamOf (s : Server) (c : ConnId) : List UInt8 :=
  (s.written c).flatMap Message.data ++ s.torn c

/-- The message has the form `[message size][public key][message]`. -/
def Framed (m : Message) : Prop := ∃ (sender : PublicKey) (f : Outgoing),
  m.data = f.relayed sender

/-- A client that has received what its socket carries, and a part of the message that is being
written, gets the messages and has the part of the last one left over. -/
def Decodes (s : Server) (c : ConnId) : Prop :=
  ∃ xs : List (PublicKey × Outgoing),
    (s.written c).map Message.data = xs.map (fun x => x.2.relayed x.1) ∧
    decode (s.streamOf c) = (xs.map fun x => (x.1, x.2.payload), s.torn c) ∧
    ∀ d m, s.socket d = .writing (Client.new c).data m → d = c ∧
      ∀ part, part <+: m.data → part ≠ m.data →
        decode (s.streamOf c ++ part) = (xs.map fun x => (x.1, x.2.payload), part)

theorem framed_of_readLoop {native : Endian} {key recipient : PublicKey} {data : List UInt8}
    {bytes : List UInt8} {fs : List Outgoing} {rest : List UInt8}
    (hb : bytes = fs.flatMap Outgoing.wire ++ rest) (hrest : ∀ f : Outgoing, ¬ f.wire <+: rest)
    (h : (recipient, data) ∈ readLoop native key bytes) : ∃ f : Outgoing, data = f.relayed key := by
  rw [hb, readLoop_frames native key fs hrest] at h
  obtain ⟨f, -, heq⟩ := List.mem_map.mp h
  exact ⟨f, (congrArg Prod.snd heq).symm⟩

theorem exists_relayed {ms : List Message} (h : ∀ m ∈ ms, Framed m) :
    ∃ xs : List (PublicKey × Outgoing), ms.map Message.data = xs.map fun x => x.2.relayed x.1 := by
  induction ms with
  | nil => exact ⟨[], rfl⟩
  | cons m ms ih =>
    obtain ⟨sender, f, hm⟩ := h m (by simp)
    obtain ⟨xs, hxs⟩ := ih fun m hm => h m (List.mem_cons_of_mem _ hm)
    exact ⟨(sender, f) :: xs, by rw [List.map_cons, List.map_cons, hm, hxs]⟩

/-- Only the socket coroutine of the login writes to its socket, and what has gone out there is
followed by at most a part of one message. -/
theorem decodes_of_framed (hown : WritesOwn s) (ht : TornLast s) {c : ConnId}
    (hw : ∀ m ∈ s.written c, Framed m) (hq : ∀ m ∈ s.messages c, Framed m) : Decodes s c := by
  obtain ⟨xs, hxs⟩ := exists_relayed hw
  have hstream : s.streamOf c = (xs.flatMap fun x => x.2.relayed x.1) ++ s.torn c := by
    rw [streamOf, List.flatMap_def, hxs, List.flatMap_def]
  have hpart : ∀ m ∈ s.messages c, ∀ part, part <+: m.data → part ≠ m.data →
      decode ((xs.flatMap fun x => x.2.relayed x.1) ++ part) =
        (xs.map fun x => (x.1, x.2.payload), part) := by
    intro m hm part hp hne
    obtain ⟨sender, f, hframe⟩ := hq m hm
    rw [hframe] at hp hne
    rw [decode_relayed_append, decode_of_isPrefix hp hne, List.append_nil]
  refine ⟨xs, hxs, ?_, fun d m hd => ?_⟩
  · rw [hstream]
    obtain hnil | ⟨-, m, rest, n, hm, hn, htorn⟩ := ht c
    · rw [hnil, List.append_nil, decode_relayed]
    · refine hpart m (by simp [hm]) _ (htorn ▸ List.take_prefix n m.data) fun heq => ?_
      have hlen := congrArg List.length (htorn.symm.trans heq)
      rw [List.length_take] at hlen
      omega
  · obtain ⟨hdata, rest, hm⟩ := hown d _ m hd
    cases hdata
    -- a coroutine that still writes has had no write that failed
    have hnil : s.torn c = [] := (ht c).resolve_right fun hc => by simp [hd] at hc
    rw [hstream, hnil, List.append_nil]
    exact ⟨rfl, hpart m (by simp [hm])⟩

/-- What the server stores, queues and writes; and what each socket carries, where every socket
coroutine drains its own queue. -/
structure Outputs (native : Endian) (succeeds : StartStep → Bool) (tables : Tables)
    (as : List Action) (s : Server) : Prop where
  stored : ∀ row ∈ s.db.tables.messages, Genuine native tables as s row.data
  queued : ∀ c, ∀ m ∈ s.messages c, Genuine native tables as s m
  written : ∀ c, ∀ m ∈ s.written c, Genuine native tables as s m
  decodes : Lts.Along step (fun s a => s.drainsOwn a) (init native succeeds tables) as →
    (∀ row ∈ tables.messages, Framed row.data) → ∀ c, Decodes s c

/-- In every run all that is stored, queued and written has been sent by a client under its own
key, or was stored before; and if no second coroutine drains a queue, the bytes on each socket are
whole frames, but for a part of the last one. -/
theorem outputs_genuine (native : Endian) (succeeds : StartStep → Bool) (tables : Tables)
    (as : List Action) (s : Server)
    (hr : Lts.run step (init native succeeds tables) as = some s) :
    Outputs native succeeds tables as s := by
  have hcarried : Carries (Genuine native tables as s)
      (pushes (init native succeeds tables) as) s := by
    refine run_carries hr (fun row hrow => .inl ⟨row, hrow, rfl⟩) fun f hf => .inr ⟨f.sender, ?_⟩
    rw [← relayedOf_eq_readLoop hr]
    exact List.mem_map.mpr ⟨f, by simp [hf], rfl⟩
  have hdrawn := run_drawn hr
  have hpushed : ∀ {c m}, m ∈ pushedTo (pushes (init native succeeds tables) as) c →
      Genuine native tables as s m := by
    intro c m hm
    obtain ⟨p, hp, rfl⟩ := List.mem_map.mp hm
    exact hcarried.pushed p (List.mem_filter.mp hp).1
  refine ⟨hcarried.linked.answered.tables, fun c m hm => hpushed (hdrawn.queue c hm),
    fun c m hm => hpushed (hdrawn.written c hm), fun hown hframed c => ?_⟩
  have hgenuine : ∀ m, Genuine native tables as s m → Framed m := by
    rintro m (⟨row, hrow, rfl⟩ | ⟨d, hm⟩)
    · exact hframed row hrow
    · obtain ⟨fs, rest, hread⟩ := run_reading hr d
      exact ⟨_, framed_of_readLoop hread.bytes hread.tail.ended hm⟩
  have hwired := run_wired hr hown
  exact decodes_of_framed hwired.own.writes hwired.torn
    (fun m hm => hgenuine m (hpushed (hdrawn.written c hm)))
    fun m hm => hgenuine m (hpushed (hdrawn.queue c hm))

/-- Key 2 writes to key 1, which has the message written to its socket. -/
theorem outputs_genuine_session : ∃ s,
    Lts.run step (init .little (fun _ => true) .empty) writtenToSession = some s ∧
    Outputs .little (fun _ => true) .empty writtenToSession s ∧ ∀ c, Decodes s c := by
  have hsome : (Lts.run step (init .little (fun _ => true) .empty) writtenToSession).isSome := by
    decide +kernel
  obtain ⟨s, hs⟩ := Option.isSome_iff_exists.mp hsome
  have h := outputs_genuine .little (fun _ => true) .empty _ s hs
  exact ⟨s, hs, h, h.decodes (by decide +kernel) (by simp [Tables.empty])⟩

end Server
end MydakServer
