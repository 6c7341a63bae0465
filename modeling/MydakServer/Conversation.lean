import Mathlib.Data.List.Sort
import MydakServer.Backlog
import MydakServer.Deletions

/-! In which order the messages of one sender come to a socket, when some of them were stored
and others are relayed while `send_delayed_messages` hands over the stored ones. -/
namespace MydakServer

/-- The first message was read before the second, if both were read in the run. -/
def Message.Before (m m' : Message) : Prop := ∀ i j, m.tag = some i → m'.tag = some j → i < j

namespace Server

/-- The messages that were read from the connection, in their order. -/
def sentBy (s : Server) (c : ConnId) : List Message :=
  (s.frames.filter (·.sender = c)).map Frame.message

/-- The messages of each sender that have been written to a socket came there in the order in
which they were sent. -/
def InOrder (s : Server) : Prop := ∀ c sender,
  ((s.written c).filter (· ∈ s.sentBy sender)).Sublist (s.sentBy sender)

/-- `socket_coroutine` takes messages out of no queue but its own, `send_delayed_messages` hands
over to its own login, and no message is relayed to a login whose `send_delayed_messages` has an
older one of the same sender left. -/
def keepsTurns (s : Server) : Action → Bool
  | .resume (.socket c) => s.drainsOwn (.resume (.socket c))
  | .resume (.delayed c) => (s.ownClient c).all (· = c)
  | .message c bytes lookup =>
    (s.pushOf (.message c bytes lookup)).all fun p =>
      (s.backlog p.login).all fun row => row.data ∉ s.sentBy c
  | _ => true

/-- What has come to a login, or is to come: what has been written to its socket, what is in its
queue, and what its `send_delayed_messages` has left. -/
def line (s : Server) (c : ConnId) : List Message :=
  s.written c ++ s.messages c ++ (s.backlog c).map Row.data

/-- Messages are numbered as they were read, and those of one sender stand in line in this
order. -/
structure InLine (s : Server) : Prop where
  tagged : ∀ (n : Nat) (f : Frame), s.frames[n]? = some f → f.message.tag = some n
  known : ∀ m, m ∈ s.db.stored ∨ (∃ c, m ∈ s.line c) → ∀ n, m.tag = some n → n < s.frames.length
  stored : s.db.stored.Pairwise Message.Before
  lines : ∀ c sender, ((s.line c).filter (· ∈ s.sentBy sender)).Pairwise Message.Before

theorem init_inLine (native : Proto.Endian) (succeeds : StartStep → Bool) {tables : Tables}
    (ht : ∀ row ∈ tables.messages, row.data.tag = none) :
    InLine (init native succeeds tables) := by
  have hstored : (init native succeeds tables).db.stored = tables.messages.map Row.data := by
    have hpending : (init native succeeds tables).db.pending = [] :=
      Database.start_pending succeeds tables
    simp only [Database.stored, hpending, List.filterMap_nil, List.append_nil]
    rfl
  have hnone : ∀ m ∈ (init native succeeds tables).db.stored, m.tag = none := by
    intro m hm
    rw [hstored] at hm
    obtain ⟨row, hrow, rfl⟩ := List.mem_map.mp hm
    exact ht row hrow
  constructor
  case tagged =>
    intro n f hf
    cases hf
  case known =>
    rintro m (hm | ⟨c, hm⟩) n hn
    · simp [hnone m hm] at hn
    · cases hm
  case stored =>
    refine List.pairwise_iff_forall_sublist.mpr fun {m m'} hsub i j hi => ?_
    simp [hnone m (hsub.subset (by simp))] at hi
  case lines => exact fun c sender => List.Pairwise.nil

/-- The frame that a step reads bears the next number. -/
theorem framesOf_cases (s : Server) (a : Action) : s.framesOf a = [] ∨
    ∃ c bytes lookup f, a = .message c bytes lookup ∧ s.framesOf a = [f] ∧ f.sender = c ∧
      f.message.tag = some s.frames.length := by
  cases a with
  | message c bytes lookup =>
    cases hc : s.start c with
    | readMessage size recipient =>
      exact .inr ⟨c, bytes, lookup, s.frame c size recipient bytes, rfl, by simp [framesOf, hc],
        rfl, rfl⟩
    | _ => exact .inl (by simp [framesOf, hc])
  | _ => exact .inl rfl

/-- Messages are stored in the order in which they are read. -/
theorem Steady.stored {s s' : Server} {a : Action} (h : Steady s) (hstep : s.step a = some s') :
    s'.db.stored.Sublist (s.db.stored ++ (s.framesOf a).map Frame.message) := by
  have hkeep : ∀ stmts, s'.db.tables = s.db.tables → s'.db.pending = s.db.pending ++ stmts →
      (stmts.filterMap Statement.inserted).Sublist ((s.framesOf a).map Frame.message) →
      s'.db.stored.Sublist (s.db.stored ++ (s.framesOf a).map Frame.message) := by
    intro stmts ht hp hsub
    simp only [Database.stored, ht, hp, List.filterMap_append, ← List.append_assoc]
    exact hsub.append_left _
  have hother : (∀ c bytes lookup, a ≠ .message c bytes lookup) →
      s'.db.stored.Sublist (s.db.stored ++ (s.framesOf a).map Frame.message) := by
    intro ha
    obtain ⟨-, -, -, stmt, r, hp, hx⟩ | ⟨ht, -, stmts, hmay, hp, -⟩ :=
      (h.linked.step h.sound (fun _ _ _ _ _ => trivial) hstep).2
    · refine List.Sublist.trans ?_ (List.sublist_append_left _ _)
      have hcons : (stmt :: s'.db.pending).filterMap Statement.inserted =
          stmt.inserted.toList ++ s'.db.pending.filterMap Statement.inserted := by
        cases hi : stmt.inserted <;> simp [hi]
      simp only [Database.stored, hp, hcons, ← List.append_assoc]
      exact (Tables.exec_stored hx).append_right _
    · refine hkeep stmts ht hp ?_
      have hnil : stmts.filterMap Statement.inserted = [] := by
        rw [List.filterMap_eq_nil_iff]
        intro stmt hstmt
        cases stmt with
        | insertMessage userId data =>
          obtain ⟨c, bytes, lookup, _, _, _, heq, -⟩ := hmay _ hstmt
          exact absurd heq (ha c bytes lookup)
        | _ => rfl
      rw [hnil]
      exact List.nil_sublist _
  cases a with
  | message c bytes lookup =>
    cases step_cases hstep with
    | message _ _ _ size recipient _ hc hstep =>
      have hframes : (s.framesOf (.message c bytes lookup)).map Frame.message =
          [(s.frame c size recipient bytes).message] := by
        simp [framesOf, hc]
      obtain ⟨r, s₁, -, -, hs₁, rfl⟩ | ⟨e, f, generation, -, -, rfl⟩ :=
        relay_cases (s := s.addFrame (s.frame c size recipient bytes)) h.sound.wellFormed hstep
      · obtain ⟨db, v, hdb, rfl⟩ := addMessageToDb_cases hs₁
        obtain ⟨-, ⟨-, hdb', -⟩ | ⟨-, -, hr⟩⟩ :=
          h.linked.answered.request hdb (⟨_, _, rfl⟩ : Operation.addMessage.Sends _)
        · subst hdb'
          exact hkeep [] rfl (by simp [setStart, addFrame]) (by simp)
        · exact hkeep _ hr.tables hr.pending (by simp [hframes, Statement.inserted])
      · obtain ⟨channel, signal, he⟩ := ((s.addFrame (s.frame c size recipient bytes)).push f
          (s.frame c size recipient bytes).message).asyncSend_eq f (.start c)
        rw [he] at hkeep ⊢
        exact hkeep [] rfl (by simp [setStart, push, addFrame]) (by simp)
  | _ => exact hother (by simp)

/-- Where the queue and the socket of a login are as before, what stands in line either was there
or is just stored. -/
theorem Settled.line_keep {s s' : Server} {a : Action} (h : Settled s)
    (hstep : s.step a = some s') {c : ConnId} (ha : a ≠ .resume (.delayed c))
    (hq : s'.written c ++ s'.messages c = s.written c ++ s.messages c) :
    s'.line c = s.line c ∨ (s'.line c).Sublist s'.db.stored := by
  obtain hb | ⟨hc, hb⟩ := h.steady.backlog hstep ha
  · exact .inl (by rw [line, line, hq, hb])
  · obtain ⟨hm, hw⟩ := h.reached.queues c hc
    exact .inr (by simpa only [line, hq, hm, hw, List.nil_append] using hb)

/-- A message joins the line of a login at its end only when it is relayed there. -/
theorem Settled.line {s s' : Server} {a : Action} (h : Settled s) (hw : WritesOwn s)
    (hk : s.keepsTurns a) (hstep : s.step a = some s') (c : ConnId) :
    (s'.line c).Sublist (s.line c) ∨ (s'.line c).Sublist s'.db.stored ∨
      ∃ d bytes lookup f, a = .message d bytes lookup ∧ s.framesOf a = [f] ∧ f.sender = d ∧
        (∀ row ∈ s.backlog c, row.data ∉ s.sentBy d) ∧
        s'.line c = s.written c ++ s.messages c ++ [f.message] ++ (s.backlog c).map Row.data := by
  have hkeep : a ≠ .resume (.delayed c) →
      s'.written c ++ s'.messages c = s.written c ++ s.messages c →
      (s'.line c).Sublist (s.line c) ∨ (s'.line c).Sublist s'.db.stored := by
    intro ha hq
    refine (h.line_keep hstep ha hq).imp_left fun heq => ?_
    rw [heq]
  have hstream := h.stream hw hstep c
  by_cases ha : a = .resume (.delayed c)
  · subst ha
    refine .inl ?_
    rw [Server.line, Server.line, hstream]
    obtain ⟨row, d, hb, hp⟩ | ⟨hp, hb⟩ := h.steady.backlog_continues hstep
    · obtain rfl : d = c := pushOf_own hk hp
      simp [hp, hb, pushedTo]
    · simp [hp, hb, pushedTo]
  · cases hp : s.pushOf a with
    | none => exact (hkeep ha (by simp [hstream, hp, pushedTo])).imp_right .inl
    | some p =>
      by_cases hlogin : p.login = c
      · subst hlogin
        obtain ⟨i, generation, hslot, ⟨d, bytes, lookup, size, recipient, r, rfl, hc, -, -, hpeq⟩ |
          ⟨d, row, rfl, -⟩⟩ := pushOf_cases h.steady.sound.wellFormed hp
        · obtain ⟨g, hg, -⟩ := h.granted hslot
          obtain hb | ⟨hnone, -⟩ := h.steady.backlog hstep ha
          · refine .inr (.inr ⟨d, bytes, lookup, s.frame d size recipient bytes, rfl,
              by simp [framesOf, hc], rfl, ?_, ?_⟩)
            · simpa [keepsTurns, hp] using hk
            · have hmessage : p.message = (s.frame d size recipient bytes).message := by rw [hpeq]
              rw [Server.line, hstream, hb, hp, ← hmessage]
              simp [pushedTo]
          · simp [hg] at hnone
        · have hown : p.login = d := pushOf_own hk hp
          exact absurd (by rw [hown]) ha
      · exact (hkeep ha (by simp [hstream, hp, pushedTo, hlogin])).imp_right .inl

theorem sentBy_step {s s' : Server} {a : Action} (h : Steady s) (hstep : s.step a = some s')
    (sender : ConnId) : s'.sentBy sender =
      s.sentBy sender ++ ((s.framesOf a).filter (·.sender = sender)).map Frame.message := by
  rw [sentBy, step_frames h.sound hstep, List.filter_append, List.map_append, sentBy]

/-- Which of the messages that were read before are from a sender does not change. -/
theorem filter_sentBy {s s' : Server} {a : Action} (h : Steady s) (hstep : s.step a = some s')
    (sender : ConnId) (ms : List Message)
    (hms : ∀ m ∈ ms, ∀ n, m.tag = some n → n < s.frames.length) :
    ms.filter (· ∈ s'.sentBy sender) = ms.filter (· ∈ s.sentBy sender) := by
  refine List.filter_congr fun m hm => ?_
  rw [decide_eq_decide, sentBy_step h hstep, List.mem_append, or_iff_left]
  intro hnew
  obtain ⟨f, hf, rfl⟩ := List.mem_map.mp hnew
  obtain hnil | ⟨c, bytes, lookup, f', -, hframes, -, htag⟩ := s.framesOf_cases a
  · simp [hnil] at hf
  · rw [hframes, List.mem_filter, List.mem_singleton] at hf
    rw [← hf.1] at htag
    exact absurd (hms _ hm _ htag) (Nat.lt_irrefl _)

theorem InLine.tag_of_sentBy {s : Server} (h : InLine s) {sender : ConnId} {m : Message}
    (hm : m ∈ s.sentBy sender) : ∃ n, m.tag = some n ∧ n < s.frames.length := by
  obtain ⟨f, hf, rfl⟩ := List.mem_map.mp hm
  obtain ⟨n, hn⟩ := List.mem_iff_getElem?.mp (List.mem_of_mem_filter hf)
  exact ⟨n, h.tagged n f hn, (List.getElem?_eq_some_iff.mp hn).1⟩

theorem InLine.tagged_step {s s' : Server} {a : Action} (h : InLine s) (hs : Steady s)
    (hstep : s.step a = some s') {n : Nat} {f : Frame} (hf : s'.frames[n]? = some f) :
    f.message.tag = some n := by
  rw [step_frames hs.sound hstep, List.getElem?_append] at hf
  split at hf
  · exact h.tagged n f hf
  · rename_i hn
    obtain hnil | ⟨c, bytes, lookup, f', -, hframes, -, htag⟩ := s.framesOf_cases a
    · simp [hnil] at hf
    · rw [hframes, List.getElem?_singleton] at hf
      split at hf <;> cases hf
      rename_i hz
      rw [htag]
      congr 1
      omega

/-- A message that is relayed comes last of its sender's messages in line. -/
theorem InLine.relayed {s s' : Server} {a : Action} {c d : ConnId} {f : Frame} (h : InLine s)
    (hs : Steady s) (hstep : s.step a = some s') (hf : s.framesOf a = [f]) (hd : f.sender = d)
    (hrows : ∀ row ∈ s.backlog c, row.data ∉ s.sentBy d) (sender : ConnId) :
    ((s.written c ++ s.messages c ++ [f.message] ++ (s.backlog c).map Row.data).filter
      (· ∈ s'.sentBy sender)).Pairwise Message.Before := by
  have htag : f.message.tag = some s.frames.length := by
    obtain hnil | ⟨e, bytes, lookup, f', -, heq, -, htag⟩ := s.framesOf_cases a
    · simp [hnil] at hf
    · obtain rfl : f = f' := by simpa [heq, eq_comm] using hf
      exact htag
  have hknown : ∀ m ∈ s.line c, ∀ n, m.tag = some n → n < s.frames.length :=
    fun m hm => h.known m (.inr ⟨c, hm⟩)
  have hfront := filter_sentBy hs hstep sender (s.written c ++ s.messages c)
    fun m hm => hknown m (List.mem_append_left _ hm)
  have hback := filter_sentBy hs hstep sender ((s.backlog c).map Row.data)
    fun m hm => hknown m (List.mem_append_right _ hm)
  have hlines := h.lines c sender
  rw [Server.line, List.filter_append] at hlines
  rw [List.filter_append, List.filter_append, hfront, hback]
  by_cases hsender : d = sender
  · subst hsender
    have hnil : ((s.backlog c).map Row.data).filter (· ∈ s.sentBy d) = [] := by
      rw [List.filter_eq_nil_iff]
      intro m hm
      obtain ⟨row, hrow, rfl⟩ := List.mem_map.mp hm
      simpa using hrows row hrow
    rw [hnil, List.append_nil, List.pairwise_append]
    refine ⟨(List.pairwise_append.mp hlines).1,
      List.Pairwise.sublist List.filter_sublist (List.pairwise_singleton _ _), ?_⟩
    intro m hm m' hm' i j hi hj
    obtain rfl : m' = f.message := List.mem_singleton.mp (List.mem_of_mem_filter hm')
    obtain rfl := Option.some.inj (htag.symm.trans hj)
    obtain ⟨n, hn, hlt⟩ := h.tag_of_sentBy (of_decide_eq_true (List.mem_filter.mp hm).2)
    obtain rfl := Option.some.inj (hi.symm.trans hn)
    exact hlt
  · have hnot : [f.message].filter (· ∈ s'.sentBy sender) = [] := by
      rw [List.filter_eq_nil_iff]
      intro m hm
      obtain rfl := List.mem_singleton.mp hm
      rw [decide_eq_true_eq, sentBy_step hs hstep, hf, List.mem_append, not_or]
      refine ⟨fun hm => ?_, by simp [hd, hsender]⟩
      obtain ⟨n, hn, hlt⟩ := h.tag_of_sentBy hm
      obtain rfl := Option.some.inj (htag.symm.trans hn)
      exact absurd hlt (Nat.lt_irrefl _)
    rw [hnot, List.append_nil]
    exact hlines

theorem InLine.step {s s' : Server} {a : Action} (h : InLine s) (hs : Settled s)
    (hw : WritesOwn s) (hk : s.keepsTurns a) (hstep : s.step a = some s') : InLine s' := by
  have hframes := step_frames hs.steady.sound hstep
  have hstored := hs.steady.stored hstep
  have hlen : s.frames.length ≤ s'.frames.length := by simp [hframes]
  have hnew : ∀ m ∈ (s.framesOf a).map Frame.message, m.tag = some s.frames.length ∧
      s.frames.length < s'.frames.length := by
    intro m hm
    obtain ⟨f, hf, rfl⟩ := List.mem_map.mp hm
    obtain hnil | ⟨c, bytes, lookup, f', -, heq, -, htag⟩ := s.framesOf_cases a
    · simp [hnil] at hf
    · obtain rfl : f = f' := by simpa [heq] using hf
      exact ⟨htag, by simp [hframes, heq]⟩
  have hstoredKnown : ∀ m ∈ s'.db.stored, ∀ n, m.tag = some n → n < s'.frames.length := by
    intro m hm n hn
    obtain hm | hm := List.mem_append.mp (hstored.subset hm)
    · exact Nat.lt_of_lt_of_le (h.known m (.inl hm) n hn) hlen
    · obtain ⟨htag, hlt⟩ := hnew m hm
      obtain rfl := Option.some.inj (htag.symm.trans hn)
      exact hlt
  have hlineKnown : ∀ c, ∀ m ∈ s.line c, ∀ n, m.tag = some n → n < s.frames.length :=
    fun c m hm => h.known m (.inr ⟨c, hm⟩)
  have hstoredBefore : s'.db.stored.Pairwise Message.Before := by
    refine List.Pairwise.sublist hstored (List.pairwise_append.mpr ⟨h.stored, ?_, ?_⟩)
    · obtain hnil | ⟨c, bytes, lookup, f, -, heq, -⟩ := s.framesOf_cases a
      · simp [hnil]
      · simp [heq]
    · intro m hm m' hm' i j hi hj
      obtain rfl := Option.some.inj ((hnew m' hm').1.symm.trans hj)
      exact h.known m (.inl hm) i hi
  constructor
  case tagged => exact fun n f hf => h.tagged_step hs.steady hstep hf
  case stored => exact hstoredBefore
  case known =>
    rintro m (hm | ⟨c, hm⟩) n hn
    · exact hstoredKnown m hm n hn
    · obtain hl | hl | ⟨d, bytes, lookup, f, rfl, heq, -, -, hl⟩ := hs.line hw hk hstep c
      · exact Nat.lt_of_lt_of_le (hlineKnown c m (hl.subset hm) n hn) hlen
      · exact hstoredKnown m (hl.subset hm) n hn
      · have hold : m ∈ s.line c → n < s'.frames.length := fun hm =>
          Nat.lt_of_lt_of_le (hlineKnown c m hm n hn) hlen
        rw [hl] at hm
        obtain hm | hm := List.mem_append.mp hm
        · obtain hm | hm := List.mem_append.mp hm
          · exact hold (List.mem_append_left _ hm)
          · obtain rfl := List.mem_singleton.mp hm
            obtain ⟨htag, hlt⟩ := hnew f.message (by simp [heq])
            obtain rfl := Option.some.inj (htag.symm.trans hn)
            exact hlt
        · exact hold (List.mem_append_right _ hm)
  case lines =>
    intro c sender
    have hfilter := filter_sentBy hs.steady hstep sender _ (hlineKnown c)
    obtain hl | hl | ⟨d, bytes, lookup, f, rfl, heq, hd, hrows, hl⟩ := hs.line hw hk hstep c
    · refine List.Pairwise.sublist (hl.filter _) ?_
      rw [hfilter]
      exact h.lines c sender
    · exact List.Pairwise.sublist (List.filter_sublist.trans hl) hstoredBefore
    · have hfiltered := h.relayed hs.steady hstep heq hd hrows sender
      rwa [← hl] at hfiltered

/-- Messages of one sender that stand in line are a part of what it sent, in the same order. -/
theorem InLine.inOrder {s : Server} (h : InLine s) : InOrder s := by
  intro c sender
  let r (m m' : Message) : Prop := ∃ i j, m.tag = some i ∧ m'.tag = some j ∧ i < j
  have hr : ∀ ms : List Message, (∀ m ∈ ms, m ∈ s.sentBy sender) → ms.Pairwise Message.Before →
      ms.Pairwise r := by
    intro ms hms hp
    refine hp.imp_of_mem fun {m m'} hm hm' hb => ?_
    obtain ⟨i, hi, -⟩ := h.tag_of_sentBy (hms m hm)
    obtain ⟨j, hj, -⟩ := h.tag_of_sentBy (hms m' hm')
    exact ⟨i, j, hi, hj, hb i j hi hj⟩
  have : Std.Antisymm r := by
    refine ⟨fun m m' hm hm' => ?_⟩
    obtain ⟨i, j, hi, hj, hlt⟩ := hm
    obtain ⟨j', i', hj', hi', hlt'⟩ := hm'
    obtain rfl := Option.some.inj (hi.symm.trans hi')
    obtain rfl := Option.some.inj (hj.symm.trans hj')
    omega
  have : Std.Irrefl r := by
    refine ⟨fun m hm => ?_⟩
    obtain ⟨i, j, hi, hj, hlt⟩ := hm
    obtain rfl := Option.some.inj (hi.symm.trans hj)
    exact Nat.lt_irrefl _ hlt
  have hwritten : ∀ m ∈ (s.written c).filter (· ∈ s.sentBy sender), m ∈ s.sentBy sender :=
    fun m hm => of_decide_eq_true (List.mem_filter.mp hm).2
  have hline := h.lines c sender
  rw [Server.line, List.append_assoc, List.filter_append] at hline
  have hsent : (s.sentBy sender).Pairwise Message.Before := by
    refine List.pairwise_map.mpr (List.Pairwise.sublist List.filter_sublist ?_)
    rw [List.pairwise_iff_getElem]
    intro i j hi hj hij m n hm hn
    obtain rfl := Option.some.inj ((h.tagged i _ (List.getElem?_eq_getElem hi)).symm.trans hm)
    obtain rfl := Option.some.inj ((h.tagged j _ (List.getElem?_eq_getElem hj)).symm.trans hn)
    exact hij
  have hp := hr _ hwritten (List.pairwise_append.mp hline).1
  exact List.sublist_of_subperm_of_pairwise (List.subperm_of_subset hp.nodup hwritten) hp
    (hr _ (fun _ hm => hm) hsent)

/-- In a run in which no message is relayed past an older one of its sender that
`send_delayed_messages` has yet to hand over, and the handing over and the writing stay with the
login they are for, the messages of each sender come to a socket in the order in which they were
sent. -/
theorem written_in_order (native : Proto.Endian) (succeeds : StartStep → Bool) (tables : Tables)
    (as : List Action) (ht : ∀ row ∈ tables.messages, row.data.tag = none)
    (hc : Lts.Along step (fun s a => s.keepsTurns a) (init native succeeds tables) as) :
    Lts.Always step InOrder (init native succeeds tables) as := by
  intro bs hp t hr
  refine InLine.inOrder (Lts.invariant (I := fun s => Settled s ∧ WritesOwn s ∧ InLine s) ?_
    ⟨init_settled native succeeds tables, (init_ownStreams native succeeds tables).writes,
      init_inLine native succeeds ht⟩ (hc.initial hp) hr).2.2
  rintro s a t ⟨hs, hw, h⟩ hk hstep
  have hd : s.drainsOwn a := drainsOwn_of_socket fun c ha => by
    subst ha
    exact hk
  exact ⟨hs.step hstep, hw.step hs.steady.sound hs.steady.linked hd hstep, h.step hs hw hk hstep⟩

/-- The connection completes a frame. -/
def Action.sends (c : ConnId) : Action → Bool
  | .message d _ _ => d = c
  | _ => false

/-- A connection sends its key. -/
def Action.logsIn (key : PublicKey) : Action → Bool
  | .keyRead _ k => k = key
  | _ => false

/-- How often the key logs in after the connection has begun to send. -/
def loginsAfter (as : List Action) (sender : ConnId) (key : PublicKey) : Nat :=
  (as.dropWhile fun a => !a.sends sender).countP (·.logsIn key)

/-- Key 2 writes to key 1, which has left and logs in again. It writes once more when key 1 is
registered and its `send_delayed_messages` has the first message still to fetch. -/
def relayedPast : List Action :=
  [.loop, .accept, .keyRead 0 (.replicate 32 1), .loop, .execute, .resume (.start 0), .loop,
    .execute, .resume (.delayed 0), .readFails 0, .accept, .keyRead 1 (.replicate 32 2), .loop,
    .execute, .resume (.start 1), .greetings 1 (greetingsTo 1), .loop, .execute,
    .message 1 [7] true, .loop, .execute, .accept, .keyRead 2 (.replicate 32 1), .loop, .execute,
    .resume (.start 2), .loop, .execute, .resume (.start 2), .greetings 1 (greetingsTo 1),
    .message 1 [8] true, .loop, .execute, .resume (.delayed 2), .resume (.socket 2), .written 2,
    .written 2]

theorem not_written_in_order : loginsAfter relayedPast 1 (.replicate 32 1) = 1 ∧
    ¬ Lts.Always step InOrder (init .little (fun _ => true) .empty) relayedPast := by
  refine ⟨by decide +kernel, fun h => ?_⟩
  have hrun : (Lts.run step (init .little (fun _ => true) .empty) relayedPast).any fun s =>
      !((s.written 2).filter (· ∈ s.sentBy 1)).isSublist (s.sentBy 1) := by
    decide +kernel
  obtain ⟨s, hs, hbad⟩ := (Option.any_eq_true _ _).mp hrun
  have hsub := List.isSublist_iff_sublist.mpr (h _ (List.prefix_refl _) s hs 2 1)
  simp [hsub] at hbad

/-- The second message is sent when the first has been handed over. -/
def relayedAfter : List Action :=
  storedForLogin ++ [.greetings 1 (greetingsTo 1), .message 1 [8] true, .resume (.socket 2),
    .written 2, .written 2]

theorem written_in_order_session :
    Lts.Always step InOrder (init .little (fun _ => true) .empty) relayedAfter :=
  written_in_order .little (fun _ => true) .empty _ (by decide) (by decide +kernel)

end Server
end MydakServer
