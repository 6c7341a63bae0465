import MydakServer.Conversation
import MydakServer.Stranded

/-! What becomes of the messages that `start` reads: each is put into one queue, or sent to the
database once. -/
namespace MydakServer.Server
open Database

/-- The messages that the relay has put into queues; the others had been stored. -/
def relays (pushed : List Push) : List Message :=
  (pushed.filter (·.row = none)).map Push.message

/-- The messages whose `INSERT`s have been queued. -/
def insertions (s : Server) : List Message := s.db.inserts.map Prod.snd

theorem relays_append (xs ys : List Push) : relays (xs ++ ys) = relays xs ++ relays ys := by
  simp [relays]

/-- `send_delayed_messages` relays nothing. -/
theorem relays_pushOf {s : Server} (hw : s.registry.WellFormed) {a : Action}
    (ha : ∀ c bytes lookup, a ≠ .message c bytes lookup) : relays (s.pushOf a).toList = [] := by
  cases hp : s.pushOf a with
  | none => rfl
  | some p =>
    obtain ⟨i, generation, -, ⟨c, bytes, lookup, _, _, _, heq, -⟩ | ⟨c, row, -, -, -, -, hpeq⟩⟩ :=
      pushOf_cases hw hp
    · exact absurd heq (ha c bytes lookup)
    · rw [hpeq]
      simp [relays]

/-- The insertions among the statements that a step sends. -/
theorem insertions_of_issued {s s' : Server} {stmts : List Statement}
    (h : s'.db.issued = s.db.issued ++ stmts) :
    s'.insertions = s.insertions ++ stmts.filterMap Statement.inserted := by
  simp only [insertions, inserts, h, List.filterMap_append, List.map_append]
  congr 1
  rw [List.map_filterMap]
  refine List.filterMap_congr fun stmt _ => ?_
  cases stmt <;> rfl

/-- A step relays the message it reads, or stores it, or can do neither without a connection. -/
theorem Logged.relayed {tables : Tables} {s s' : Server} {a : Action} (h : Logged tables s)
    (hstep : s.step a = some s') : ∃ stored, s'.insertions = s.insertions ++ stored ∧
      (relays (s.pushOf a).toList ++ stored = (s.framesOf a).map Frame.message ∨
        s.db.connected = false ∧ relays (s.pushOf a).toList ++ stored = []) := by
  have hsteady := h.settled.steady
  have hw := hsteady.sound.wellFormed
  have hdb := (hsteady.linked.step hsteady.sound (fun _ _ _ _ _ => trivial) hstep).2
  -- but for a message to somebody without a slot, a step sends no `INSERT` of a message
  have hnone : (∀ userId data, ¬ s.MaySend a (.insertMessage userId data)) →
      s'.insertions = s.insertions ++ [] := by
    intro hmay
    obtain ⟨-, -, hissued, -⟩ | ⟨-, -, stmts, hsend, -, hissued⟩ := hdb
    · rw [List.append_nil, insertions, insertions, inserts, inserts, hissued]
    · rw [insertions_of_issued hissued]
      congr 1
      refine List.filterMap_eq_nil_iff.mpr fun stmt hs => ?_
      cases stmt with
      | insertMessage userId data => exact absurd (hsend _ hs) (hmay userId data)
      | _ => rfl
  have hother : (∀ c bytes lookup, a ≠ .message c bytes lookup) →
      ∃ stored, s'.insertions = s.insertions ++ stored ∧
        (relays (s.pushOf a).toList ++ stored = (s.framesOf a).map Frame.message ∨
          s.db.connected = false ∧ relays (s.pushOf a).toList ++ stored = []) := by
    intro ha
    refine ⟨[], hnone ?_, .inl ?_⟩
    · rintro userId data ⟨c, bytes, lookup, _, _, _, heq, -⟩
      exact ha c bytes lookup heq
    · obtain hframes | ⟨c, bytes, lookup, f, heq, -⟩ := s.framesOf_cases a
      · simp [relays_pushOf hw ha, hframes]
      · exact absurd heq (ha c bytes lookup)
  cases a with
  | message c bytes lookup =>
    obtain ⟨size, recipient, hc, ⟨r, hr, hi, -, hissued⟩ | ⟨e, d, generation, he, hd, -⟩⟩ :=
      message_cases hsteady.sound hsteady.linked hstep
    · have hp : s.pushOf (.message c bytes lookup) = none := by
        simp [pushOf, hc, hr, clientAt, hi, SlotVector.slotAt_invalid]
      cases hconn : s.db.connected with
      | true =>
        refine ⟨_, insertions_of_issued (hissued hconn).2, .inl ?_⟩
        simp [hp, relays, framesOf, hc, Statement.inserted]
      | false =>
        have hsent : ∀ {t : Server}, Logged tables t → t.db.connected = false →
            t.insertions = [] := by
          intro t ht hnc
          have hnil : t.db.sent = [] := by
            by_contra hne
            simp [ht.recorded.connects hne] at hnc
          simp [insertions, inserts, ← sent_snd, hnil]
        obtain ⟨hlogged, hgoes⟩ := h.step hstep
        refine ⟨[], ?_, .inr ⟨rfl, by simp [hp, relays]⟩⟩
        rw [hsent h hconn, hsent hlogged (hgoes.connected.trans hconn), List.append_nil]
    · have hget : s.getClientIndex recipient lookup = some ⟨e.index, generation, e.dbIndex⟩ := by
        simp [getClientIndex, he, hd]
      refine ⟨[], hnone ?_, .inl ?_⟩
      · rintro userId data ⟨_, _, _, _, _, r, heq, hc', -, hr, hi, -⟩
        cases heq
        obtain ⟨rfl, rfl⟩ := StartState.readMessage.inj (hc.symm.trans hc')
        rw [hget] at hr
        cases hr
        have hinvalid : e.index = invalidIndex := hi
        rw [hinvalid, SlotVector.slotAt_invalid] at hd
        cases hd
      · simp [pushOf, hc, hget, clientAt, hd, Client.new, relays, framesOf]
  | _ => exact hother (by simp)

/-- On a connection that stands every message that has been read has been relayed or stored, and
once. -/
structure RelayedOnce (pushed : List Push) (s : Server) : Prop where
  relays : (relays pushed).Sublist (s.frames.map Frame.message)
  insertions : s.insertions.Sublist (s.frames.map Frame.message)
  numbered : ∀ (n : Nat) (f : Frame), s.frames[n]? = some f → f.message.tag = some n
  once : s.db.connected →
    (Server.relays pushed ++ s.insertions).Perm (s.frames.map Frame.message)

theorem RelayedOnce.step {tables : Tables} {pushed : List Push} {s s' : Server} {a : Action}
    (h : RelayedOnce pushed s) (hl : Logged tables s) (hstep : s.step a = some s') :
    RelayedOnce (pushed ++ (s.pushOf a).toList) s' := by
  have hframes := step_frames hl.settled.steady.sound hstep
  obtain ⟨stored, hins, hrelayed⟩ := hl.relayed hstep
  have hconn : s'.db.connected = s.db.connected := (hl.step hstep).2.connected
  have hsub : (Server.relays (s.pushOf a).toList ++ stored).Sublist
      ((s.framesOf a).map Frame.message) := by
    obtain heq | ⟨-, hnil⟩ := hrelayed
    · rw [heq]
    · rw [hnil]
      exact List.nil_sublist _
  constructor
  · rw [relays_append, hframes, List.map_append]
    exact h.relays.append ((List.sublist_append_left _ stored).trans hsub)
  · rw [hins, hframes, List.map_append]
    exact h.insertions.append ((List.sublist_append_right _ stored).trans hsub)
  · intro n f hf
    rw [hframes, List.getElem?_append] at hf
    split at hf
    · exact h.numbered n f hf
    · rename_i hn
      obtain hnil | ⟨c, bytes, lookup, f', -, hf', -, htag⟩ := s.framesOf_cases a
      · simp [hnil] at hf
      · rw [hf', List.getElem?_singleton] at hf
        split at hf <;> cases hf
        rename_i hz
        rw [htag]
        congr 1
        omega
  · intro hc
    rw [hconn] at hc
    obtain heq | ⟨hno, -⟩ := hrelayed
    · rw [relays_append, hins, hframes, List.map_append, ← heq]
      -- what this step relays moves behind the earlier insertions
      have hswap : (Server.relays pushed ++ Server.relays (s.pushOf a).toList ++
          (s.insertions ++ stored)).Perm (Server.relays pushed ++ s.insertions ++
            (Server.relays (s.pushOf a).toList ++ stored)) := by
        rw [List.append_assoc, List.append_assoc]
        refine List.Perm.append_left _ ?_
        rw [← List.append_assoc, ← List.append_assoc]
        exact List.perm_append_comm.append_right _
      exact hswap.trans ((h.once hc).append_right _)
    · simp [hc] at hno

theorem run_relayedOnce {native : Proto.Endian} {succeeds : StartStep → Bool} {tables : Tables}
    {as : List Action} {s : Server}
    (hr : Lts.run step (init native succeeds tables) as = some s) :
    RelayedOnce (pushes (init native succeeds tables) as) s := by
  have h : Logged tables s ∧ RelayedOnce ([] ++ pushes (init native succeeds tables) as) s := by
    refine Lts.invariant_log (C := fun _ _ => True)
      (I := fun s l => Logged tables s ∧ RelayedOnce l s)
      (fun s l a t ⟨hl, h⟩ _ hstep => ⟨(hl.step hstep).1, h.step hl hstep⟩)
      ⟨init_logged native succeeds tables, ?_⟩ (Lts.along_true _ _) hr
    have hissued : (init native succeeds tables).db.issued = [] := start_issued succeeds tables
    have hins : (init native succeeds tables).insertions = [] := by
      rw [insertions, inserts, hissued]
      rfl
    have hframes : (init native succeeds tables).frames = [] := rfl
    refine ⟨List.nil_sublist _, ?_, by simp [hframes], fun _ => ?_⟩ <;>
      simp [hins, hframes, Server.relays]
  exact h.2

/-- In every run each message that `start` has read has gone into one queue, or into one
`INSERT`, in the order in which they were read. -/
theorem relayed_once (native : Proto.Endian) (succeeds : StartStep → Bool) (tables : Tables)
    (as : List Action) (s : Server)
    (hr : Lts.run step (init native succeeds tables) as = some s) :
    RelayedOnce (pushes (init native succeeds tables) as) s :=
  run_relayedOnce hr

/-- One of the two messages is stored, and the other is relayed. -/
theorem relayed_once_session : ∃ s,
    Lts.run step (init .little (fun _ => true) .empty) relayedAfter = some s ∧
    RelayedOnce (pushes (init .little (fun _ => true) .empty) relayedAfter) s := by
  have hsome : (Lts.run step (init .little (fun _ => true) .empty) relayedAfter).isSome := by
    decide +kernel
  obtain ⟨s, hs⟩ := Option.isSome_iff_exists.mp hsome
  exact ⟨s, hs, relayed_once .little (fun _ => true) .empty _ s hs⟩

end MydakServer.Server
