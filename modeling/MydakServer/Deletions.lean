import Mathlib.Data.List.DropRight
import MydakServer.Clients

/-! When a stored message is deleted: after it has been written to the socket of the login it
was fetched for, or before. -/
namespace MydakServer.Server

/-- The rows that `send_delayed_messages` of the connection has handed over. -/
def handedRows (pushed : List Push) (c : ConnId) : List Nat :=
  (pushed.filter (·.caller = .delayed c)).filterMap Push.row

/-- The rows of the first messages that were put into the queue of a login. -/
def rowsTo (pushed : List Push) (c : ConnId) (n : Nat) : List Nat :=
  ((pushed.filter (·.login = c)).take n).filterMap Push.row

/-- The rows whose messages have been written to the socket of a login, where its messages are
written in the order in which they were put into its queue. -/
def rowsWritten (pushed : List Push) (s : Server) (c : ConnId) : List Nat :=
  rowsTo pushed c (s.written c).length

theorem handedRows_append (pushed pushed' : List Push) (c : ConnId) :
    handedRows (pushed ++ pushed') c = handedRows pushed c ++ handedRows pushed' c := by
  simp [handedRows]

/-- As long as `send_delayed_messages` has not come to its end it has collected the ids of all
that it has handed over. -/
def HandedOver (pushed : List Push) (s : Server) : Prop :=
  ∀ c, s.delayed c = .deleting ∨ s.delayed c = .finished ∨ handedRows pushed c = s.collected c

/-- Another coroutine hands over none of its rows. -/
theorem handedRows_pushOf {s : Server} (hw : s.registry.WellFormed) {a : Action} {c : ConnId}
    (ha : a ≠ .resume (.delayed c)) : handedRows (s.pushOf a).toList c = [] := by
  cases hp : s.pushOf a with
  | none => rfl
  | some p =>
    obtain ⟨i, generation, -, ⟨d, bytes, lookup, size, recipient, r, -, -, -, -, heq⟩ |
      ⟨d, row, rfl, -, -, -, heq⟩⟩ := pushOf_cases hw hp
    · rw [heq]
      rfl
    · have hdc : d ≠ c := by
        rintro rfl
        exact ha rfl
      rw [heq]
      simp [handedRows, hdc]

theorem HandedOver.step {s s' : Server} {a : Action} {pushed : List Push} (hs : Settled s)
    (hp : HandedOver pushed s) (hstep : s.step a = some s') :
    HandedOver (pushed ++ (s.pushOf a).toList) s' := by
  have h := hs.steady
  intro c
  by_cases ha : a = .resume (.delayed c)
  · subst ha
    cases resume_continues h.sound.wellFormed h.linked hstep with
    | hand row rest ids d db hdb hg hd =>
      refine .inr (.inr ?_)
      have hold : handedRows pushed c = ids := by
        obtain hc | hc | hc := hp c
        · simp [goesOn, hc] at hg
        · simp [goesOn, hc] at hg
        · rw [hc, collected_of_goesOn hg]
      have hnew : handedRows (s.pushOf (.resume (.delayed c))).toList c = [row.id] := by
        simp [handedRows, pushOf_delayed, hg, hd]
      rw [handedRows_append, hold, hnew]
      simp [collected, setDelayed]
    | delete ids db _ hdb hids hdel =>
      obtain ⟨db', v, -, rfl⟩ := deleteSent_cases hdel
      cases v with
      | none => exact .inl (by simp [setDelayed])
      | some v => exact .inr (.inl (by simp [setDelayed]))
    | finish db => exact .inr (.inl (by simp [setDelayed]))
  · rw [handedRows_append, handedRows_pushOf h.sound.wellFormed ha, List.append_nil]
    obtain hc | ⟨hnone, -, hc | hc⟩ := h.delayed hstep ha
    · have hsame : s'.collected c = s.collected c := by simp [collected, hc]
      rw [hc, hsame]
      exact hp c
    · have hun : s.delayed c = .unborn := by
        by_contra hne
        exact absurd hnone (hs.answer_of_delayed hne)
      refine .inr (.inr ?_)
      obtain hold | hold | hold := hp c
      · simp [hun] at hold
      · simp [hun] at hold
      · simpa [collected, hun, hc] using hold
    · exact .inr (.inl hc)

/-- Rows are put into a queue by `send_delayed_messages`, each into that of the login it was fetched
for. -/
def HandsOwn (pushed : List Push) : Prop :=
  ∀ p ∈ pushed, ∀ c, p.caller = .delayed c ↔ p.row.isSome ∧ p.login = c

theorem HandsOwn.step {pushed : List Push} {s : Server} {a : Action} (h : HandsOwn pushed)
    (hw : s.registry.WellFormed)
    (hown : ∀ c, a = .resume (.delayed c) → (s.ownClient c).all (· = c)) :
    HandsOwn (pushed ++ (s.pushOf a).toList) := by
  intro p hp d
  obtain hp | hp := List.mem_append.mp hp
  · exact h p hp d
  · have hp := Option.mem_toList.mp hp
    obtain ⟨i, generation, -, ⟨c, bytes, lookup, size, recipient, r, -, -, -, -, heq⟩ |
      ⟨c, row, rfl, -, -, -, heq⟩⟩ := pushOf_cases hw hp
    · rw [heq]
      simp
    · obtain rfl : p.login = c := pushOf_own (hown c rfl) hp
      rw [heq]
      simp

/-- What was put into the queue of a login are, in this order, the rows that its
`send_delayed_messages` has handed over, and messages that were not stored. -/
theorem HandsOwn.rows {pushed : List Push} (h : HandsOwn pushed) (c : ConnId) :
    (pushed.filter (·.login = c)).filterMap Push.row = handedRows pushed c := by
  rw [handedRows, List.filterMap_filter, List.filterMap_filter]
  refine List.filterMap_congr fun p hp => ?_
  cases hrow : p.row with
  | none => simp
  | some id => simp [h p hp c, hrow]

/-- Key 2 writes to key 1, which has left. Key 1 logs in again, and its stored message is put
into its queue: the socket coroutine, which waits, takes the signal. -/
def storedForLogin : List Action :=
  [.loop, .accept, .keyRead 0 (.replicate 32 1), .loop, .execute, .resume (.start 0), .loop,
    .execute, .resume (.delayed 0), .readFails 0, .accept, .keyRead 1 (.replicate 32 2), .loop,
    .execute, .resume (.start 1), .greetings 1 (greetingsTo 1), .loop, .execute,
    .message 1 [7] true, .loop, .execute, .accept, .keyRead 2 (.replicate 32 1), .loop, .execute,
    .resume (.start 2), .loop, .execute, .resume (.start 2), .loop, .execute, .resume (.delayed 2)]

end MydakServer.Server
