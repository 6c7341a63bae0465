import MydakServer.Arrival
import MydakServer.Relays

/-! What has become of each message that `start` has read when the server is at rest: it has been
written, or stored, or was lost with the session whose queue it was put into. -/
namespace MydakServer
open Database

/-- The row that an `INSERT` stores has the message that it was given. -/
theorem Tables.exec_inserted {t t' : Tables} {stmt : Statement} {r : Results}
    (h : t.exec stmt = some (r, t')) :
    ((stmt.entry r).bind Ledger.Entry.row).map Row.data = stmt.inserted := by
  cases stmt with
  | insertMessage userId data =>
    simp only [exec] at h
    split at h
    · split at h <;> cases h
      rfl
    · cases h
  | _ => rfl

theorem Tables.Replays.puts {ι : Type*} {t t' : Tables} {log : List (ι × Statement × Results)}
    (h : t.Replays log t') : (Ledger.puts (entries log)).map Row.data =
      (log.map (·.2.1)).filterMap Statement.inserted := by
  rw [Ledger.puts, entries, List.filterMap_filterMap, List.map_filterMap, List.filterMap_map]
  refine List.filterMap_congr fun x hx => ?_
  obtain ⟨before, after, rfl⟩ := List.append_of_mem hx
  obtain ⟨u, -, v, hexec, -⟩ := replays_append.mp h
  exact exec_inserted hexec

namespace Server
variable {tables : Tables} {pushed : List Push} {s : Server} {c : ConnId}

/-- The rows that have been stored since the start. -/
def storedRows (s : Server) : List Row := Ledger.puts (entries s.db.executed)

theorem insertions_eq (s : Server) :
    s.insertions = s.db.issued.filterMap Statement.inserted := by
  rw [insertions, inserts, List.map_filterMap]
  refine List.filterMap_congr fun stmt _ => ?_
  cases stmt <;> rfl

/-- With nothing pending every `INSERT` that has been queued has stored its row. -/
theorem Logged.storedRows_data (h : Logged tables s) (hp : s.db.pending = []) :
    s.storedRows.map Row.data = s.insertions := by
  rw [insertions_eq, issued_eq h.answered.coherent, hp, List.append_nil]
  exact h.recorded.replays.puts

/-- A stored row is there until a `DELETE` names it. -/
theorem Mailed.kept (h : Mailed tables s) {row : Row} (hrow : row ∈ s.storedRows) :
    row ∈ s.db.tables.messages ∨ row.id ∈ Ledger.removed (entries s.db.executed) := by
  by_cases hid : row.id ∈ Ledger.removed (entries s.db.executed)
  · exact .inr hid
  · left
    rw [h.logged.recorded.replays.messages, Ledger.replay_eq h.fresh]
    exact List.mem_filter.mpr ⟨List.mem_append_right _ hrow, by simpa using hid⟩

theorem run_connected {native : Proto.Endian} {succeeds : StartStep → Bool} {as : List Action}
    (hr : Lts.run step (init native succeeds tables) as = some s)
    (hloop : s.db.queue.loop = .waiting) : s.db.connected := by
  refine (Lts.invariant_all (I := fun s => Logged tables s ∧ s.db.connected) ?_
    ⟨init_logged native succeeds tables, connected_of_waiting hr hloop⟩ hr).2
  rintro s a t ⟨h, hc⟩ hstep
  obtain ⟨ht, hgoes⟩ := h.step hstep
  exact ⟨ht, hgoes.connected.trans hc⟩

theorem RelayedOnce.nodup (h : RelayedOnce pushed s) : (s.frames.map Frame.message).Nodup := by
  have htags : (s.frames.map Frame.message).map Message.tag =
      (List.range s.frames.length).map some := by
    refine List.ext_getElem (by simp) fun n hn _ => ?_
    have hlt : n < s.frames.length := by simpa using hn
    have htag := h.numbered n s.frames[n] (List.getElem?_eq_getElem hlt)
    simpa using htag
  have hnodup : ((List.range s.frames.length).map some).Nodup :=
    List.nodup_range.map (Option.some_injective Nat)
  rw [← htags] at hnodup
  exact hnodup.of_map _

/-- The fate of a message that has been read, when nothing more happens of itself. -/
structure Settles (pushed : List Push) (s : Server) (f : Frame) : Prop where
  once : (relays pushed).count f.message + (s.storedRows.map Row.data).count f.message = 1
  written : ∀ p ∈ pushed, p.message = f.message → s.Writable p.login →
    f.message ∈ s.written p.login
  stored : ∀ row ∈ s.storedRows, row.data = f.message →
    row ∈ s.db.tables.messages ∨ row.id ∈ Ledger.removed (entries s.db.executed)

/-- At rest each session that can be written to has been written all that was put into its queue,
and each message that has been read has been put into one queue or stored in one row, and not
both. -/
theorem frames_settled (native : Proto.Endian) (succeeds : StartStep → Bool) (tables : Tables)
    (as : List Action) (s : Server)
    (hr : Lts.run step (init native succeeds tables) as = some s)
    (hown : Lts.Along step (fun s a => s.drainsOwn a) (init native succeeds tables) as)
    (hrest : Resting s) (hloop : s.db.queue.loop = .waiting) :
    (∀ c, s.Writable c → s.written c = pushedTo (pushes (init native succeeds tables) as) c) ∧
      ∀ f ∈ s.frames, Settles (pushes (init native succeeds tables) as) s f := by
  have hmailed : Mailed tables s := Lts.invariant_all (fun _ _ _ h hstep => h.step hstep)
    (init_mailed native succeeds tables) hr
  have honce := run_relayedOnce hr
  have hwritten : ∀ c, s.Writable c →
      s.written c = pushedTo (pushes (init native succeeds tables) as) c :=
    fun c hc => written_at_rest hr hown hrest hc
  have hpending := hmailed.logged.pending_of_waiting hloop
  refine ⟨hwritten, fun f hf => ⟨?_, ?_, ?_⟩⟩
  · have hcount := (honce.once (run_connected hr hloop)).count_eq f.message
    rw [List.count_append, ← hmailed.logged.storedRows_data hpending] at hcount
    rw [hcount]
    exact List.count_eq_one_of_mem honce.nodup (List.mem_map_of_mem hf)
  · intro p hp hm hw
    rw [hwritten p.login hw, ← hm]
    exact List.mem_map_of_mem (List.mem_filter.mpr ⟨hp, by simp⟩)
  · exact fun row hrow _ => hmailed.kept hrow

/-- Of two messages for key 1 one has been stored and fetched, and the other relayed; then all comes
to rest. -/
def bothWritten : List Action :=
  relayedAfter ++ [.loop, .cancel 0, .resume (.socket 0), .resume (.start 1),
    .resume (.delayed 1), .resume (.socket 2), .resume (.delayed 2), .loop, .execute, .loop,
    .resume (.delayed 2), .resume (.store 0)]

theorem frames_settled_both : ∃ s : Server, s.registered 2 ∧ s.frames.length = 2 ∧
    (∀ c, s.Writable c →
      s.written c = pushedTo (pushes (init .little (fun _ => true) .empty) bothWritten) c) ∧
    ∀ f ∈ s.frames, Settles (pushes (init .little (fun _ => true) .empty) bothWritten) s f := by
  have hsome : (Lts.run step (init .little (fun _ => true) .empty) bothWritten).any fun s =>
      s.registered 2 && s.frames.length = 2 && s.db.queue.loop = .waiting &&
        s.ownActions.all fun a => (s.step a).isNone := by
    decide +kernel
  have hown : Lts.Along step (fun s a => s.drainsOwn a)
      (init .little (fun _ => true) .empty) bothWritten := by
    decide +kernel
  obtain ⟨s, hr, hs⟩ := (Option.any_eq_true _ _).mp hsome
  simp only [Bool.and_eq_true, decide_eq_true_eq, List.all_eq_true, Option.isNone_iff_eq_none]
    at hs
  obtain ⟨⟨⟨hc, hframes⟩, hloop⟩, hstuck⟩ := hs
  have hrest : Resting s := (run_attentive hr).resting_iff.mpr hstuck
  exact ⟨s, hc, hframes,
    frames_settled .little (fun _ => true) .empty bothWritten s hr hown hrest hloop⟩

end Server
end MydakServer
