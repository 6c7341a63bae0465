import MydakServer.Deletions
import MydakServer.Ledger
import MydakServer.Stranded

/-! The database as a set of mailboxes: what is in the mailbox of a user, and what a fetch from
it returns, can be read off the statements that have been executed. -/
namespace MydakServer
variable {ι : Type*}

/-- What the statement, with these results, has put into the messages or taken out of them. -/
def Statement.entry : Statement → Results → Option (Ledger.Entry Row Nat)
  | .insertMessage userId data, .changed _ id => some (.put ⟨id, userId, data⟩)
  | .deleteMessages ids, _ => some (.remove ids)
  | _, _ => none

def entries (log : List (ι × Statement × Results)) : List (Ledger.Entry Row Nat) :=
  log.filterMap fun x => x.2.1.entry x.2.2

theorem entries_append (log log' : List (ι × Statement × Results)) :
    entries (log ++ log') = entries log ++ entries log' :=
  List.filterMap_append

namespace Tables

/-- The messages that were in the mailbox of the user at the start or have been stored in it
since, but for those that have been deleted. -/
def mailbox (t : Tables) (log : List (ι × Statement × Results)) (userId : Nat) : List Row :=
  ((t.messages ++ Ledger.puts (entries log)).filter
    (·.id ∉ Ledger.removed (entries log))).filter (·.userId = userId)

/-- A row is put in under an id that has not been given out. -/
theorem exec_entry {t t' : Tables} {stmt : Statement} {r : Results}
    (h : t.exec stmt = some (r, t')) :
    t'.messages = Ledger.replay Row.id t.messages (stmt.entry r).toList ∧
      ∀ row, (stmt.entry r).bind Ledger.Entry.row = some row → t.nextMessageId ≤ row.id := by
  cases stmt with
  | insertUser key =>
    simp only [exec] at h
    split at h
    · cases h
      exact ⟨rfl, by simp [Statement.entry]⟩
    · split at h <;> cases h
      exact ⟨rfl, by simp [Statement.entry]⟩
  | insertMessage userId data =>
    simp only [exec] at h
    split at h
    · split at h <;> cases h
      refine ⟨rfl, fun row hrow => ?_⟩
      obtain rfl : ⟨t.freshMessageId, userId, data⟩ = row := Option.some.inj hrow
      exact t.le_freshMessageId
    · cases h
  | deleteMessages ids =>
    cases h
    exact ⟨rfl, by simp [Statement.entry, Ledger.Entry.row]⟩
  | _ =>
    cases h
    exact ⟨rfl, by simp [Statement.entry]⟩

theorem Replays.messages {t t' : Tables} {log : List (ι × Statement × Results)}
    (h : t.Replays log t') : t'.messages = Ledger.replay Row.id t.messages (entries log) := by
  induction log generalizing t with
  | nil =>
    obtain rfl : t' = t := h
    rfl
  | cons x log ih =>
    obtain ⟨u, hu, h⟩ := h
    have hcons : entries (x :: log) = (x.2.1.entry x.2.2).toList ++ entries log := by
      cases he : x.2.1.entry x.2.2 <;> simp [entries, he]
    rw [ih h, (exec_entry hu).1, hcons, Ledger.replay_append]

theorem Replays.ids_lt {t t' : Tables} {log : List (ι × Statement × Results)}
    (h : t.Replays log t') :
    ∀ row ∈ t.messages ++ Ledger.puts (entries log), row.id < t'.nextMessageId := by
  induction log generalizing t with
  | nil =>
    obtain rfl : t' = t := h
    simpa [entries, Ledger.puts] using t'.rowIds
  | cons x log ih =>
    obtain ⟨u, hu, h⟩ := h
    intro row hrow
    obtain hrow | hrow := List.mem_append.mp hrow
    · have hnext := (exec_evolves hu).next
      have hnext' := h.evolves.next
      have hlt := t.rowIds row hrow
      omega
    · by_cases hx : (x.2.1.entry x.2.2).bind Ledger.Entry.row = some row
      · -- the statement at the front has stored the row
        have hid := (exec_entry hu).2 row hx
        have hmem : row ∈ u.messages := by
          rw [(exec_entry hu).1]
          cases he : x.2.1.entry x.2.2 with
          | none => simp [he] at hx
          | some e =>
            cases e with
            | put row' =>
              obtain rfl : row' = row := by simpa [he, Ledger.Entry.row] using hx
              simp [Ledger.replay]
            | remove ids => simp [he, Ledger.Entry.row] at hx
        exact ih h row (List.mem_append_left _ hmem)
      · refine ih h row (List.mem_append_right _ ?_)
        obtain ⟨e, he, heq⟩ := List.mem_filterMap.mp hrow
        obtain ⟨y, hy, hentry⟩ := List.mem_filterMap.mp he
        obtain rfl | hy := List.mem_cons.mp hy
        · exact absurd (by simp [hentry, heq]) hx
        · exact List.mem_filterMap.mpr ⟨e, List.mem_filterMap.mpr ⟨y, hy, hentry⟩, heq⟩

theorem Replays.mailbox {t t' : Tables} {log : List (ι × Statement × Results)}
    (h : t.Replays log t') (hf : Ledger.Fresh Row.id (entries log)) (userId : Nat) :
    t'.messages.filter (·.userId = userId) = t.mailbox log userId := by
  rw [h.messages, Ledger.replay_eq hf, Tables.mailbox]

/-- A fetch returns the mailbox of its user as the statements before it have left it. -/
theorem Replays.fetched {t t' : Tables} {before after : List (ι × Statement × Results)} {i : ι}
    {userId : Nat} {r : Results}
    (h : t.Replays (before ++ (i, .selectMessages userId, r) :: after) t')
    (hf : Ledger.Fresh Row.id (entries (before ++ (i, .selectMessages userId, r) :: after))) :
    r.messageRows = t.mailbox before userId := by
  obtain ⟨u, hu, v, hv, -⟩ := replays_append.mp h
  rw [entries_append] at hf
  have hbefore := hu.mailbox (hf.initial (List.prefix_append _ _)) userId
  cases hv
  exact hbefore

end Tables

namespace Database
open RequestQueue

/-- A statement that has been sent has been executed, or is pending. -/
theorem sent_eq {d : Database ι} (h : d.queue.Coherent) :
    d.sent = d.executed.map (fun x => (x.1, x.2.1)) ++ d.calls := by
  have hdone : d.executed.map (fun x => (x.1, x.2.1)) =
      (d.queue.history.completed.map Prod.fst).map fun t => (t.caller, t.request) := by
    simp [executed, Function.comp_def]
  rw [hdone, h.completed, sent, h.queued, calls, RequestQueue.pending]
  simp only [List.map_append, List.map_map, List.append_assoc, Function.comp_def]
  rw [← List.map_append, List.take_append_drop]

theorem issued_eq {d : Database ι} (h : d.queue.Coherent) :
    d.issued = d.executed.map (·.2.1) ++ d.pending := by
  rw [← sent_snd, sent_eq h, List.map_append, List.map_map, calls_snd]
  rfl

end Database

namespace Server
open Database

variable {tables : Tables} {s s' : Server} {a : Action}

/-- A step executes no statement, or one that had been sent. -/
theorem Logged.executes (h : Logged tables s) (hstep : s.step a = some s') :
    s'.db.executed = s.db.executed ∨ ∃ x, s'.db.executed = s.db.executed ++ [x] ∧
      x.2.1 ∈ s.db.issued ∧ s.db.tables.exec x.2.1 = some (x.2.2, s'.db.tables) := by
  obtain ⟨h', hgoes⟩ := h.step hstep
  obtain ⟨new, hnew⟩ := hgoes.executed
  have hissued := issued_eq h.answered.coherent
  have hissued' := issued_eq h'.answered.coherent
  rw [← hnew, List.map_append, List.append_assoc] at hissued'
  obtain ⟨-, -, hi, stmt, r, hp, -⟩ | ⟨-, -, stmts, -, hp, hi⟩ :=
    (h.settled.steady.linked.step h.settled.steady.sound (fun _ _ _ _ _ => trivial) hstep).2
  · rw [hi, hissued, hp] at hissued'
    have hone : new.map (·.2.1) = [stmt] := by
      have heq := List.append_cancel_left hissued'
      rw [← List.singleton_append] at heq
      exact (List.append_cancel_right heq).symm
    obtain ⟨x, rfl, hx⟩ := List.map_eq_singleton_iff.mp hone
    refine .inr ⟨x, hnew.symm, by simp [hissued, hp, hx], ?_⟩
    have hreplays := h'.recorded.replays
    rw [← hnew] at hreplays
    obtain ⟨u, hu, hlast⟩ := Tables.replays_append.mp hreplays
    obtain rfl := hu.unique h.recorded.replays
    exact Tables.replays_single.mp hlast
  · rw [hi, hissued, hp, List.append_assoc] at hissued'
    have hnil : new.map (·.2.1) = [] := by
      have hlen := congrArg List.length hissued'
      simp only [List.length_append, List.length_map] at hlen
      exact List.length_eq_zero_iff.mp (by rw [List.length_map]; omega)
    rw [List.map_eq_nil_iff.mp hnil, List.append_nil] at hnew
    exact .inl hnew.symm

/-- The rows are what `send_delayed_messages` of the connection has found for the user. -/
def Found (s : Server) (c : ConnId) (userId : Nat) (rows : List Row) : Prop :=
  ∃ r, (.delayed c, .selectMessages userId, r) ∈ s.db.executed ∧ r.messageRows = rows

/-- `send_delayed_messages` works through what it has found, and only such rows are deleted, so
that no id is deleted before it has been given to a row. -/
structure Mailed (tables : Tables) (s : Server) : Prop where
  logged : Logged tables s
  fresh : Ledger.Fresh Row.id (entries s.db.executed)
  sending : ∀ c current rest sent, s.delayed c = .sending current rest sent →
    ∃ handed, s.Found c (s.connection c).indices.dbIndex (handed ++ current :: rest) ∧
      handed.map Row.id = sent
  deletes : ∀ ids, .deleteMessages ids ∈ s.db.issued →
    ∃ c userId rows, s.Found c userId rows ∧ ids <+: rows.map Row.id

theorem init_mailed (native : Proto.Endian) (succeeds : StartStep → Bool) (tables : Tables) :
    Mailed tables (init native succeeds tables) where
  logged := init_logged native succeeds tables
  fresh := by
    have hexecuted : (init native succeeds tables).db.executed = [] := by
      simp only [executed, init, Database.start, RequestQueue.start]
      split <;> rfl
    rw [hexecuted]
    exact List.Pairwise.nil
  sending := by
    intro c current rest sent hc
    cases hc
  deletes := by
    intro ids hids
    simp [init, start_issued] at hids

theorem Found.mono {c : ConnId} {userId : Nat} {rows : List Row} (h : s.Found c userId rows)
    (hp : s.db.executed <+: s'.db.executed) : s'.Found c userId rows := by
  obtain ⟨r, hm, hr⟩ := h
  exact ⟨r, hp.subset hm, hr⟩

/-- A connection whose `send_delayed_messages` is under way keeps its handle. -/
theorem Steady.connection_step (h : Steady s) (hstep : s.step a = some s') {c : ConnId}
    (hc : s.answer c ≠ none) : s'.connection c = s.connection c := by
  obtain ⟨g, hg⟩ := Option.ne_none_iff_exists'.mp hc
  obtain ⟨t, hm, halike⟩ := step_move h.sound h.linked hstep
  rw [halike.connection]
  exact (hm.session h.sound hg).2.1

/-- What `send_delayed_messages` goes on with comes, in what it has found, after the rows whose
ids it has collected. -/
theorem Mailed.goesOn (h : Mailed tables s) {c : ConnId} {rows : List Row} {ids : List Nat}
    (hg : s.goesOn c = some (rows, ids)) :
    ∃ handed, s.Found c (s.connection c).indices.dbIndex (handed ++ rows) ∧
      handed.map Row.id = ids := by
  unfold Server.goesOn at hg
  cases hc : s.delayed c with
  | fetching =>
    simp only [hc] at hg
    split at hg <;> cases hg
    rename_i db hd
    have hl := h.logged.settled.steady.linked
    have hasks := hl.fetching c (by simp) hc
    have hsends := hl.answered.sends _ _ hasks
    obtain ⟨r, q, ht, hv⟩ := Database.resume_cases hd
    obtain ⟨⟨ref, stmt, hcaller⟩, hr, -⟩ := RequestQueue.take_eq_some.mp ht
    have hplace := executed_place hl.answered.coherent hcaller hr
    obtain rfl : stmt = .selectMessages _ := by simpa [asked, hcaller] using hasks
    refine ⟨[], ⟨r, List.mem_of_getElem? hplace, ?_⟩, rfl⟩
    obtain ⟨-, hreturned, -⟩ | ⟨key, hop, -⟩ := hv
    · cases hop : s.db.operation (.delayed c) <;> simp [hop, Operation.Sends] at hsends
      simpa [hop, returned, eq_comm] using hreturned
    · simp [hop, Operation.Sends] at hsends
  | sending current rest sent =>
    simp only [hc] at hg
    split at hg <;> cases hg
    obtain ⟨handed, hfound, rfl⟩ := h.sending c current _ sent hc
    exact ⟨handed ++ [current], by simpa using hfound, by simp⟩
  | _ => simp [hc] at hg

theorem Mailed.deleting (h : Mailed tables s) {c : ConnId} {ids : List Nat}
    (hd : s.deletes c = some ids) :
    ∃ userId rows, s.Found c userId rows ∧ ids <+: rows.map Row.id := by
  unfold Server.deletes at hd
  split at hd
  · rename_i ids' hg
    cases hd
    obtain ⟨handed, hfound, rfl⟩ := h.goesOn hg
    exact ⟨_, _, hfound, by simp⟩
  · rename_i row rest ids' hg
    split at hd <;> cases hd
    obtain ⟨handed, hfound, rfl⟩ := h.goesOn hg
    exact ⟨_, _, hfound, by simp⟩
  · split at hd
    · rename_i current rest sent hc hs
      cases hd
      obtain ⟨handed, hfound, rfl⟩ := h.sending c current rest _ hc
      exact ⟨_, _, hfound, by simp⟩
    · cases hd

/-- The ids that a `DELETE` names have been given to rows. -/
theorem Mailed.ids_lt (h : Mailed tables s) {ids : List Nat}
    (hd : .deleteMessages ids ∈ s.db.issued) : ∀ id ∈ ids, id < s.db.tables.nextMessageId := by
  intro id hid
  obtain ⟨c, userId, rows, ⟨r, hm, rfl⟩, hp⟩ := h.deletes ids hd
  obtain ⟨row, hrow, rfl⟩ := List.mem_map.mp (hp.subset hid)
  obtain ⟨before, after, hsplit⟩ := List.append_of_mem hm
  have hreplays := h.logged.recorded.replays
  have hfresh := h.fresh
  rw [hsplit] at hreplays hfresh
  rw [hreplays.fetched hfresh, Tables.mailbox] at hrow
  have hrow := List.mem_of_mem_filter (List.mem_of_mem_filter hrow)
  refine h.logged.recorded.replays.ids_lt row ?_
  rw [hsplit, entries_append]
  obtain hrow | hrow := List.mem_append.mp hrow
  · exact List.mem_append_left _ hrow
  · refine List.mem_append_right _ ?_
    simp only [Ledger.puts, List.filterMap_append]
    exact List.mem_append_left _ hrow

theorem Mailed.step (h : Mailed tables s) (hstep : s.step a = some s') : Mailed tables s' := by
  obtain ⟨h', hgoes⟩ := h.logged.step hstep
  have hsteady := h.logged.settled.steady
  refine ⟨h', ?_, ?_, ?_⟩
  · obtain heq | ⟨x, heq, hx, hexec⟩ := h.logged.executes hstep
    · rw [heq]
      exact h.fresh
    · rw [heq, entries_append]
      have hsingle : entries [x] = (x.2.1.entry x.2.2).toList := by
        cases he : x.2.1.entry x.2.2 <;> simp [entries, he]
      refine h.fresh.append ?_ fun row hrow hid => ?_
      · rw [hsingle]
        cases x.2.1.entry x.2.2 with
        | none => exact List.Pairwise.nil
        | some e => exact List.pairwise_singleton _ _
      · -- an id that has been deleted had been given to a row before
        rw [hsingle] at hrow
        have hnext : s.db.tables.nextMessageId ≤ row.id := by
          refine (Tables.exec_entry hexec).2 row ?_
          cases he : x.2.1.entry x.2.2 with
          | none => simp [he, Ledger.puts] at hrow
          | some e => simpa [he, Ledger.puts] using hrow
        obtain ⟨e, he, hid⟩ := List.mem_flatMap.mp hid
        obtain ⟨⟨i, stmt, r⟩, hy, hentry⟩ := List.mem_filterMap.mp he
        have hdel : ∃ ids, stmt = .deleteMessages ids ∧ e = .remove ids := by
          cases stmt with
          | insertMessage userId data =>
            cases r <;> simp [Statement.entry] at hentry
            subst hentry
            cases hid
          | deleteMessages ids => exact ⟨ids, rfl, (Option.some.inj hentry).symm⟩
          | _ => cases hentry
        obtain ⟨ids, rfl, rfl⟩ := hdel
        have hissued : .deleteMessages ids ∈ s.db.issued := by
          rw [issued_eq h.logged.answered.coherent]
          exact List.mem_append_left _ (List.mem_map.mpr ⟨_, hy, rfl⟩)
        have hlt := h.ids_lt hissued row.id hid
        omega
  · intro c current rest sent hc
    -- a connection that had an answer keeps its handle
    have hkeep : s.delayed c ≠ .unborn → s'.connection c = s.connection c := fun hdel =>
      hsteady.connection_step hstep (h.logged.settled.answer_of_delayed hdel)
    by_cases ha : a = .resume (.delayed c)
    · subst ha
      cases resume_continues hsteady.sound.wellFormed hsteady.linked hstep with
      | hand row rest' ids d db hdb hg hd =>
        simp only [setDelayed, Function.update_self, DelayedState.sending.injEq] at hc
        obtain ⟨rfl, rfl, rfl⟩ := hc
        obtain ⟨handed, hfound, hids⟩ := h.goesOn hg
        rw [hkeep (by
          intro hun
          simp [Server.goesOn, hun] at hg)]
        exact ⟨handed, hfound.mono hgoes.executed, hids⟩
      | delete ids db _ hdb hids hdel =>
        obtain ⟨db', v, -, rfl⟩ := deleteSent_cases hdel
        cases v <;> simp [setDelayed] at hc
      | finish db => simp [setDelayed] at hc
    · obtain hsame | ⟨-, -, hnew | hnew⟩ := hsteady.delayed hstep ha
      · rw [hsame] at hc
        rw [hkeep (by simp [hc])]
        obtain ⟨handed, hfound, hids⟩ := h.sending c current rest sent hc
        exact ⟨handed, hfound.mono hgoes.executed, hids⟩
      · simp [hnew] at hc
      · simp [hnew] at hc
  · intro ids hids
    have hold : (∃ c userId rows, s.Found c userId rows ∧ ids <+: rows.map Row.id) →
        ∃ c userId rows, s'.Found c userId rows ∧ ids <+: rows.map Row.id := by
      rintro ⟨c, userId, rows, hfound, hp⟩
      exact ⟨c, userId, rows, hfound.mono hgoes.executed, hp⟩
    obtain ⟨new, hnew, -⟩ := hgoes.sent
    have hissued : s'.db.issued = s.db.issued ++ new.map Prod.snd := by
      rw [← sent_snd, ← sent_snd, hnew, List.map_append]
    rw [hissued, List.mem_append] at hids
    obtain hids | hids := hids
    · exact hold (h.deletes ids hids)
    · have hnew' : .deleteMessages ids ∈ s'.db.issued.drop s.db.issued.length := by
        rwa [hissued, List.drop_left]
      obtain rfl | ⟨c, -, hdel⟩ := hsteady.deletes hstep hnew'
      · obtain ⟨x, hx, heq⟩ := List.mem_map.mp hids
        refine absurd ?_ (h'.recorded.deletes x.1)
        rw [hnew, ← heq]
        exact List.mem_append_right _ hx
      · exact hold ⟨c, h.deleting hdel⟩

/-- The mailboxes after a run. -/
structure Mailboxes (tables : Tables) (s : Server) : Prop where
  inOrder : s.db.executed.map (fun x => (x.1, x.2.1)) <+: s.db.sent
  rows : ∀ userId, s.db.tables.messages.filter (·.userId = userId) =
    tables.mailbox s.db.executed userId
  fetched : ∀ before i userId r after,
    s.db.executed = before ++ (i, .selectMessages userId, r) :: after →
      r.messageRows = tables.mailbox before userId
  deletes : ∀ i ids, (i, .deleteMessages ids) ∈ s.db.sent → ∃ c before userId r after,
    s.db.executed = before ++ (.delayed c, .selectMessages userId, r) :: after ∧
      ids <+: (tables.mailbox before userId).map Row.id

/-- In every run the database is a set of mailboxes: the statements take effect one after the
other in the order in which they were sent, each fetch returns what has been stored for its user
and has not been deleted, and only the first messages of a mailbox that has been fetched are
deleted from it. -/
theorem mailboxes_kept (native : Proto.Endian) (succeeds : StartStep → Bool) (tables : Tables)
    (as : List Action) (s : Server)
    (hr : Lts.run step (init native succeeds tables) as = some s) : Mailboxes tables s := by
  have h : Mailed tables s := Lts.invariant_all (fun _ _ _ h hstep => h.step hstep)
    (init_mailed native succeeds tables) hr
  have hreplays := h.logged.recorded.replays
  have hfetched : ∀ before i userId r after,
      s.db.executed = before ++ (i, .selectMessages userId, r) :: after →
        r.messageRows = tables.mailbox before userId := by
    intro before i userId r after heq
    have hfresh := h.fresh
    rw [heq] at hfresh
    exact (heq ▸ hreplays).fetched hfresh
  refine ⟨executed_initial h.logged.answered.coherent, hreplays.mailbox h.fresh, hfetched, ?_⟩
  intro i ids hids
  have hissued : .deleteMessages ids ∈ s.db.issued := by
    rw [← sent_snd]
    exact List.mem_map_of_mem (f := Prod.snd) hids
  obtain ⟨c, userId, rows, ⟨r, hm, rfl⟩, hp⟩ := h.deletes ids hissued
  obtain ⟨before, after, heq⟩ := List.append_of_mem hm
  refine ⟨c, before, userId, r, after, heq, ?_⟩
  rwa [← hfetched before _ userId r after heq]

/-- The message of key 2 is stored, fetched and deleted. -/
theorem mailboxes_kept_deleted : ∃ s,
    Lts.run step (init .little (fun _ => true) .empty)
      (storedForLogin ++ [.resume (.delayed 2), .loop, .execute]) = some s ∧
    Mailboxes .empty s := by
  have hsome : (Lts.run step (init .little (fun _ => true) .empty)
      (storedForLogin ++ [.resume (.delayed 2), .loop, .execute])).isSome := by
    decide +kernel
  obtain ⟨s, hs⟩ := Option.isSome_iff_exists.mp hsome
  exact ⟨s, hs, mailboxes_kept .little (fun _ => true) .empty _ s hs⟩

end Server
end MydakServer
