import MydakServer.Calls
import MydakServer.Wire

/-! What becomes of a message when the call that has put it into a queue returns an error. -/
namespace MydakServer.Server
open Rendezvous

/-- The queue that the message was put into is no client's any more and nobody writes from it, and
its socket carries only messages that were put there before, and perhaps a part of another one of
these. -/
structure Withdrawn (s : Server) (before : List Push) (p : Push) : Prop where
  queue : s.drained p.login = false
  socket : s.Transmits p.login (pushedTo before p.login)

/-- A call of `add_message_to_queue` that returns an error at once has changed nothing, and one
that goes on has changed one queue, which is written to its own socket. When the call is aborted,
its message has been withdrawn for good. -/
structure ErrorAtomic (s : Server) (pushed : List Push) : Prop where
  code : ∀ i generation m t s' code,
    s.addMessageToQueue i generation m t = some (s', .code code) → s' = s
  others : ∀ i generation m t s' r, s.addMessageToQueue i generation m t = some (s', r) →
    ∀ c, s.clientAt i generation ≠ some c → s'.messages c = s.messages c
  socket : WritesClient s
  exception : ∀ t before p, LastPush pushed t before p → s.signal t = .aborted →
    ∀ as u, Lts.run step s as = some u → u.Withdrawn before p

/-- How many messages have gone out to the socket, one in part included. -/
def begun (s : Server) (c : ConnId) : Nat :=
  (s.written c).length + if (s.torn c).isEmpty then 0 else 1

/-- No more coroutines wait on a channel that is destroyed than messages are left in its queue of
which nothing has gone out. -/
def cancelsInTime (s : Server) : Action → Bool
  | .cancel c =>
    (s.senders c).length + (if (s.torn c).isEmpty then 0 else 1) ≤ (s.messages c).length
  | _ => true

/-- What holds of the calls in every run. -/
structure Accounted (pushed : List Push) (s : Server) : Prop where
  settled : Settled s
  heard : Heard s
  calls : Calls pushed s

/-- What holds of the calls and of the sockets where every socket coroutine drains its own
queue. -/
structure Wired (pushed : List Push) (s : Server) : Prop where
  accounted : Accounted pushed s
  own : OwnStreams s pushed
  torn : TornLast s

/-- The queue of a call that was aborted is nobody's, and its message has not gone out. -/
def Withheld (pushed : List Push) (s : Server) : Prop :=
  ∀ t before p, LastPush pushed t before p → s.signal t = .aborted →
    s.drained p.login = false ∧ s.begun p.login ≤ (pushedTo before p.login).length

/-- A call that is aborted in this step was the first of those that wait on the channel. -/
theorem Calls.aborted {pushed : List Push} {s s' : Server} {a : Action} (h : Calls pushed s)
    (hs : Settled s) (hh : Heard s) (hstep : s.step a = some s') {t : Task} {before : List Push}
    {p : Push} (hp : LastPush (pushed ++ (s.pushOf a).toList) t before p)
    (ht : s'.signal t = .aborted) :
    (LastPush pushed t before p ∧ s.signal t = .aborted) ∨
      LastPush pushed t before p ∧ a = .cancel p.login ∧ s.unowned p.login ∧ ∃ rest,
        s.senders p.login = t :: rest ∧ (pushedTo pushed p.login).length =
          (pushedTo before p.login).length + 1 + rest.length := by
  have hsocket : ∀ c, t ≠ .socket c := by
    obtain ⟨-, -, rfl, -⟩ := id hp
    exact (h.step hs hh hstep).callers p hp.mem
  have hother : ∀ q x, s.pushOf a = some q → x ≠ .aborted →
      s'.Knows (Function.update s.signal q.caller x) →
      LastPush pushed t before p ∧ s.signal t = .aborted := by
    intro q x hq hx hsig
    have hne : q.caller ≠ t := by
      rintro rfl
      rw [hsig _ hsocket, Function.update_self] at ht
      exact hx ht
    rw [hsig t hsocket, Function.update_of_ne (Ne.symm hne)] at ht
    rw [hq] at hp
    exact ⟨(lastPush_concat_iff hne).mp hp, ht⟩
  cases step_signals hs hh hstep with
  | wait q hq _ hsig => exact .inl (hother q .waiting hq (by simp) hsig)
  | meet q hq _ _ hsig => exact .inl (hother q .taken hq (by simp) hsig)
  | leave c u rest x hnone hc _ hsig hx =>
    rw [hnone, Option.toList_none, List.append_nil] at hp
    by_cases htu : t = u
    · subst htu
      rw [hsig t hsocket, Function.update_self] at ht
      obtain rfl | ⟨-, rfl, hun⟩ := hx
      · cases ht
      obtain ⟨before', p', hp', rfl, hlen⟩ := h.order c [] t rest hc
      obtain ⟨rfl, rfl⟩ := hp.unique hp'
      exact .inr ⟨hp, rfl, hun, rest, hc, hlen⟩
    · rw [hsig t hsocket, Function.update_of_ne htu] at ht
      exact .inl ⟨hp, ht⟩
  | same hnone _ hsig =>
    rw [hnone, Option.toList_none, List.append_nil] at hp
    exact .inl ⟨hp, (hsig t hsocket).symm.trans ht⟩

theorem init_accounted (native : Proto.Endian) (succeeds : StartStep → Bool) (tables : Tables) :
    Accounted [] (init native succeeds tables) where
  settled := init_settled native succeeds tables
  heard := init_heard native succeeds tables
  calls := init_calls native succeeds tables

theorem Accounted.step {pushed : List Push} {s s' : Server} {a : Action} (h : Accounted pushed s)
    (hstep : s.step a = some s') : Accounted (pushed ++ (s.pushOf a).toList) s' := by
  obtain ⟨t, hm, ha⟩ := step_move h.settled.steady.sound h.settled.steady.linked hstep
  exact ⟨h.settled.step hstep,
    (h.heard.move h.settled.steady.sound h.settled.steady.aside hm).alike ha,
    h.calls.step h.settled h.heard hstep⟩

theorem run_accounted {native : Proto.Endian} {succeeds : StartStep → Bool} {tables : Tables}
    {as : List Action} {s : Server}
    (hr : Lts.run step (init native succeeds tables) as = some s) :
    Accounted ((init native succeeds tables).pushes as) s :=
  Lts.invariant_log (C := fun _ _ => True) (I := fun s l => Accounted l s)
    (fun _ _ _ _ h _ hstep => h.step hstep) (init_accounted native succeeds tables)
    (Lts.along_true _ _) hr

theorem init_wired (native : Proto.Endian) (succeeds : StartStep → Bool) (tables : Tables) :
    Wired [] (init native succeeds tables) where
  accounted := init_accounted native succeeds tables
  own := init_ownStreams native succeeds tables
  torn := init_tornLast native succeeds tables

theorem Wired.step {pushed : List Push} {s s' : Server} {a : Action} (h : Wired pushed s)
    (hd : s.drainsOwn a) (hstep : s.step a = some s') :
    Wired (pushed ++ (s.pushOf a).toList) s' where
  accounted := h.accounted.step hstep
  own := h.own.step h.accounted.settled.steady.sound h.accounted.settled.steady.linked hd hstep
  torn := h.torn.step h.accounted.settled h.own.writes hstep

theorem run_wired {native : Proto.Endian} {succeeds : StartStep → Bool} {tables : Tables}
    {as : List Action} {s : Server} (hr : Lts.run step (init native succeeds tables) as = some s)
    (hown : Lts.Along step (fun s a => s.drainsOwn a) (init native succeeds tables) as) :
    Wired ((init native succeeds tables).pushes as) s :=
  Lts.invariant_log (I := fun s l => Wired l s) (fun _ _ _ _ h hd hstep => h.step hd hstep)
    (init_wired native succeeds tables) hown hr

/-- The messages of the coroutines that wait are the last ones of the queue: those that were put
there before have not all gone out exactly when one is left for each coroutine. -/
theorem Wired.begun_le {pushed before : List Push} {s : Server} (h : Wired pushed s) {c : ConnId}
    {n : Nat} (hlen : (pushedTo pushed c).length = (pushedTo before c).length + n) :
    s.begun c ≤ (pushedTo before c).length ↔
      n + (if (s.torn c).isEmpty then 0 else 1) ≤ (s.messages c).length := by
  have hstream := congrArg List.length (h.own.stream c)
  rw [List.length_append] at hstream
  unfold begun
  omega

theorem Withheld.step {pushed : List Push} {s s' : Server} {a : Action} (h : Withheld pushed s)
    (hw : Wired pushed s) (hc : s.cancelsInTime a) (hstep : s.step a = some s') :
    Withheld (pushed ++ (s.pushOf a).toList) s' := by
  intro t before p hp ht
  obtain ⟨hs, hh, hcalls⟩ := hw.accounted
  have hstay : p ∈ pushed → s.drained p.login = false →
      s.begun p.login ≤ (pushedTo before p.login).length →
      s'.drained p.login = false ∧ s'.begun p.login ≤ (pushedTo before p.login).length := by
    intro hmem hd hle
    obtain ⟨hd', hwritten, htorn⟩ :=
      hs.undrained hd (hcalls.answered p hmem) (Lts.run_single.mpr hstep)
    exact ⟨hd', by rwa [begun, hwritten, htorn]⟩
  obtain ⟨hold, ht⟩ | ⟨hold, rfl, hun, rest, hsend, hlen⟩ := hcalls.aborted hs hh hstep hp ht
  · obtain ⟨hd, hle⟩ := h t before p hold ht
    exact hstay hold.mem hd hle
  · refine hstay hold.mem (drained_of_unowned hun)
      ((hw.begun_le (n := rest.length + 1) (by omega)).mpr ?_)
    simpa [cancelsInTime, hsend] using hc

theorem run_withheld {native : Proto.Endian} {succeeds : StartStep → Bool} {tables : Tables}
    {as : List Action} {s : Server} (hr : Lts.run step (init native succeeds tables) as = some s)
    (hc : Lts.Along step (fun s a => s.drainsOwn a ∧ s.cancelsInTime a)
      (init native succeeds tables) as) :
    Withheld ((init native succeeds tables).pushes as) s := by
  refine (Lts.invariant_log (I := fun s l => Wired l s ∧ Withheld l s) ?_
    ⟨init_wired native succeeds tables, ?_⟩ hc hr).2
  · rintro s l a t ⟨h, hw⟩ ⟨hd, hc⟩ hstep
    exact ⟨h.step hd hstep, hw.step h hc hstep⟩
  · intro t before p hp
    cases hp.mem

/-- A socket to which no more has gone out than was put into the queue before carries that. -/
theorem Wired.transmits {pushed before : List Push} {s : Server} (h : Wired pushed s) {c : ConnId}
    (hp : pushedTo before c <+: pushedTo pushed c)
    (hle : s.begun c ≤ (pushedTo before c).length) : s.Transmits c (pushedTo before c) := by
  obtain ⟨rest, hrest, htorn⟩ := h.own.transmits h.torn c
  have hwritten : s.written c <+: pushedTo before c :=
    List.prefix_of_prefix_length_le ⟨rest, hrest⟩ hp (Nat.le_trans (Nat.le_add_right _ _) hle)
  obtain ⟨first, hfirst⟩ := hwritten
  refine ⟨first, hfirst, ?_⟩
  obtain hnil | ⟨m, n, hm, hn, htorn⟩ := htorn
  · exact .inl hnil
  · cases ht : s.torn c with
    | nil => exact .inl rfl
    | cons x xs =>
      -- a part of the next message has gone out, so that one was put in before as well
      refine .inr ⟨m, n, ?_, hn, by rw [← ht, htorn]⟩
      have hlen := congrArg List.length hfirst
      simp only [begun, ht, List.isEmpty_cons, List.length_append] at hle hlen
      obtain ⟨later, hlater⟩ := hp
      rw [← hfirst, ← hrest, List.append_assoc, List.append_cancel_left_eq] at hlater
      cases first with
      | nil =>
        simp only [List.length_nil] at hlen
        simp at hle
        omega
      | cons y ys =>
        rw [← hlater] at hm
        exact hm

/-- What goes out to a withdrawn queue was put there before. -/
theorem Wired.withdrawn {pushed before : List Push} {s u : Server} {t : Task} {p : Push}
    {as : List Action} (h : Wired pushed s) (hp : LastPush pushed t before p)
    (hd : s.drained p.login = false) (hle : s.begun p.login ≤ (pushedTo before p.login).length)
    (hr : Lts.run Server.step s as = some u) : u.Withdrawn before p := by
  obtain ⟨hs, -, hcalls⟩ := h.accounted
  obtain ⟨hd', hwritten, htorn⟩ := hs.undrained hd (hcalls.answered p hp.mem) hr
  refine ⟨hd', ?_⟩
  have hprefix : pushedTo before p.login <+: pushedTo pushed p.login := by
    obtain ⟨after, rfl, -⟩ := hp
    rw [pushedTo_append]
    exact List.prefix_append _ _
  rw [Transmits, hwritten, htorn]
  exact h.transmits hprefix hle

theorem Accounted.errorAtomic {pushed : List Push} {s : Server} (h : Accounted pushed s)
    (hexception : ∀ t before p, LastPush pushed t before p → s.signal t = .aborted →
      ∀ as u, Lts.run Server.step s as = some u → u.Withdrawn before p) :
    ErrorAtomic s pushed := by
  have hwf := h.settled.steady.sound.wellFormed
  constructor
  case code =>
    intro i generation m t s' code hcode
    obtain ⟨-, hs, -⟩ | ⟨d, -, hr, -⟩ := addMessageToQueue_clientAt hwf hcode
    · exact hs
    · cases hr
  case others =>
    intro i generation m t s' r hcode c hc
    obtain ⟨-, rfl, -⟩ | ⟨d, hd, -, rfl⟩ := addMessageToQueue_clientAt hwf hcode
    · rfl
    · have hcd : c ≠ d := by
        rintro rfl
        exact hc hd
      rw [((s.push d m).asyncSend_stays d t).messages]
      simp [push, Function.update_of_ne hcd]
  case socket => exact h.settled.clients
  case exception => exact hexception

/-- As much has gone out to a socket as it carries. -/
theorem Transmits.begun_le {s : Server} {c : ConnId} {ms : List Message} (h : s.Transmits c ms) :
    s.begun c ≤ ms.length := by
  obtain ⟨rest, rfl, htorn⟩ := h
  rw [begun, List.length_append]
  cases rest with
  | nil =>
    obtain hnil | ⟨m, n, hm, -⟩ := htorn
    · simp [hnil]
    · cases hm
  | cons m rest =>
    simp only [List.length_cons]
    split <;> omega

/-- A channel that is destroyed while a coroutine waits whose message has gone out, or a part of
it, aborts the call that put it there. -/
theorem cancelsInTime_of_errorAtomic {pushed : List Push} {s s' : Server} {a : Action}
    (h : Wired pushed s) (hstep : s.step a = some s')
    (hs' : ErrorAtomic s' (pushed ++ (s.pushOf a).toList)) : s.cancelsInTime a := by
  cases a with
  | cancel c =>
    cases step_cases hstep with
    | cancel _ t channel hun hcancel =>
      simp only [cancelsInTime, decide_eq_true_eq]
      obtain ⟨hsend, -⟩ | ⟨hsend, -⟩ := Channel.cancel_cases hcancel
      · have hc : s.senders c = [] ++ t :: channel.senders := hsend
        obtain ⟨before, p, hp, rfl, hlen⟩ := h.accounted.calls.order c [] t channel.senders hc
        have hp' : LastPush (pushed ++ (s.pushOf (.cancel p.login)).toList) t before p := by
          simpa [pushOf] using hp
        have hle := (hs'.exception t before p hp' (by simp [setSignal]) [] _ rfl).socket.begun_le
        rw [hc, List.nil_append, List.length_cons]
        exact (h.begun_le (n := channel.senders.length + 1) (by omega)).mp hle
      · have hc : s.senders c = [] := hsend
        obtain hnil | ⟨-, m, rest, n, hm, -⟩ := h.torn c
        · simp [hc, hnil]
        · rw [hc, hm, List.length_nil, List.length_cons]
          split <;> omega
  | _ => rfl

/-- In a run in which every socket coroutine drains its own queue, a message whose call returns an
error has been withdrawn in all states, exactly when no channel is destroyed while more coroutines
wait on it than messages are left in the queue that goes with it, those that have gone out in part
not counted. -/
theorem error_atomic_iff (native : Proto.Endian) (succeeds : StartStep → Bool) (tables : Tables)
    (as : List Action) (s : Server)
    (hr : Lts.run step (init native succeeds tables) as = some s)
    (hown : Lts.Along step (fun s a => s.drainsOwn a) (init native succeeds tables) as) :
    (∀ bs, bs <+: as → ∀ t, Lts.run step (init native succeeds tables) bs = some t →
      ErrorAtomic t ((init native succeeds tables).pushes bs)) ↔
      Lts.Along step (fun s a => s.cancelsInTime a) (init native succeeds tables) as := by
  constructor
  · intro h
    refine Lts.along_of_initial hr fun bs a m t hp hm hstep => ?_
    have hbs : bs <+: as := (List.prefix_append bs [a]).trans hp
    refine cancelsInTime_of_errorAtomic (run_wired hm (hown.initial hbs)) hstep ?_
    have ht := h (bs ++ [a]) hp t (Lts.run_append.mpr ⟨m, hm, Lts.run_single.mpr hstep⟩)
    rw [pushes, Lts.log_append hm] at ht
    simpa [pushes, Lts.log, hstep] using ht
  · intro hc bs hp t ht
    have hwired := run_wired ht (hown.initial hp)
    refine hwired.accounted.errorAtomic fun u before p hlast hu bs v hv => ?_
    obtain ⟨hd, hle⟩ := run_withheld ht ((hown.and hc).initial hp) u before p hlast hu
    exact hwired.withdrawn hlast hd hle hv

/-- Keys 2 and 3 write to key 1, whose socket coroutine writes the first message; the second
message of key 2 and that of key 3 wait. Key 1 leaves. -/
def leavesWaiting : List Action :=
  [.loop, .accept, .keyRead 0 (.replicate 32 1), .loop, .execute, .resume (.start 0), .accept,
    .keyRead 1 (.replicate 32 2), .loop, .execute, .resume (.delayed 0), .loop, .execute,
    .resume (.start 1), .accept, .keyRead 2 (.replicate 32 3), .loop, .execute,
    .resume (.delayed 1), .loop, .execute, .resume (.start 2), .greetings 1 (greetingsTo 1),
    .message 1 [7] true, .resume (.socket 0), .resume (.start 1), .greetings 1 (greetingsTo 1),
    .message 1 [8] true, .greetings 2 (greetingsTo 1), .message 2 [9] true, .readFails 0]

/-- The second message of key 2 is written before the write of the third one fails. -/
theorem not_error_atomic :
    ¬ ∀ bs, bs <+: leavesWaiting ++ [.written 0, .written 0, .writeFails 0 0, .cancel 0] → ∀ t,
      Lts.run step (init .little (fun _ => true) .empty) bs = some t →
      ErrorAtomic t ((init .little (fun _ => true) .empty).pushes bs) := by
  intro h
  have hrun : (Lts.run step (init .little (fun _ => true) .empty)
      (leavesWaiting ++ [.written 0, .written 0, .writeFails 0 0, .cancel 0])).any fun s =>
      s.signal (.start 1) = .aborted ∧ (s.written 0).length = 2 := by
    decide +kernel
  have hcalls : (((init .little (fun _ => true) .empty).pushes
      (leavesWaiting ++ [.written 0, .written 0, .writeFails 0 0, .cancel 0])).map fun p =>
        (p.caller, p.login)) = [(.start 1, 0), (.start 1, 0), (.start 2, 0)] := by
    decide +kernel
  obtain ⟨s, hs, hbad⟩ := (Option.any_eq_true _ _).mp hrun
  obtain ⟨haborted, hwritten⟩ := of_decide_eq_true hbad
  have hexception := (h _ (List.prefix_refl _) s hs).exception (.start 1)
  obtain ⟨first, second, third, hl⟩ := List.length_eq_three.mp
    (by simpa using congrArg List.length hcalls)
  rw [hl] at hcalls hexception
  simp only [List.map_cons, List.map_nil, List.cons.injEq, Prod.mk.injEq, and_true] at hcalls
  obtain ⟨⟨-, hfirst⟩, ⟨hcaller, hsecond⟩, hthird, -⟩ := hcalls
  have hlast : LastPush [first, second, third] (.start 1) [first] second :=
    ⟨[third], rfl, hcaller, by simp [hthird]⟩
  have hle := (hexception _ _ hlast haborted [] s rfl).socket.begun_le
  have hone : (pushedTo [first] second.login).length = 1 := by simp [pushedTo, hfirst, hsecond]
  rw [hone, begun, hsecond, hwritten] at hle
  omega

/-- The first write fails when a part of the message has been transferred; the calls with the two
messages after it are aborted. -/
theorem error_atomic_withdrawn : ∃ s,
    Lts.run step (init .little (fun _ => true) .empty)
      (leavesWaiting ++ [.writeFails 0 3, .cancel 0, .cancel 0]) = some s ∧
      ∀ bs, bs <+: leavesWaiting ++ [.writeFails 0 3, .cancel 0, .cancel 0] → ∀ t,
        Lts.run step (init .little (fun _ => true) .empty) bs = some t →
        ErrorAtomic t ((init .little (fun _ => true) .empty).pushes bs) := by
  have hsome : (Lts.run step (init .little (fun _ => true) .empty)
      (leavesWaiting ++ [.writeFails 0 3, .cancel 0, .cancel 0])).isSome := by
    decide +kernel
  obtain ⟨s, hr⟩ := Option.isSome_iff_exists.mp hsome
  exact ⟨s, hr, (error_atomic_iff .little (fun _ => true) .empty _ s hr (by decide +kernel)).mpr
    (by decide +kernel)⟩

end MydakServer.Server
