import MydakServer.Clients
import MydakServer.Codec
import MydakServer.Waiting

/-! The calls of `add_message_to_queue` that wait for their signal to be taken: each belongs to
the last message that its coroutine has put into a queue. -/
namespace MydakServer.Server
open Rendezvous

/-- The coroutines that wait to send on the channel of the connection. -/
def senders (s : Server) (c : ConnId) : List Task := (s.signalChannel c).senders

/-- The coroutine has been suspended in `add_message_to_queue`. -/
def calling (s : Server) : Task → Bool
  | .start c => s.start c = .addMessageToQueue
  | .delayed c =>
    match s.delayed c with
    | .sending _ _ _ => true
    | _ => false
  | _ => false

/-- What the coroutines other than the socket coroutines know of their signals. -/
def Knows (s : Server) (signal : Task → Signal) : Prop :=
  ∀ t, (∀ c, t ≠ .socket c) → s.signal t = signal t

/-- What a step does to the calls that wait: a new one comes last on its channel, or finds the
socket coroutine waiting; the first one of a channel gets its answer; or none does. -/
inductive Signals (s : Server) (a : Action) (s' : Server) : Prop
  | wait (p : Push) (hp : s.pushOf a = some p)
    (hs : s'.senders = Function.update s.senders p.login (s.senders p.login ++ [p.caller]))
    (hsig : s'.Knows (Function.update s.signal p.caller .waiting))
  | meet (p : Push) (hp : s.pushOf a = some p) (hc : s.senders p.login = [])
    (hs : s'.senders = s.senders) (hsig : s'.Knows (Function.update s.signal p.caller .taken))
  | leave (c : ConnId) (t : Task) (rest : List Task) (signal : Signal) (hp : s.pushOf a = none)
    (hc : s.senders c = t :: rest) (hs : s'.senders = Function.update s.senders c rest)
    (hsig : s'.Knows (Function.update s.signal t signal))
    (hsignal : signal = .taken ∨ signal = .aborted ∧ a = .cancel c ∧ s.unowned c)
  | same (hp : s.pushOf a = none) (hs : s'.senders = s.senders) (hsig : s'.Knows s.signal)

/-- The last message that the coroutine has put into a queue, after these others. -/
def LastPush (pushed : List Push) (t : Task) (before : List Push) (p : Push) : Prop :=
  ∃ after, pushed = before ++ p :: after ∧ p.caller = t ∧ ∀ q ∈ after, q.caller ≠ t

/-- The coroutines that wait on a channel are in the calls that put the last messages into the
queue that goes with it, in this order. -/
structure Calls (pushed : List Push) (s : Server) : Prop where
  callers : ∀ p ∈ pushed, ∀ c, p.caller ≠ .socket c
  answered : ∀ p ∈ pushed, s.answer p.login ≠ none
  waits : ∀ c, ∀ t ∈ s.senders c, s.calling t ∧ s.signal t = .waiting
  order : ∀ c xs t ys, s.senders c = xs ++ t :: ys → ∃ before p, LastPush pushed t before p ∧
    p.login = c ∧ (pushedTo pushed c).length = (pushedTo before c).length + 1 + ys.length

variable {I : Tables → Prop}

theorem pushedTo_append (xs ys : List Push) (c : ConnId) :
    pushedTo (xs ++ ys) c = pushedTo xs c ++ pushedTo ys c := by
  simp [pushedTo]

theorem pushedTo_single (p : Push) (c : ConnId) :
    pushedTo [p] c = if p.login = c then [p.message] else [] := by
  by_cases h : p.login = c <;> simp [pushedTo, h]

theorem lastPush_concat (pushed : List Push) (p : Push) :
    LastPush (pushed ++ [p]) p.caller pushed p :=
  ⟨[], rfl, rfl, by simp⟩

theorem lastPush_concat_iff {pushed before : List Push} {t : Task} {p q : Push}
    (hq : q.caller ≠ t) : LastPush (pushed ++ [q]) t before p ↔ LastPush pushed t before p := by
  constructor
  · rintro ⟨after, heq, hp, hafter⟩
    obtain rfl | ⟨init, x, rfl⟩ := List.eq_nil_or_concat after
    · obtain ⟨-, heq'⟩ := List.append_inj' heq rfl
      obtain rfl : q = p := by simpa using heq'
      exact absurd hp hq
    · have heq' : pushed ++ [q] = (before ++ p :: init) ++ [x] := by simpa using heq
      obtain ⟨rfl, -⟩ := List.append_inj' heq' rfl
      exact ⟨init, rfl, hp, fun r hr => hafter r (by simp [hr])⟩
  · rintro ⟨after, rfl, hp, hafter⟩
    refine ⟨after ++ [q], by simp, hp, fun r hr => ?_⟩
    obtain hr | rfl : r ∈ after ∨ r = q := by simpa using hr
    · exact hafter r hr
    · exact hq

theorem LastPush.mem {pushed before : List Push} {t : Task} {p : Push}
    (h : LastPush pushed t before p) : p ∈ pushed := by
  obtain ⟨after, rfl, -⟩ := h
  simp

theorem LastPush.unique {pushed before before' : List Push} {t : Task} {p p' : Push}
    (h : LastPush pushed t before p) (h' : LastPush pushed t before' p') :
    before = before' ∧ p = p' := by
  have hle : ∀ {xs ys : List Push} {q q' : Push} {after after' : List Push},
      xs ++ q :: after = ys ++ q' :: after' → q'.caller = t → (∀ r ∈ after, r.caller ≠ t) →
      ys.length ≤ xs.length := by
    intro xs ys q q' after after' heq hq' hafter
    by_contra hlt
    obtain ⟨zs, rfl, hzs⟩ | ⟨zs, rfl, -⟩ := List.append_eq_append_iff.mp heq
    · cases zs with
      | nil => simp at hlt
      | cons z zs =>
        obtain ⟨-, rfl⟩ := List.cons.inj hzs
        exact hafter q' (by simp) hq'
    · simp at hlt
  obtain ⟨after, rfl, hp, hafter⟩ := h
  obtain ⟨after', heq, hp', hafter'⟩ := h'
  have hlen : before.length = before'.length :=
    Nat.le_antisymm (hle heq.symm hp hafter') (hle heq hp' hafter)
  obtain ⟨rfl, h⟩ := List.append_inj heq hlen
  exact ⟨rfl, (List.cons.inj h).1⟩

/-- A coroutine whose signal has not been taken stays in its call. -/
theorem Settled.calling {s s' : Server} {a : Action} (h : Settled s) (hstep : s.step a = some s')
    {t : Task} (ht : s.calling t) (hsig : s.signal t = .waiting) : s'.calling t := by
  cases t with
  | start c =>
    have hc : s.start c = .addMessageToQueue := by simpa [Server.calling] using ht
    obtain ⟨hsame, -⟩ | ⟨d, state, hupdate, hd⟩ := step_start h.steady.sound hstep
    · simp [Server.calling, hsame, hc]
    · by_cases hcd : c = d
      · subst hcd
        cases hd with
        | resume => simp [Server.step, Server.resume, hc, hsig] at hstep
        | readFails => simp [Server.step, Server.readFails, hc] at hstep
        | accept hd | keyFails _ _ hd | keyRead _ _ _ hd | badGreetings _ _ _ hd
        | greetings _ _ _ _ hd | message _ _ _ _ _ _ hd => simp [hc] at hd
      · simp [Server.calling, hupdate, Function.update_of_ne hcd, hc]
  | delayed c =>
    cases hc : s.delayed c with
    | sending current rest sent =>
      by_cases ha : a = .resume (.delayed c)
      · subst ha
        simp [Server.step, Server.resume, hc, hsig] at hstep
      · obtain hsame | ⟨hnone, -⟩ := h.steady.delayed hstep ha
        · simp [Server.calling, hsame, hc]
        · simp [h.reached.begun c hnone] at hc
    | _ => simp [Server.calling, hc] at ht
  | _ => cases ht

/-- A coroutine that calls is not suspended in a call. -/
theorem not_calling_of_push {s : Server} (hw : s.registry.WellFormed) {a : Action} {p : Push}
    (hp : s.pushOf a = some p) (hcalling : s.calling p.caller) : s.signal p.caller ≠ .waiting := by
  obtain ⟨i, generation, -, ⟨c, bytes, lookup, size, recipient, r, -, hc, -, -, heq⟩ |
    ⟨c, row, -, hrow, -, -, heq⟩⟩ := pushOf_cases hw hp
  · rw [heq] at hcalling
    simp [calling, hc] at hcalling
  · rw [heq] at hcalling ⊢
    unfold nextRow at hrow
    cases hc : s.delayed c with
    | sending current rest sent =>
      cases rest with
      | nil => simp [hc] at hrow
      | cons next rest =>
        simp only [hc] at hrow
        split at hrow
        · rename_i htaken
          simp [htaken]
        · cases hrow
    | _ => simp [calling, hc] at hcalling

/-- The message goes into the queue before the call is suspended. -/
theorem Settled.calling_of_push {s s' : Server} {a : Action} (h : Settled s)
    (hstep : s.step a = some s') {p : Push} (hp : s.pushOf a = some p) : s'.calling p.caller := by
  have hpush : s'.messages ≠ s.messages := by
    intro hsame
    cases step_queues h.steady.sound h.steady.linked hstep with
    | push _ q d state _ hq ha =>
      have heq := congrFun ((queues_of_push ha).1.symm.trans hsame) q.login
      simp at heq
    | pop => cases hp
    | same _ _ hnone => simp [hnone] at hp
  obtain ⟨i, generation, -, ⟨c, bytes, lookup, size, recipient, r, rfl, hc, -, -, heq⟩ |
    ⟨c, row, rfl, -, -, -, heq⟩⟩ := pushOf_cases h.steady.sound.wellFormed hp
  · rw [heq]
    cases step_cases hstep with
    | message _ _ _ size' recipient' _ hc' hrelay =>
      obtain ⟨r, s₁, -, -, hs₁, rfl⟩ | ⟨e, d, generation, -, -, rfl⟩ :=
        relay_cases (s := s.addFrame (s.frame c size' recipient' bytes))
          h.steady.sound.wellFormed hrelay
      · obtain ⟨db, v, -, rfl⟩ := addMessageToDb_cases hs₁
        exact absurd rfl hpush
      · simp [Server.calling, setStart]
  · rw [heq]
    cases resume_continues h.steady.sound.wellFormed h.steady.linked hstep with
    | hand row rest ids d db => simp [Server.calling, setDelayed]
    | delete ids db _ _ _ hdel =>
      obtain ⟨db', v, -, rfl⟩ := deleteSent_cases hdel
      exact absurd rfl hpush
    | finish db => exact absurd rfl hpush

theorem senders_of_eq {s s' : Server} (h : s'.signalChannel = s.signalChannel) :
    s'.senders = s.senders := by
  funext c
  simp only [senders, h]

theorem senders_of_update {s s' : Server} {c : ConnId} {channel : Channel Task}
    (h : s'.signalChannel = Function.update s.signalChannel c channel) :
    s'.senders = Function.update s.senders c channel.senders := by
  funext d
  by_cases hdc : d = c
  · subst hdc
    simp [senders, h]
  · simp [senders, h, Function.update_of_ne hdc]

/-- The socket coroutine takes the signal of the first coroutine that waits, if there is one. -/
theorem socketCoroutine_signals (s : Server) (c : ConnId) :
    ((s.socketCoroutine c).senders = s.senders ∧ (s.socketCoroutine c).Knows s.signal) ∨
      ∃ t rest, s.senders c = t :: rest ∧
        (s.socketCoroutine c).senders = Function.update s.senders c rest ∧
        (s.socketCoroutine c).Knows (Function.update s.signal t .taken) := by
  by_cases hend : s.start c = .ended
  · rw [Server.socketCoroutine, if_pos hend]
    exact .inl ⟨rfl, fun _ _ => rfl⟩
  obtain ⟨channel, ⟨hs, hs', -, he⟩ | ⟨t, ht, -, he⟩⟩ := socketCoroutine_cases hend
  · rw [he]
    refine .inl ⟨?_, fun u hu => by simp [Function.update_of_ne (hu c)]⟩
    rw [senders_of_update rfl, hs']
    exact Function.update_eq_self_iff.mpr hs.symm
  · rw [he]
    exact .inr ⟨t, channel.senders, ht, senders_of_update rfl,
      fun u hu => by simp [Function.update_of_ne (hu c)]⟩

/-- A call waits behind those that wait already, or meets the socket coroutine. -/
theorem signals_of_push {s s' : Server} (hh : Heard s) {a : Action} {p : Push} {d : ConnId}
    {state : DelayedState} (hp : s.pushOf a = some p)
    (ha : Alike (((s.push p.login p.message).asyncSend p.login p.caller).setDelayed d state) s') :
    Signals s a s' := by
  obtain ⟨channel, ⟨-, hsend, -, he⟩ | ⟨r, hr, hsend, he⟩⟩ :=
    (s.push p.login p.message).asyncSend_cases p.login p.caller
  · rw [he] at ha
    refine .wait p hp ?_ fun u _ => by rw [ha.signal]; rfl
    rw [senders_of_update ha.signalChannel, hsend]
    rfl
  · -- only the socket coroutine of the login waits to receive there
    have hrecv : (s.signalChannel p.login).receivers = r :: channel.receivers := hr
    obtain hnil | ⟨hone, -⟩ := hh.receivers p.login
    · simp [hnil] at hrecv
    obtain ⟨rfl, -⟩ := List.cons.inj (hone.symm.trans hrecv)
    have hnone : s.senders p.login = [] :=
      (s.signalChannel p.login).exclusive.resolve_right (by simp [hrecv])
    rw [he] at ha
    refine .meet p hp hnone ?_ fun u hu => ?_
    · rw [senders_of_update ha.signalChannel, hsend]
      exact Function.update_eq_self_iff.mpr hnone.symm
    · rw [ha.signal]
      by_cases hut : u = p.caller
      · simp [setDelayed, hut]
      · simp [setDelayed, push, Function.update_of_ne hut, Function.update_of_ne (hu p.login)]

/-- A destroyed channel answers the first call that waits on it, or its socket coroutine. -/
theorem signals_of_cancel {s s' : Server} (hh : Heard s) {c : ConnId} {t : Task}
    {channel : Channel Task} (hc : s.unowned c)
    (ht : (s.signalChannel c).cancel = some (t, channel))
    (ha : Alike ((s.setChannel c channel).setSignal t .aborted) s') : Signals s (.cancel c) s' := by
  have hs := senders_of_update (s := s) ha.signalChannel
  obtain ⟨hsend, -⟩ | ⟨hsend, hnil, hr⟩ := Channel.cancel_cases ht
  · exact .leave c t channel.senders .aborted rfl hsend hs (fun u _ => by rw [ha.signal]; rfl)
      (.inr ⟨rfl, rfl, hc⟩)
  · obtain hnone | ⟨hone, -⟩ := hh.receivers c
    · simp [hnone] at hr
    obtain ⟨rfl, -⟩ := List.cons.inj (hone.symm.trans hr)
    refine .same rfl ?_ fun u hu => ?_
    · rw [hs, hnil]
      exact Function.update_eq_self_iff.mpr hsend.symm
    · simp [ha.signal, setSignal, setChannel, Function.update_of_ne (hu c)]

/-- A step in which nothing is put into a queue. -/
theorem Move.signals {s t s' : Server} {a : Action} (hh : Heard s) (hm : Move I s a t)
    (ha : Alike t s') (hp : s.pushOf a = none)
    (hpush : ∀ d m, t.messages ≠ Function.update s.messages d (s.messages d ++ [m])) :
    Signals s a s' := by
  have hsame : s'.signalChannel = s.signalChannel → s'.signal = s.signal → Signals s a s' :=
    fun hch hsig => .same hp (senders_of_eq hch) fun u _ => by rw [hsig]
  have hloop : ∀ (u : Server) c, u.senders = s.senders → u.signal = s.signal →
      s'.signalChannel = (u.socketCoroutine c).signalChannel →
      s'.signal = (u.socketCoroutine c).signal → Signals s a s' := by
    intro u c hu hsig hch hsig'
    obtain ⟨hs, hknows⟩ | ⟨v, rest, hc, hs, hknows⟩ := u.socketCoroutine_signals c
    · refine .same hp (by rw [senders_of_eq hch, hs, hu]) fun w hw => ?_
      rw [hsig', hknows w hw, hsig]
    · refine .leave c v rest .taken hp (by rw [← hu, hc]) (by rw [senders_of_eq hch, hs, hu])
        (fun w hw => ?_) (.inl rfl)
      rw [hsig', hknows w hw, hsig]
  cases hm with
  | grant _ c key g v id state =>
    exact hloop ((s.setKey c key).emplaced c v { g with dbIndex := id }) c rfl rfl
      ha.signalChannel ha.signal
  | relay c bytes lookup size recipient e d =>
    exact absurd ((s.push d _).asyncSend_stays d _).messages (hpush d _)
  | hand c d row rest sent =>
    exact absurd ((s.push d row.data).asyncSend_stays d _).messages (hpush d row.data)
  | park c => exact hloop s c rfl rfl ha.signalChannel ha.signal
  | wrote c socket q channel m front rest hc hf =>
    unfold writeMessages at ha
    split at ha
    · exact hloop (s.popped socket q m rest) c rfl rfl ha.signalChannel ha.signal
    · exact hsame ha.signalChannel ha.signal
  | cancel c u channel hun hcancel => exact signals_of_cancel hh hun hcancel ha
  | _ => exact hsame ha.signalChannel ha.signal

theorem step_signals {s s' : Server} {a : Action} (h : Settled s) (hh : Heard s)
    (hstep : s.step a = some s') : Signals s a s' := by
  have hq := step_queues h.steady.sound h.steady.linked hstep
  cases hp : s.pushOf a with
  | some p =>
    cases hq with
    | push _ p' d state _ hp' ha => exact signals_of_push hh hp' ha
    | pop => cases hp
    | same _ _ hnone => simp [hp] at hnone
  | none =>
    obtain ⟨t, hm, ha⟩ := step_move h.steady.sound h.steady.linked hstep
    refine hm.signals hh ha hp fun d m hmess => ?_
    obtain ⟨p, hp', -⟩ := hq.login (ha.messages.trans hmess)
    simp [hp] at hp'

theorem not_socket_of_calling {s : Server} {t : Task} (ht : s.calling t) :
    ∀ c, t ≠ .socket c := by
  rintro c rfl
  cases ht

theorem init_calls (native : Proto.Endian) (succeeds : StartStep → Bool) (tables : Tables) :
    Calls [] (init native succeeds tables) := by
  constructor <;> simp [init, senders]

/-- A coroutine waits in one place. -/
theorem Calls.unique {pushed : List Push} {s : Server} (h : Calls pushed s) {c d : ConnId}
    {t : Task} {xs ys xs' ys' : List Task} (hc : s.senders c = xs ++ t :: ys)
    (hd : s.senders d = xs' ++ t :: ys') : c = d ∧ ys.length = ys'.length := by
  obtain ⟨before, p, hp, hlogin, hlen⟩ := h.order c xs t ys hc
  obtain ⟨before', p', hp', hlogin', hlen'⟩ := h.order d xs' t ys' hd
  obtain ⟨rfl, rfl⟩ := hp.unique hp'
  obtain rfl : c = d := hlogin.symm.trans hlogin'
  exact ⟨rfl, by omega⟩

/-- The coroutine that gets its answer waits for no other. -/
theorem Calls.ne_of_leave {pushed : List Push} {s : Server} (h : Calls pushed s) {c d : ConnId}
    {t u : Task} {rest : List Task} (hc : s.senders c = t :: rest)
    (hd : u ∈ Function.update s.senders c rest d) : u ≠ t ∧ u ∈ s.senders d := by
  by_cases hdc : d = c
  · subst hdc
    rw [Function.update_self] at hd
    refine ⟨?_, by simp [hc, hd]⟩
    rintro rfl
    obtain ⟨xs, ys, rfl⟩ := List.append_of_mem hd
    have hfirst : s.senders d = [] ++ u :: (xs ++ u :: ys) := hc
    have hagain : s.senders d = (u :: xs) ++ u :: ys := hc
    obtain ⟨-, hlen⟩ := h.unique hfirst hagain
    simp at hlen
    omega
  · rw [Function.update_of_ne hdc] at hd
    refine ⟨?_, hd⟩
    rintro rfl
    obtain ⟨xs, ys, hd⟩ := List.append_of_mem hd
    have hfirst : s.senders c = [] ++ u :: rest := hc
    exact hdc (h.unique hfirst hd).1.symm

theorem Calls.waits_step {pushed : List Push} {s s' : Server} {a : Action} (h : Calls pushed s)
    (hs : Settled s) (hstep : s.step a = some s') (hsig : Signals s a s') :
    ∀ c, ∀ t ∈ s'.senders c, s'.calling t ∧ s'.signal t = .waiting := by
  have hold : ∀ c, ∀ t ∈ s.senders c, s'.signal t = s.signal t →
      s'.calling t ∧ s'.signal t = .waiting := by
    intro c t ht hsame
    obtain ⟨hcalling, hwaiting⟩ := h.waits c t ht
    exact ⟨hs.calling hstep hcalling hwaiting, hsame.trans hwaiting⟩
  have hother : ∀ p, s.pushOf a = some p → ∀ c, ∀ t ∈ s.senders c, t ≠ p.caller := by
    intro p hp c t ht heq
    obtain ⟨hcalling, hwaiting⟩ := h.waits c t ht
    rw [heq] at hcalling hwaiting
    exact not_calling_of_push hs.steady.sound.wellFormed hp hcalling hwaiting
  have hsocket : ∀ c, ∀ t ∈ s.senders c, ∀ d, t ≠ .socket d := fun c t ht =>
    not_socket_of_calling (h.waits c t ht).1
  cases hsig with
  | wait p hp hsend hsig =>
    have hkeep : ∀ c, ∀ t ∈ s.senders c, s'.calling t ∧ s'.signal t = .waiting := by
      intro c t ht
      refine hold c t ht ?_
      rw [hsig t (hsocket c t ht), Function.update_of_ne (hother p hp c t ht)]
    intro c t ht
    rw [hsend] at ht
    by_cases hc : c = p.login
    · subst hc
      simp only [Function.update_self, List.mem_append, List.mem_singleton] at ht
      obtain ht | rfl := ht
      · exact hkeep _ t ht
      · have hcalling := hs.calling_of_push hstep hp
        refine ⟨hcalling, ?_⟩
        rw [hsig _ (not_socket_of_calling hcalling), Function.update_self]
    · rw [Function.update_of_ne hc] at ht
      exact hkeep c t ht
  | meet p hp _ hsend hsig =>
    intro c t ht
    rw [hsend] at ht
    refine hold c t ht ?_
    rw [hsig t (hsocket c t ht), Function.update_of_ne (hother p hp c t ht)]
  | leave d u rest _ _ hd hsend hsig =>
    intro c t ht
    rw [hsend] at ht
    obtain ⟨hne, ht⟩ := h.ne_of_leave hd ht
    refine hold c t ht ?_
    rw [hsig t (hsocket c t ht), Function.update_of_ne hne]
  | same _ hsend hsig =>
    intro c t ht
    rw [hsend] at ht
    exact hold c t ht (hsig t (hsocket c t ht))

/-- A push by another coroutine leaves the order of those that wait. -/
theorem Calls.order_push {pushed : List Push} {s : Server} (h : Calls pushed s)
    (hw : s.registry.WellFormed) {a : Action} {p : Push} (hp : s.pushOf a = some p) {c : ConnId}
    {xs ys : List Task} {t : Task} (hc : s.senders c = xs ++ t :: ys) :
    ∃ before q, LastPush (pushed ++ [p]) t before q ∧ q.login = c ∧
      (pushedTo (pushed ++ [p]) c).length =
        (pushedTo before c).length + 1 + ys.length + (pushedTo [p] c).length := by
  obtain ⟨before, q, hq, hlogin, hlen⟩ := h.order c xs t ys hc
  have hne : p.caller ≠ t := by
    rintro rfl
    obtain ⟨hcalling, hwaiting⟩ := h.waits c p.caller (by simp [hc])
    exact not_calling_of_push hw hp hcalling hwaiting
  refine ⟨before, q, (lastPush_concat_iff hne).mpr hq, hlogin, ?_⟩
  rw [pushedTo_append, List.length_append, hlen]

theorem Calls.order_step {pushed : List Push} {s s' : Server} {a : Action} (h : Calls pushed s)
    (hw : s.registry.WellFormed) (hsig : Signals s a s') (c : ConnId) (xs : List Task) (t : Task)
    (ys : List Task) (ht : s'.senders c = xs ++ t :: ys) :
    ∃ before p, LastPush (pushed ++ (s.pushOf a).toList) t before p ∧ p.login = c ∧
      (pushedTo (pushed ++ (s.pushOf a).toList) c).length =
        (pushedTo before c).length + 1 + ys.length := by
  cases hsig with
  | wait p hp hsend =>
    rw [hp, Option.toList_some]
    rw [hsend] at ht
    by_cases hc : c = p.login
    · subst hc
      rw [Function.update_self] at ht
      obtain rfl | ⟨init, x, rfl⟩ := List.eq_nil_or_concat ys
      · -- the new call comes last
        obtain ⟨-, heq⟩ := List.append_inj' ht rfl
        obtain rfl : p.caller = t := by simpa using heq
        exact ⟨pushed, p, lastPush_concat pushed p, rfl, by simp [pushedTo_append, pushedTo_single]⟩
      · have ht' : s.senders p.login ++ [p.caller] = (xs ++ t :: init) ++ [x] := by simpa using ht
        obtain ⟨hd, -⟩ := List.append_inj' ht' rfl
        obtain ⟨before, q, hq, hlogin, hlen⟩ := h.order_push hw hp hd
        refine ⟨before, q, hq, hlogin, ?_⟩
        simp only [pushedTo_single, if_true, List.length_singleton] at hlen
        simp only [hlen, List.concat_eq_append, List.length_append, List.length_singleton]
        omega
    · rw [Function.update_of_ne hc] at ht
      obtain ⟨before, q, hq, hlogin, hlen⟩ := h.order_push hw hp ht
      exact ⟨before, q, hq, hlogin, by simpa [pushedTo_single, Ne.symm hc] using hlen⟩
  | meet p hp hnil hsend =>
    rw [hp, Option.toList_some]
    rw [hsend] at ht
    have hc : p.login ≠ c := by
      rintro rfl
      simp [hnil] at ht
    obtain ⟨before, q, hq, hlogin, hlen⟩ := h.order_push hw hp ht
    exact ⟨before, q, hq, hlogin, by simpa [pushedTo_single, hc] using hlen⟩
  | leave d u rest _ hp hd hsend =>
    rw [hp, Option.toList_none, List.append_nil]
    rw [hsend] at ht
    by_cases hcd : c = d
    · subst hcd
      rw [Function.update_self] at ht
      exact h.order c (u :: xs) t ys (by rw [hd, ht, List.cons_append])
    · rw [Function.update_of_ne hcd] at ht
      exact h.order c xs t ys ht
  | same hp hsend =>
    rw [hp, Option.toList_none, List.append_nil]
    rw [hsend] at ht
    exact h.order c xs t ys ht

theorem Calls.step {pushed : List Push} {s s' : Server} {a : Action} (h : Calls pushed s)
    (hs : Settled s) (hh : Heard s) (hstep : s.step a = some s') :
    Calls (pushed ++ (s.pushOf a).toList) s' := by
  have hsig := step_signals hs hh hstep
  constructor
  case callers =>
    intro p hp
    obtain hp | hp := List.mem_append.mp hp
    · exact h.callers p hp
    · exact not_socket_of_calling (hs.calling_of_push hstep (Option.mem_toList.mp hp))
  case answered =>
    intro p hp
    have hsome : s.answer p.login ≠ none := by
      obtain hp | hp := List.mem_append.mp hp
      · exact h.answered p hp
      · obtain ⟨i, generation, hslot, -⟩ :=
          pushOf_cases hs.steady.sound.wellFormed (Option.mem_toList.mp hp)
        obtain ⟨g, hg, -⟩ := hs.granted hslot
        simp [hg]
    obtain ⟨g, hg⟩ := Option.ne_none_iff_exists'.mp hsome
    simp [hs.steady.answer_step hg hstep]
  case waits => exact h.waits_step hs hstep hsig
  case order => exact h.order_step hs.steady.sound.wellFormed hsig

end MydakServer.Server
