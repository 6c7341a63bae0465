import Mathlib.Data.List.Perm.Subperm
import MydakServer.Suspensions

/-! Who puts a message into a queue waits until the session goes on to write: what the queues of
all sessions hold at any time is bounded by the number of connections. -/
namespace MydakServer.Server
open Rendezvous
variable {I : Tables → Prop}

/-- All messages but one in the queue of a session have a coroutine that waits for them. -/
def Pressed (s : Server) : Prop := ∀ c, s.registered c →
  (s.messages c).length ≤ (s.senders c).length + 1

/-- Sessions keep their queues, or gain as many coroutines as messages, or have no messages. -/
theorem Pressed.of {s t : Server} (h : Pressed s) (ht : ∀ c, t.registered c →
    t.messages c = [] ∨ s.registered c ∧
      (t.messages c).length + (s.senders c).length ≤
        (s.messages c).length + (t.senders c).length) : Pressed t := by
  intro c hc
  obtain hnil | ⟨hc', hle⟩ := ht c hc
  · simp [hnil]
  · have hold := h c hc'
    omega

theorem Pressed.of_eq {s t : Server} (h : Pressed s) (hreg : ∀ c, t.registered c → s.registered c)
    (hm : t.messages = s.messages) (hch : t.signalChannel = s.signalChannel) : Pressed t :=
  h.of fun c hc => .inr ⟨hreg c hc, by rw [hm, senders_of_eq hch]⟩

/-- A message goes into the queue of a session, and its sender waits, or the session has none. -/
theorem Pressed.push {s : Server} (h : Pressed s) (hw : Writes s) (hh : Heard s) (d : ConnId)
    (m : Message) (t : Task) : Pressed ((s.push d m).asyncSend d t) := by
  have hm : ((s.push d m).asyncSend d t).messages =
      Function.update s.messages d (s.messages d ++ [m]) :=
    ((s.push d m).asyncSend_stays d t).messages
  have hreg : ∀ c, ((s.push d m).asyncSend d t).registered c → s.registered c := by
    obtain ⟨channel, signal, he⟩ := (s.push d m).asyncSend_eq d t
    rw [he]
    exact fun _ hc => hc
  intro c hc
  have hold := h c (hreg c hc)
  rw [hm]
  obtain ⟨channel, ⟨-, hsend, -, he⟩ | ⟨r, hr, hsend, he⟩⟩ := (s.push d m).asyncSend_cases d t
  all_goals
    have hsenders : ((s.push d m).asyncSend d t).senders =
        Function.update s.senders d channel.senders := by
      rw [he]
      exact senders_of_update rfl
    rw [hsenders]
    by_cases hcd : c = d
    case neg => simpa [Function.update_of_ne hcd] using hold
    subst hcd
    simp only [Function.update_self, List.length_append, List.length_singleton, hsend]
  · exact Nat.succ_le_succ hold
  · -- the socket coroutine that waits has found the queue empty
    obtain hnil | ⟨-, hso, hsig⟩ := hh.receivers c
    · simp [Server.push, hnil] at hr
    · simp [hw.drained c (hreg c hc) hso hsig]

/-- The socket coroutine of a session takes a signal when its queue is empty. -/
theorem Pressed.socketCoroutine {s : Server} (h : Pressed s) {c : ConnId}
    (hm : s.registered c → s.messages c = []) : Pressed (s.socketCoroutine c) := by
  obtain ⟨channel, signal, socket, he, -⟩ := s.socketCoroutine_eq c
  rw [he]
  refine h.of fun d hd => ?_
  by_cases hdc : d = c
  · subst hdc
    exact .inl (hm hd)
  · exact .inr ⟨hd, by simp [senders, Function.update_of_ne hdc]⟩

theorem Pressed.move {s t : Server} {a : Action} (h : Pressed s) (hs : Settled s) (hw : Writes s)
    (hh : Heard s) (hm : Move I s a t) (hpark : ∀ c, a = .resume (.socket c) → s.registered c →
      t.socket c = .asyncReceive → s.messages c = []) : Pressed t := by
  cases hm with
  | grant _ c key g v id state hl hv =>
    have hnone := answer_of_logs hs.steady.sound hl
    obtain ⟨channel, signal, socket, he, -⟩ :=
      (s.setKey c key).granted_eq c v { g with dbIndex := id }
    rw [he]
    refine h.of fun d hd => ?_
    by_cases hdc : d = c
    · subst hdc
      exact .inl (hs.reached.queues d hnone).1
    · refine .inr ⟨registered_of_emplaced (s := s) { g with dbIndex := id } hv hdc hd, ?_⟩
      simp [senders, setDelayed, setKey, Function.update_of_ne hdc]
  | fail c bytes =>
    exact h.of_eq (fun d hd => registered_of_endConnection (s := s.setKey c (partialKey bytes)) hd)
      rfl rfl
  | close _ c => exact h.of_eq (fun d hd => registered_of_endConnection hd) rfl rfl
  | relay c bytes lookup size recipient e d => exact h.push hw hh d _ _
  | hand c d row rest sent =>
    exact (h.push hw hh d row.data (.delayed c)).of_eq (fun _ hd => hd) rfl rfl
  | park c hc hsig =>
    by_cases hend : s.start c = .ended
    · rw [Server.socketCoroutine, if_pos hend]
      exact h.of_eq (fun _ hd => hd) rfl rfl
    refine h.socketCoroutine fun hreg => hpark c rfl hreg ?_
    obtain ⟨channel, ⟨-, -, -, he⟩ | ⟨t, -, -, he⟩⟩ := socketCoroutine_cases hend <;> simp [he]
  | wrote c socket q channel m front rest hc hq =>
    obtain ⟨e, hdata⟩ := hs.clients c _ m hc
    cases hdata
    have h₁ : Pressed (s.popped socket socket m rest) := by
      refine h.of fun d hd => .inr ⟨hd, ?_⟩
      by_cases hde : d = socket
      · subst hde
        simp [popped, senders, hq]
      · simp [popped, senders, Function.update_of_ne hde]
    unfold writeMessages
    split
    · rename_i hnil
      refine h₁.socketCoroutine fun hreg => ?_
      obtain rfl := hw.own c socket m hreg hc
      exact hnil
    · exact h₁.of_eq (fun _ hd => hd) rfl rfl
  | cancel c t channel hun ht =>
    refine h.of fun d hd => .inr ⟨hd, ?_⟩
    have hdc : d ≠ c := by
      intro heq
      subst heq
      have hno := (unregistered_of_unowned hun).2
      rw [show s.registered d = true from hd] at hno
      cases hno
    simp [senders, setSignal, setChannel, Function.update_of_ne hdc]
  | _ => exact h.of_eq (fun _ hd => hd) rfl rfl

theorem Pressed.step {tables : Tables} {s s' : Server} {a : Action} (h : Pressed s)
    (hc : Composed tables s) (hstep : s.step a = some s') : Pressed s' := by
  have hs := hc.attentive.settled
  obtain ⟨t, hm, ha⟩ := step_move hs.steady.sound hs.steady.linked hstep
  refine (h.move hs hc.writes hc.attentive.heard hm fun c hact hreg hso => ?_).of_eq
    (fun c => ?_) ha.messages ha.signalChannel
  · subst hact
    exact hs.parks hstep hreg (by rw [ha.socket]; exact hso)
  · simp only [registered, ha.clientsSlotVector]
    exact id

/-- The coroutines that can wait in `add_message_to_queue`. -/
def callers (s : Server) : List Task :=
  (List.range s.accepted).map Task.start ++ (List.range s.accepted).map Task.delayed

theorem Settled.callers_of_calling {s : Server} (h : Settled s) {t : Task} (ht : s.calling t) :
    t ∈ s.callers := by
  simp only [callers, List.mem_append, List.mem_map, List.mem_range]
  cases t with
  | start c =>
    refine .inl ⟨c, ?_, rfl⟩
    by_contra hn
    simp [Server.calling, h.steady.sound.numbered c (Nat.le_of_not_lt hn)] at ht
  | delayed c =>
    refine .inr ⟨c, h.accepted_of_delayed fun hunborn => ?_, rfl⟩
    simp [Server.calling, hunborn] at ht
  | _ => cases ht

/-- No coroutine waits in two places. -/
theorem Calls.nodup {pushed : List Push} {s : Server} (h : Calls pushed s) (n : Nat) :
    ((List.range n).flatMap s.senders).Nodup := by
  refine List.nodup_flatMap.mpr ⟨fun c _ => ?_, ?_⟩
  · refine List.nodup_iff_injective_getElem.mpr fun i j hij => ?_
    obtain ⟨ys, zs, hi, hys⟩ := List.exists_split_at (List.getElem?_eq_getElem i.isLt)
    obtain ⟨ys', zs', hj, hys'⟩ := List.exists_split_at (List.getElem?_eq_getElem j.isLt)
    have hij' : (s.senders c)[i.1] = (s.senders c)[j.1] := hij
    rw [← hij'] at hj
    have hrest := (h.unique hi hj).2
    have hlen := congrArg List.length (hi.symm.trans hj)
    simp only [List.length_append, List.length_cons] at hlen
    exact Fin.ext (by omega)
  · refine List.nodup_range.imp fun {c d} hcd t hc hd => hcd ?_
    obtain ⟨xs, ys, hc⟩ := List.append_of_mem hc
    obtain ⟨xs', ys', hd⟩ := List.append_of_mem hd
    exact (h.unique hc hd).1

/-- The connections whose clients are in slots. -/
def sessions (s : Server) : List ConnId := (List.range s.accepted).filter s.registered

/-- The queue of a session holds at most one message more than coroutines wait for it to be
written, and all queues together at most as many as there are sessions and waiting coroutines. -/
structure Bounded (s : Server) : Prop where
  session : ∀ c, s.registered c → (s.messages c).length ≤ (s.senders c).length + 1
  waits : ∀ c, ∀ t ∈ s.senders c, s.calling t ∧ s.signal t = .waiting
  total : (s.sessions.flatMap s.messages).length ≤
    s.sessions.length + (s.callers.filter s.calling).length

theorem Pressed.bounded {pushed : List Push} {s : Server} (h : Pressed s) (hs : Settled s)
    (hc : Calls pushed s) : Bounded s where
  session := h
  waits := hc.waits
  total := by
    have hsub : (s.sessions.flatMap s.senders).Sublist
        ((List.range s.accepted).flatMap s.senders) := List.filter_sublist.flatMap s.senders
    have hnodup := hsub.nodup (hc.nodup s.accepted)
    have hcallers : s.sessions.flatMap s.senders ⊆ s.callers.filter s.calling := by
      intro t ht
      obtain ⟨c, -, htc⟩ := List.mem_flatMap.mp ht
      have hcalling := (hc.waits c t htc).1
      exact List.mem_filter.mpr ⟨hs.callers_of_calling hcalling, hcalling⟩
    have hle := (List.subperm_of_subset hnodup hcallers).length_le
    have hmessages : (s.sessions.flatMap s.messages).length ≤
        (s.sessions.flatMap s.senders).length + s.sessions.length :=
      List.length_flatMap_le fun c hc => h c (List.mem_filter.mp hc).2
    omega

/-- In every state of every run the queues of the sessions hold no more messages than there are
sessions and coroutines that wait in `add_message_to_queue`. -/
theorem queues_bounded (native : Proto.Endian) (succeeds : StartStep → Bool) (tables : Tables)
    (as : List Action) : Lts.Always step Bounded (init native succeeds tables) as := by
  intro bs hp s hr
  have h : Composed tables s ∧ Pressed s := by
    refine Lts.invariant_all (I := fun s => Composed tables s ∧ Pressed s)
      (fun _ _ _ ⟨hc, h⟩ hstep => ⟨hc.step hstep, h.step hc hstep⟩)
      ⟨init_composed native succeeds tables, ?_⟩ hr
    simp [Pressed, registered, init]
  have hacc := run_accounted hr
  exact h.2.bounded hacc.settled hacc.calls

end MydakServer.Server
