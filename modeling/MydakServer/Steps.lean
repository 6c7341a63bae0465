import MydakServer.Registry

/-! The steps of the server by cases, one for each way through the code that it takes up to
its next suspension. -/
namespace MydakServer.Server

/-- The server when `async_write` has written the message at the front of a queue. -/
def popped (s : Server) (socket q : ConnId) (message : Message) (rest : List Message) : Server :=
  { s with
    written := Function.update s.written socket (s.written socket ++ [message])
    messages := Function.update s.messages q rest }

theorem popped_nil {s : Server} {socket q : ConnId} (message : Message) (hq : s.messages q = []) :
    s.popped socket q message [] = s.addWritten socket message := by
  rw [popped, addWritten, ← hq, Function.update_eq_self]

/-- A coroutine goes on from where it was suspended. -/
inductive Resumes (s : Server) : Task → Server → Prop
  | userAdded (c : ConnId) (db : Database Task) (id : Nat) (s' : Server)
    (hc : s.start c = .addClient) (hd : s.db.resume (.start c) = some (db, some (.userId id)))
    (h : { s with db }.userAdded c id = some s') : Resumes s (.start c) s'
  | addUser (c : ConnId) (db : Database Task) (v : Option Value) (hc : s.start c = .addClient)
    (hd : s.db.resume (.start c) = some (db, v)) (hv : ∀ id, v ≠ some (.userId id)) :
    Resumes s (.start c) { s with db }
  | relayed (c : ConnId) (hc : s.start c = .addMessageToQueue)
    (hs : s.signal (.start c) ≠ .waiting) : Resumes s (.start c) (s.setStart c .readGreetings)
  | signalled (c : ConnId) (hc : s.socket c = .asyncReceive)
    (hs : s.signal (.socket c) = .taken) : Resumes s (.socket c) (s.signalled c)
  | socketAborted (c : ConnId) (hc : s.socket c = .asyncReceive)
    (hs : s.signal (.socket c) = .aborted) : Resumes s (.socket c) (s.setSocket c .terminated)
  | fetched (c : ConnId) (db : Database Task) (rows : List Row) (s' : Server)
    (hc : s.delayed c = .fetching)
    (hd : s.db.resume (.delayed c) = some (db, some (.messages rows)))
    (h : { s with db }.sendDelayed c rows [] = some s') : Resumes s (.delayed c) s'
  | fetching (c : ConnId) (db : Database Task) (v : Option Value) (hc : s.delayed c = .fetching)
    (hd : s.db.resume (.delayed c) = some (db, v)) (hv : ∀ rows, v ≠ some (.messages rows)) :
    Resumes s (.delayed c) { s with db }
  | taken (c : ConnId) (current : Row) (rest : List Row) (sent : List Nat) (s' : Server)
    (hc : s.delayed c = .sending current rest sent) (hs : s.signal (.delayed c) = .taken)
    (h : s.sendDelayed c rest (sent ++ [current.id]) = some s') : Resumes s (.delayed c) s'
  | aborted (c : ConnId) (current : Row) (rest : List Row) (sent : List Nat) (s' : Server)
    (hc : s.delayed c = .sending current rest sent) (hs : s.signal (.delayed c) = .aborted)
    (h : s.deleteSent c sent = some s') : Resumes s (.delayed c) s'
  | deleted (c : ConnId) (db : Database Task) (v : Option Value) (hc : s.delayed c = .deleting)
    (hd : s.db.resume (.delayed c) = some (db, v)) :
    Resumes s (.delayed c) ({ s with db }.setDelayed c .finished)
  | stored (n : Nat) (db : Database Task) (v : Option Value)
    (hd : s.db.resume (.store n) = some (db, v)) : Resumes s (.store n) { s with db }

inductive Steps (s : Server) : Action → Server → Prop
  | accept : Steps s .accept { s with
      start := Function.update s.start s.accepted .readKey
      accepted := s.accepted + 1 }
  | keyFails (c : ConnId) (bytes : List UInt8) (hc : s.start c = .readKey) :
    Steps s (.keyFails c bytes) ((s.setKey c (partialKey bytes)).endConnection c)
  | keyRead (c : ConnId) (key : PublicKey) (s' : Server) (hc : s.start c = .readKey)
    (h : (s.setKey c key).addClient c = some s') : Steps s (.keyRead c key) s'
  | badGreetings (c : ConnId) (g : Vector UInt8 37) (e : Proto.Break)
    (hc : s.start c = .readGreetings) (hp : Proto.parseGreetings s.native g = .error e) :
    Steps s (.greetings c g) (s.endConnection c)
  | greetings (c : ConnId) (g : Vector UInt8 37) (size : Nat) (recipient : PublicKey)
    (hc : s.start c = .readGreetings)
    (hp : Proto.parseGreetings s.native g = .ok (size, recipient)) :
    Steps s (.greetings c g) (s.setStart c (.readMessage size recipient))
  | message (c : ConnId) (bytes : List UInt8) (lookup : Bool) (size : Nat)
    (recipient : PublicKey) (s' : Server) (hc : s.start c = .readMessage size recipient)
    (h : (s.addFrame (s.frame c size recipient bytes)).relay c recipient
      (s.frame c size recipient bytes).message lookup 2 = some s') :
    Steps s (.message c bytes lookup) s'
  | readFails (c : ConnId) (hc : (s.start c).phase = .running) :
    Steps s (.readFails c) (s.endConnection c)
  | written (c socket q : ConnId) (channel : Option ConnId) (message front : Message)
    (rest : List Message) (hc : s.socket c = .writing ⟨some socket, some q, channel⟩ message)
    (hq : s.messages q = front :: rest) :
    Steps s (.written c)
      ((s.popped socket q message rest).writeMessages c ⟨some socket, some q, channel⟩ q)
  | writtenNone (c socket q : ConnId) (channel : Option ConnId) (message : Message)
    (hc : s.socket c = .writing ⟨some socket, some q, channel⟩ message)
    (hq : s.messages q = []) :
    Steps s (.written c) ((s.addWritten socket message).setSocket c .noMessage)
  | writeFails (c socket : ConnId) (n : Nat) (q channel : Option ConnId) (message : Message)
    (hc : s.socket c = .writing ⟨some socket, q, channel⟩ message)
    (hn : n < message.data.length) :
    Steps s (.writeFails c n)
      ((s.addTorn socket (message.data.take n)).setSocket c .terminated)
  | resume (t : Task) (s' : Server) (h : Resumes s t s') : Steps s (.resume t) s'
  | cancel (c : ConnId) (t : Task) (channel : Rendezvous.Channel Task) (hc : s.unowned c)
    (ht : (s.signalChannel c).cancel = some (t, channel)) :
    Steps s (.cancel c) ((s.setChannel c channel).setSignal t .aborted)
  | loop (db : Database Task) (hd : s.db.runLoop = some db) : Steps s .loop { s with db }
  | execute (db : Database Task) (hd : s.db.execute = some db) : Steps s .execute { s with db }
  | executeThrows (db : Database Task) (hd : s.db.executeThrows = some db) :
    Steps s .executeThrows { s with db }

theorem resume_cases {s s' : Server} {t : Task} (h : s.resume t = some s') : Resumes s t s' := by
  cases t with
  | start c =>
    cases hc : s.start c with
    | addClient =>
      simp only [resume, hc] at h
      obtain ⟨⟨db, v⟩, hd, h⟩ := Option.bind_eq_some_iff.mp h
      split at h
      · rename_i id heq
        cases heq
        exact .userAdded c db id s' hc hd h
      · rename_i hv heq
        cases heq
        cases h
        exact .addUser c db v hc hd fun id hid => hv id (by rw [hid])
    | addMessageToQueue =>
      simp only [resume, hc] at h
      split at h
      · cases h
      · rename_i hs
        cases h
        exact .relayed c hc hs
    | _ => simp [resume, hc] at h
  | socket c =>
    simp only [resume] at h
    split at h
    · rename_i hc hs
      cases h
      exact .signalled c hc hs
    · rename_i hc hs
      cases h
      exact .socketAborted c hc hs
    · cases h
  | delayed c =>
    cases hc : s.delayed c with
    | fetching =>
      simp only [resume, hc] at h
      obtain ⟨⟨db, v⟩, hd, h⟩ := Option.bind_eq_some_iff.mp h
      split at h
      · rename_i rows heq
        cases heq
        exact .fetched c db rows s' hc hd h
      · rename_i hv heq
        cases heq
        cases h
        exact .fetching c db v hc hd fun rows hr => hv rows (by rw [hr])
    | sending current rest sent =>
      simp only [resume, hc] at h
      cases hs : s.signal (.delayed c) with
      | waiting => simp [hs] at h
      | taken =>
        simp only [hs] at h
        exact .taken c current rest sent s' hc hs h
      | aborted =>
        simp only [hs] at h
        exact .aborted c current rest sent s' hc hs h
    | deleting =>
      simp only [resume, hc] at h
      obtain ⟨⟨db, v⟩, hd, rfl⟩ := Option.map_eq_some_iff.mp h
      exact .deleted c db v hc hd
    | _ => simp [resume, hc] at h
  | store n =>
    obtain ⟨⟨db, v⟩, hd, rfl⟩ := Option.map_eq_some_iff.mp h
    exact .stored n db v hd

theorem step_cases {s s' : Server} {a : Action} (h : s.step a = some s') : Steps s a s' := by
  cases a with
  | accept =>
    cases h
    exact .accept
  | keyFails c bytes =>
    simp only [step, Server.keyFails] at h
    split at h
    · rename_i hc
      cases h
      exact .keyFails c bytes hc.1
    · cases h
  | keyRead c key =>
    simp only [step, Server.keyRead] at h
    split at h
    · rename_i hc
      exact .keyRead c key s' hc h
    · cases h
  | greetings c g =>
    simp only [step, Server.greetings] at h
    split at h
    · rename_i hc
      split at h
      · rename_i e hp
        cases h
        exact .badGreetings c g e hc hp
      · rename_i size recipient hp
        cases h
        exact .greetings c g size recipient hc hp
    · cases h
  | message c bytes lookup =>
    simp only [step, messageRead] at h
    split at h
    · rename_i size recipient hc
      split at h
      · exact .message c bytes lookup size recipient s' hc h
      · cases h
    · cases h
  | readFails c =>
    simp only [step, Server.readFails] at h
    split at h
    · rename_i hc
      cases h
      exact .readFails c (by simp [hc, StartState.phase])
    · rename_i hc
      cases h
      exact .readFails c (by simp [hc, StartState.phase])
    · cases h
  | written c =>
    simp only [step, messageWritten] at h
    split at h
    · rename_i socket q channel message hc
      split at h
      · rename_i hq
        cases h
        exact .writtenNone c socket q channel message hc hq
      · rename_i front rest hq
        cases h
        exact .written c socket q channel message front rest hc hq
    · cases h
  | writeFails c n =>
    simp only [step, Server.writeFails] at h
    split at h
    · rename_i socket q channel message hc
      split at h
      · rename_i hn
        cases h
        exact .writeFails c socket n q channel message hc hn
      · cases h
    · cases h
  | resume t => exact .resume t s' (resume_cases h)
  | cancel c =>
    simp only [step, Server.cancel] at h
    split at h
    · rename_i hc
      obtain ⟨⟨t, channel⟩, ht, rfl⟩ := Option.map_eq_some_iff.mp h
      exact .cancel c t channel hc ht
    · cases h
  | loop =>
    obtain ⟨db, hd, rfl⟩ := Option.map_eq_some_iff.mp h
    exact .loop db hd
  | execute =>
    obtain ⟨db, hd, rfl⟩ := Option.map_eq_some_iff.mp h
    exact .execute db hd
  | executeThrows =>
    obtain ⟨db, hd, rfl⟩ := Option.map_eq_some_iff.mp h
    exact .executeThrows db hd

end MydakServer.Server
