import Wormhole.Core.Handoff
import Wormhole.L5Concurrency.DilationClose

/-!
# `SubchannelListener` (`packages/dilation/src/index.js`)

The listeners of a `DilationManager`. A listener gives the manager a callback for its protocol and
keeps two queues: the subchannels that came before anybody called `accept`, and the resolvers of
the calls of `accept` that came first. Listeners are numbered as they are made and so are the
calls of `accept` of each; another part of the application may call `manager.listen` itself, and
then the callback is its own.

* `handoff_run`: the two queues and the promises are those of a `Handoff`, with the subchannels
  given to the callback for its items.
* `accepts_fifo`: call `i` of `accept` has the `i`-th of them, nothing is lost or given twice, and
  of the queues one is empty.
* `opening_delivered`: a subchannel that the peer opens for a protocol with a listener is given to
  that listener.
-/
namespace Wormhole.L5.SubchannelAccepts
open Wormhole.L1 Wormhole.L3 Wormhole.L4.Dilation

/-! ## A listener -/

/-- `accepts` has a promise for each call of `accept`; a resolver is known by its call.

mirrors packages/dilation/src/index.js:945-951 -/
structure Listener where
  protocol : String
  pendingConnections : List Ref
  waitingResolvers : List Nat
  accepts : List (Option Ref)

namespace Listener

def new (protocol : String) : Listener := ⟨protocol, [], [], []⟩

/-- `resolve(subchannel)`; a promise that is resolved stays as it is. -/
def resolve (l : Listener) (i : Nat) (r : Ref) : Listener :=
  { l with accepts := l.accepts.modify i fun p => p.or (some r) }

/-- The callback of `listen`.

mirrors packages/dilation/src/index.js:958-965 -/
def notify (l : Listener) (r : Ref) : Listener :=
  match l.waitingResolvers with
  | i :: rest => { l with waitingResolvers := rest }.resolve i r
  | [] => { l with pendingConnections := l.pendingConnections ++ [r] }

/-- mirrors packages/dilation/src/index.js:972-980 -/
def accept (l : Listener) : Listener :=
  match l.pendingConnections with
  | r :: rest => { l with pendingConnections := rest, accepts := l.accepts ++ [some r] }
  | [] => { l with
      waitingResolvers := l.waitingResolvers ++ [l.accepts.length]
      accepts := l.accepts ++ [none] }

/-- The listener hands its subchannels over as `h` does. -/
structure Follows (l : Listener) (h : Handoff Ref) : Prop where
  pending : l.pendingConnections = h.pending
  waiting : l.waitingResolvers = h.waiting
  answers : l.accepts = h.answers

variable {l : Listener} {h : Handoff Ref}

theorem follows_new (protocol : String) : (new protocol).Follows .empty := ⟨rfl, rfl, rfl⟩

theorem notify_of_waiting {i : Nat} {rest : List Nat} (hw : l.waitingResolvers = i :: rest)
    (r : Ref) : l.notify r = { l with waitingResolvers := rest }.resolve i r := by
  unfold notify
  rw [hw]

theorem notify_of_not (hw : l.waitingResolvers = []) (r : Ref) :
    l.notify r = { l with pendingConnections := l.pendingConnections ++ [r] } := by
  unfold notify
  rw [hw]

theorem accept_of_pending {r : Ref} {rest : List Ref} (hp : l.pendingConnections = r :: rest) :
    l.accept = { l with pendingConnections := rest, accepts := l.accepts ++ [some r] } := by
  unfold accept
  rw [hp]

theorem accept_of_not (hp : l.pendingConnections = []) :
    l.accept = { l with
      waitingResolvers := l.waitingResolvers ++ [l.accepts.length]
      accepts := l.accepts ++ [none] } := by
  unfold accept
  rw [hp]

theorem modify_none {xs : List (Option Ref)} {i : Nat} (hi : xs[i]? = some none) (r : Ref) :
    xs.modify i (fun p => p.or (some r)) = xs.set i (some r) := by
  rw [List.modify_eq_set_getElem?, hi]
  rfl

theorem Follows.notify (hl : l.Follows h) (r : Ref) : (l.notify r).Follows (h.offer r) := by
  cases hw : h.waiting with
  | nil =>
    obtain ⟨hwaiting, hpending, hanswers⟩ := h.offer_of_not hw r
    have hnone : l.waitingResolvers = [] := hl.waiting.trans hw
    rw [notify_of_not hnone]
    refine ⟨?_, hnone.trans hwaiting.symm, hl.answers.trans hanswers.symm⟩
    rw [hpending, ← hl.pending]
  | cons i rest =>
    obtain ⟨hnone, hset⟩ := h.answers_offer_of_waiting hw r
    rw [notify_of_waiting (hl.waiting.trans hw)]
    refine ⟨?_, (h.waiting_offer_of_waiting hw r).symm, ?_⟩
    · rw [h.pending_offer_of_waiting hw r]
      exact hl.pending
    · rw [hset, ← hl.answers]
      exact modify_none (hl.answers ▸ hnone) r

theorem Follows.accept (hl : l.Follows h) : l.accept.Follows h.take := by
  have hanswers := h.answers_take
  have hpending := h.pending_take
  cases hp : h.pending with
  | nil =>
    have hnone : l.pendingConnections = [] := hl.pending.trans hp
    rw [hp] at hanswers hpending
    rw [accept_of_not hnone]
    refine ⟨hnone.trans hpending.symm, ?_, ?_⟩
    · rw [h.waiting_take_of_not hp, ← hl.waiting, hl.answers, h.length_answers]
    · rw [hanswers, ← hl.answers]
      rfl
  | cons r rest =>
    have hsome : h.pending ≠ [] := by
      rw [hp]
      exact List.cons_ne_nil r rest
    rw [hp] at hanswers hpending
    rw [accept_of_pending (hl.pending.trans hp)]
    refine ⟨hpending.symm, ?_, ?_⟩
    · rw [h.waiting_take_of_pending hsome]
      exact hl.waiting
    · rw [hanswers, ← hl.answers]
      rfl

end Listener

/-! ## The listeners of a manager -/

/-- Whose callback `subchannelListeners` has under a protocol. -/
inductive Callback
  | listener (k : Nat)
  | other

structure World where
  manager : Manager
  callbacks : String → Option Callback
  made : Nat
  listeners : Nat → Listener

/-- A manager that nobody listens to yet. -/
def World.new (m : Manager) : World :=
  ⟨{ m with subchannelListeners := fun _ => false }, fun _ => none, 0, fun _ => .new ""⟩

/-- `listen`, `accept` and `close` are the listener's; what else happens at the manager comes
in between. -/
inductive Event
  | create (protocol : String)
  | listen (k : Nat)
  | accept (k : Nat)
  | close (k : Nat)
  | manager (e : L4.Dilation.Event)

def World.upd (w : World) (k : Nat) (f : Listener → Listener) : World :=
  { w with listeners := fun j => if j = k then f (w.listeners j) else w.listeners j }

def World.setCallback (w : World) (protocol : String) (c : Option Callback) : World :=
  { w with callbacks := fun p => if p = protocol then c else w.callbacks p }

section
variable (P : Crypto)

/-- The protocol of the subchannel that the peer opens with an event.

mirrors packages/dilation/src/index.js:556-571 (`_handleControlMessage`) and :622
(`_handleSubchannelOpen`) -/
def opens (m : Manager) : L4.Dilation.Event → Option String
  | .message data =>
    match (decrypt P data m.dilationKey).bind parseRecord with
    | some record =>
      if record.type = RecordType.opening.byte then some (textDecodeLossy record.data) else none
    | none => none
  | _ => none

/-- The listener whose callback is called, and the subchannel it is called with.

mirrors packages/dilation/src/index.js:626-639 (`_handleSubchannelOpen`) -/
def delivery (w : World) : Event → Option (Nat × Ref)
  | .manager e =>
    match (opens P w.manager e).bind w.callbacks with
    | some (.listener k) => some (k, w.manager.nextRef)
    | _ => none
  | _ => none

def World.deliver (w : World) : Option (Nat × Ref) → World
  | some (k, r) => w.upd k fun l => l.notify r
  | none => w

/-- What an event of the manager does to its callbacks.

mirrors packages/dilation/src/index.js:720-731 (`listen`, `unlisten`) -/
def World.registered (w : World) : L4.Dilation.Event → World
  | .listen protocol => w.setCallback protocol (some .other)
  | .unlisten protocol => w.setCallback protocol none
  | _ => w

/-- mirrors packages/dilation/src/index.js:945-988 (`SubchannelListener`) -/
def step (w : World) : Event → Option World
  | .create protocol =>
    some { w.upd w.made fun _ => .new protocol with made := w.made + 1 }
  | .listen k =>
    if k < w.made then
      (L4.Dilation.step P w.manager (.listen (w.listeners k).protocol)).map fun m =>
        { w with manager := m }.setCallback (w.listeners k).protocol (some (.listener k))
    else none
  | .accept k => if k < w.made then some (w.upd k .accept) else none
  | .close k =>
    if k < w.made then
      (L4.Dilation.step P w.manager (.unlisten (w.listeners k).protocol)).map fun m =>
        { w with manager := m }.setCallback (w.listeners k).protocol none
    else none
  | .manager e =>
    (L4.Dilation.step P w.manager e).map fun m =>
      ({ w with manager := m }.registered e).deliver (delivery P w (.manager e))

def system (init : World → Prop) : LTS World Event := .ofStep init (step P)

/-- The subchannels given to callbacks, in order, with their listeners. -/
def deliveries (w : World) (events : List Event) : List (Nat × Ref) :=
  LTS.gather (step P) (fun w e => (delivery P w e).toList) w events

end

/-- The subchannels of listener `k`. -/
def incoming (k : Nat) (ds : List (Nat × Ref)) : List Ref :=
  ds.filterMap fun d => if d.1 = k then some d.2 else none

def Event.accepts (k : Nat) : Event → Bool
  | .accept j => j = k
  | _ => false

/-- How often `accept` of listener `k` is called. -/
def calls (k : Nat) (events : List Event) : Nat := events.countP (Event.accepts k)

/-! ## What an event does to a listener -/

@[simp] theorem incoming_nil (k : Nat) : incoming k [] = [] := rfl

theorem incoming_append (k : Nat) (ds es : List (Nat × Ref)) :
    incoming k (ds ++ es) = incoming k ds ++ incoming k es := List.filterMap_append

theorem mem_incoming {k : Nat} {r : Ref} {ds : List (Nat × Ref)} (h : r ∈ incoming k ds) :
    (k, r) ∈ ds := by
  obtain ⟨d, hd, hk⟩ := List.mem_filterMap.mp h
  split at hk
  · rename_i heq
    cases hk
    rwa [← heq]
  · cases hk

/-! ## What the manager keeps -/

/-- References are not given out again, and nobody's callback is touched. -/
structure Keeps (m m' : Manager) : Prop where
  refs : m.nextRef ≤ m'.nextRef
  listeners : m'.subchannelListeners = m.subchannelListeners

section
variable {P : Crypto} {m m' : Manager}

theorem Keeps.refl (m : Manager) : Keeps m m := ⟨Nat.le_refl _, rfl⟩

theorem Keeps.trans {m'' : Manager} (h : Keeps m m') (h' : Keeps m' m'') : Keeps m m'' :=
  ⟨h.refs.trans h'.refs, h'.listeners.trans h.listeners⟩

theorem keeps_sendRecord (m : Manager) (type : RecordType) (id : Nat) (data : Bytes)
    (caller : Caller) : Keeps m (sendRecord m type id data caller) := by
  unfold sendRecord
  split
  · exact ⟨Nat.le_refl _, rfl⟩
  · exact ⟨Nat.le_refl _, rfl⟩

theorem keeps_continueWith (m : Manager) (returned : Bool) (caller : Caller) :
    Keeps m (continueWith m returned caller) := by
  cases caller with
  | send r =>
    simp only [continueWith]
    split
    · exact ⟨Nat.le_refl _, rfl⟩
    · exact .refl m
  | _ => exact ⟨Nat.le_refl _, rfl⟩

theorem keeps_closeSubchannel (m : Manager) (r : Ref) : Keeps m (closeSubchannel m r) := by
  unfold closeSubchannel
  split
  · have hupd : Keeps m (m.upd r fun s => { s with isOpen := false }) := ⟨Nat.le_refl _, rfl⟩
    exact hupd.trans (keeps_sendRecord _ _ _ _ _)
  · exact .refl m

theorem keeps_foldl (rs : List Ref) (m : Manager) : Keeps m (rs.foldl closeSubchannel m) := by
  induction rs generalizing m with
  | nil => exact .refl m
  | cons r rs ih => exact (keeps_closeSubchannel m r).trans (ih _)

theorem keeps_close (m : Manager) : Keeps m (L4.Dilation.close m) := by
  have h := keeps_foldl m.subchannels.values m
  exact ⟨h.refs, h.listeners⟩

theorem keeps_handleRecord (m : Manager) (record : Record) : Keeps m (handleRecord m record) := by
  unfold handleRecord handleSubchannelOpen
  split
  · dsimp only
    split
    · exact ⟨Nat.le_succ _, rfl⟩
    · exact keeps_sendRecord _ _ _ _ _
  · split
    · exact .refl m
    · split
      · exact ⟨Nat.le_refl _, rfl⟩
      · split
        · exact ⟨Nat.le_refl _, rfl⟩
        · exact .refl m

theorem keeps_handleControlMessage (m : Manager) (data : Bytes) :
    Keeps m (handleControlMessage P m data) := by
  unfold handleControlMessage
  split
  · exact .refl m
  · exact keeps_handleRecord m _

/-- A subchannel that the peer opens where somebody listens is a new object. -/
theorem opened {e : L4.Dilation.Event} {protocol : String} (ho : opens P m e = some protocol)
    (hl : m.subchannelListeners protocol = true) (hs : L4.Dilation.step P m e = some m') :
    ∃ id, m' = m.install id (.create id protocol false) := by
  cases e with
  | message data =>
    cases hs
    simp only [opens] at ho
    unfold handleControlMessage
    split at ho
    · rename_i record hrecord
      split at ho
      · rename_i htype
        cases ho
        rw [hrecord]
        refine ⟨record.id, ?_⟩
        simp only [handleRecord, if_pos htype, handleSubchannelOpen, hl, if_true]
      · cases ho
    · cases ho
  | _ => cases ho

theorem keeps_step {e : L4.Dilation.Event} (hs : L4.Dilation.step P m e = some m')
    (hlisten : ∀ p, e ≠ .listen p) (hunlisten : ∀ p, e ≠ .unlisten p) : Keeps m m' := by
  cases step_move hs with
  | openSubchannel protocol _ =>
    have hinstall : Keeps m ({ m with nextSubchannelId := m.nextSubchannelId + 1 }.install
        m.nextSubchannelId (.create m.nextSubchannelId protocol true)) := ⟨Nat.le_succ _, rfl⟩
    exact hinstall.trans (keeps_sendRecord _ _ _ _ _)
  | send r data _ _ => exact keeps_sendRecord _ _ _ _ _
  | closeOpen r _ _ =>
    have hupd : Keeps m (m.upd r fun s => { s with isOpen := false }) := ⟨Nat.le_refl _, rfl⟩
    exact hupd.trans (keeps_sendRecord _ _ _ _ _)
  | closeAgain r => exact .refl m
  | onData r => exact ⟨Nat.le_refl _, rfl⟩
  | listen p => exact absurd rfl (hlisten p)
  | unlisten p => exact absurd rfl (hunlisten p)
  | resumed nonce p rest _ _ =>
    have hpop : Keeps m { m with suspended := rest } := ⟨Nat.le_refl _, rfl⟩
    exact hpop.trans (keeps_continueWith _ _ _)
  | failed nonce p rest _ _ =>
    have hpop : Keeps m { m with suspended := rest } := ⟨Nat.le_refl _, rfl⟩
    exact hpop.trans (keeps_continueWith _ _ _)
  | rejected c rest _ =>
    have hpop : Keeps m { m with rejected := rest } := ⟨Nat.le_refl _, rfl⟩
    exact hpop.trans (keeps_continueWith _ _ _)
  | message data => exact keeps_handleControlMessage m data
  | channel c readyState state _ => exact ⟨Nat.le_refl _, rfl⟩
  | close => exact keeps_close m

end

/-! ## Runs -/

/-- Callbacks belong to listeners there are, and the manager has one just where it has an
entry. -/
structure Inv (w : World) : Prop where
  made : ∀ p k, w.callbacks p = some (.listener k) → k < w.made
  entries : ∀ p, w.manager.subchannelListeners p = (w.callbacks p).isSome

/-- Listener `k` hands over as `h` does; nothing was given to one that has not been made. -/
structure Serves (w : World) (k : Nat) (h : Handoff Ref) : Prop where
  follows : (w.listeners k).Follows h
  unmade : w.made ≤ k → h = .empty

section
variable {P : Crypto} {w w' : World} {e : Event}

@[simp] theorem registered_listeners (w : World) (e : L4.Dilation.Event) :
    (w.registered e).listeners = w.listeners := by
  cases e <;> rfl

@[simp] theorem registered_made (w : World) (e : L4.Dilation.Event) :
    (w.registered e).made = w.made := by
  cases e <;> rfl

@[simp] theorem registered_manager (w : World) (e : L4.Dilation.Event) :
    (w.registered e).manager = w.manager := by
  cases e <;> rfl

/-- The manager, the callbacks and how many listeners there are. -/
theorem deliver_frame (w : World) (d : Option (Nat × Ref)) :
    (w.deliver d).manager = w.manager ∧ (w.deliver d).callbacks = w.callbacks ∧
      (w.deliver d).made = w.made := by
  unfold World.deliver
  split <;> exact ⟨rfl, rfl, rfl⟩

/-- What an event does to the world. -/
inductive Move (P : Crypto) (w : World) : Event → World → Prop
  | create (protocol : String) :
      Move P w (.create protocol)
        { w.upd w.made fun _ => .new protocol with made := w.made + 1 }
  | listen (k : Nat) (m : Manager) (hk : k < w.made)
      (hm : L4.Dilation.step P w.manager (.listen (w.listeners k).protocol) = some m) :
      Move P w (.listen k)
        ({ w with manager := m }.setCallback (w.listeners k).protocol (some (.listener k)))
  | accept (k : Nat) (hk : k < w.made) : Move P w (.accept k) (w.upd k .accept)
  | close (k : Nat) (m : Manager)
      (hm : L4.Dilation.step P w.manager (.unlisten (w.listeners k).protocol) = some m) :
      Move P w (.close k) ({ w with manager := m }.setCallback (w.listeners k).protocol none)
  | manager (e : L4.Dilation.Event) (m : Manager) (hm : L4.Dilation.step P w.manager e = some m) :
      Move P w (.manager e)
        (({ w with manager := m }.registered e).deliver (delivery P w (.manager e)))

theorem step_move (hs : step P w e = some w') : Move P w e w' := by
  cases e with
  | create protocol =>
    cases hs
    exact .create protocol
  | listen k =>
    obtain ⟨hk, hs⟩ := Option.ite_none_right_eq_some.mp hs
    obtain ⟨m, hm, rfl⟩ := Option.map_eq_some_iff.mp hs
    exact .listen k m hk hm
  | accept k =>
    obtain ⟨hk, hs⟩ := Option.ite_none_right_eq_some.mp hs
    cases hs
    exact .accept k hk
  | close k =>
    obtain ⟨-, hs⟩ := Option.ite_none_right_eq_some.mp hs
    obtain ⟨m, hm, rfl⟩ := Option.map_eq_some_iff.mp hs
    exact .close k m hm
  | manager e =>
    obtain ⟨m, hm, rfl⟩ := Option.map_eq_some_iff.mp hs
    exact .manager e m hm

theorem inv_new (m : Manager) : Inv (.new m) := by
  refine ⟨?_, fun _ => rfl⟩
  intro p k h
  cases h

/-- The callback of a protocol is set or taken away, in the manager too. -/
theorem Inv.setCallback (hi : Inv w) {m : Manager} {protocol : String} {c : Option Callback}
    (hm : ∀ p, m.subchannelListeners p =
      if p = protocol then c.isSome else w.manager.subchannelListeners p)
    (hc : ∀ k, c = some (.listener k) → k < w.made) :
    Inv ({ w with manager := m }.setCallback protocol c) := by
  refine ⟨?_, ?_⟩
  · intro p k hp
    simp only [World.setCallback] at hp
    split at hp
    · exact hc k hp
    · exact hi.made p k hp
  · intro p
    simp only [World.setCallback]
    rw [hm p]
    split
    · rfl
    · exact hi.entries p

theorem Inv.deliver (hi : Inv w) (d : Option (Nat × Ref)) : Inv (w.deliver d) := by
  obtain ⟨hm, hc, hmade⟩ := deliver_frame w d
  refine ⟨?_, ?_⟩
  · rw [hc, hmade]
    exact hi.made
  · rw [hm, hc]
    exact hi.entries

theorem listen_listeners {m m' : Manager} {protocol : String}
    (hs : L4.Dilation.step P m (.listen protocol) = some m') (p : String) :
    m'.subchannelListeners p = if p = protocol then true else m.subchannelListeners p := by
  cases hs
  by_cases h : p = protocol <;> simp [h]

theorem unlisten_listeners {m m' : Manager} {protocol : String}
    (hs : L4.Dilation.step P m (.unlisten protocol) = some m') (p : String) :
    m'.subchannelListeners p = if p = protocol then false else m.subchannelListeners p := by
  cases hs
  by_cases h : p = protocol <;> simp [h]

theorem Inv.registered (hi : Inv w) {e : L4.Dilation.Event} {m : Manager}
    (hs : L4.Dilation.step P w.manager e = some m) :
    Inv ({ w with manager := m }.registered e) := by
  by_cases hlisten : ∃ p, e = .listen p
  · obtain ⟨p, rfl⟩ := hlisten
    exact hi.setCallback (listen_listeners hs) fun _ h => nomatch h
  · by_cases hunlisten : ∃ p, e = .unlisten p
    · obtain ⟨p, rfl⟩ := hunlisten
      exact hi.setCallback (unlisten_listeners hs) fun _ h => nomatch h
    · have hkeeps := keeps_step hs (fun p h => hlisten ⟨p, h⟩) fun p h => hunlisten ⟨p, h⟩
      have hsame : { w with manager := m }.registered e = { w with manager := m } := by
        cases e with
        | listen p => exact absurd ⟨p, rfl⟩ hlisten
        | unlisten p => exact absurd ⟨p, rfl⟩ hunlisten
        | _ => rfl
      rw [hsame]
      refine ⟨hi.made, ?_⟩
      show ∀ p, m.subchannelListeners p = _
      rw [hkeeps.listeners]
      exact hi.entries

theorem inv_step (hi : Inv w) (hs : step P w e = some w') : Inv w' := by
  cases step_move hs with
  | create protocol => exact ⟨fun p k h => Nat.lt_succ_of_lt (hi.made p k h), hi.entries⟩
  | listen k m hk hm =>
    refine hi.setCallback (listen_listeners hm) ?_
    intro j h
    cases h
    exact hk
  | accept k _ => exact ⟨hi.made, hi.entries⟩
  | close k m hm => exact hi.setCallback (unlisten_listeners hm) fun _ h => nomatch h
  | manager e m hm => exact (hi.registered hm).deliver _

theorem Serves.same {k : Nat} {h : Handoff Ref} (hk : Serves w k h)
    (hl : w'.listeners k = w.listeners k) (hmade : w.made ≤ w'.made) : Serves w' k h := by
  refine ⟨?_, fun hle => hk.unmade (hmade.trans hle)⟩
  rw [hl]
  exact hk.follows

theorem serves_deliver {k : Nat} {arrived : List Ref} {n : Nat} {d : Option (Nat × Ref)}
    (hk : Serves w k ⟨arrived, n⟩) (hd : ∀ r, d = some (k, r) → k < w.made) :
    Serves (w.deliver d) k ⟨arrived ++ incoming k d.toList, n⟩ := by
  cases d with
  | none =>
    rw [Option.toList_none, incoming_nil, List.append_nil]
    exact hk
  | some d =>
    obtain ⟨j, r⟩ := d
    by_cases hj : j = k
    · subst hj
      have hlt := hd r rfl
      have hone : incoming j (some (j, r)).toList = [r] := by simp [incoming]
      rw [hone]
      refine ⟨?_, fun hle => absurd hlt (Nat.not_lt.mpr hle)⟩
      have hnotify : (w.deliver (some (j, r))).listeners j = (w.listeners j).notify r := if_pos rfl
      rw [hnotify]
      exact hk.follows.notify r
    · have hnone : incoming k (some (j, r)).toList = [] := by simp [incoming, hj]
      rw [hnone, List.append_nil]
      exact hk.same (if_neg (Ne.symm hj)) (Nat.le_refl _)

theorem delivery_made (hi : Inv w) {k : Nat} {r : Ref} (hd : delivery P w e = some (k, r)) :
    k < w.made := by
  unfold delivery at hd
  split at hd
  · split at hd
    · rename_i j hc
      cases hd
      obtain ⟨p, -, hp⟩ := Option.bind_eq_some_iff.mp hc
      exact hi.made p k hp
    · cases hd
  · cases hd

theorem Serves.undelivered {k : Nat} {arrived : List Ref} {n : Nat} (hk : Serves w' k ⟨arrived, n⟩)
    (hd : delivery P w e = none) :
    Serves w' k ⟨arrived ++ incoming k (delivery P w e).toList, n⟩ := by
  rw [hd, Option.toList_none, incoming_nil, List.append_nil]
  exact hk

/-- An event gives the listener at most one subchannel, or calls its `accept`. -/
theorem serves_step (hi : Inv w) (hs : step P w e = some w') {k : Nat} {arrived : List Ref}
    {n : Nat} (hk : Serves w k ⟨arrived, n⟩) :
    Serves w' k ⟨arrived ++ incoming k (delivery P w e).toList,
      n + if e.accepts k then 1 else 0⟩ := by
  cases step_move hs with
  | create protocol =>
    refine Serves.undelivered ?_ rfl
    by_cases hmade : k = w.made
    · have hempty : (⟨arrived, n⟩ : Handoff Ref) = .empty := hk.unmade hmade.ge
      have hnew : (w.upd w.made fun _ => .new protocol).listeners k = .new protocol := if_pos hmade
      refine ⟨?_, fun _ => hempty⟩
      show Listener.Follows ((w.upd w.made fun _ => .new protocol).listeners k) ⟨arrived, n⟩
      rw [hnew, hempty]
      exact Listener.follows_new protocol
    · exact hk.same (if_neg hmade) (Nat.le_succ _)
  | listen j m _ _ =>
    refine Serves.undelivered ?_ rfl
    exact hk.same rfl (Nat.le_refl _)
  | accept j hj =>
    refine Serves.undelivered ?_ rfl
    by_cases hjk : j = k
    · subst hjk
      have haccept : (w.upd j .accept).listeners j = (w.listeners j).accept := if_pos rfl
      simp only [Event.accepts, decide_true, if_true]
      refine ⟨?_, fun hle => absurd hj (Nat.not_lt.mpr hle)⟩
      rw [haccept]
      exact hk.follows.accept
    · simp only [Event.accepts, hjk, decide_false, Bool.false_eq_true, if_false]
      exact hk.same (if_neg (Ne.symm hjk)) (Nat.le_refl _)
  | close j m _ =>
    refine Serves.undelivered ?_ rfl
    exact hk.same rfl (Nat.le_refl _)
  | manager e m _ =>
    have hsame : Serves ({ w with manager := m }.registered e) k ⟨arrived, n⟩ :=
      hk.same (by simp) (by simp)
    refine serves_deliver hsame ?_
    intro r hd
    simpa using delivery_made hi hd

theorem deliveries_cons {events : List Event} (hs : step P w e = some w') :
    deliveries P w (e :: events) = (delivery P w e).toList ++ deliveries P w' events := by
  simp only [deliveries, LTS.gather, hs]

/-- Along a run the listener hands over what it was given to those who called. -/
theorem handoff_run {init : World → Prop} {events : List Event}
    (hr : (system P init).Run w events w') (hi : Inv w) {k : Nat} {arrived : List Ref} {n : Nat}
    (hk : Serves w k ⟨arrived, n⟩) :
    Serves w' k ⟨arrived ++ incoming k (deliveries P w events), n + calls k events⟩ := by
  induction hr generalizing arrived n with
  | nil w =>
    have hnone : deliveries P w [] = [] := rfl
    rw [hnone, incoming_nil, List.append_nil]
    exact hk
  | @cons w u v e events hst _ ih =>
    have hstep : step P w e = some u := hst
    have hrest := ih (inv_step hi hstep) (serves_step hi hstep hk)
    rw [deliveries_cons hstep, incoming_append, ← List.append_assoc]
    unfold calls at hrest ⊢
    rw [List.countP_cons, Nat.add_comm (List.countP _ _), ← Nat.add_assoc]
    exact hrest

/-! ## New objects -/

theorem nextRef_step {m m' : Manager} {e : L4.Dilation.Event}
    (hs : L4.Dilation.step P m e = some m') : m.nextRef ≤ m'.nextRef := by
  cases e with
  | listen p =>
    cases hs
    exact Nat.le_refl _
  | unlisten p =>
    cases hs
    exact Nat.le_refl _
  | _ => exact (keeps_step hs (by simp) (by simp)).refs

/-- A subchannel that the peer opens for a protocol is given to the listener of the protocol. -/
theorem opening_delivered (hi : Inv w) {e : L4.Dilation.Event} {protocol : String} {k : Nat}
    (ho : opens P w.manager e = some protocol) (hc : w.callbacks protocol = some (.listener k))
    {m : Manager} (hs : L4.Dilation.step P w.manager e = some m) :
    delivery P w (.manager e) = some (k, w.manager.nextRef) ∧
      ∃ id, m = w.manager.install id (.create id protocol false) := by
  have hl : w.manager.subchannelListeners protocol = true := by
    rw [hi.entries, hc]
    rfl
  refine ⟨?_, opened ho hl hs⟩
  simp only [delivery, ho, Option.bind_some, hc]

theorem refs_step (hi : Inv w) (hs : step P w e = some w') :
    w.manager.nextRef ≤ w'.manager.nextRef ∧
      ∀ d, delivery P w e = some d → w.manager.nextRef = d.2 ∧ d.2 < w'.manager.nextRef := by
  cases step_move hs with
  | create protocol => exact ⟨Nat.le_refl _, fun d hd => nomatch hd⟩
  | listen k m _ hm => exact ⟨nextRef_step hm, fun d hd => nomatch hd⟩
  | accept k _ => exact ⟨Nat.le_refl _, fun d hd => nomatch hd⟩
  | close k m hm => exact ⟨nextRef_step hm, fun d hd => nomatch hd⟩
  | manager e m hm =>
    rw [(deliver_frame _ _).1, registered_manager]
    refine ⟨nextRef_step hm, ?_⟩
    rintro ⟨k, r⟩ hd
    simp only [delivery] at hd
    split at hd
    · rename_i j hc
      cases hd
      obtain ⟨protocol, ho, hp⟩ := Option.bind_eq_some_iff.mp hc
      obtain ⟨-, id, rfl⟩ := opening_delivered hi ho hp hm
      exact ⟨rfl, Nat.lt_succ_self _⟩
    · cases hd

/-- The subchannels of a run are new objects, each later than those before. -/
theorem refs_run {init : World → Prop} {events : List Event}
    (hr : (system P init).Run w events w') (hi : Inv w) :
    ((deliveries P w events).map Prod.snd).Pairwise (· < ·) ∧
      ∀ r ∈ (deliveries P w events).map Prod.snd, w.manager.nextRef ≤ r := by
  induction hr with
  | nil w => exact ⟨.nil, fun r hr => nomatch hr⟩
  | @cons w u v e events hst _ ih =>
    have hstep : step P w e = some u := hst
    obtain ⟨hlater, hle⟩ := ih (inv_step hi hstep)
    obtain ⟨hgrow, hnew⟩ := refs_step hi hstep
    rw [deliveries_cons hstep]
    cases hd : delivery P w e with
    | none => exact ⟨hlater, fun r hr => hgrow.trans (hle r hr)⟩
    | some d =>
      obtain ⟨heq, hlt⟩ := hnew d hd
      refine ⟨List.pairwise_cons.mpr ⟨fun r hr => hlt.trans_le (hle r hr), hlater⟩, ?_⟩
      intro r hr
      rcases List.mem_cons.mp hr with rfl | hr
      · exact heq.le
      · exact hgrow.trans (hle r hr)

end

/-- The calls of `accept` have what came, in order; `n` is how many there were. -/
structure Fifo (l : Listener) (arrived : List Ref) (n : Nat) : Prop where
  called : l.accepts.length = n
  resolved : ∀ i < n, l.accepts[i]? = some arrived[i]?
  kept : l.accepts.filterMap id ++ l.pendingConnections = arrived
  exclusive : l.pendingConnections = [] ∨ l.waitingResolvers = []

theorem Listener.Follows.fifo {l : Listener} {arrived : List Ref} {n : Nat}
    (h : l.Follows ⟨arrived, n⟩) : Fifo l arrived n := by
  refine ⟨?_, ?_, ?_, ?_⟩
  · rw [h.answers, Handoff.length_answers]
  · intro i hi
    rw [h.answers]
    exact Handoff.getElem?_answers _ hi
  · rw [h.answers, h.pending]
    exact Handoff.answers_pending _
  · rw [h.pending, h.waiting]
    exact Handoff.pending_or_waiting _

theorem incoming_sublist (k : Nat) (ds : List (Nat × Ref)) :
    (incoming k ds).Sublist (ds.map Prod.snd) := by
  induction ds with
  | nil => exact .slnil
  | cons d ds ih =>
    unfold incoming
    rw [List.filterMap_cons, List.map_cons]
    by_cases hd : d.1 = k
    · rw [if_pos hd]
      exact ih.cons_cons d.2
    · rw [if_neg hd]
      exact ih.cons d.2

theorem Fifo.mem {l : Listener} {arrived : List Ref} {n i : Nat} {r : Ref} (h : Fifo l arrived n)
    (hi : l.accepts[i]? = some (some r)) : arrived[i]? = some r := by
  obtain ⟨hlt, -⟩ := List.getElem?_eq_some_iff.mp hi
  have hres := h.resolved i (h.called ▸ hlt)
  rw [hi] at hres
  exact (Option.some.inj hres).symm

/-- **Accepts are first come, first served**: along every run call `i` of `accept` is resolved with
the `i`-th subchannel its listener was given, if there is one yet; a subchannel goes to one
caller or is kept, and the listener never keeps both. -/
theorem accepts_fifo {P : Crypto} (m : Manager) {events : List Event} {w : World}
    (hr : (system P (· = .new m)).Run (.new m) events w) :
    (∀ k, Fifo (w.listeners k) (incoming k (deliveries P (.new m) events)) (calls k events)) ∧
      ∀ (k k' i i' : Nat) (r : Ref), (w.listeners k).accepts[i]? = some (some r) →
        (w.listeners k').accepts[i']? = some (some r) → k = k' ∧ i = i' := by
  have hfifo : ∀ k, Fifo (w.listeners k) (incoming k (deliveries P (.new m) events))
      (calls k events) := by
    intro k
    have hstart : Serves (.new m) k ⟨[], 0⟩ := ⟨Listener.follows_new "", fun _ => rfl⟩
    have hserves := handoff_run hr (inv_new m) hstart
    rw [List.nil_append, Nat.zero_add] at hserves
    exact hserves.follows.fifo
  refine ⟨hfifo, ?_⟩
  intro k k' i i' r hi hi'
  have hr1 := (hfifo k).mem hi
  have hr2 := (hfifo k').mem hi'
  have hlater := (refs_run hr (inv_new m)).1
  have hnodup : ((deliveries P (.new m) events).map Prod.snd).Nodup :=
    hlater.imp fun h => h.ne
  have hk : k = k' := by
    have hmem := mem_incoming (List.mem_of_getElem? hr1)
    have hmem' := mem_incoming (List.mem_of_getElem? hr2)
    exact congrArg Prod.fst (List.inj_on_of_nodup_map hnodup hmem hmem' rfl)
  subst hk
  refine ⟨rfl, ?_⟩
  have hone := hnodup.sublist (incoming_sublist k _)
  obtain ⟨hlt, -⟩ := List.getElem?_eq_some_iff.mp hr1
  exact (List.getElem?_inj hlt hone).mp (hr1.trans hr2.symm)

open DilationClose (oneOpen zeroNonce)

/-- The peer opens a subchannel for `chat`. -/
def opening (id : Nat) : Event :=
  .manager (.message (encrypt .plain zeroNonce (recordBytes .opening id (encode "chat"))
    oneOpen.dilationKey))

/-- One call of `accept` comes before the first of two subchannels, one after the second. -/
def acceptRun : List Event :=
  [Event.create "chat", .listen 0, .accept 0, opening 2, opening 4, .accept 0, .accept 0]

def acceptWorld : World := LTS.after (step .plain) (.new oneOpen) acceptRun

/-- Two of the three calls are resolved, in order. -/
theorem accepts_fifo_chat :
    Fifo (acceptWorld.listeners 0)
        (incoming 0 (deliveries .plain (.new oneOpen) acceptRun)) (calls 0 acceptRun) ∧
      (acceptWorld.listeners 0).accepts = [some 1, some 2, none] := by
  have hrun : (system .plain (· = .new oneOpen)).Run (.new oneOpen) acceptRun acceptWorld :=
    LTS.run_of_exec (LTS.exec_after (by decide +kernel))
  exact ⟨(accepts_fifo oneOpen hrun).1 0, by decide +kernel⟩

end Wormhole.L5.SubchannelAccepts
