import Wormhole.L5Concurrency.DilationClose
import Wormhole.L5Concurrency.SubchannelTable

/-!
# Two dilated sides and their subchannel ids

Two connected `DilationManager`s over an ordered, lossless control channel. Both
number their subchannels from 1, and both enter what they open and what their
peer opens into one map, so two subchannels opened from the two sides meet under
one id as soon as their lives overlap.

* `good_reachable`: as long as every id is unused when it is allocated, every
  OPEN meets a listener and no record meets a subchannel that was closed under
  it, the two sides are a `Pair` of tables.
* `routed_step`: then an OPEN replaces no entry, and every other record reaches
  the one subchannel its sender is linked with.
* `crossing_opens_replace`: with one subchannel opened from each side the OPEN
  of one replaces the open entry of the other.
-/
namespace Wormhole.L5.DilationSubchannels
open Wormhole.L1 Wormhole.L3 Wormhole.L4.Dilation Wormhole.L5.SubchannelTable

variable (P : Crypto)

/-! ## The two sides -/

/-- A message on the control channel; `sent` is the record in it. -/
structure Wire where
  bytes : Bytes
  sent : Suspended

/-- `chan x` is under way from side `x`, oldest first. `origin x r` records the
subchannel of the other side whose OPEN created `r` at side `x`. -/
structure St where
  side : Bool → Manager
  chan : Bool → List Wire
  origin : Bool → Ref → Option Ref

inductive Lbl
  | call (x : Bool) (e : Event)
  | deliver (x : Bool)

/-- Calls of the application and calls that resume; the channel stays open and
neither side closes the dilation. -/
def isCall : Event → Bool
  | .message _ => false
  | .channel _ => false
  | .close => false
  | _ => true

def put {α : Type} (f : Bool → α) (x : Bool) (a : α) : Bool → α := fun y => if y = x then a else f y

/-- What a step of one side puts on the channel. -/
def wires (m : Manager) : Event → List Wire
  | .resume nonce =>
    match m.suspended, resume P m nonce with
    | p :: _, some (_, some bytes) => [⟨bytes, p⟩]
    | _, _ => []
  | _ => []

/-- The record of where a new subchannel came from; `m` becomes `m'` with `w`. -/
def originsAfter (m m' : Manager) (o' : Ref → Option Ref) (w : Wire) : Ref → Option Ref :=
  match w.sent.caller with
  | .openSubchannel r => if m'.nextRef = m.nextRef then o' else created o' m.nextRef r
  | _ => o'

def step (s : St) : Lbl → Option St
  | .call x e =>
    if isCall e then
      (L4.Dilation.step P (s.side x) e).map fun m =>
        { s with
          side := put s.side x m
          chan := put s.chan x (s.chan x ++ wires P (s.side x) e) }
    else none
  | .deliver x =>
    match s.chan x with
    | [] => none
    | w :: rest =>
      let m := handleControlMessage P (s.side !x) w.bytes
      some ⟨put s.side (!x) m, put s.chan x rest,
        put s.origin (!x) (originsAfter (s.side !x) m (s.origin !x) w)⟩

/-- mirrors packages/dilation/src/index.js:186 -/
def dilationKey (sharedKey : Bytes) : Bytes := derivePhaseKey P sharedKey "dilation" "key"

/-- Connected, no subchannel yet. -/
def connected (sharedKey : Bytes) (listeners : String → Bool) : Manager where
  state := .connected
  dilationKey := dilationKey P sharedKey
  controlChannel := some .opened
  peerConnection := true
  messageHandler := true
  subchannels := .empty
  object _ := .create 0 "" true
  nextRef := 0
  subchannelListeners := listeners
  nextSubchannelId := 1
  suspended := []
  rejected := []

def init (sharedKey : Bytes) (listeners : Bool → String → Bool) : St :=
  ⟨fun x => connected P sharedKey (listeners x), fun _ => [], fun _ _ => none⟩

def lts (sharedKey : Bytes) : LTS St Lbl :=
  .ofStep (fun s => ∃ listeners, s = init P sharedKey listeners) (step P)

/-- The records of side `x` that the other side has not seen, oldest first. -/
def pipe (s : St) (x : Bool) : List Suspended := (s.chan x).map Wire.sent ++ (s.side x).suspended

/-! ## The condition -/

/-- No map has the id, and no record under way. -/
structure Unused (s : St) (k : Nat) : Prop where
  map : ∀ x, (s.side x).subchannels.get? k = none
  pipe : ∀ x, ∀ q ∈ pipe s x, q.id ≠ k
  small : k < 2 ^ 32

/-- The side `m` that receives `w` has a listener for an OPEN; for any other
record the subchannel it is for is still open. -/
def Meets (m : Manager) (o o' : Ref → Option Ref) (w : Wire) : Prop :=
  match w.sent.caller with
  | .openSubchannel _ => m.subchannelListeners (textDecodeLossy w.sent.data) = true
  | .send r => ∀ r', Linked o o' r r' → (m.object r').isOpen = true
  | .close r => ∀ r', Linked o o' r r' → (m.object r').isOpen = true
  | .refuse => True

/-- An id is allocated only while it is unused, and records meet what they are
for. -/
def Clean (s : St) : Lbl → Prop
  | .call x (.openSubchannel _) => Unused s (s.side x).nextSubchannelId
  | .call _ _ => True
  | .deliver x => ∀ w ∈ (s.chan x).head?, Meets (s.side !x) (s.origin x) (s.origin !x) w

/-! ## Views of the manager's functions -/

section
variable {m : Manager}

theorem view_upd (r : Ref) (f : Subchannel → Subchannel)
    (hf : ∀ s, (f s).id = s.id ∧ (f s).isOpen = s.isOpen) : view (m.upd r f) = view m := by
  have hid : ∀ q, ((m.upd r f).object q).id = (m.object q).id := by
    intro q
    simp only [Manager.upd]
    split
    · exact (hf _).1
    · rfl
  have hopen : ∀ q, ((m.upd r f).object q).isOpen = (m.object q).isOpen := by
    intro q
    simp only [Manager.upd]
    split
    · exact (hf _).2
    · rfl
  simp only [view, hid, hopen]
  rfl

theorem view_shut (r : Ref) :
    view (m.upd r fun s => { s with isOpen := false }) = (view m).shut r := by
  have hid : ∀ q,
      ((m.upd r fun s => { s with isOpen := false }).object q).id = (m.object q).id := by
    intro q
    simp only [Manager.upd]
    split <;> rfl
  have hopen : ∀ q, ((m.upd r fun s => { s with isOpen := false }).object q).isOpen =
      if q = r then false else (m.object q).isOpen := by
    intro q
    simp only [Manager.upd]
    split <;> rfl
  simp only [view, View.shut, hid, hopen]
  rfl

theorem view_install (k : Nat) (protocol : String) (initiator : Bool) :
    view (m.install k (.create k protocol initiator)) = (view m).install k := by
  have hid : ∀ q, ((m.install k (.create k protocol initiator)).object q).id =
      if q = m.nextRef then k else (m.object q).id := by
    intro q
    simp only [Manager.install]
    split <;> rfl
  have hopen : ∀ q, ((m.install k (.create k protocol initiator)).object q).isOpen =
      if q = m.nextRef then true else (m.object q).isOpen := by
    intro q
    simp only [Manager.install]
    split <;> rfl
  have hmap : (m.install k (.create k protocol initiator)).subchannels.get? =
      fun j => if k = j then some m.nextRef else m.subchannels.get? j :=
    funext fun j => Dict.get?_set _ _ _ _
  simp only [view, View.install, hid, hopen, hmap]
  rfl

theorem view_del (k : Nat) :
    view { m with subchannels := m.subchannels.del k } = (view m).drop k := by
  have hmap : (m.subchannels.del k).get? = fun j => if k = j then none else m.subchannels.get? j :=
    funext fun j => Dict.get?_del _ _ _
  simp only [view, View.drop, hmap]

theorem sendRecord_opened (h : m.controlChannel = some .opened) (type : RecordType) (id : Nat)
    (data : Bytes) (caller : Caller) :
    sendRecord m type id data caller =
      { m with suspended := m.suspended ++ [⟨type, id, data, caller⟩] } := if_pos h

end

/-! ## A call at one side -/

/-- What stays put while the dilation is connected. -/
structure Ready (key : Bytes) (m : Manager) : Prop where
  key : m.dilationKey = key
  opened : m.controlChannel = some .opened
  rejected : m.rejected = []

/-- The message holds its record. -/
def Sealed (key : Bytes) (w : Wire) : Prop :=
  ∃ nonce, w.bytes = encrypt P nonce (recordBytes w.sent.type w.sent.id w.sent.data) key

section
variable {key : Bytes} {m m' : Manager} {v' : View} {c p' : List Suspended}
  {o o' : Ref → Option Ref}

theorem wires_resume {nonce : Nonce} {p : Suspended} {rest : List Suspended}
    (hp : m.suspended = p :: rest) (hc : m.controlChannel = some .opened) :
    wires P m (.resume nonce) =
      [⟨encrypt P nonce (recordBytes p.type p.id p.data) m.dilationKey, p⟩] := by
  simp only [wires, resume, hp, if_pos hc]

/-- The rest of a call once its record is sent. -/
theorem pair_continueWith {p : Suspended} {rest : List Suspended}
    (h : Pair (view m) v' (c ++ p :: rest) p' o o') :
    Pair (view (continueWith { m with suspended := rest } true p.caller)) v' (c ++ p :: rest) p' o o' ∧
      (continueWith { m with suspended := rest } true p.caller).suspended = rest := by
  have hmem : p ∈ c ++ p :: rest := List.mem_append_right c List.mem_cons_self
  have hfit := h.here.fits p hmem
  unfold Fits at hfit
  cases hc : p.caller with
  | openSubchannel r => exact ⟨h, rfl⟩
  | send r =>
    refine ⟨?_, rfl⟩
    simp only [continueWith, if_true]
    rw [view_upd r (fun s => { s with sendSeqnum := s.sendSeqnum + 1 }) fun s => ⟨rfl, rfl⟩]
    exact h
  | close r =>
    rw [hc] at hfit
    obtain ⟨ht, hr, hid⟩ := hfit
    refine ⟨?_, rfl⟩
    simp only [continueWith]
    have hview := view_del (m := { m with suspended := rest }) (m.object r).id
    have hid' : (m.object r).id = p.id := hid
    rw [hid'] at hview
    rw [hid', hview]
    exact pair_drop h (h.here.closing p hmem ht)
  | refuse =>
    rw [hc] at hfit
    exact hfit.elim

theorem ready_continueWith {rest : List Suspended} (h : Ready key m) (caller : Caller) :
    Ready key (continueWith { m with suspended := rest } true caller) := by
  cases caller with
  | _ => exact ⟨h.key, h.opened, h.rejected⟩

/-- The id is new to this side, to the other and to the records under way. -/
def Free (v v' : View) (p p' : List Suspended) (k : Nat) : Prop :=
  v.map k = none ∧ v'.map k = none ∧ (∀ q ∈ p, q.id ≠ k) ∧ (∀ q ∈ p', q.id ≠ k) ∧ k < 2 ^ 32

theorem ready_sendRecord {type : RecordType} {id : Nat} {data : Bytes} {caller : Caller}
    (h : Ready key m) : Ready key (sendRecord m type id data caller) := by
  rw [sendRecord_opened h.opened]
  exact ⟨h.key, h.opened, h.rejected⟩

/-- **One call.** It keeps the tables of both sides, given that an id it
allocates is free. -/
theorem pair_call {e : Event} (hm : Move P m e m') (hcall : isCall e = true) (hR : Ready key m)
    (h : Pair (view m) v' (c ++ m.suspended) p' o o')
    (hfree : ∀ protocol, e = .openSubchannel protocol →
      Free (view m) v' (c ++ m.suspended) p' m.nextSubchannelId) :
    Ready key m' ∧ (∀ w ∈ wires P m e, Sealed P key w) ∧
      Pair (view m') v' (c ++ (wires P m e).map Wire.sent ++ m'.suspended) p' o o' := by
  have hnone : ∀ w ∈ ([] : List Wire), Sealed P key w := fun w hw => absurd hw List.not_mem_nil
  have hquiet : ∀ m' : Manager, view m' = view m → m'.suspended = m.suspended →
      Pair (view m') v' (c ++ ([] : List Wire).map Wire.sent ++ m'.suspended) p' o o' := by
    intro m' hv hs
    rw [hv, hs, List.map_nil, List.append_nil]
    exact h
  cases hm with
  | openSubchannel protocol hs =>
    have hR' : Ready key ({ m with nextSubchannelId := m.nextSubchannelId + 1 }.install
        m.nextSubchannelId (.create m.nextSubchannelId protocol true)) :=
      ⟨hR.key, hR.opened, hR.rejected⟩
    refine ⟨ready_sendRecord hR', hnone, ?_⟩
    obtain ⟨h1, h2, h3, h4, h5⟩ := hfree protocol rfl
    rw [sendRecord_opened hR'.opened]
    have := pair_open (encode protocol) h h1 h2 h3 h4 h5
    rw [List.append_assoc] at this
    have hview : view ({ m with nextSubchannelId := m.nextSubchannelId + 1 }.install
        m.nextSubchannelId (.create m.nextSubchannelId protocol true)) =
      (view m).install m.nextSubchannelId := view_install _ _ _
    rw [← hview] at this
    simp only [wires, List.map_nil, List.append_nil]
    exact this
  | send r data hr ho =>
    refine ⟨ready_sendRecord hR, hnone, ?_⟩
    have hown : Own (view m) ⟨.data, (m.object r).id, data, .send r⟩ r :=
      ⟨RecordType.noConfusion, .inl rfl, rfl, hr, rfl⟩
    have := pair_append h hown (h.here.opened r hr ho) RecordType.noConfusion
    rw [List.append_assoc] at this
    rw [sendRecord_opened hR.opened]
    simp only [wires, List.map_nil, List.append_nil]
    exact this
  | closeOpen r hr ho =>
    have hR' : Ready key (m.upd r fun s => { s with isOpen := false }) :=
      ⟨hR.key, hR.opened, hR.rejected⟩
    refine ⟨ready_sendRecord hR', hnone, ?_⟩
    have hmap := h.here.opened r hr ho
    have hown : Own ((view m).shut r) ⟨.close, (m.object r).id, [0], .close r⟩ r :=
      ⟨RecordType.noConfusion, .inr rfl, rfl, hr, rfl⟩
    have := pair_append (pair_shut r h) hown hmap fun _ => shut_closed h.here hmap
    rw [List.append_assoc, ← view_shut] at this
    rw [sendRecord_opened hR'.opened]
    simp only [wires, List.map_nil, List.append_nil]
    exact this
  | closeAgain r => exact ⟨hR, hnone, hquiet m rfl rfl⟩
  | onData r =>
    exact ⟨⟨hR.key, hR.opened, hR.rejected⟩, hnone,
      hquiet _ (view_upd r (fun s => { s with onData := true }) fun s => ⟨rfl, rfl⟩) rfl⟩
  | listen protocol =>
    exact ⟨⟨hR.key, hR.opened, hR.rejected⟩, hnone, hquiet _ rfl rfl⟩
  | unlisten protocol =>
    exact ⟨⟨hR.key, hR.opened, hR.rejected⟩, hnone, hquiet _ rfl rfl⟩
  | resumed nonce p rest hp hc =>
    rw [wires_resume P hp hc]
    refine ⟨ready_continueWith hR p.caller, ?_, ?_⟩
    · intro w hw
      cases List.mem_singleton.mp hw
      exact ⟨nonce, by rw [hR.key]⟩
    · rw [hp] at h
      obtain ⟨hpair, hrest⟩ := pair_continueWith h
      rw [hrest, List.map_singleton, List.append_assoc]
      exact hpair
  | failed nonce p rest hp hc => exact absurd hR.opened hc
  | rejected caller rest hc =>
    rw [hR.rejected] at hc
    cases hc
  | message data => cases hcall
  | channel c readyState state hc => cases hcall
  | close => cases hcall

end

/-! ## One delivery -/

section
variable {key : Bytes} {m : Manager} {v : View} {w : Wire} {p p' : List Suspended}
  {o o' : Ref → Option Ref}

/-- A sealed message is handled as the record in it. -/
theorem handle_sealed (hkey : key.length = 32) (hk : m.dilationKey = key) (hw : Sealed P key w)
    (ht : w.sent.type ≠ .ack) (hid : w.sent.id < 2 ^ 32) :
    handleControlMessage P m w.bytes =
      handleRecord m ⟨w.sent.type.byte, w.sent.id, w.sent.data, none⟩ := by
  obtain ⟨nonce, hb⟩ := hw
  unfold handleControlMessage
  rw [hb, hk, decrypt_encrypt P nonce _ hkey, Option.bind_some, parseRecord_recordBytes ht,
    Nat.mod_eq_of_lt hid]

/-- Where the record of `w` goes at the side `m` that receives it. -/
def Routed (m m' : Manager) (o o' : Ref → Option Ref) (w : Wire) : Prop :=
  match w.sent.caller with
  | .openSubchannel _ =>
    m.subchannels.get? w.sent.id = none ∧
      m' = m.install w.sent.id (.create w.sent.id (textDecodeLossy w.sent.data) false)
  | .send r => ∃ r', Linked o o' r r' ∧ (∀ a, Linked o o' r a → a = r') ∧
      m.subchannels.get? w.sent.id = some r' ∧ m' = m.upd r' (.receiveData w.sent.data)
  | .close r => ∃ r', Linked o o' r r' ∧ (∀ a, Linked o o' r a → a = r') ∧
      m.subchannels.get? w.sent.id = some r' ∧ m' = handleClose m r'
  | .refuse => False

/-- A record that is not an OPEN is handled with the subchannel it is for, which
the map has under its id. -/
theorem handled_own {r : Ref} (hkey : key.length = 32) (hR : Ready key m) (hw : Sealed P key w)
    (h : Pair v (view m) (w.sent :: p) p' o o')
    (hc : w.sent.caller = .send r ∨ w.sent.caller = .close r)
    (hopen : ∀ r', Linked o o' r r' → (m.object r').isOpen = true) :
    ∃ r', Linked o o' r r' ∧ (∀ a, Linked o o' r a → a = r') ∧
      m.subchannels.get? w.sent.id = some r' ∧
      handleControlMessage P m w.bytes =
        handleRecord m ⟨w.sent.type.byte, w.sent.id, w.sent.data, none⟩ := by
  have hfit := h.here.fits w.sent List.mem_cons_self
  obtain ⟨hown, hr, hid⟩ := own_of_caller hfit hc
  have hack : w.sent.type ≠ .ack := by
    unfold Fits at hfit
    rcases hc with hc | hc <;> rw [hc] at hfit <;> rw [hfit.1] <;> exact RecordType.noConfusion
  obtain ⟨r', hl, hr', hid', huniq⟩ := h.here.linked h.there hown
  have hmap : m.subchannels.get? (m.object r').id = some r' := h.there.opened r' hr' (hopen r' hl)
  have hid'' : (m.object r').id = w.sent.id := hid'
  rw [hid''] at hmap
  exact ⟨r', hl, huniq, hmap, handle_sealed P hkey hR.key hw hack (hid ▸ h.here.small r hr)⟩

/-- **One delivery.** The record goes where it belongs. -/
theorem routed (hkey : key.length = 32) (hR : Ready key m) (hw : Sealed P key w)
    (hmeets : Meets m o o' w) (h : Pair v (view m) (w.sent :: p) p' o o') :
    Routed m (handleControlMessage P m w.bytes) o o' w := by
  have hfit := h.here.fits w.sent List.mem_cons_self
  unfold Routed
  unfold Meets at hmeets
  cases hc : w.sent.caller with
  | openSubchannel r =>
    unfold Fits at hfit
    rw [hc] at hfit hmeets
    obtain ⟨ht, hr, hid⟩ := hfit
    have hsmall : w.sent.id < 2 ^ 32 := hid ▸ h.here.small r hr
    obtain ⟨-, -, hmap, -⟩ := h.here.pending w.sent List.mem_cons_self r hc
    have hack : w.sent.type ≠ .ack := by rw [ht]; exact RecordType.noConfusion
    refine ⟨hmap, ?_⟩
    rw [handle_sealed P hkey hR.key hw hack hsmall, ht]
    unfold handleRecord handleSubchannelOpen
    rw [if_pos rfl]
    exact if_pos hmeets
  | send r =>
    rw [hc] at hmeets
    obtain ⟨r', hl, huniq, hmap, hrec⟩ := handled_own P hkey hR hw h (.inl hc) hmeets
    unfold Fits at hfit
    rw [hc] at hfit
    have hne : RecordType.data ≠ .opening := RecordType.noConfusion
    refine ⟨r', hl, huniq, hmap, ?_⟩
    rw [hrec, hfit.1]
    unfold handleRecord
    rw [if_neg (byte_ne hne), hmap]
    exact if_pos rfl
  | close r =>
    rw [hc] at hmeets
    obtain ⟨r', hl, huniq, hmap, hrec⟩ := handled_own P hkey hR hw h (.inr hc) hmeets
    unfold Fits at hfit
    rw [hc] at hfit
    have hne : RecordType.close ≠ .opening := RecordType.noConfusion
    have hne' : RecordType.close ≠ .data := RecordType.noConfusion
    refine ⟨r', hl, huniq, hmap, ?_⟩
    rw [hrec, hfit.1]
    unfold handleRecord
    rw [if_neg (byte_ne hne), hmap]
    exact (if_neg (byte_ne hne')).trans (if_pos rfl)
  | refuse =>
    unfold Fits at hfit
    rw [hc] at hfit
    exact hfit

/-- A record that was routed leaves the tables of both sides in order. -/
theorem pair_deliver {m' : Manager} (hR : Ready key m) (hroute : Routed m m' o o' w)
    (h : Pair v (view m) (w.sent :: p) p' o o') :
    Ready key m' ∧ m'.suspended = m.suspended ∧
      Pair v (view m') p p' o (originsAfter m m' o' w) := by
  have hfit := h.here.fits w.sent List.mem_cons_self
  unfold Routed at hroute
  unfold originsAfter
  cases hc : w.sent.caller with
  | openSubchannel r =>
    rw [hc] at hroute
    obtain ⟨-, hm'⟩ := hroute
    subst hm'
    have hne : ¬ (m.nextRef + 1 = m.nextRef) := Nat.succ_ne_self _
    refine ⟨⟨hR.key, hR.opened, hR.rejected⟩, rfl, ?_⟩
    rw [view_install]
    dsimp only
    rw [if_neg]
    · exact pair_accept h hc
    · exact hne
  | send r =>
    rw [hc] at hroute
    obtain ⟨r', -, -, -, hm'⟩ := hroute
    subst hm'
    refine ⟨⟨hR.key, hR.opened, hR.rejected⟩, rfl, ?_⟩
    rw [view_upd r' (Subchannel.receiveData w.sent.data) fun s => ⟨rfl, rfl⟩]
    exact pair_pop h fun a ha => by rw [hc] at ha; cases ha
  | close r =>
    rw [hc] at hroute
    obtain ⟨r', -, -, hmap, hm'⟩ := hroute
    subst hm'
    refine ⟨⟨hR.key, hR.opened, hR.rejected⟩, rfl, ?_⟩
    have hpop : Pair v (view m) p p' o o' := pair_pop h fun a ha => by rw [hc] at ha; cases ha
    have hid : (m.object r').id = w.sent.id := (h.there.entries _ _ hmap).2
    have hview : view (handleClose m r') = ((view m).shut r').drop w.sent.id := by
      unfold handleClose
      rw [hid, ← view_shut]
      exact view_del (m := m.upd r' fun s => { s with isOpen := false }) w.sent.id
    rw [hview]
    exact (pair_drop (pair_shut r' hpop.swap) (shut_closed h.there hmap)).swap
  | refuse =>
    rw [hc] at hroute
    exact hroute.elim

end

/-! ## Runs -/

@[simp] theorem put_self {α : Type} (f : Bool → α) (x : Bool) (a : α) : put f x a x = a :=
  if_pos rfl

@[simp] theorem put_not {α : Type} (f : Bool → α) (x : Bool) (a : α) : put f x a (!x) = f (!x) :=
  if_neg (Bool.not_ne_self x)

@[simp] theorem put_of_not {α : Type} (f : Bool → α) (x : Bool) (a : α) : put f (!x) a x = f x :=
  if_neg (Bool.self_ne_not x)

def PairAt (s : St) (x : Bool) : Prop :=
  Pair (view (s.side x)) (view (s.side !x)) (pipe s x) (pipe s !x) (s.origin x) (s.origin !x)

theorem pairAt_all {s : St} (x : Bool) (h : PairAt s x) : ∀ y, PairAt s y := by
  intro y
  cases x <;> cases y
  · exact h
  · exact h.swap
  · exact h.swap
  · exact h

theorem forall_side {p : Bool → Prop} (x : Bool) (h : p x) (h' : p !x) : ∀ y, p y := by
  intro y
  cases x <;> cases y <;> assumption

/-- Both sides are connected, every message holds its record, and the tables of
the two sides fit. -/
structure Good (key : Bytes) (s : St) : Prop where
  ready : ∀ x, Ready key (s.side x)
  sealed : ∀ x, ∀ w ∈ s.chan x, Sealed P key w
  pair : ∀ x, PairAt s x

theorem good_init (sharedKey : Bytes) (listeners : Bool → String → Bool) :
    Good P (dilationKey P sharedKey) (init P sharedKey listeners) := by
  refine ⟨fun x => ⟨rfl, rfl, rfl⟩, fun x w hw => absurd hw List.not_mem_nil, fun x => ?_⟩
  have htable : ∀ f g, Table (view (connected P sharedKey f)) (view (connected P sharedKey g)) [] []
      (fun _ => none) (fun _ => none) := by
    intro f g
    exact {
      entries := fun k r h => by cases h
      opened := fun r hr => absurd hr (Nat.not_lt_zero r)
      small := fun r hr => absurd hr (Nat.not_lt_zero r)
      fits := fun q hq => absurd hq List.not_mem_nil
      origins := fun r' r h => by cases h
      inj := fun r1 r2 r h => by cases h
      pending := fun q hq => absurd hq List.not_mem_nil
      order := List.Pairwise.nil
      known := fun r hr => absurd hr (Nat.not_lt_zero r)
      closing := fun q hq => absurd hq List.not_mem_nil }
  exact ⟨htable _ _, htable _ _⟩

theorem good_call {key : Bytes} {s t : St} {x : Bool} {e : Event} (h : Good P key s)
    (hc : Clean s (.call x e)) (hs : step P s (.call x e) = some t) : Good P key t := by
  simp only [step] at hs
  split at hs
  · rename_i hcall
    obtain ⟨m, hm, ht⟩ := Option.map_eq_some_iff.mp hs
    subst ht
    have hfree : ∀ protocol, e = .openSubchannel protocol →
        Free (view (s.side x)) (view (s.side !x)) (pipe s x) (pipe s !x)
          (s.side x).nextSubchannelId := by
      intro protocol he
      rw [he] at hc
      exact ⟨hc.map x, hc.map !x, hc.pipe x, hc.pipe !x, hc.small⟩
    obtain ⟨hR, hsealed, hpair⟩ :=
      pair_call P (step_move hm) hcall (h.ready x) (h.pair x) hfree
    refine ⟨forall_side x ?_ ?_, forall_side x ?_ ?_, pairAt_all x ?_⟩
    · simpa only [put_self] using hR
    · simpa only [put_not] using h.ready !x
    · intro w hw
      simp only [put_self] at hw
      rcases List.mem_append.mp hw with hw | hw
      · exact h.sealed x w hw
      · exact hsealed w hw
    · simpa only [put_not] using h.sealed !x
    · unfold pipe at hpair
      unfold PairAt pipe
      simpa only [put_self, put_not, List.map_append] using hpair
  · cases hs

/-- What a delivery does: the record is routed and the tables are kept. -/
theorem good_deliver {key : Bytes} {s t : St} {x : Bool} (hkey : key.length = 32)
    (h : Good P key s) (hc : Clean s (.deliver x)) (hs : step P s (.deliver x) = some t) :
    (∃ w rest, s.chan x = w :: rest ∧
      Routed (s.side !x) (t.side !x) (s.origin x) (s.origin !x) w) ∧ Good P key t := by
  simp only [step] at hs
  split at hs
  · cases hs
  · rename_i w rest hchan
    cases hs
    have hmeets : Meets (s.side !x) (s.origin x) (s.origin !x) w := hc w (by rw [hchan]; rfl)
    have hsealed : Sealed P key w := h.sealed x w (by rw [hchan]; exact List.mem_cons_self)
    have hpair := h.pair x
    unfold PairAt pipe at hpair
    rw [hchan] at hpair
    have hroute := routed P hkey (h.ready !x) hsealed hmeets hpair
    obtain ⟨hR, hsusp, hpair'⟩ := pair_deliver (h.ready !x) hroute hpair
    refine ⟨⟨w, rest, hchan, by simpa only [put_self] using hroute⟩,
      forall_side x ?_ ?_, forall_side x ?_ ?_, pairAt_all x ?_⟩
    · simpa only [put_of_not] using h.ready x
    · simpa only [put_self] using hR
    · intro w' hw'
      simp only [put_self] at hw'
      exact h.sealed x w' (by rw [hchan]; exact List.mem_cons_of_mem w hw')
    · simpa only [put_not] using h.sealed !x
    · unfold PairAt pipe
      simp only [put_self, put_not, put_of_not, hsusp]
      exact hpair'

theorem good_reachable (sharedKey : Bytes) :
    ∀ s, ((lts P sharedKey).restrict Clean).Reachable s → Good P (dilationKey P sharedKey) s := by
  have hkey : (dilationKey P sharedKey).length = 32 := length_derivePhaseKey P _ _ _
  refine LTS.Inductive.reachable ⟨?_, ?_⟩
  · intro s hs
    obtain ⟨listeners, hs⟩ := hs
    rw [hs]
    exact good_init P sharedKey listeners
  · intro s l t h hst
    obtain ⟨hc, hs⟩ := hst
    cases l with
    | call x e => exact good_call P h hc hs
    | deliver x => exact (good_deliver P hkey h hc hs).2

/-! ## Routing -/

/-- **Subchannel ids.** In every run whose steps are clean, each delivery puts an
OPEN under an id the map does not have, and hands any other record to the one
subchannel that its sender is linked with. -/
theorem routed_step (sharedKey : Bytes) {s t : St} {x : Bool}
    (h : ((lts P sharedKey).restrict Clean).Reachable s)
    (hs : ((lts P sharedKey).restrict Clean).step s (.deliver x) t) :
    ∃ w rest, s.chan x = w :: rest ∧
      Routed (s.side !x) (t.side !x) (s.origin x) (s.origin !x) w :=
  (good_deliver P (length_derivePhaseKey P _ _ _) (good_reachable P sharedKey s h) hs.1 hs.2).1

/-! ## One subchannel with data, and one opened from each side -/

/-- Everyone listens for everything. -/
def start : St := init .plain [7] fun _ _ => true

/-- Side `false` opens a subchannel, and once it is accepted sends a byte. -/
def sending : List Lbl :=
  [.call false (.openSubchannel "wh-http"), .call false (.resume DilationClose.zeroNonce),
    .deliver false, .call false (.send 0 [42]), .call false (.resume DilationClose.zeroNonce)]

/-- `Clean` for calls and for the delivery of an OPEN. -/
def cleanCheck (s : St) : Lbl → Bool
  | .call x (.openSubchannel _) =>
    let k := (s.side x).nextSubchannelId
    [false, true].all (fun y => (s.side y).subchannels.get? k = none &&
      (pipe s y).all fun q => q.id ≠ k) && k < 2 ^ 32
  | .call _ _ => true
  | .deliver x => (s.chan x).head?.all fun w =>
    match w.sent.caller with
    | .openSubchannel _ => (s.side !x).subchannelListeners (textDecodeLossy w.sent.data)
    | _ => false

theorem clean_of_check (s : St) (l : Lbl) (h : cleanCheck s l = true) : Clean s l := by
  cases l with
  | call x e =>
    cases e with
    | openSubchannel protocol =>
      simp only [cleanCheck, Bool.and_eq_true, List.all_eq_true, decide_eq_true_eq] at h
      obtain ⟨hk, hsmall⟩ := h
      exact ⟨fun y => (hk y (by cases y <;> simp)).1, fun y => (hk y (by cases y <;> simp)).2,
        hsmall⟩
    | _ => trivial
  | deliver x =>
    intro w hw
    simp only [cleanCheck, Option.mem_def.mp hw, Option.all_some] at h
    unfold Meets
    split at h
    · rename_i r hc
      rw [hc]
      exact h
    · cases h

/-- The byte reaches the subchannel that the OPEN created. -/
theorem byte_routed : ∃ s t : St, ((lts .plain [7]).restrict Clean).Reachable s ∧
    ∃ w rest, s.chan false = w :: rest ∧
      Routed (s.side true) (t.side true) (s.origin false) (s.origin true) w := by
  have hreach : ((lts .plain [7]).restrict Clean).Reachable
      (LTS.after (LTS.checked cleanCheck (step .plain)) start sending) :=
    LTS.restrict_reachable_of_exec ⟨_, rfl⟩ clean_of_check
      (LTS.exec_after (by decide +kernel))
  generalize hs : LTS.after (LTS.checked cleanCheck (step .plain)) start sending = s at hreach
  have hnext : (s.side true).nextRef = 1 ∧ ((s.side true).object 0).isOpen = true ∧
      s.origin false 0 = none ∧ (s.chan false).head?.map (fun w => w.sent.caller) = some (.send 0) ∧
      (step .plain s (.deliver false)).isSome = true := by
    rw [← hs]
    decide +kernel
  obtain ⟨hnext, hopen, hor, hhead, hstep⟩ := hnext
  obtain ⟨t, ht⟩ := Option.isSome_iff_exists.mp hstep
  have hclean : Clean s (.deliver false) := by
    intro w hw
    rw [Option.mem_def.mp hw] at hhead
    have hc : w.sent.caller = .send 0 := Option.some.inj hhead
    unfold Meets
    rw [hc]
    intro r' hl
    rcases hl with hl | hl
    · rw [hor] at hl
      cases hl
    · have hlt := (((good_reachable .plain [7] s hreach).pair true).here.origins r' 0 hl).1
      have hr' : r' < 1 := hnext ▸ hlt
      rw [Nat.lt_one_iff.mp hr']
      exact hopen
  exact ⟨s, t, hreach, routed_step .plain [7] hreach ⟨hclean, ht⟩⟩

/-- Both sides open a subchannel; neither has heard of the other's. -/
def crossing : List Lbl :=
  [.call false (.openSubchannel "wh-http"), .call true (.openSubchannel "wh-http"),
    .call false (.resume DilationClose.zeroNonce), .call true (.resume DilationClose.zeroNonce)]

/-- Both have the id 1: the OPEN of the one replaces the open entry of the other. -/
theorem crossing_opens_replace : ∃ s t, (lts .plain [7]).Reachable s ∧
    LTS.exec (step .plain) s [.deliver false] = some t ∧
    (s.side true).subchannels.get? 1 = some 0 ∧ ((s.side true).object 0).isOpen = true ∧
    (t.side true).subchannels.get? 1 = some 1 ∧ ((t.side true).object 0).isOpen = true := by
  refine ⟨LTS.after (step .plain) start crossing,
    LTS.after (step .plain) (LTS.after (step .plain) start crossing) [.deliver false], ?_, ?_, ?_⟩
  · exact LTS.reachable_of_exec ⟨_, rfl⟩ (LTS.exec_after (by decide +kernel))
  · exact LTS.exec_after (by decide +kernel)
  · decide +kernel

end Wormhole.L5.DilationSubchannels
