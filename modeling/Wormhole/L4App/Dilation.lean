import Wormhole.Core.Dict
import Wormhole.Core.LTS
import Wormhole.L3Protocol.PhaseBox

/-!
# Subchannels of a `DilationManager` (`packages/dilation/src/index.js`)

A dilated wormhole multiplexes subchannels over one data channel. Every record
is `type (1) || id (4, big-endian) || data`, sealed with the dilation key. Both
sides number the subchannels they open from their own counter, and both enter
the ones they open and the ones their peer opens into one map by id.

Sealing a record is asynchronous: `_sendRecord` checks the channel, suspends in
`encrypt`, and sends when it resumes. `suspended` holds the calls that wait
there, in the order they resume in; `rejected` those whose check failed, which
resume with the error.

A `Subchannel` object is known by its `Ref`: the application and the map may
hold the same one, and the map may have lost it.

`parseRecord_recordBytes`: the peer reads back what was built, with the id
reduced to 32 bits.
-/
namespace Wormhole.L4.Dilation
open Wormhole.L1 Wormhole.L3

/-- mirrors packages/dilation/src/index.js:51-60 -/
inductive DilationState
  | idle
  | waiting
  | wanting
  | connecting
  | connected
  | reconnecting
  | failed
  | stopped
  deriving DecidableEq

/-- `readyState` of the control channel. -/
inductive ReadyState
  | connecting
  | opened
  | closing
  | closed
  deriving DecidableEq

/-! ## Records -/

/-- mirrors packages/dilation/src/index.js:75-80 (`RecordType`) -/
inductive RecordType
  | opening
  | data
  | close
  | ack
  deriving DecidableEq

def RecordType.byte : RecordType → UInt8
  | .opening => 0x01
  | .data => 0x02
  | .close => 0x03
  | .ack => 0x04

theorem byte_ne {a b : RecordType} (h : a ≠ b) : a.byte ≠ b.byte := by
  intro hb
  cases a <;> cases b <;> first | exact h rfl | cases hb

/-- What `_parseRecord` reads; `type` may be none of the four. -/
structure Record where
  type : UInt8
  id : Nat
  data : Bytes
  seqnum : Option Nat

/-- The record `_sendRecord` builds: `setUint32` keeps the low 32 bits of the id.

mirrors packages/dilation/src/index.js:682-686 -/
def recordBytes (type : RecordType) (id : Nat) (data : Bytes) : Bytes :=
  type.byte :: (beBytes 4 id ++ data)

/-- `none` where it returns `null` and where `getUint32` throws; the caller drops
the message in both cases.

mirrors packages/dilation/src/index.js:601-614 (`_parseRecord`) -/
def parseRecord (data : Bytes) : Option Record :=
  match data with
  | [] => none
  | type :: rest =>
    if rest.length < 4 then none
    else
      let id := unpack (rest.take 4)
      if type = RecordType.ack.byte then
        if rest.length < 8 then none
        else some ⟨type, id, rest.drop 4, some (unpack ((rest.drop 4).take 4))⟩
      else some ⟨type, id, rest.drop 4, none⟩

theorem parseRecord_recordBytes {type : RecordType} (ht : type ≠ .ack) (id : Nat) (data : Bytes) :
    parseRecord (recordBytes type id data) = some ⟨type.byte, id % 2 ^ 32, data, none⟩ := by
  have hne : type.byte ≠ RecordType.ack.byte := byte_ne ht
  have hlen : ¬ (beBytes 4 id ++ data).length < 4 := by simp
  have htake : (beBytes 4 id ++ data).take 4 = beBytes 4 id :=
    List.take_left' (length_beBytes 4 id)
  have hdrop : (beBytes 4 id ++ data).drop 4 = data := List.drop_left' (length_beBytes 4 id)
  unfold parseRecord recordBytes
  dsimp only
  rw [if_neg hlen, if_neg hne, htake, hdrop, unpack_beBytes]
  rfl

/-! ## Objects -/

abbrev Ref := Nat

/-- mirrors packages/dilation/src/index.js:800-818 (`Subchannel`). `onData` says
whether the application has set the handler. -/
structure Subchannel where
  id : Nat
  protocol : String
  isInitiator : Bool
  isOpen : Bool
  sendSeqnum : Nat
  recvSeqnum : Nat
  receiveBuffer : List Bytes
  onData : Bool

/-- The constructor. -/
def Subchannel.create (id : Nat) (protocol : String) (isInitiator : Bool) : Subchannel :=
  ⟨id, protocol, isInitiator, true, 0, 0, [], false⟩

/-- mirrors packages/dilation/src/index.js:840-848 (`_receiveData`) -/
def Subchannel.receiveData (data : Bytes) (s : Subchannel) : Subchannel :=
  { s with
    recvSeqnum := s.recvSeqnum + 1
    receiveBuffer := if s.onData then s.receiveBuffer else s.receiveBuffer ++ [data] }

/-- What `onData` is called with.

mirrors packages/dilation/src/index.js:843-845 (`_receiveData`) -/
def Subchannel.handed (data : Bytes) (s : Subchannel) : List Bytes :=
  if s.onData then [data] else []

/-- mirrors packages/dilation/src/index.js:890-892 (`read`) -/
def Subchannel.read (s : Subchannel) : Option Bytes × Subchannel :=
  (s.receiveBuffer.head?, { s with receiveBuffer := s.receiveBuffer.tail })

/-- mirrors packages/dilation/src/index.js:898-900 (`hasData`) -/
def Subchannel.hasData (s : Subchannel) : Bool := 0 < s.receiveBuffer.length

/-- Who called `_sendRecord`, that is, what runs when it returns. -/
inductive Caller
  | openSubchannel (r : Ref)
  | send (r : Ref)
  | close (r : Ref)
  | refuse
  deriving DecidableEq

/-- A call of `_sendRecord` that waits for `encrypt`. -/
structure Suspended where
  type : RecordType
  id : Nat
  data : Bytes
  caller : Caller

/-- The manager. `controlChannel` is `none` for `null`; `object` has the
subchannel of every `Ref` below `nextRef`.

mirrors packages/dilation/src/index.js:127-165 -/
structure Manager where
  state : DilationState
  dilationKey : Bytes
  controlChannel : Option ReadyState
  peerConnection : Bool
  messageHandler : Bool
  subchannels : Dict Nat Ref
  object : Ref → Subchannel
  nextRef : Ref
  subchannelListeners : String → Bool
  nextSubchannelId : Nat
  suspended : List Suspended
  rejected : List Caller

def Manager.upd (m : Manager) (r : Ref) (f : Subchannel → Subchannel) : Manager :=
  { m with object := fun q => if q = r then f (m.object q) else m.object q }

/-- A new object under an id, as `this.subchannels.set` leaves it. -/
def Manager.install (m : Manager) (id : Nat) (s : Subchannel) : Manager :=
  { m with
    object := fun q => if q = m.nextRef then s else m.object q
    nextRef := m.nextRef + 1
    subchannels := m.subchannels.set id m.nextRef }

/-! ## Sending -/

/-- The first part of `_sendRecord`, up to `encrypt`. A throw there rejects the
promise that the caller awaits.

mirrors packages/dilation/src/index.js:677-691 (`_sendRecord`) -/
def sendRecord (m : Manager) (type : RecordType) (id : Nat) (data : Bytes) (caller : Caller) :
    Manager :=
  if m.controlChannel = some .opened then
    { m with suspended := m.suspended ++ [⟨type, id, data, caller⟩] }
  else { m with rejected := m.rejected ++ [caller] }

/-- What a caller does once `_sendRecord` has returned or thrown. -/
def continueWith (m : Manager) (returned : Bool) : Caller → Manager
  | .send r => if returned then m.upd r fun s => { s with sendSeqnum := s.sendSeqnum + 1 } else m
  | .close r => { m with subchannels := m.subchannels.del (m.object r).id }
  | .openSubchannel _ => m
  | .refuse => m

/-- mirrors packages/dilation/src/index.js:698-713 (`openSubchannel`); `none`
is the throw. -/
def openSubchannel (m : Manager) (protocol : String) : Option Manager :=
  if m.state ≠ .connected then none
  else
    let id := m.nextSubchannelId
    let m' := { m with nextSubchannelId := id + 1 }.install id (.create id protocol true)
    some (sendRecord m' .opening id (encode protocol) (.openSubchannel m.nextRef))

/-- mirrors packages/dilation/src/index.js:823-834 (`Subchannel.send`); `none`
is the throw. -/
def send (m : Manager) (r : Ref) (data : Bytes) : Option Manager :=
  if (m.object r).isOpen then some (sendRecord m .data (m.object r).id data (.send r)) else none

/-- mirrors packages/dilation/src/index.js:872-884 (`Subchannel.close`) -/
def closeSubchannel (m : Manager) (r : Ref) : Manager :=
  if (m.object r).isOpen then
    sendRecord (m.upd r fun s => { s with isOpen := false }) .close (m.object r).id [0] (.close r)
  else m

/-- The rest of `_sendRecord` for the call that has waited longest: what is put
on the channel, if anything. On a channel that is gone or not open, `send`
throws. -/
def resume (P : Crypto) (m : Manager) (nonce : Nonce) : Option (Manager × Option Bytes) :=
  match m.suspended with
  | [] => none
  | p :: rest =>
    let m' := { m with suspended := rest }
    if m.controlChannel = some .opened then
      some (continueWith m' true p.caller,
        some (encrypt P nonce (recordBytes p.type p.id p.data) m.dilationKey))
    else some (continueWith m' false p.caller, none)

/-- A rejected call returns to its caller. -/
def reject (m : Manager) : Option Manager :=
  match m.rejected with
  | [] => none
  | c :: rest => some (continueWith { m with rejected := rest } false c)

/-! ## Receiving -/

/-- mirrors packages/dilation/src/index.js:620-644 (`_handleSubchannelOpen`) -/
def handleSubchannelOpen (m : Manager) (record : Record) : Manager :=
  let protocol := textDecodeLossy record.data
  if m.subchannelListeners protocol then
    m.install record.id (.create record.id protocol false)
  else sendRecord m .close record.id [0] .refuse

/-- mirrors packages/dilation/src/index.js:853-860 (`_handleClose`) -/
def handleClose (m : Manager) (r : Ref) : Manager :=
  { m.upd r (fun s => { s with isOpen := false }) with
    subchannels := m.subchannels.del (m.object r).id }

/-- mirrors packages/dilation/src/index.js:569-590 (`_handleControlMessage`) -/
def handleRecord (m : Manager) (record : Record) : Manager :=
  if record.type = RecordType.opening.byte then handleSubchannelOpen m record
  else
    match m.subchannels.get? record.id with
    | none => m
    | some r =>
      if record.type = RecordType.data.byte then m.upd r (.receiveData record.data)
      else if record.type = RecordType.close.byte then handleClose m r
      else m

/-- mirrors packages/dilation/src/index.js:556-594 (`_handleControlMessage`) -/
def handleControlMessage (P : Crypto) (m : Manager) (data : Bytes) : Manager :=
  match (decrypt P data m.dilationKey).bind parseRecord with
  | none => m
  | some record => handleRecord m record

/-! ## Closing -/

/-- mirrors packages/dilation/src/index.js:760-787 (`close`) -/
def close (m : Manager) : Manager :=
  let m' := m.subchannels.values.foldl closeSubchannel m
  { m' with
    subchannels := .empty
    messageHandler := false
    controlChannel := none
    peerConnection := false
    state := .stopped }

/-! ## One side -/

/-- What happens at one side: calls of the application, calls that resume, what
the data channel brings. -/
inductive Event
  | openSubchannel (protocol : String)
  | send (r : Ref) (data : Bytes)
  | closeSubchannel (r : Ref)
  | onData (r : Ref)
  | listen (protocol : String)
  | unlisten (protocol : String)
  | resume (nonce : Nonce)
  | reject
  | message (data : Bytes)
  | channel (readyState : ReadyState)
  | close

/-- mirrors packages/dilation/src/index.js:528-552 (`_setupControlChannel`) for
the events of the channel -/
def step (P : Crypto) (m : Manager) : Event → Option Manager
  | .openSubchannel protocol => openSubchannel m protocol
  | .send r data => if r < m.nextRef then send m r data else none
  | .closeSubchannel r => if r < m.nextRef then some (closeSubchannel m r) else none
  | .onData r => some (m.upd r fun s => { s with onData := true })
  | .listen protocol =>
    some { m with subchannelListeners := fun p => p = protocol || m.subchannelListeners p }
  | .unlisten protocol =>
    some { m with subchannelListeners := fun p => p ≠ protocol && m.subchannelListeners p }
  | .resume nonce => (resume P m nonce).map Prod.fst
  | .reject => reject m
  | .message data => some (handleControlMessage P m data)
  | .channel readyState =>
    if m.controlChannel.isSome then
      some { m with
        controlChannel := some readyState
        state := if readyState = .closed ∧ m.state = .connected then .reconnecting else m.state }
    else none
  | .close => some (close m)

/-- The record a step puts on the channel. -/
def emitted (m : Manager) : Event → List Suspended
  | .resume _ => if m.controlChannel = some .opened then m.suspended.take 1 else []
  | _ => []

def lts (P : Crypto) (init : Manager → Prop) : LTS Manager Event := .ofStep init (step P)

/-- Everything a step can do. -/
inductive Move (P : Crypto) (m : Manager) : Event → Manager → Prop
  | openSubchannel (protocol : String) (hs : m.state = .connected) :
      Move P m (.openSubchannel protocol)
        (sendRecord ({ m with nextSubchannelId := m.nextSubchannelId + 1 }.install
          m.nextSubchannelId (.create m.nextSubchannelId protocol true))
          .opening m.nextSubchannelId (encode protocol) (.openSubchannel m.nextRef))
  | send (r : Ref) (data : Bytes) (hr : r < m.nextRef) (ho : (m.object r).isOpen = true) :
      Move P m (.send r data) (sendRecord m .data (m.object r).id data (.send r))
  | closeOpen (r : Ref) (hr : r < m.nextRef) (ho : (m.object r).isOpen = true) :
      Move P m (.closeSubchannel r)
        (sendRecord (m.upd r fun s => { s with isOpen := false }) .close (m.object r).id [0]
          (.close r))
  | closeAgain (r : Ref) : Move P m (.closeSubchannel r) m
  | onData (r : Ref) : Move P m (.onData r) (m.upd r fun s => { s with onData := true })
  | listen (protocol : String) :
      Move P m (.listen protocol)
        { m with subchannelListeners := fun p => p = protocol || m.subchannelListeners p }
  | unlisten (protocol : String) :
      Move P m (.unlisten protocol)
        { m with subchannelListeners := fun p => p ≠ protocol && m.subchannelListeners p }
  | resumed (nonce : Nonce) (p : Suspended) (rest : List Suspended)
      (hp : m.suspended = p :: rest) (hc : m.controlChannel = some .opened) :
      Move P m (.resume nonce) (continueWith { m with suspended := rest } true p.caller)
  | failed (nonce : Nonce) (p : Suspended) (rest : List Suspended)
      (hp : m.suspended = p :: rest) (hc : m.controlChannel ≠ some .opened) :
      Move P m (.resume nonce) (continueWith { m with suspended := rest } false p.caller)
  | rejected (c : Caller) (rest : List Caller) (hc : m.rejected = c :: rest) :
      Move P m .reject (continueWith { m with rejected := rest } false c)
  | message (data : Bytes) : Move P m (.message data) (handleControlMessage P m data)
  | channel (c readyState : ReadyState) (state : DilationState) (hc : m.controlChannel = some c) :
      Move P m (.channel readyState)
        { m with controlChannel := some readyState, state := state }
  | close : Move P m .close (Dilation.close m)

theorem step_move {P : Crypto} {m m' : Manager} {e : Event} (h : step P m e = some m') :
    Move P m e m' := by
  cases e with
  | openSubchannel protocol =>
    simp only [step, openSubchannel] at h
    split at h
    · cases h
    · rename_i hs
      cases h
      exact .openSubchannel protocol (not_not.mp hs)
  | send r data =>
    simp only [step, send] at h
    split at h
    · rename_i hr
      split at h
      · rename_i ho
        cases h
        exact .send r data hr ho
      · cases h
    · cases h
  | closeSubchannel r =>
    simp only [step] at h
    split at h
    · rename_i hr
      cases h
      unfold closeSubchannel
      split
      · rename_i ho
        exact .closeOpen r hr ho
      · exact .closeAgain r
    · cases h
  | onData r => cases h; exact .onData r
  | listen protocol => cases h; exact .listen protocol
  | unlisten protocol => cases h; exact .unlisten protocol
  | resume nonce =>
    simp only [step, resume] at h
    split at h
    · cases h
    · rename_i p rest hp
      split at h
      · rename_i hc
        cases h
        exact .resumed nonce p rest hp hc
      · rename_i hc
        cases h
        exact .failed nonce p rest hp hc
  | reject =>
    simp only [step, reject] at h
    split at h
    · cases h
    · rename_i c rest hc
      cases h
      exact .rejected c rest hc
  | message data => cases h; exact .message data
  | channel readyState =>
    simp only [step] at h
    split at h
    · rename_i hc
      obtain ⟨c, hc⟩ := Option.isSome_iff_exists.mp hc
      cases h
      exact .channel c readyState _ hc
    · cases h
  | close => cases h; exact .close

end Wormhole.L4.Dilation
