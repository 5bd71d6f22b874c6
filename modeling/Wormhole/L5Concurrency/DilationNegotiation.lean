import Mathlib.Data.String.Basic
import Wormhole.L4App.Dilation
import Wormhole.L4App.MailboxClient

/-!
# Negotiating dilation

Both sides of a wormhole call `dilate`. Each derives the dilation key, registers
its handler with the mailbox client and only then sends PLEASE; whoever has the
higher dilation side leads and makes an offer. The mailbox client keeps nothing
for a handler that is yet to come, so a PLEASE that arrives before the other
side has called `dilate` is gone.

`handling` is the queue of messages being decrypted: `decrypt` has the same
number of awaits for all of them, so they come out in the order they went in.

* `negotiated_of_met`: where every message finds the handler registered, each
  side processes the other's PLEASE once, one of them leads, and every offer is
  handled by the follower.
* `early_please_lost`: where one side is late, it never learns of the other, and
  nobody leads.
-/
namespace Wormhole.L5.DilationNegotiation
open Wormhole.L1 Wormhole.L3 Wormhole.L4.Dilation Wormhole.L4.MailboxClient

/-- A dilation message. `hints` stands for the session description and the
candidates, which go to WebRTC as they are. -/
inductive Message
  | please (side : String)
  | offer (hints : String)
  | answer (hints : String)
  deriving DecidableEq

/-- `JSON.stringify` on these messages, `JSON.parse` on bytes (through
`TextDecoder`) and on a text; `none` where it throws, and for any other message. -/
structure Codec where
  stringify : Message → String
  parse : Bytes → Option Message
  parseText : String → Option Message
  parse_stringify : ∀ m, parse (encode (stringify m)) = some m

/-- A message as it is sealed and put in the mailbox. -/
structure Sealed where
  phase : Nat
  nonce : Nonce
  message : Message

/-- Where `dilate` is: not called, deriving the key, with its handler registered. -/
inductive Stage
  | idle
  | deriving
  | started
  deriving DecidableEq

/-- A `DilationManager` and the part of its mailbox client it depends on.
`creating` and `answering` count the calls of `_createOffer` and
`_handleWebRTCOffer` that are under way; the last four fields count the
messages processed and the offers sent. -/
structure Side where
  state : DilationState
  stage : Stage
  dilationPhase : Nat
  peerDilationSide : Option String
  isLeader : Bool
  peerConnection : Bool
  handling : List Body
  creating : Nat
  answering : Nat
  pendingRequests : List String
  pleases : Nat
  offersSent : Nat
  offersHandled : Nat
  answersHandled : Nat

def Side.new : Side := ⟨.idle, .idle, 0, none, false, false, [], 0, 0, [], 0, 0, 0, 0⟩

/-- `link x` has what side `x` has put in the mailbox and what has not been
delivered to the other side. -/
structure St where
  side : Bool → Side
  link : Bool → List Sealed

inductive Lbl
  | dilate (x : Bool)
  | derived (x : Bool) (nonce : Nonce)
  | deliver (x : Bool) (id : String)
  | handle (x : Bool)
  | created (x : Bool) (hints : String) (nonce : Nonce)
  | answered (x : Bool) (hints : String) (nonce : Nonce)
  | request (x : Bool) (id : String)
  | settle (x : Bool) (id : String)

def St.setSide (s : St) (x : Bool) (side : Side) : St :=
  { s with side := fun z => if z = x then side else s.side z }

def St.setLink (s : St) (x : Bool) (link : List Sealed) : St :=
  { s with link := fun z => if z = x then link else s.link z }

/-- mirrors packages/dilation/src/index.js:650-656 (`_sendDilationMessage`) -/
def St.send (s : St) (x : Bool) (nonce : Nonce) (message : Message) : St :=
  (s.setLink x (s.link x ++ [⟨(s.side x).dilationPhase, nonce, message⟩])).setSide x
    { s.side x with dilationPhase := (s.side x).dilationPhase + 1 }

/-- mirrors packages/dilation/src/index.js:242-243 -/
def isDilation (phase : String) : Bool := "dilate-".toList.isPrefixOf phase.toList

/-- A frame from the peer.

mirrors packages/mailbox/src/index.js:377-402 (`handleMessage`) and
packages/dilation/src/index.js:240-250 (`_startDilationMessageHandler`) -/
def Side.handleMessage (x : Side) (id phase body : String) : Side :=
  if id ≠ "" ∧ id ∈ x.pendingRequests then
    { x with pendingRequests := x.pendingRequests.erase id }
  else if x.stage = .started ∧ isDilation phase then
    { x with handling := x.handling ++ [decodeBody body] }
  else x

/-- mirrors packages/dilation/src/index.js:295-308 (`_handlePlease`) and :356-371
(`_startWebRTC`) -/
def Side.handlePlease (own : String) (x : Side) (side : String) : Side :=
  { x with
    peerDilationSide := some side
    isLeader := decide (side < own)
    state := .connecting
    peerConnection := true
    creating := if side < own then x.creating + 1 else x.creating
    pleases := x.pleases + 1 }

/-- Without a peer connection the follower throws.

mirrors packages/dilation/src/index.js:314-335 (`_handleHints`) -/
def Side.handleHints (x : Side) : Message → Side
  | .offer _ =>
    if x.isLeader then x
    else if x.peerConnection then
      { x with offersHandled := x.offersHandled + 1, answering := x.answering + 1 }
    else x
  | .answer _ =>
    if x.isLeader ∧ x.peerConnection then { x with answersHandled := x.answersHandled + 1 }
    else x
  | .please _ => x

/-- mirrors packages/dilation/src/index.js:257-289 (`_handleDilationMessage`) -/
def Side.process (own : String) (x : Side) : Option Message → Side
  | some (.please side) => x.handlePlease own side
  | some m => x.handleHints m
  | none => x

section
variable (P : Crypto) (C : Codec) (sharedKey : Bytes) (dilationSide : Bool → String)

/-- mirrors packages/dilation/src/index.js:185-186 -/
def dilationKey : Bytes := derivePhaseKey P sharedKey "dilation" "key"

def ciphertext (m : Sealed) : Bytes :=
  encrypt P m.nonce (encode (C.stringify m.message)) (dilationKey P sharedKey)

/-- mirrors packages/dilation/src/index.js:259-267 -/
def readBody : Body → Option Message
  | .binary bytes => (decrypt P bytes (dilationKey P sharedKey)).bind C.parse
  | .text text => C.parseText text

/-- mirrors packages/dilation/src/index.js:173-200 (`dilate`), :421-441
(`_createOffer`) and :446-473 (`_handleWebRTCOffer`) -/
def step (s : St) : Lbl → Option St
  | .dilate x =>
    if (s.side x).state = .idle then
      some (s.setSide x { s.side x with state := .waiting, stage := .deriving })
    else none
  | .derived x nonce =>
    if (s.side x).stage = .deriving then
      some ((s.setSide x { s.side x with stage := .started }).send x nonce
        (.please (dilationSide x)))
    else none
  | .deliver x id =>
    match s.link x with
    | m :: rest => some ((s.setLink x rest).setSide (!x) ((s.side !x).handleMessage id
        ("dilate-" ++ toString m.phase) (addBody (.binary (ciphertext P C sharedKey m)))))
    | [] => none
  | .handle x =>
    match (s.side x).handling with
    | body :: rest => some (s.setSide x ({ s.side x with handling := rest }.process
        (dilationSide x) (readBody P C sharedKey body)))
    | [] => none
  | .created x hints nonce =>
    if 0 < (s.side x).creating then
      some ((s.setSide x { s.side x with
        creating := (s.side x).creating - 1
        offersSent := (s.side x).offersSent + 1 }).send x nonce (.offer hints))
    else none
  | .answered x hints nonce =>
    if 0 < (s.side x).answering then
      some ((s.setSide x { s.side x with
        answering := (s.side x).answering - 1 }).send x nonce (.answer hints))
    else none
  | .request x id => some (s.setSide x { s.side x with
      pendingRequests := (s.side x).pendingRequests ++ [id] })
  | .settle x id => some (s.setSide x { s.side x with
      pendingRequests := (s.side x).pendingRequests.erase id })

def init : St := ⟨fun _ => .new, fun _ => []⟩

def lts : LTS St Lbl := .ofStep (· = init) (step P C sharedKey dilationSide)

/-- The message that arrives finds the handler registered, is not taken for the
reply to a request, and is not text. -/
def Met (s : St) (l : Lbl) : Prop :=
  ∀ x id, l = .deliver x id → (s.side !x).stage = .started ∧
    (id = "" ∨ id ∉ (s.side !x).pendingRequests) ∧
    ∀ m, (s.link x).head? = some m → decode (ciphertext P C sharedKey m) = none

end

/-! ## Messages on their way -/

section
variable {P : Crypto} {C : Codec} {sharedKey : Bytes} {dilationSide : Bool → String}

theorem isDilation_phase (n : Nat) : isDilation ("dilate-" ++ toString n) = true := by
  unfold isDilation
  rw [List.isPrefixOf_iff_prefix, String.toList_append]
  exact List.prefix_append _ _

theorem length_dilationKey : (dilationKey P sharedKey).length = 32 :=
  length_derivePhaseKey P _ _ _

/-- What the peer makes of a message that is not text. -/
theorem readBody_ciphertext (m : Sealed) :
    readBody P C sharedKey (.binary (ciphertext P C sharedKey m)) = some m.message := by
  unfold readBody ciphertext
  dsimp only
  rw [decrypt_encrypt P m.nonce _ length_dilationKey, Option.bind_some]
  exact C.parse_stringify m.message

theorem decodeBody_ciphertext {m : Sealed} (h : decode (ciphertext P C sharedKey m) = none) :
    decodeBody (addBody (.binary (ciphertext P C sharedKey m))) =
      .binary (ciphertext P C sharedKey m) := by
  refine (decodeBody_addBody _).mpr ⟨fun hnil => ?_, h⟩
  have hkey : (dilationKey P sharedKey).length = 32 := length_dilationKey
  have hlen := length_encrypt P m.nonce (encode (C.stringify m.message)) hkey
  have hzero : (ciphertext P C sharedKey m).length = 0 := by rw [hnil]; rfl
  unfold ciphertext at hzero
  omega

def Message.isPlease : Message → Bool
  | .please _ => true
  | _ => false

def Message.isOffer : Message → Bool
  | .offer _ => true
  | _ => false

/-- The PLEASE of a side that has started and whose PLEASE was not processed. -/
def pleaseOnWay (own : String) (x y : Side) : List Message :=
  if x.stage = .started ∧ y.pleases = 0 then [.please own] else []

/-- From side `x` to side `y` there are on the way its PLEASE, if not processed
yet, and then the hints, among them the offers not handled yet. -/
structure OnWay (P : Crypto) (C : Codec) (sharedKey : Bytes) (own : String) (x y : Side)
    (link queue : List Sealed) (hints : List Message) : Prop where
  handling : y.handling = queue.map fun m => .binary (ciphertext P C sharedKey m)
  messages : (queue ++ link).map Sealed.message = pleaseOnWay own x y ++ hints
  once : ∀ m ∈ hints, m.isPlease = false
  before : x.stage ≠ .started → hints = [] ∧ y.pleases = 0
  offers : hints.countP Message.isOffer + y.offersHandled = x.offersSent

/-- What a side has by itself. -/
structure Local (own peer : String) (x : Side) : Prop where
  idle : x.state = .idle → x.stage = .idle
  before : x.stage ≠ .started → x.pleases = 0 ∧ x.handling = [] ∧ x.answering = 0
  unasked : x.pleases = 0 →
    x.isLeader = false ∧ x.peerConnection = false ∧ x.creating = 0 ∧ x.offersSent = 0
  asked : x.pleases ≠ 0 → x.pleases = 1 ∧ x.isLeader = decide (peer < own) ∧
    x.peerConnection = true ∧ x.creating + x.offersSent = if peer < own then 1 else 0

/-- Two sides, in every direction. -/
structure Inv (P : Crypto) (C : Codec) (sharedKey : Bytes) (dilationSide : Bool → String)
    (s : St) : Prop where
  own : ∀ x, Local (dilationSide x) (dilationSide !x) (s.side x)
  way : ∀ x, ∃ queue hints, OnWay P C sharedKey (dilationSide x) (s.side x) (s.side !x)
    (s.link x) queue hints

/-- Nothing that the messages on the way depend on has changed. -/
theorem OnWay.same {own : String} {x y x' y' : Side} {link queue : List Sealed}
    {hints : List Message} (h : OnWay P C sharedKey own x y link queue hints)
    (hs : x'.stage = .started ↔ x.stage = .started) (ho : x'.offersSent = x.offersSent)
    (hh : y'.handling = y.handling) (hp : y'.pleases = y.pleases)
    (hc : y'.offersHandled = y.offersHandled) :
    OnWay P C sharedKey own x' y' link queue hints := by
  have hway : pleaseOnWay own x' y' = pleaseOnWay own x y := by
    unfold pleaseOnWay
    simp only [hs, hp]
  refine ⟨hh.trans h.handling, by rw [hway]; exact h.messages, h.once, fun hn => ?_, ?_⟩
  · rw [hp]
    exact h.before fun hx => hn (hs.mpr hx)
  · rw [hc, ho]
    exact h.offers

theorem pleaseOnWay_started {own : String} {x y : Side} (hx : x.stage = .started)
    (hy : y.pleases = 0) : pleaseOnWay own x y = [.please own] := if_pos ⟨hx, hy⟩

theorem pleaseOnWay_nil {own : String} {x y : Side} (h : x.stage ≠ .started ∨ y.pleases ≠ 0) :
    pleaseOnWay own x y = [] := by
  refine if_neg fun hc => ?_
  rcases h with h | h
  · exact h hc.1
  · exact h hc.2

/-- `dilate` sends its PLEASE. -/
theorem OnWay.started {own : String} {x y : Side} {link queue : List Sealed}
    {hints : List Message} (h : OnWay P C sharedKey own x y link queue hints)
    (hx : x.stage ≠ .started) (x' : Side) (hx' : x'.stage = .started)
    (ho : x'.offersSent = x.offersSent)
    (n : Nat) (nonce : Nonce) :
    OnWay P C sharedKey own x' y (link ++ [⟨n, nonce, .please own⟩]) queue hints := by
  obtain ⟨hnil, hp⟩ := h.before hx
  refine ⟨h.handling, ?_, h.once, fun hn => absurd hx' hn, ho ▸ h.offers⟩
  have hm := h.messages
  rw [pleaseOnWay_nil (.inl hx), hnil] at hm
  rw [pleaseOnWay_started hx' hp, hnil, ← List.append_assoc, List.map_append, hm]
  rfl

/-- A message is put behind the others. -/
theorem OnWay.send {own : String} {x y : Side} {link queue : List Sealed}
    {hints : List Message} (h : OnWay P C sharedKey own x y link queue hints)
    (hx : x.stage = .started) (x' : Side) (hx' : x'.stage = .started) (m : Sealed)
    (hm : m.message.isPlease = false)
    (ho : x'.offersSent = x.offersSent + [m.message].countP Message.isOffer) :
    OnWay P C sharedKey own x' y (link ++ [m]) queue (hints ++ [m.message]) := by
  refine ⟨h.handling, ?_, fun k hk => ?_, fun hn => absurd hx' hn, ?_⟩
  · have hway : pleaseOnWay own x' y = pleaseOnWay own x y := by
      unfold pleaseOnWay
      simp only [hx, hx']
    rw [hway, ← List.append_assoc, List.map_append, h.messages, List.append_assoc]
    rfl
  · rcases List.mem_append.mp hk with hk | hk
    · exact h.once k hk
    · rw [List.mem_singleton.mp hk]
      exact hm
  · rw [List.countP_append, ho]
    have := h.offers
    omega

/-- A message is delivered and starts to be decrypted. -/
theorem OnWay.deliver {own : String} {x y : Side} {m : Sealed} {link queue : List Sealed}
    {hints : List Message} (h : OnWay P C sharedKey own x y (m :: link) queue hints)
    (hd : decode (ciphertext P C sharedKey m) = none) :
    OnWay P C sharedKey own x
      { y with handling := y.handling ++
        [decodeBody (addBody (.binary (ciphertext P C sharedKey m)))] }
      link (queue ++ [m]) hints := by
  refine ⟨?_, ?_, h.once, h.before, h.offers⟩
  · show y.handling ++ _ = _
    rw [decodeBody_ciphertext hd, h.handling, List.map_append]
    rfl
  · rw [List.append_assoc]
    exact h.messages

/-- A side that has made an offer is the higher one. -/
theorem Local.higher {own peer : String} {x : Side} (h : Local own peer x)
    (ho : x.offersSent ≠ 0) : peer < own := by
  have hp : x.pleases ≠ 0 := fun hp => ho (h.unasked hp).2.2.2
  have hsum := (h.asked hp).2.2.2
  by_contra hlt
  rw [if_neg hlt] at hsum
  omega

/-- Changes that are of no account to what the side has. -/
theorem Local.same {own peer : String} {x y : Side} (h : Local own peer x)
    (hi : y.state = .idle → y.stage = .idle)
    (hs : y.stage ≠ .started → x.stage ≠ .started ∧ y.handling = x.handling ∧
      y.answering = x.answering)
    (hp : y.pleases = x.pleases) (hl : y.isLeader = x.isLeader)
    (hc : y.peerConnection = x.peerConnection)
    (hcr : y.creating + y.offersSent = x.creating + x.offersSent) : Local own peer y := by
  refine ⟨hi, fun hn => ?_, fun h0 => ?_, fun h0 => ?_⟩
  · obtain ⟨hn, hh, ha⟩ := hs hn
    rw [hp, hh, ha]
    exact h.before hn
  · obtain ⟨h1, h2, h3, h4⟩ := h.unasked (hp ▸ h0)
    exact ⟨hl.trans h1, hc.trans h2, by omega, by omega⟩
  · rw [hp] at h0 ⊢
    rw [hl, hc, hcr]
    exact h.asked h0

/-- The PLEASE is the first that is processed. -/
theorem handle_please {ownX ownY : String} {x y : Side} {m : Sealed} {link queue : List Sealed}
    {hints : List Message} (h : OnWay P C sharedKey ownX x y link (m :: queue) hints)
    (hy : Local ownY ownX y) (hp : y.pleases = 0) :
    ∃ z, z = ({ y with handling := y.handling.tail } : Side).process ownY (some m.message) ∧
      OnWay P C sharedKey ownX x z link queue hints ∧ Local ownY ownX z := by
  have hys : y.stage = .started := by
    by_contra hn
    have hnil := (hy.before hn).2.1
    rw [h.handling] at hnil
    cases hnil
  have hxs : x.stage = .started := by
    by_contra hn
    have hm := h.messages
    rw [pleaseOnWay_nil (.inl hn), (h.before hn).1] at hm
    cases hm
  have hm := h.messages
  rw [pleaseOnWay_started hxs hp, List.cons_append, List.map_cons] at hm
  obtain ⟨hmsg, hrest⟩ := List.cons.inj hm
  refine ⟨_, rfl, ?_, ?_⟩
  · rw [hmsg]
    refine ⟨?_, ?_, h.once, fun hn => absurd hxs hn, h.offers⟩
    · show y.handling.tail = _
      rw [h.handling]
      rfl
    · rw [pleaseOnWay_nil (.inr (by show y.pleases + 1 ≠ 0; omega))]
      exact hrest
  · rw [hmsg]
    obtain ⟨h1, h2, h3, h4⟩ := hy.unasked hp
    refine ⟨nofun, fun hn => absurd hys hn, fun h0 => absurd h0 (Nat.succ_ne_zero _), fun _ => ?_⟩
    refine ⟨congrArg (· + 1) hp, rfl, rfl, ?_⟩
    show (if ownX < ownY then y.creating + 1 else y.creating) + y.offersSent = _
    rw [h3, h4]
    split <;> rfl

/-- The hints come after it, and the follower has its peer connection by then. -/
theorem handle_hints {ownX ownY : String} {x y : Side} {m : Sealed} {link queue : List Sealed}
    {hints : List Message} (h : OnWay P C sharedKey ownX x y link (m :: queue) hints)
    (hx : Local ownX ownY x) (hy : Local ownY ownX y) (hp : y.pleases ≠ 0) :
    ∃ z, z = ({ y with handling := y.handling.tail } : Side).process ownY (some m.message) ∧
      OnWay P C sharedKey ownX x z link queue hints.tail ∧ Local ownY ownX z := by
  have hys : y.stage = .started := by
    by_contra hn
    exact hp (hy.before hn).1
  have hm := h.messages
  rw [pleaseOnWay_nil (.inr hp), List.nil_append, List.cons_append, List.map_cons] at hm
  have hfirst : m.message.isPlease = false := h.once _ (hm ▸ List.mem_cons_self)
  have hoffers := h.offers
  rw [← hm] at hoffers
  have hrest : ∀ z : Side, z.pleases = y.pleases → z.handling = y.handling.tail →
      (((queue ++ link).map Sealed.message).countP Message.isOffer + z.offersHandled =
        x.offersSent) → OnWay P C sharedKey ownX x z link queue hints.tail := by
    intro z hzp hzh hzo
    rw [← hm]
    refine ⟨?_, ?_, fun k hk => ?_, fun hn => ?_, hzo⟩
    · rw [hzh, h.handling]
      rfl
    · rw [pleaseOnWay_nil (.inr (hzp ▸ hp))]
      rfl
    · exact h.once k (hm ▸ List.mem_cons_of_mem _ hk)
    · exact absurd (h.before hn).2 hp
  have hlocal : ∀ z : Side, z.state = y.state → z.stage = y.stage → z.pleases = y.pleases →
      z.isLeader = y.isLeader → z.peerConnection = y.peerConnection →
      z.creating + z.offersSent = y.creating + y.offersSent → Local ownY ownX z :=
    fun z hst h0 h1 h2 h3 h4 => hy.same (fun hi => by rw [h0]; exact hy.idle (hst ▸ hi))
      (fun hn => absurd (h0.trans hys) hn) h1 h2 h3 h4
  refine ⟨_, rfl, ?_⟩
  cases hmsg : m.message with
  | please side =>
    rw [hmsg] at hfirst
    cases hfirst
  | offer text =>
    rw [hmsg, List.countP_cons] at hoffers
    have hone : (if Message.isOffer (.offer text) = true then 1 else 0) = 1 := rfl
    rw [hone] at hoffers
    have hlow := lt_asymm (hx.higher (by omega))
    have hlead : y.isLeader = false := by
      rw [(hy.asked hp).2.1]
      exact decide_eq_false hlow
    have hconn := (hy.asked hp).2.2.1
    have hz : ({ y with handling := y.handling.tail } : Side).process ownY
        (some (.offer text)) = { y with
          handling := y.handling.tail
          offersHandled := y.offersHandled + 1
          answering := y.answering + 1 } := by
      show (if y.isLeader then _ else if y.peerConnection then _ else _) = _
      rw [if_neg (by rw [hlead]; exact nofun), if_pos hconn]
    rw [hz]
    exact ⟨hrest _ rfl rfl (by dsimp only; omega), hlocal _ rfl rfl rfl rfl rfl rfl⟩
  | answer text =>
    rw [hmsg, List.countP_cons] at hoffers
    have hzero : (if Message.isOffer (.answer text) = true then 1 else 0) = 0 := rfl
    rw [hzero] at hoffers
    show OnWay P C sharedKey ownX x (if y.isLeader ∧ y.peerConnection then _ else _) link queue
      hints.tail ∧ Local ownY ownX (if y.isLeader ∧ y.peerConnection then _ else _)
    split
    · exact ⟨hrest _ rfl rfl (by dsimp only; omega), hlocal _ rfl rfl rfl rfl rfl rfl⟩
    · exact ⟨hrest _ rfl rfl (by dsimp only; omega), hlocal _ rfl rfl rfl rfl rfl rfl⟩

/-! ## Steps -/

theorem forall_side {p : Bool → Prop} (x : Bool) (h1 : p x) (h2 : p !x) : ∀ z, p z := by
  intro z
  cases x <;> cases z <;> assumption

/-- A step of side `x`: it is left to see to `x` itself, what it sent and what
it was sent. -/
theorem Inv.of_side {s t : St} (h : Inv P C sharedKey dilationSide s) (x : Bool)
    (hother : t.side (!x) = s.side (!x))
    (hown : Local (dilationSide x) (dilationSide !x) (t.side x))
    (hout : ∃ queue hints, OnWay P C sharedKey (dilationSide x) (t.side x) (s.side !x)
      (t.link x) queue hints)
    (hin : ∃ queue hints, OnWay P C sharedKey (dilationSide !x) (s.side !x) (t.side x)
      (t.link !x) queue hints) : Inv P C sharedKey dilationSide t := by
  constructor
  · refine forall_side x hown ?_
    rw [hother]
    exact h.own !x
  · refine forall_side x ?_ ?_
    · rw [hother]
      exact hout
    · rw [hother, Bool.not_not]
      exact hin

theorem Inv.way_in {s : St} (h : Inv P C sharedKey dilationSide s) (x : Bool) :
    ∃ queue hints, OnWay P C sharedKey (dilationSide !x) (s.side !x) (s.side x) (s.link !x)
      queue hints := by
  have := h.way !x
  rwa [Bool.not_not] at this

section
variable {s : St} {x : Bool} {y : Side}

@[simp] theorem side_setSide : (s.setSide x y).side x = y := if_pos rfl

@[simp] theorem side_setSide_not : (s.setSide x y).side (!x) = s.side (!x) := if_neg (Bool.not_ne_self x)

@[simp] theorem link_setSide : (s.setSide x y).link = s.link := rfl

theorem link_setLink {l : List Sealed} : (s.setLink x l).link x = l := if_pos rfl

theorem link_setLink_not {l : List Sealed} : (s.setLink x l).link (!x) = s.link (!x) :=
  if_neg (Bool.not_ne_self x)

end

/-- A change of side `x` that is of no account. -/
theorem Inv.edit {s : St} (h : Inv P C sharedKey dilationSide s) {x : Bool} {y : Side}
    (hi : y.state = .idle → y.stage = .idle)
    (hs : y.stage = .started ↔ (s.side x).stage = .started)
    (ho : y.offersSent = (s.side x).offersSent) (hh : y.handling = (s.side x).handling)
    (hp : y.pleases = (s.side x).pleases) (hc : y.offersHandled = (s.side x).offersHandled)
    (hl : y.isLeader = (s.side x).isLeader) (hpc : y.peerConnection = (s.side x).peerConnection)
    (hcr : y.creating = (s.side x).creating) (ha : y.answering = (s.side x).answering) :
    Inv P C sharedKey dilationSide (s.setSide x y) := by
  refine h.of_side x side_setSide_not ?_ ?_ ?_
  · rw [side_setSide]
    refine (h.own x).same hi (fun hn => ⟨fun hx => hn (hs.mpr hx), hh, ha⟩) hp hl hpc ?_
    rw [hcr, ho]
  · obtain ⟨queue, hints, hw⟩ := h.way x
    rw [side_setSide]
    exact ⟨queue, hints, hw.same hs ho rfl rfl rfl⟩
  · obtain ⟨queue, hints, hw⟩ := h.way_in x
    rw [side_setSide]
    exact ⟨queue, hints, hw.same Iff.rfl rfl hh hp hc⟩

/-- Side `x` sends one of its hints. -/
theorem Inv.send {s : St} (h : Inv P C sharedKey dilationSide s) {x : Bool} {y : Side}
    (hx : (s.side x).stage = .started) (nonce : Nonce) (m : Message) (hm : m.isPlease = false)
    (hi : y.state = (s.side x).state) (hs : y.stage = .started)
    (ho : y.offersSent = (s.side x).offersSent + [m].countP Message.isOffer)
    (hh : y.handling = (s.side x).handling)
    (hp : y.pleases = (s.side x).pleases) (hc : y.offersHandled = (s.side x).offersHandled)
    (hl : y.isLeader = (s.side x).isLeader) (hpc : y.peerConnection = (s.side x).peerConnection)
    (hcr : y.creating + y.offersSent = (s.side x).creating + (s.side x).offersSent) :
    Inv P C sharedKey dilationSide ((s.setSide x y).send x nonce m) := by
  unfold St.send
  rw [side_setSide, link_setSide]
  refine h.of_side x ?_ ?_ ?_ ?_
  · rw [side_setSide_not]
    exact side_setSide_not
  · rw [side_setSide]
    refine (h.own x).same (fun hid => ?_) (fun hn => absurd hs hn) hp hl hpc hcr
    rw [(h.own x).idle (hi ▸ hid)] at hx
    cases hx
  · obtain ⟨queue, hints, hw⟩ := h.way x
    rw [side_setSide, link_setSide, link_setLink]
    have hsend := hw.send hx y hs ⟨y.dilationPhase, nonce, m⟩ hm ho
    exact ⟨queue, hints ++ [m], hsend.same Iff.rfl rfl rfl rfl rfl⟩
  · obtain ⟨queue, hints, hw⟩ := h.way_in x
    rw [side_setSide, link_setSide, link_setLink_not]
    exact ⟨queue, hints, hw.same Iff.rfl rfl hh hp hc⟩

theorem Inv.derived {s : St} (h : Inv P C sharedKey dilationSide s) {x : Bool}
    (hx : (s.side x).stage = .deriving) (nonce : Nonce) :
    Inv P C sharedKey dilationSide ((s.setSide x { s.side x with stage := .started }).send x nonce
      (.please (dilationSide x))) := by
  have hn : (s.side x).stage ≠ .started := by
    rw [hx]
    exact nofun
  unfold St.send
  rw [side_setSide, link_setSide]
  refine h.of_side x ?_ ?_ ?_ ?_
  · rw [side_setSide_not]
    exact side_setSide_not
  · rw [side_setSide]
    refine (h.own x).same (fun hid => ?_) (fun hf => absurd rfl hf) rfl rfl rfl rfl
    rw [(h.own x).idle hid] at hx
    cases hx
  · obtain ⟨queue, hints, hw⟩ := h.way x
    rw [side_setSide, link_setSide, link_setLink]
    have hstart := hw.started hn { s.side x with stage := .started } rfl rfl
      (s.side x).dilationPhase nonce
    exact ⟨queue, hints, hstart.same Iff.rfl rfl rfl rfl rfl⟩
  · obtain ⟨queue, hints, hw⟩ := h.way_in x
    rw [side_setSide, link_setSide, link_setLink_not]
    exact ⟨queue, hints, hw.same Iff.rfl rfl rfl rfl rfl⟩

theorem Inv.deliver {s : St} (h : Inv P C sharedKey dilationSide s) {x : Bool} {id : String}
    {m : Sealed} {rest : List Sealed} (hl : s.link x = m :: rest)
    (hs : (s.side !x).stage = .started) (hid : id = "" ∨ id ∉ (s.side !x).pendingRequests)
    (hd : decode (ciphertext P C sharedKey m) = none) :
    Inv P C sharedKey dilationSide ((s.setLink x rest).setSide (!x) ((s.side !x).handleMessage id
      ("dilate-" ++ toString m.phase) (addBody (.binary (ciphertext P C sharedKey m))))) := by
  have hhandle : (s.side !x).handleMessage id ("dilate-" ++ toString m.phase)
      (addBody (.binary (ciphertext P C sharedKey m))) =
      { s.side !x with handling := (s.side !x).handling ++
        [decodeBody (addBody (.binary (ciphertext P C sharedKey m)))] } := by
    unfold Side.handleMessage
    rw [if_neg, if_pos ⟨hs, isDilation_phase m.phase⟩]
    intro hc
    rcases hid with hid | hid
    · exact hc.1 hid
    · exact hid hc.2
  rw [hhandle]
  refine h.of_side (!x) ?_ ?_ ?_ ?_
  · rw [side_setSide_not]
    rfl
  · rw [side_setSide]
    exact (h.own !x).same (h.own !x).idle (fun hf => absurd hs hf) rfl rfl rfl rfl
  · obtain ⟨queue, hints, hw⟩ := h.way !x
    rw [side_setSide, link_setSide, link_setLink_not]
    exact ⟨queue, hints, hw.same Iff.rfl rfl rfl rfl rfl⟩
  · obtain ⟨queue, hints, hw⟩ := h.way x
    rw [hl] at hw
    rw [side_setSide, link_setSide, Bool.not_not, link_setLink]
    exact ⟨queue ++ [m], hints, hw.deliver hd⟩

theorem Inv.handle {s : St} (h : Inv P C sharedKey dilationSide s) {x : Bool} {body : Body}
    {rest : List Body} (hx : (s.side x).handling = body :: rest) :
    Inv P C sharedKey dilationSide (s.setSide x (({ s.side x with
      handling := rest } : Side).process (dilationSide x) (readBody P C sharedKey body))) := by
  obtain ⟨queue, hints, hw⟩ := h.way_in x
  have hq := hw.handling
  rw [hx] at hq
  cases queue with
  | nil => cases hq
  | cons m queue =>
    obtain ⟨hbody, hrest⟩ := List.cons.inj hq
    have htail : rest = (s.side x).handling.tail := by rw [hx]; rfl
    rw [hbody, readBody_ciphertext, htail]
    have hz : ∃ z hints, z = ({ s.side x with handling := (s.side x).handling.tail } :
        Side).process (dilationSide x) (some m.message) ∧
        OnWay P C sharedKey (dilationSide !x) (s.side !x) z (s.link !x) queue hints ∧
        Local (dilationSide x) (dilationSide !x) z := by
      by_cases hp : (s.side x).pleases = 0
      · obtain ⟨z, hz⟩ := handle_please hw (h.own x) hp
        exact ⟨z, _, hz⟩
      · have hother := h.own !x
        rw [Bool.not_not] at hother
        obtain ⟨z, hz⟩ := handle_hints hw hother (h.own x) hp
        exact ⟨z, _, hz⟩
    obtain ⟨z, hints, hz, hway, hlocal⟩ := hz
    rw [← hz]
    have hkeep : (z.stage = .started ↔ (s.side x).stage = .started) ∧
        (z.offersSent = (s.side x).offersSent) := by
      rw [hz]
      cases m.message with
      | please side => exact ⟨Iff.rfl, rfl⟩
      | offer text =>
        unfold Side.process Side.handleHints
        dsimp only
        split
        · exact ⟨Iff.rfl, rfl⟩
        · split
          · exact ⟨Iff.rfl, rfl⟩
          · exact ⟨Iff.rfl, rfl⟩
      | answer text =>
        unfold Side.process Side.handleHints
        dsimp only
        split
        · exact ⟨Iff.rfl, rfl⟩
        · exact ⟨Iff.rfl, rfl⟩
    refine h.of_side x side_setSide_not ?_ ?_ ?_
    · rw [side_setSide]
      exact hlocal
    · obtain ⟨queue', hints', hw'⟩ := h.way x
      rw [side_setSide]
      exact ⟨queue', hints', hw'.same hkeep.1 hkeep.2 rfl rfl rfl⟩
    · rw [side_setSide]
      exact ⟨queue, hints, hway⟩

theorem inv_step {s t : St} {l : Lbl} (h : Inv P C sharedKey dilationSide s)
    (hmet : Met P C sharedKey s l) (hst : step P C sharedKey dilationSide s l = some t) :
    Inv P C sharedKey dilationSide t := by
  unfold step at hst
  split at hst
  · rename_i x
    split at hst
    · rename_i hi
      cases hst
      have hidle := (h.own x).idle hi
      refine h.edit nofun ⟨nofun, fun hs => ?_⟩ rfl rfl rfl rfl rfl rfl rfl rfl
      rw [hidle] at hs
      cases hs
    · cases hst
  · rename_i x nonce
    split at hst
    · rename_i hx
      cases hst
      exact h.derived hx nonce
    · cases hst
  · rename_i x id
    split at hst
    · rename_i m rest hl
      cases hst
      obtain ⟨hs, hid, hd⟩ := hmet x id rfl
      exact h.deliver hl hs hid (hd m (by rw [hl]; rfl))
    · cases hst
  · rename_i x
    split at hst
    · rename_i body rest hx
      cases hst
      exact h.handle hx
    · cases hst
  · rename_i x hints nonce
    split at hst
    · rename_i hc
      cases hst
      have hs : (s.side x).stage = .started := by
        by_contra hn
        have := ((h.own x).unasked ((h.own x).before hn).1).2.2.1
        omega
      refine h.send hs nonce (.offer hints) rfl rfl hs rfl rfl rfl rfl rfl rfl ?_
      show (s.side x).creating - 1 + ((s.side x).offersSent + 1) = _
      omega
    · cases hst
  · rename_i x hints nonce
    split at hst
    · rename_i ha
      cases hst
      have hs : (s.side x).stage = .started := by
        by_contra hn
        have := ((h.own x).before hn).2.2
        omega
      exact h.send hs nonce (.answer hints) rfl rfl hs rfl rfl rfl rfl rfl rfl rfl
    · cases hst
  · rename_i x id
    cases hst
    exact h.edit (h.own x).idle Iff.rfl rfl rfl rfl rfl rfl rfl rfl rfl
  · rename_i x id
    cases hst
    exact h.edit (h.own x).idle Iff.rfl rfl rfl rfl rfl rfl rfl rfl rfl

theorem inv_init : Inv P C sharedKey dilationSide init := by
  refine ⟨fun x => ⟨fun _ => rfl, fun _ => ⟨rfl, rfl, rfl⟩, fun _ => ⟨rfl, rfl, rfl, rfl⟩,
    fun h => absurd rfl h⟩, fun x => ⟨[], [], rfl, rfl, nofun, fun _ => ⟨rfl, rfl⟩, rfl⟩⟩

/-! ## The outcome -/

/-- Nothing that side `x` sent is on its way. -/
def St.quiet (s : St) (x : Bool) : Prop := s.link x = [] ∧ (s.side !x).handling = []

/-- The outcome does not depend on who was first: each side processes the
other's PLEASE once, the higher side leads and the other does not, the leader
makes one offer, and every offer is handled by the other side. -/
structure Negotiated (dilationSide : Bool → String) (s : St) : Prop where
  atMostOnce : ∀ x, (s.side x).pleases ≤ 1
  once : ∀ x, (s.side x).stage = .started → s.quiet x → (s.side !x).pleases = 1
  leader : ∀ x, (s.side x).pleases = 1 →
    (s.side x).isLeader = decide (dilationSide (!x) < dilationSide x)
  oneLeader : (s.side false).pleases = 1 → (s.side true).pleases = 1 →
    (s.side false).isLeader = !(s.side true).isLeader
  offered : ∀ x, (s.side x).isLeader = true → (s.side x).creating + (s.side x).offersSent = 1
  handled : ∀ x, s.quiet x → (s.side !x).offersHandled = (s.side x).offersSent

theorem negotiated_of_inv (hd : dilationSide false ≠ dilationSide true) {s : St}
    (h : Inv P C sharedKey dilationSide s) : Negotiated dilationSide s := by
  have hone : ∀ x, (s.side x).pleases ≤ 1 := by
    intro x
    by_cases hp : (s.side x).pleases = 0
    · omega
    · have := ((h.own x).asked hp).1
      omega
  have hlead : ∀ x, (s.side x).pleases = 1 →
      (s.side x).isLeader = decide (dilationSide (!x) < dilationSide x) :=
    fun x hp => ((h.own x).asked (by omega)).2.1
  have hquiet : ∀ x, s.quiet x → ∃ queue hints, OnWay P C sharedKey (dilationSide x) (s.side x)
      (s.side !x) [] queue hints ∧ pleaseOnWay (dilationSide x) (s.side x) (s.side !x) = [] ∧
      hints = [] := by
    intro x hq
    obtain ⟨queue, hints, hw⟩ := h.way x
    rw [hq.1] at hw
    have hqueue := hw.handling
    rw [hq.2] at hqueue
    have hnil : queue = [] := List.map_eq_nil_iff.mp hqueue.symm
    have hm := hw.messages
    rw [hnil] at hm
    obtain ⟨h1, h2⟩ := List.append_eq_nil_iff.mp hm.symm
    exact ⟨queue, hints, hw, h1, h2⟩
  refine ⟨hone, fun x hs hq => ?_, hlead, fun h0 h1 => ?_, fun x hl => ?_, fun x hq => ?_⟩
  · obtain ⟨queue, hints, hw, hnil, -⟩ := hquiet x hq
    have hp : (s.side !x).pleases ≠ 0 := by
      intro hp
      rw [pleaseOnWay_started hs hp] at hnil
      cases hnil
    have := hone !x
    omega
  · rw [hlead false h0, hlead true h1]
    show decide (dilationSide true < dilationSide false) =
      !decide (dilationSide false < dilationSide true)
    rcases lt_or_gt_of_ne hd with hlt | hgt
    · rw [decide_eq_true hlt, decide_eq_false (lt_asymm hlt)]
      rfl
    · rw [decide_eq_true hgt, decide_eq_false (lt_asymm hgt)]
      rfl
  · have hp : (s.side x).pleases ≠ 0 := by
      intro hp
      rw [((h.own x).unasked hp).1] at hl
      cases hl
    obtain ⟨-, hl', -, hsum⟩ := (h.own x).asked hp
    rw [hl] at hl'
    rw [hsum, if_pos (of_decide_eq_true hl'.symm)]
  · obtain ⟨queue, hints, hw, -, hnil⟩ := hquiet x hq
    have ho := hw.offers
    rw [hnil, List.countP_nil, Nat.zero_add] at ho
    exact ho

/-- **Who is first does not matter**, in every run in which each message finds
the other side's handler registered. -/
theorem negotiated_of_met (hd : dilationSide false ≠ dilationSide true) : ∀ s,
    ((lts P C sharedKey dilationSide).restrict (Met P C sharedKey)).Reachable s →
    Negotiated dilationSide s := by
  intro s hs
  have hI : Inv P C sharedKey dilationSide s := ?_
  · exact negotiated_of_inv hd hI
  refine LTS.Inductive.reachable ⟨fun s hs => ?_, fun s l t h hst => ?_⟩ s hs
  · cases hs
    exact inv_init
  · exact inv_step h hst.1 hst.2

end

/-! ## One side is late -/

/-- The text between `before` and `after`. -/
def between (before after text : List Char) : Option (List Char) :=
  if before.isPrefixOf text then
    some ((text.drop before.length).take (text.length - before.length - after.length))
  else none

theorem between_wrap (before after text : List Char) :
    between before after (before ++ (text ++ after)) = some text := by
  unfold between
  rw [if_pos (List.isPrefixOf_iff_prefix.mpr (List.prefix_append _ _)), List.drop_left]
  have hlen : (before ++ (text ++ after)).length - before.length - after.length =
      text.length := by
    rw [List.length_append, List.length_append]
    omega
  rw [hlen, List.take_left]

/-- No text that starts otherwise is between `before` and `after`. The two beginnings are given
with the characters they have. -/
theorem between_other {before other b o after text : List Char} (n : Nat) (hb : before = b)
    (ho : other = o) (h : n ≤ b.length ∧ n ≤ o.length ∧ b.take n ≠ o.take n) :
    between before after (other ++ text) = none := by
  obtain ⟨h1, h2, hne⟩ := h
  rw [hb, ho]
  unfold between
  refine if_neg fun hp => hne ?_
  obtain ⟨rest, hrest⟩ := List.isPrefixOf_iff_prefix.mp hp
  have := congrArg (List.take n) hrest
  rwa [List.take_append_of_le_length h1, List.take_append_of_le_length h2] at this

def pleaseBefore : List Char := "\x7b\"type\":\"please\",\"side\":\"".toList
def pleaseAfter : List Char := "\",\"use-version\":1\x7d".toList
def offerBefore : List Char :=
  "\x7b\"type\":\"connection-hints\",\"hints\":\x7b\"webrtc\":\x7b\"type\":\"offer\",".toList
def answerBefore : List Char :=
  "\x7b\"type\":\"connection-hints\",\"hints\":\x7b\"webrtc\":\x7b\"type\":\"answer\",".toList
def hintsAfter : List Char := "\x7d\x7d\x7d".toList

def parseText (text : String) : Option Message :=
  match between pleaseBefore pleaseAfter text.toList with
  | some side => some (.please (String.ofList side))
  | none =>
    match between offerBefore hintsAfter text.toList with
    | some hints => some (.offer (String.ofList hints))
    | none =>
      (between answerBefore hintsAfter text.toList).map fun hints =>
        .answer (String.ofList hints)

theorem parseText_please {cs side : List Char}
    (hplease : between pleaseBefore pleaseAfter cs = some side) :
    parseText (String.ofList cs) = some (.please (String.ofList side)) := by
  unfold parseText
  rw [String.toList_ofList, hplease]

theorem parseText_offer {cs hints : List Char}
    (hplease : between pleaseBefore pleaseAfter cs = none)
    (hoffer : between offerBefore hintsAfter cs = some hints) :
    parseText (String.ofList cs) = some (.offer (String.ofList hints)) := by
  unfold parseText
  rw [String.toList_ofList, hplease, hoffer]

theorem parseText_answer {cs hints : List Char}
    (hplease : between pleaseBefore pleaseAfter cs = none)
    (hoffer : between offerBefore hintsAfter cs = none)
    (hanswer : between answerBefore hintsAfter cs = some hints) :
    parseText (String.ofList cs) = some (.answer (String.ofList hints)) := by
  unfold parseText
  rw [String.toList_ofList, hplease, hoffer, hanswer]
  rfl

/-- JSON for strings that need no escape. -/
def plainCodec : Codec where
  stringify
    | .please side => String.ofList (pleaseBefore ++ (side.toList ++ pleaseAfter))
    | .offer hints => String.ofList (offerBefore ++ (hints.toList ++ hintsAfter))
    | .answer hints => String.ofList (answerBefore ++ (hints.toList ++ hintsAfter))
  parse bytes := (decode bytes).bind parseText
  parseText := parseText
  parse_stringify m := by
    rw [decode_encode, Option.bind_some]
    cases m with
    | please side =>
      rw [parseText_please (between_wrap _ _ _), String.ofList_toList]
    | offer hints =>
      have hplease : between pleaseBefore pleaseAfter
          (offerBefore ++ (hints.toList ++ hintsAfter)) = none :=
        between_other 10 String.toList_ofList String.toList_ofList (by decide)
      rw [parseText_offer hplease (between_wrap _ _ _), String.ofList_toList]
    | answer hints =>
      have hplease : between pleaseBefore pleaseAfter
          (answerBefore ++ (hints.toList ++ hintsAfter)) = none :=
        between_other 10 String.toList_ofList String.toList_ofList (by decide)
      have hoffer : between offerBefore hintsAfter
          (answerBefore ++ (hints.toList ++ hintsAfter)) = none :=
        between_other 55 String.toList_ofList String.toList_ofList (by decide)
      rw [parseText_answer hplease hoffer (between_wrap _ _ _), String.ofList_toList]

def twoSides : Bool → String
  | false => "3f2a91c07d5e8b46"
  | true => "c8d17e02a94b35f6"

def zeroNonce : Nonce := ⟨List.replicate 24 0, List.length_replicate⟩

/-- `Met`, as a test. -/
def metCheck (s : St) : Lbl → Bool
  | .deliver x id =>
    (s.side !x).stage == .started &&
      (id == "" || decide (id ∉ (s.side !x).pendingRequests)) &&
      ((s.link x).head?.all fun m => (decode (ciphertext .plain plainCodec [7] m)).isNone)
  | _ => true

theorem met_of_check (s : St) (l : Lbl) (h : metCheck s l = true) :
    Met .plain plainCodec [7] s l := by
  intro x id hl
  rw [hl] at h
  unfold metCheck at h
  simp only [Bool.and_eq_true, Bool.or_eq_true, beq_iff_eq, decide_eq_true_eq] at h
  obtain ⟨⟨hs, hid⟩, hd⟩ := h
  refine ⟨hs, hid, fun m hm => ?_⟩
  rw [hm] at hd
  exact Option.isNone_iff_eq_none.mp hd

/-- Both have registered their handlers when the first PLEASE arrives. -/
def together : List Lbl :=
  [.dilate false, .dilate true, .derived false zeroNonce, .derived true zeroNonce,
    .deliver false "m1", .deliver true "m2", .handle true, .handle false]

theorem together_negotiated : Negotiated twoSides (LTS.after (LTS.checked metCheck
    (step .plain plainCodec [7] twoSides)) init together) :=
  negotiated_of_met (P := .plain) (C := plainCodec) (by decide) _
    (LTS.restrict_reachable_of_exec rfl met_of_check
      (LTS.exec_after (by decide +kernel)))

/-- The first PLEASE arrives before the other side has called `dilate`. -/
def late : List Lbl :=
  [.dilate false, .derived false zeroNonce, .deliver false "m1", .dilate true,
    .derived true zeroNonce, .deliver true "m2", .handle false]

/-- The PLEASE that is not. -/
def heard : Sealed := ⟨0, zeroNonce, .please (twoSides true)⟩

/-- Before it is read. -/
def unread : St := LTS.after (step .plain plainCodec [7] twoSides) init (late.take 6)

theorem unread_handling : (unread.side false).handling =
    [decodeBody (addBody (.binary (ciphertext .plain plainCodec [7] heard)))] := rfl

theorem readBody_heard : readBody .plain plainCodec [7]
    (decodeBody (addBody (.binary (ciphertext .plain plainCodec [7] heard)))) =
      some heard.message := by
  rw [decodeBody_ciphertext (by decide +kernel), readBody_ciphertext]

def lateSettled : St := unread.setSide false
  ({ unread.side false with handling := [] }.process (twoSides false) (some heard.message))

theorem late_run : (lts .plain plainCodec [7] twoSides).Reachable lateSettled := by
  have hbefore : (lts .plain plainCodec [7] twoSides).Run init (late.take 6) unread :=
    LTS.run_of_exec (LTS.exec_after (by decide +kernel))
  have hlast : step .plain plainCodec [7] twoSides unread (.handle false) = some lateSettled := by
    unfold step
    dsimp only
    rw [unread_handling]
    dsimp only
    rw [readBody_heard]
    rfl
  exact ⟨init, _, rfl, hbefore.append (.single hlast)⟩

/-- **A PLEASE is lost.** Everything that was sent has been delivered and
processed, and nothing more will be sent; but one side has not seen a PLEASE,
and neither leads. -/
theorem early_please_lost : ∃ s, (lts .plain plainCodec [7] twoSides).Reachable s ∧
    (∀ x, (s.side x).stage = .started ∧ (s.side x).creating = 0 ∧ (s.side x).answering = 0 ∧
      s.quiet x) ∧
    (s.side true).pleases = 0 ∧ (s.side false).pleases = 1 ∧
    (s.side false).isLeader = false ∧ (s.side true).isLeader = false := by
  have hcounts : (lateSettled.side true).pleases = 0 ∧ (lateSettled.side false).pleases = 1 ∧
      (lateSettled.side false).isLeader = false ∧ (lateSettled.side true).isLeader = false := by
    decide +kernel
  have hidle : ∀ x, (lateSettled.side x).stage = .started ∧ (lateSettled.side x).creating = 0 ∧
      (lateSettled.side x).answering = 0 := by
    decide +kernel
  refine ⟨lateSettled, late_run, fun x => ?_, hcounts⟩
  obtain ⟨hstage, hcreating, hanswering⟩ := hidle x
  refine ⟨hstage, hcreating, hanswering, ?_⟩
  cases x with
  | false => exact ⟨rfl, rfl⟩
  | true => exact ⟨rfl, rfl⟩

end Wormhole.L5.DilationNegotiation
