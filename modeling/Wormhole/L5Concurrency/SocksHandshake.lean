import Wormhole.Core.ShortReads
import Wormhole.L1Encoding.PyBytes
import Mathlib.Algebra.GroupWithZero.Nat

/-!
# The SOCKS5 handshake and TCP segments

`Socks5Server._handle_client` of `src/wh/cli/proxy.py`, up to the success reply: seven reads,
each of which returns what is in the stream reader's buffer, up to the number asked for.
Segments arrive at any time, and the handler gets to its next read at any time; no timeout
fires. What `proxy_proto.connect` answers depends on the host and the port.

* `same_of_inTime`: when every field has arrived whole, or not at all, by the time it is
  read, the same is sent as for one segment.
* `segments_iff`: a way of cutting is harmless for all requests of a shape only then.
-/
namespace Wormhole.L5.SocksHandshake
open Wormhole.L1 Wormhole.ShortReads

/-! ## Addresses as text -/

def dotted (b : Bytes) : String := ".".intercalate (b.map fun x => toString x.toNat)

/-- `socket.inet_ntoa` -/
def inetNtoa (b : Bytes) : Option String := if b.length = 4 then some (dotted b) else none

def words : Bytes → List Nat
  | hi :: lo :: bs => (hi.toNat * 256 + lo.toNat) :: words bs
  | _ => []

def zeroRun (ws : List Nat) : Nat := (ws.takeWhile (· = 0)).length

/-- The first of the longest runs of zero words: where it begins and how long it is. A run of
one does not count. -/
def bestRun (ws : List Nat) : Nat × Nat :=
  (List.range 8).foldl
    (fun best i => if best.2 < zeroRun (ws.drop i) then (i, zeroRun (ws.drop i)) else best) (8, 1)

/-- The loop of `inet_ntop`, from a word on. An IPv4 address in the last two words is written
with dots. -/
def ntopWords (best : Nat × Nat) (mapped : Bool) (last : String) : Nat → List Nat → String
  | _, [] => if best.1 + best.2 = 8 then ":" else ""
  | i, w :: ws =>
    if best.1 ≤ i ∧ i < best.1 + best.2 then
      (if i = best.1 then ":" else "") ++ ntopWords best mapped last (i + 1) ws
    else if i = 6 ∧ mapped then ":" ++ last
    else (if i = 0 then "" else ":") ++ String.ofList (Nat.toDigits 16 w) ++
      ntopWords best mapped last (i + 1) ws

/-- `socket.inet_ntop(socket.AF_INET6, b)` -/
def inetNtop6 (b : Bytes) : Option String :=
  if b.length = 16 then
    let best := bestRun (words b)
    let mapped := best.1 = 0 ∧ (best.2 = 6 ∨ (best.2 = 5 ∧ (words b)[5]? = some 0xffff))
    some (ntopWords best mapped (dotted (b.drop 12)) 0 (words b))
  else none

/-! ## The handler -/

/-- What the handler does that can be seen. -/
inductive Event
  | reply (bytes : Bytes)
  | connect (host : String) (port : Nat)
  deriving DecidableEq, Repr

/-- What becomes of `proxy_proto.connect`. -/
inductive Answer
  | channel
  | refused
  | raised
  deriving DecidableEq, Repr

/-- A reply with its code and its address. -/
def reply (rep : UInt8) (addr : Bytes) : Event := .reply ([5, rep, 0, 1] ++ addr ++ [0, 0])

variable (answer : String → Nat → Answer)

/-- mirrors src/wh/cli/proxy.py:318-331 -/
def connectTo (host : String) (port : Nat) : List Event :=
  match answer host port with
  | .refused => [.connect host port, reply 4 [0, 0, 0, 0]]
  | .channel => [.connect host port, reply 0 [127, 0, 0, 1]]
  | .raised => [.connect host port]

/-- mirrors src/wh/cli/proxy.py:313-316 -/
def readPort (host : String) : Reader UInt8 Event :=
  .read [] 2 fun portData =>
    if portData.length = 2 then .stop (connectTo answer host (unpack portData)) else .stop []

/-- The host, or an exception. -/
def withHost : Option String → Reader UInt8 Event
  | some host => readPort answer host
  | none => .stop []

/-- mirrors src/wh/cli/proxy.py:297-311 -/
def readAddress (atyp : UInt8) : Reader UInt8 Event :=
  if atyp = 1 then .read [] 4 fun addrData => withHost answer (inetNtoa addrData)
  else if atyp = 3 then
    .read [] 1 fun data =>
      match data with
      | length :: _ => .read [] length.toNat fun name => withHost answer (decode name)
      | [] => .stop []
  else if atyp = 4 then .read [] 16 fun addrData => withHost answer (inetNtop6 addrData)
  else .stop [reply 8 [0, 0, 0, 0]]

/-- mirrors src/wh/cli/proxy.py:282-295 -/
def readRequest : Reader UInt8 Event :=
  .read [.reply [5, 0]] 4 fun data =>
    match data with
    | [_, cmd, _, atyp] =>
      if cmd ≠ 1 then .stop [reply 7 [0, 0, 0, 0]] else readAddress answer atyp
    | _ => .stop []

/-- mirrors src/wh/cli/proxy.py:270-280 -/
def readMethods (nmethods : UInt8) : Reader UInt8 Event :=
  .read [] nmethods.toNat fun methods =>
    if 0 ∈ methods then readRequest answer else .stop [.reply [5, 0xFF]]

/-- mirrors src/wh/cli/proxy.py:252-268 -/
def handleClient : Reader UInt8 Event :=
  .read [] 2 fun data =>
    match data with
    | [version, nmethods] => if version ≠ 5 then .stop [] else readMethods answer nmethods
    | _ => .stop []

/-! ## Requests -/

inductive Address
  | ipv4 (bytes : Bytes) (h : bytes.length = 4)
  | domain (name : String) (h : (encode name).length < 256)
  | ipv6 (bytes : Bytes) (h : bytes.length = 16)

/-- A greeting and a CONNECT request. -/
structure Request where
  methods : Bytes
  methods_lt : methods.length < 256
  address : Address
  port : Nat
  port_lt : port < 2 ^ 16

def Address.atyp : Address → UInt8
  | .ipv4 .. => 1
  | .domain .. => 3
  | .ipv6 .. => 4

def Address.wire : Address → Bytes
  | .ipv4 bytes _ => bytes
  | .domain name _ => UInt8.ofNat (encode name).length :: encode name
  | .ipv6 bytes _ => bytes

/-- What the client sends. -/
def Request.wire (r : Request) : Bytes :=
  [5, UInt8.ofNat r.methods.length] ++ (r.methods ++ ([5, 1, 0, r.address.atyp] ++
    (r.address.wire ++ beBytes 2 r.port)))

/-- The handler at the beginning of a request. -/
def start (r : Request) : Conn UInt8 Event := ⟨[], handleClient answer, [], r.wire⟩

/-- The replies and the connections asked for. -/
def seen (l : List Event) : List Bytes × List (String × Nat) :=
  (l.filterMap fun | .reply bytes => some bytes | .connect .. => none,
    l.filterMap fun | .reply _ => none | .connect host port => some (host, port))

/-- The same replies and the same connections as when all comes in one segment. -/
def Same (r : Request) (evs : List Ev) : Prop :=
  seen ((start answer r).run evs).finish =
    seen ((start answer r).run [.arrive r.wire.length]).finish

/-- The sizes of an address, as it is read. -/
inductive Kind
  | ipv4
  | domain (length : Nat)
  | ipv6
  deriving DecidableEq, Repr

def Address.kind : Address → Kind
  | .ipv4 .. => .ipv4
  | .domain name _ => .domain (encode name).length
  | .ipv6 .. => .ipv6

def Kind.fields : Kind → List Nat
  | .ipv4 => [4]
  | .domain length => [1, length]
  | .ipv6 => [16]

/-- What the segmentation can depend on. -/
structure Shape where
  methods : Nat
  noAuth : Bool
  address : Kind
  deriving DecidableEq, Repr

def Request.shape (r : Request) : Shape := ⟨r.methods.length, 0 ∈ r.methods, r.address.kind⟩

/-- The fields that matter. Without the method that the server selects the rest does not. -/
def Shape.fields (s : Shape) : List Nat :=
  if s.noAuth then [2, s.methods, 4] ++ (s.address.fields ++ [2]) else [2]

/-! ## What is seen -/

theorem seen_append (a b : List Event) :
    seen (a ++ b) = ((seen a).1 ++ (seen b).1, (seen a).2 ++ (seen b).2) := by
  simp only [seen, List.filterMap_append]

theorem cancels_seen : Cancels seen := by
  intro a b c h
  rw [seen_append, seen_append] at h
  obtain ⟨h1, h2⟩ := Prod.mk.inj h
  exact Prod.ext (List.append_cancel_left h1) (List.append_cancel_left h2)

/-- The host is asked for once. -/
theorem asked_connectTo (host : String) (port : Nat) :
    (seen (connectTo answer host port)).2 = [(host, port)] := by
  unfold connectTo
  split <;> rfl

/-! ## The reads, from the last to the first -/

variable (P : Prop)

/-- What is sent for the whole of a stream, and the reads that matter for it. -/
structure Reads (r : Reader UInt8 Event) (s : Bytes) (out : List Event) (ws : List Nat) :
    Prop where
  whole : r.whole s = out
  decides : Decides seen P r s ws

theorem emits_stop {out l : List Event} (h : Emits (.stop out : Reader UInt8 Event) l) :
    l = out := by
  cases h
  rfl

/-- A short read that ends it all asks for nothing. -/
theorem seen_ne_of_stop {l : List Event} {host : String} {port : Nat}
    (h : Emits (.stop [] : Reader UInt8 Event) l) : seen l ≠ seen (connectTo answer host port) := by
  intro hseen
  have hasked := congrArg Prod.snd hseen
  rw [emits_stop h, asked_connectTo] at hasked
  cases hasked

theorem reads_port (host : String) {port : Nat} (hp : port < 2 ^ 16) :
    Reads P (readPort answer host) (beBytes 2 port) (connectTo answer host port) [2] := by
  have hlen : (beBytes 2 port).length = 2 := length_beBytes 2 port
  have hunpack : unpack (beBytes 2 port) = port := by
    rw [unpack_beBytes]
    exact Nat.mod_eq_of_lt hp
  have hfull : (if (beBytes 2 port).length = 2 then
        Reader.stop (connectTo answer host (unpack (beBytes 2 port))) else .stop [] :
      Reader UInt8 Event) = .stop (connectTo answer host port) := by
    rw [if_pos hlen, hunpack]
  rw [← List.append_nil (beBytes 2 port), readPort]
  constructor
  · rw [whole_field hlen, hfull]
    rfl
  · apply Decides.field hlen
    · rw [hfull]
      exact .settled (settled_stop _ _)
    · intro _ e _ _ hlt l hl
      rw [if_neg (Nat.ne_of_lt hlt)] at hl
      rw [hfull]
      exact seen_ne_of_stop answer hl

/-- Only the host that was read is asked for. -/
theorem asked_readPort {host : String} {l : List Event} (h : Emits (readPort answer host) l) :
    (seen l).2 = [] ∨ ∃ port, (seen l).2 = [(host, port)] := by
  cases h with
  | wait => exact .inl rfl
  | read _ h =>
    beta_reduce at h
    split at h
    · rw [emits_stop h, List.nil_append]
      exact .inr ⟨_, asked_connectTo answer host _⟩
    · rw [emits_stop h]
      exact .inl rfl

/-- A field that gives the host: less of it gives another one, or none. -/
theorem reads_host {f : Bytes → Option String} {d : Bytes} {host : String} {port n : Nat}
    (hp : port < 2 ^ 16) (hd : d.length = n) (hf : f d = some host)
    (hshort : ∀ e, e.length < n → f e ≠ some host) :
    Reads P (.read [] n fun e => withHost answer (f e)) (d ++ beBytes 2 port)
      (connectTo answer host port) [n, 2] := by
  have hport := reads_port answer P host hp
  have hfull : withHost answer (f d) = readPort answer host := by rw [hf, withHost]
  constructor
  · rw [whole_field hd, hfull, hport.whole, List.nil_append]
  · apply Decides.field hd
    · rw [hfull]
      exact hport.decides
    · intro _ e _ _ hlt l hl
      rw [hfull, hport.whole]
      cases hfe : f e with
      | none =>
        rw [hfe, withHost] at hl
        exact seen_ne_of_stop answer hl
      | some other =>
        rw [hfe, withHost] at hl
        intro hseen
        rcases asked_readPort answer hl with hnone | ⟨p, hone⟩
        · rw [hseen, asked_connectTo] at hnone
          cases hnone
        · rw [hseen, asked_connectTo] at hone
          cases hone
          exact hshort e hlt hfe

def Address.host : Address → String
  | .ipv4 bytes _ => dotted bytes
  | .domain name _ => name
  | .ipv6 bytes _ => (inetNtop6 bytes).getD ""

theorem length_inetNtop6 {b : Bytes} (h : b.length = 16) :
    inetNtop6 b = some ((inetNtop6 b).getD "") := by
  rw [inetNtop6, if_pos h]
  rfl

/-- The length of a name comes whole, and says how much of it is read. -/
theorem reads_domain (name : String) (h : (encode name).length < 256) {port : Nat}
    (hp : port < 2 ^ 16) :
    Reads P (readAddress answer 3)
      (UInt8.ofNat (encode name).length :: encode name ++ beBytes 2 port)
      (connectTo answer name port) ([1, (encode name).length] ++ [2]) := by
  have hlength : (UInt8.ofNat (encode name).length).toNat = (encode name).length := by
    rw [UInt8.toNat_ofNat']
    exact Nat.mod_eq_of_lt h
  have hname := reads_host answer P hp rfl (decode_encode name) (by
    intro e hlt he
    rw [decode_eq_some.mp he] at hlt
    exact absurd hlt (Nat.lt_irrefl _))
  have hread : Reads P (.read [] (UInt8.ofNat (encode name).length).toNat fun e =>
      withHost answer (decode e)) (encode name ++ beBytes 2 port) (connectTo answer name port)
      [(encode name).length, 2] := by
    rw [hlength]
    exact hname
  have hone : [UInt8.ofNat (encode name).length].length = 1 := rfl
  rw [List.cons_append, ← List.singleton_append]
  constructor
  · rw [readAddress, if_neg (by decide), if_pos rfl, whole_field hone]
    exact hread.whole
  · rw [readAddress, if_neg (by decide), if_pos rfl]
    apply Decides.field hone
    · exact hread.decides
    · intro _ e _ hne hlt
      exact absurd (List.length_pos_iff.mpr hne) (by omega)

theorem reads_address (a : Address) {port : Nat} (hp : port < 2 ^ 16) :
    Reads P (readAddress answer a.atyp) (a.wire ++ beBytes 2 port)
      (connectTo answer a.host port) (a.kind.fields ++ [2]) := by
  cases a with
  | ipv4 bytes h =>
    apply reads_host answer P hp h (if_pos h)
    intro e hlt
    rw [inetNtoa, if_neg (Nat.ne_of_lt hlt)]
    exact Option.some_ne_none _ ∘ Eq.symm
  | domain name h => exact reads_domain answer P name h hp
  | ipv6 bytes h =>
    apply reads_host answer P hp h (length_inetNtop6 h)
    intro e hlt
    rw [inetNtop6, if_neg (Nat.ne_of_lt hlt)]
    exact Option.some_ne_none _ ∘ Eq.symm

/-- The request with its address. -/
theorem reads_request (a : Address) {port : Nat} (hp : port < 2 ^ 16) :
    Reads P (readRequest answer) ([5, 1, 0, a.atyp] ++ (a.wire ++ beBytes 2 port))
      (.reply [5, 0] :: connectTo answer a.host port) (4 :: (a.kind.fields ++ [2])) := by
  have haddr := reads_address answer P a hp
  have hfour : ([5, 1, 0, a.atyp] : Bytes).length = 4 := rfl
  constructor
  · rw [readRequest, whole_field hfour]
    show [Event.reply [5, 0]] ++ (readAddress answer a.atyp).whole _ = _
    rw [haddr.whole]
    rfl
  · apply Decides.field hfour
    · exact haddr.decides
    · intro _ e _ _ hlt l hl
      show seen l ≠ seen ((readAddress answer a.atyp).whole _)
      rw [haddr.whole]
      apply seen_ne_of_stop answer
      match e, hlt, hl with
      | [], _, hl => exact hl
      | [_], _, hl => exact hl
      | [_, _], _, hl => exact hl
      | [_, _, _], _, hl => exact hl

/-- The methods, with the one that is selected among them. Less of them may do; it does not
where that method is the last. -/
theorem reads_methods {methods : Bytes} (hlt : methods.length < 256) (hauth : 0 ∈ methods)
    (a : Address) {port : Nat} (hp : port < 2 ^ 16) :
    Reads (0 ∉ methods.dropLast) (readMethods answer (UInt8.ofNat methods.length))
      (methods ++ ([5, 1, 0, a.atyp] ++ (a.wire ++ beBytes 2 port)))
      (.reply [5, 0] :: connectTo answer a.host port)
      (methods.length :: 4 :: (a.kind.fields ++ [2])) := by
  have hreq := reads_request answer (0 ∉ methods.dropLast) a hp
  have hlength : (UInt8.ofNat methods.length).toNat = methods.length := by
    rw [UInt8.toNat_ofNat']
    exact Nat.mod_eq_of_lt hlt
  have hfull : (if 0 ∈ methods then readRequest answer else .stop [.reply [5, 0xFF]]) =
      readRequest answer := if_pos hauth
  rw [readMethods, hlength]
  constructor
  · rw [whole_field rfl, hfull, hreq.whole, List.nil_append]
  · apply Decides.field rfl
    · rw [hfull]
      exact hreq.decides
    · intro hlast e he _ hcut l hl
      have hnone : 0 ∉ e := fun hm => hlast (by
        rw [List.dropLast_eq_take]
        exact (List.prefix_take_iff.mpr ⟨he, by omega⟩).subset hm)
      rw [if_neg hnone] at hl
      rw [hfull, hreq.whole, emits_stop hl]
      intro hseen
      have hreplies := congrArg Prod.fst hseen
      simp [seen] at hreplies

/-- Half a greeting is not answered. -/
theorem decides_greeting {P : Prop} {n : UInt8} {rest : Bytes} {ws : List Nat}
    (h : Decides seen P (readMethods answer n) rest ws)
    (hreply : (seen ((readMethods answer n).whole rest)).1 ≠ []) :
    Decides seen P (handleClient answer) ([5, n] ++ rest) (2 :: ws) := by
  apply Decides.field (d := [5, n]) rfl
  · exact h
  · intro _ e _ _ hlt l hl hseen
    have hnil : l = [] := by
      match e, hlt, hl with
      | [], _, hl => exact emits_stop hl
      | [_], _, hl => exact emits_stop hl
    rw [hnil] at hseen
    exact hreply (congrArg Prod.fst hseen).symm

/-! ## Segments -/

/-- The fields of a request, with the selected method among the methods. -/
theorem decides_selected (r : Request) (hauth : 0 ∈ r.methods) :
    Decides seen (0 ∉ r.methods.dropLast) (handleClient answer) r.wire r.shape.fields := by
  have hmethods := reads_methods answer r.methods_lt hauth r.address r.port_lt
  have hfields : r.shape.fields =
      2 :: r.methods.length :: 4 :: (r.address.kind.fields ++ [2]) := by
    rw [Shape.fields, if_pos (by simpa [Request.shape] using hauth)]
    rfl
  rw [hfields, Request.wire]
  apply decides_greeting answer hmethods.decides
  rw [hmethods.whole]
  exact List.cons_ne_nil _ _

/-- Without it, only the first field matters. -/
theorem decides_unselected (P : Prop) (r : Request) (hauth : 0 ∉ r.methods) :
    Decides seen P (handleClient answer) r.wire r.shape.fields := by
  have hfields : r.shape.fields = [2] := by
    rw [Shape.fields, if_neg (by simpa [Request.shape] using hauth)]
  have hlength : (UInt8.ofNat r.methods.length).toNat = r.methods.length := by
    rw [UInt8.toNat_ofNat']
    exact Nat.mod_eq_of_lt r.methods_lt
  rw [hfields, Request.wire]
  apply decides_greeting answer
  · apply Decides.settled
    apply settled_read
    intro d hd hle
    rw [hlength] at hle
    have hpre : d <+: r.methods :=
      List.prefix_of_prefix_length_le hd (List.prefix_append _ _) hle
    exact if_neg fun hm => hauth (hpre.subset hm)
  · rw [readMethods, hlength, whole_field rfl, if_neg hauth]
    exact List.cons_ne_nil _ _

theorem decides_client (r : Request) :
    Decides seen (0 ∉ r.methods.dropLast) (handleClient answer) r.wire r.shape.fields := by
  by_cases hauth : 0 ∈ r.methods
  · exact decides_selected answer r hauth
  · exact decides_unselected answer _ r hauth

theorem same_iff_finish (r : Request) (evs : List Ev) :
    Same answer r evs ↔
      seen ((start answer r).run evs).finish = seen (start answer r).finish := by
  have hone : ((start answer r).run [.arrive r.wire.length]).finish = (start answer r).finish :=
    finish_arrive _ _
  rw [Same, hone]

/-- **The same** for every request whose fields are read in time. -/
theorem same_of_inTime (r : Request) (evs : List Ev)
    (h : InTime r.shape.fields 0 r.wire.length evs) : Same answer r evs := by
  rw [same_iff_finish]
  exact congrArg seen
    ((decides_client answer r).unchanged (c := start answer r) rfl rfl h)

/-- **Only then**, where the method that is selected comes last. -/
theorem inTime_of_same (r : Request) (hlast : 0 ∉ r.methods.dropLast) (evs : List Ev)
    (h : Same answer r evs) : InTime r.shape.fields 0 r.wire.length evs := by
  rw [same_iff_finish] at h
  exact (decides_client answer r).inTime cancels_seen hlast (c := start answer r) rfl rfl h

theorem length_address (a : Address) : a.wire.length = a.kind.fields.sum := by
  cases a with
  | ipv4 bytes h => exact h
  | domain name h => simp [Address.wire, Address.kind, Kind.fields, Nat.add_comm]
  | ipv6 bytes h => exact h

theorem length_wire (r : Request) :
    r.wire.length = r.shape.methods + r.shape.address.fields.sum + 8 := by
  simp only [Request.wire, Request.shape, List.length_append, length_beBytes, length_address,
    List.length_cons, List.length_nil]
  omega

/-- Every shape has a request whose selected method comes last. -/
theorem exists_last (r : Request) :
    ∃ r' : Request, r'.shape = r.shape ∧ 0 ∉ r'.methods.dropLast := by
  by_cases hauth : 0 ∈ r.methods
  · have hpos := List.length_pos_of_mem hauth
    have hlt := r.methods_lt
    have hlen : (List.replicate (r.methods.length - 1) (2 : UInt8) ++ [0]).length =
        r.methods.length := by
      rw [List.length_append, List.length_replicate, List.length_singleton]
      omega
    refine ⟨{ r with methods := _, methods_lt := hlen.trans_lt hlt }, ?_, ?_⟩
    · simp only [Request.shape, hlen, hauth]
      simp
    · rw [List.dropLast_concat]
      exact fun hm => absurd (List.eq_of_mem_replicate hm) (by decide)
  · exact ⟨r, rfl, fun hm => hauth (List.dropLast_subset _ hm)⟩

/-- **When segments make no difference.** A way in which the bytes arrive and the handler
gets to read leaves the replies and the connections of every request of a shape as they are
when all comes in one segment, if and only if no field that matters comes up short. -/
theorem segments_iff (r : Request) (evs : List Ev) :
    (∀ r' : Request, r'.shape = r.shape → Same answer r' evs) ↔
      InTime r.shape.fields 0 r.wire.length evs := by
  constructor
  · intro h
    obtain ⟨r', hshape, hlast⟩ := exists_last r
    have ht := inTime_of_same answer r' hlast evs (h r' hshape)
    rwa [length_wire, hshape, ← length_wire] at ht
  · intro h r' hshape
    apply same_of_inTime
    rwa [length_wire, hshape, ← length_wire]

/-! ## A name cut in two -/

/-- `CONNECT google.com:80` with one method. -/
def google : Request where
  methods := [0]
  methods_lt := by decide
  address := .domain "google.com" (by decide)
  port := 80
  port_lt := by decide

/-- The first segment ends after `goo`. The handler then reads on to the end. -/
def cutName : List Ev :=
  [.arrive 11, .turn, .turn, .turn, .turn, .turn, .arrive 9, .turn]

/-- Three segments that end where fields end. -/
example : Same answer google
    [.arrive 3, .turn, .turn, .turn, .arrive 5, .turn, .turn, .arrive 12, .turn, .turn] :=
  same_of_inTime answer google _ (by decide)

/-- **Another host is asked for**: `goo`, at the port that the next two bytes spell. -/
theorem cut_name_misread : ¬ ∀ (r : Request) (evs : List Ev),
    Same (fun _ _ => .channel) r evs := by
  intro h
  have hsame := h google cutName
  revert hsame
  unfold Same
  decide +kernel

end Wormhole.L5.SocksHandshake
