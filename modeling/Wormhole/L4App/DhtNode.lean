import Wormhole.L1Encoding.Bencode

/-!
# A DHT node

`SimpleDHTNode` of `src/wh/wns/dht.py`: its tables, its queries, and what it
does with a message.

A query is a coroutine of `_query`, from the message it hands to `_send` to
what it returns; the future it waits for stands in `pending` under the
transaction id. `handleMessage` runs without interruption up to the `_send` of
a response, after which it touches nothing.

An address is that of an IPv4 socket. Its host is kept as the four bytes that
`socket.inet_aton` makes of the text, and `socket.inet_ntoa` makes it of.
-/
namespace Wormhole.L4.Dht
open Wormhole.L1 Wormhole.L1.Bencode

structure Ip where
  a : UInt8
  b : UInt8
  c : UInt8
  d : UInt8
  deriving DecidableEq, Repr

structure Addr where
  ip : Ip
  port : Nat
  deriving DecidableEq, Repr

def Ip.aton (ip : Ip) : Bytes := [ip.a, ip.b, ip.c, ip.d]

def Ip.ntoa : Bytes → Option Ip
  | [a, b, c, d] => some ⟨a, b, c, d⟩
  | _ => none

/-! ## State -/

abbrev QueryId := Nat

/-- An `asyncio.Future`; `wait_for` cancels it too when it times out. -/
inductive Future
  | pending
  | result (v : Value)
  | timedOut
  | cancelled

/-- Where a `_query` is: in `_send`, in `wait_for`, or through. -/
inductive Stage
  | sending
  | waiting
  | returned (r : Option Value)
  | raised

structure Query where
  addr : Addr
  tid : Bytes
  future : Future
  stage : Stage

/-- A member of the set under an info hash: `(addr[0], port)`, whatever `port` is. -/
abbrev Announced := Ip × Bencode.Key

/-- mirrors src/wh/wns/dht.py:521-536. `out` is what `sock_sendto` took, in
order. A set has its members in the order of insertion. -/
structure Node where
  nodeId : Bytes
  token : Bytes
  running : Bool
  routingTable : Dict Bencode.Key Addr
  announced : Dict Bencode.Key (List Announced)
  nextTid : Nat
  pending : Dict Bytes QueryId
  query : QueryId → Option Query
  out : List (Bytes × Addr)

def Node.init (nodeId token : Bytes) : Node :=
  ⟨nodeId, token, true, .empty, .empty, 0, .empty, fun _ => none, []⟩

def Node.setQuery (n : Node) (i : QueryId) (q : Query) : Node :=
  { n with query := fun j => if j = i then some q else n.query j }

@[simp] theorem setQuery_query (n : Node) (i j : QueryId) (q : Query) :
    (n.setQuery i q).query j = if j = i then some q else n.query j := rfl
@[simp] theorem setQuery_pending (n : Node) (i : QueryId) (q : Query) :
    (n.setQuery i q).pending = n.pending := rfl
@[simp] theorem setQuery_routingTable (n : Node) (i : QueryId) (q : Query) :
    (n.setQuery i q).routingTable = n.routingTable := rfl
@[simp] theorem setQuery_announced (n : Node) (i : QueryId) (q : Query) :
    (n.setQuery i q).announced = n.announced := rfl
@[simp] theorem setQuery_token (n : Node) (i : QueryId) (q : Query) :
    (n.setQuery i q).token = n.token := rfl
@[simp] theorem setQuery_nodeId (n : Node) (i : QueryId) (q : Query) :
    (n.setQuery i q).nodeId = n.nodeId := rfl
@[simp] theorem setQuery_out (n : Node) (i : QueryId) (q : Query) :
    (n.setQuery i q).out = n.out := rfl
@[simp] theorem setQuery_running (n : Node) (i : QueryId) (q : Query) :
    (n.setQuery i q).running = n.running := rfl

/-! ## Sending -/

def field (name : String) : Bencode.Key := .bytes (encode name)

/-- The most that a UDP datagram carries over IPv4. -/
def maxDatagram : Nat := 65507

/-- What goes out for a message, where the recursion limit leaves `_bencode` `levels` of nesting;
`none` where that raises, or `sock_sendto`, which takes no datagram that is too long. -/
def datagram (levels : Nat) (msg : Value) : Option Bytes :=
  if msg.depth ≤ levels then (bencode msg).filter (·.length ≤ maxDatagram) else none

/-- mirrors src/wh/wns/dht.py:678-685 -/
def send (levels : Nat) (n : Node) (msg : Value) (addr : Addr) : Node :=
  match n.running, datagram levels msg with
  | true, some data => { n with out := n.out ++ [(data, addr)] }
  | _, _ => n

/-- mirrors src/wh/wns/dht.py:668-676 -/
def responseMsg (tid : Value) (response : List (Bencode.Key × Value)) : Value :=
  .dict [(field "t", tid), (field "y", .bytes (encode "r")), (field "r", .dict response)]

/-! ## The routing table -/

/-- What iterating over a value gives; `none` is `TypeError`. -/
def elements : Value → Option (List Value)
  | .int _ => none
  | .bytes bs => some (bs.map fun b => .int b.toNat)
  | .list xs => some xs
  | .dict es => some (es.map fun e => match e.1 with
      | .int n => .int n
      | .bytes bs => .bytes bs)

/-- `bytes(x ^ y for x, y in zip(a, b))`. -/
def xorBytes : Bytes → List Value → Option Bytes
  | x :: xs, .int y :: ys =>
    if 0 ≤ y ∧ y < 256 then (xorBytes xs ys).map fun bs => (x ^^^ UInt8.ofNat y.toNat) :: bs
    else none
  | _ :: _, _ :: _ => none
  | _, _ => some []

/-- mirrors src/wh/wns/dht.py:898-903 -/
def xorDistance (a : Bencode.Key) (b : Value) : Option Nat :=
  match a, elements b with
  | .bytes as, some bs => (xorBytes as bs).map unpack
  | _, _ => none

/-- The compact form of an entry. Where it raises the entry is left out.
mirrors src/wh/wns/dht.py:913-918 -/
def compactNode (entry : Bencode.Key × Addr) : Bytes :=
  match entry.1, pack 2 entry.2.port with
  | .bytes nodeId, some port => nodeId ++ entry.2.ip.aton ++ port
  | _, _ => []

/-- `none` where a distance raises.
mirrors src/wh/wns/dht.py:905-919 -/
def closestNodes (routingTable : Dict Bencode.Key Addr) (target : Value) : Option Bytes :=
  (routingTable.entries.mapM fun e => (xorDistance e.1 target).map fun d => (d, e)).map fun es =>
    ((es.insertionSort fun x y => x.1 ≤ y.1).take 8).flatMap fun e => compactNode e.2

/-! ## Peers -/

/-- mirrors src/wh/wns/dht.py:933-936 -/
def encodePeer : Announced → Option Bytes
  | (ip, .int port) => if 0 ≤ port then (pack 2 port.toNat).map (ip.aton ++ ·) else none
  | (_, .bytes _) => none

/-- mirrors src/wh/wns/dht.py:938-944 -/
def decodePeer (data : Bytes) : Option Addr :=
  if data.length ≠ 6 then none
  else (Ip.ntoa (data.take 4)).map fun ip => ⟨ip, unpack (data.drop 4)⟩

/-! ## Messages -/

/-- The transaction id, `b""` when there is none. -/
def msgTid (d : List (Bencode.Key × Value)) : Value := (get d "t").getD (.bytes [])

/-- The response, `{}` when there is none. -/
def msgResponse (d : List (Bencode.Key × Value)) : Value := (get d "r").getD (.dict [])

/-- `future.set_result`, unless the future is done.
mirrors src/wh/wns/dht.py:609-613 -/
def resolve (n : Node) (tid : Bytes) (v : Value) : Node :=
  match n.pending.get? tid with
  | none => n
  | some i =>
    let n := { n with pending := n.pending.del tid }
    match n.query i with
    | some q =>
      match q.future with
      | .pending => n.setQuery i { q with future := .result v }
      | _ => n
    | none => n

/-- The id that a response carries in its `r`, as a key of the routing table.
mirrors src/wh/wns/dht.py:615-618 -/
def responseId (msg : List (Bencode.Key × Value)) : Option Bencode.Key :=
  match msgResponse msg with
  | .dict response => (get response "id").bind Value.key
  | _ => none

/-- mirrors src/wh/wns/dht.py:607-618 -/
def handleResponse (n : Node) (msg : List (Bencode.Key × Value)) (addr : Addr) : Node :=
  match (msgTid msg).key with
  | none => n
  | some tid =>
    let n := match tid with
      | .bytes t => resolve n t (msgResponse msg)
      | .int _ => n
    match responseId msg with
    | some id => { n with routingTable := n.routingTable.set id addr }
    | none => n

/-- mirrors src/wh/wns/dht.py:635-654 -/
def handleGetPeers (levels : Nat) (n : Node) (tid : Value) (args : List (Bencode.Key × Value))
    (addr : Addr) : Node :=
  let infoHash := (get args "info_hash").getD (.bytes [])
  match infoHash.key with
  | none => n
  | some key =>
    match (n.announced.get? key).getD [] with
    | [] =>
      match closestNodes n.routingTable infoHash with
      | none => n
      | some nodes => send levels n (responseMsg tid [(field "id", .bytes n.nodeId),
          (field "token", .bytes n.token), (field "nodes", .bytes nodes)]) addr
    | peers =>
      match peers.mapM encodePeer with
      | none => n
      | some values => send levels n (responseMsg tid [(field "id", .bytes n.nodeId),
          (field "token", .bytes n.token), (field "values", .list (values.map .bytes))]) addr

/-- `set.add`. -/
def addPeer (peers : List Announced) (peer : Announced) : List Announced :=
  if peer ∈ peers then peers else peers ++ [peer]

/-- mirrors src/wh/wns/dht.py:655-663 -/
def handleAnnouncePeer (levels : Nat) (n : Node) (tid : Value) (args : List (Bencode.Key × Value))
    (addr : Addr) : Node :=
  match ((get args "info_hash").getD (.bytes [])).key with
  | none => n
  | some key =>
    let peers := (n.announced.get? key).getD []
    match ((get args "port").getD (.int addr.port)).key with
    -- the new set is already there when `add` raises
    | none => { n with announced := n.announced.set key peers }
    | some port =>
      send levels { n with announced := n.announced.set key (addPeer peers (addr.ip, port)) }
        (responseMsg tid [(field "id", .bytes n.nodeId)]) addr

/-- mirrors src/wh/wns/dht.py:620-663 -/
def handleQuery (levels : Nat) (n : Node) (msg : List (Bencode.Key × Value)) (addr : Addr) :
    Node :=
  let tid := msgTid msg
  let query := (get msg "q").getD (.bytes [])
  let args := (get msg "a").getD (.dict [])
  if query.isBytes (encode "ping") then
    send levels n (responseMsg tid [(field "id", .bytes n.nodeId)]) addr
  else match args with
    | .dict args =>
      if query.isBytes (encode "find_node") then
        match closestNodes n.routingTable ((get args "target").getD (.bytes [])) with
        | none => n
        | some nodes => send levels n (responseMsg tid [(field "id", .bytes n.nodeId),
            (field "nodes", .bytes nodes)]) addr
      else if query.isBytes (encode "get_peers") then handleGetPeers levels n tid args addr
      else if query.isBytes (encode "announce_peer") then handleAnnouncePeer levels n tid args addr
      else n
    | _ => n

/-- What raises inside is logged.
mirrors src/wh/wns/dht.py:598-666 -/
def handleMessage (levels : Nat) (n : Node) (msg : Value) (addr : Addr) : Node :=
  match msg with
  | .dict d =>
    match get d "y" with
    | some y =>
      if y.isBytes (encode "r") then handleResponse n d addr
      else if y.isBytes (encode "q") then handleQuery levels n d addr
      else n
    | none => n
  | _ => n

/-! ## What a message can change -/

def isResponse (d : List (Bencode.Key × Value)) : Bool :=
  ((get d "y").map (Value.isBytes (encode "r"))).getD false

/-- The queries and the routing table are left alone. -/
structure Aside (n n' : Node) : Prop where
  query : n'.query = n.query
  pending : n'.pending = n.pending
  routingTable : n'.routingTable = n.routingTable
  token : n'.token = n.token
  nodeId : n'.nodeId = n.nodeId
  running : n'.running = n.running

theorem Aside.refl (n : Node) : Aside n n := ⟨rfl, rfl, rfl, rfl, rfl, rfl⟩

/-- The answer to a query goes out, or nothing happens. -/
def Responds (n n' : Node) : Prop := ∃ out, n' = { n with out := out }

theorem Responds.refl (n : Node) : Responds n n := ⟨n.out, rfl⟩

theorem Responds.aside {n n' : Node} (h : Responds n n') : Aside n n' := by
  obtain ⟨out, rfl⟩ := h
  exact ⟨rfl, rfl, rfl, rfl, rfl, rfl⟩

theorem Responds.announced {n n' : Node} (h : Responds n n') : n'.announced = n.announced := by
  obtain ⟨out, rfl⟩ := h
  rfl

theorem send_responds (levels : Nat) (n : Node) (msg : Value) (addr : Addr) :
    Responds n (send levels n msg addr) := by
  unfold send
  split
  · exact ⟨_, rfl⟩
  · exact .refl n

theorem handleGetPeers_responds (levels : Nat) (n : Node) (tid : Value)
    (args : List (Bencode.Key × Value)) (addr : Addr) :
    Responds n (handleGetPeers levels n tid args addr) := by
  unfold handleGetPeers
  dsimp only
  split
  · exact .refl n
  · split
    · split
      · exact .refl n
      · exact send_responds levels n _ addr
    · split
      · exact .refl n
      · exact send_responds levels n _ addr

theorem handleAnnouncePeer_aside (levels : Nat) (n : Node) (tid : Value)
    (args : List (Bencode.Key × Value)) (addr : Addr) :
    Aside n (handleAnnouncePeer levels n tid args addr) := by
  unfold handleAnnouncePeer
  split
  · exact .refl n
  · dsimp only
    split
    · exact ⟨rfl, rfl, rfl, rfl, rfl, rfl⟩
    · obtain ⟨h1, h2, h3, h4, h5, h6⟩ :=
        (send_responds levels { n with announced := _ } (responseMsg tid _) addr).aside
      exact ⟨h1, h2, h3, h4, h5, h6⟩

theorem handleQuery_aside (levels : Nat) (n : Node) (d : List (Bencode.Key × Value))
    (addr : Addr) : Aside n (handleQuery levels n d addr) := by
  unfold handleQuery
  dsimp only
  split
  · exact (send_responds levels n _ addr).aside
  · split
    · split
      · split
        · exact .refl n
        · exact (send_responds levels n _ addr).aside
      · split
        · exact (handleGetPeers_responds levels n _ _ addr).aside
        · split
          · exact handleAnnouncePeer_aside levels n _ _ addr
          · exact .refl n
    · exact .refl n

/-- Only a response touches the queries and the routing table. -/
theorem handleMessage_cases (levels : Nat) (n : Node) (msg : Value) (addr : Addr) :
    (∃ d, msg = .dict d ∧ isResponse d = true ∧
      handleMessage levels n msg addr = handleResponse n d addr) ∨
    Aside n (handleMessage levels n msg addr) := by
  unfold handleMessage
  split
  · rename_i d
    split
    · rename_i y hy
      split
      · rename_i hr
        exact .inl ⟨d, rfl, by simp only [isResponse, hy, Option.map_some, Option.getD_some, hr],
          rfl⟩
      · split
        · exact .inr (handleQuery_aside levels n d addr)
        · exact .inr (.refl n)
    · exact .inr (.refl n)
  · exact .inr (.refl n)

/-- What a response does to the future under its transaction id. -/
inductive Resolved (n : Node) (tid : Bytes) (v : Value) (n' : Node) : Prop
  | unknown (h : n.pending.get? tid = none) (he : n' = n)
  | late (i : QueryId) (h : n.pending.get? tid = some i)
      (hf : ∀ q, n.query i = some q → q.future ≠ .pending)
      (he : n' = { n with pending := n.pending.del tid })
  | answered (i : QueryId) (q : Query) (h : n.pending.get? tid = some i) (hq : n.query i = some q)
      (hf : q.future = .pending)
      (he : n' = { n with pending := n.pending.del tid }.setQuery i { q with future := .result v })

theorem resolve_cases (n : Node) (tid : Bytes) (v : Value) :
    Resolved n tid v (resolve n tid v) := by
  unfold resolve
  split
  · rename_i h
    exact .unknown h rfl
  · rename_i i h
    dsimp only
    split
    · rename_i q hq
      split
      · rename_i hf
        exact .answered i q h hq hf rfl
      · rename_i hf
        refine .late i h (fun q' hq' => ?_) rfl
        rw [hq] at hq'
        cases hq'
        exact hf
    · rename_i hq
      refine .late i h (fun q hq' => ?_) rfl
      rw [hq] at hq'
      cases hq'

/-- A response: the future, then the routing table. -/
theorem handleResponse_cases (n : Node) (d : List (Bencode.Key × Value)) (addr : Addr) :
    ∃ n1, (n1 = n ∨ ∃ tid, msgTid d = .bytes tid ∧ Resolved n tid (msgResponse d) n1) ∧
      (handleResponse n d addr = n1 ∨ ∃ id, responseId d = some id ∧
        handleResponse n d addr = { n1 with routingTable := n1.routingTable.set id addr }) := by
  unfold handleResponse
  split
  · exact ⟨n, .inl rfl, .inl rfl⟩
  · rename_i tid htid
    cases tid with
    | int k =>
      refine ⟨n, .inl rfl, ?_⟩
      dsimp only
      split
      · rename_i id hid
        exact .inr ⟨id, hid, rfl⟩
      · exact .inl rfl
    | bytes t =>
      refine ⟨resolve n t (msgResponse d), .inr ⟨t, ?_, resolve_cases n t _⟩, ?_⟩
      · cases hv : msgTid d <;> rw [hv] at htid <;> cases htid
        rfl
      · dsimp only
        split
        · rename_i id hid
          exact .inr ⟨id, hid, rfl⟩
        · exact .inl rfl

/-- What the node is, and its store, are left alone. -/
structure Kept (n n' : Node) : Prop where
  token : n'.token = n.token
  nodeId : n'.nodeId = n.nodeId
  announced : n'.announced = n.announced

theorem Resolved.frame {n n1 : Node} {tid : Bytes} {v : Value} (h : Resolved n tid v n1) :
    Kept n n1 ∧ n1.routingTable = n.routingTable := by
  cases h with
  | unknown _ he => rw [he]; exact ⟨⟨rfl, rfl, rfl⟩, rfl⟩
  | late _ _ _ he => rw [he]; exact ⟨⟨rfl, rfl, rfl⟩, rfl⟩
  | answered _ _ _ _ _ he => rw [he]; exact ⟨⟨rfl, rfl, rfl⟩, rfl⟩

/-- A response leaves the routing table alone, or enters the id it carries. -/
theorem handleResponse_table (n : Node) (d : List (Bencode.Key × Value)) (addr : Addr) :
    (handleResponse n d addr).routingTable =
      match (msgTid d).key, responseId d with
      | some _, some id => n.routingTable.set id addr
      | _, _ => n.routingTable := by
  have hframe : ∀ t, (resolve n t (msgResponse d)).routingTable = n.routingTable :=
    fun t => (resolve_cases n t (msgResponse d)).frame.2
  unfold handleResponse
  cases (msgTid d).key with
  | none => rfl
  | some tid =>
    cases tid with
    | int k => cases responseId d <;> rfl
    | bytes t =>
      cases responseId d with
      | none => exact hframe t
      | some id => dsimp only; rw [hframe]

theorem handleMessage_response {d : List (Bencode.Key × Value)} (h : isResponse d = true)
    (levels : Nat) (n : Node) (addr : Addr) :
    handleMessage levels n (.dict d) addr = handleResponse n d addr := by
  unfold isResponse at h
  unfold handleMessage
  dsimp only
  cases hy : get d "y" with
  | none => rw [hy] at h; cases h
  | some y =>
    rw [hy, Option.map_some, Option.getD_some] at h
    dsimp only
    rw [if_pos h]

theorem handleResponse_kept (n : Node) (d : List (Bencode.Key × Value)) (addr : Addr) :
    Kept n (handleResponse n d addr) := by
  obtain ⟨n1, h1, h2⟩ := handleResponse_cases n d addr
  have h : Kept n n1 := by
    rcases h1 with rfl | ⟨tid, -, h1⟩
    · exact ⟨rfl, rfl, rfl⟩
    · exact h1.frame.1
  rcases h2 with h2 | ⟨id, -, h2⟩
  · rw [h2]
    exact h
  · rw [h2]
    exact ⟨h.token, h.nodeId, h.announced⟩

theorem handleMessage_own (levels : Nat) (n : Node) (msg : Value) (addr : Addr) :
    (handleMessage levels n msg addr).token = n.token ∧
      (handleMessage levels n msg addr).nodeId = n.nodeId := by
  rcases handleMessage_cases levels n msg addr with ⟨d, rfl, -, he⟩ | ha
  · rw [he]
    exact ⟨(handleResponse_kept n d addr).token, (handleResponse_kept n d addr).nodeId⟩
  · exact ⟨ha.token, ha.nodeId⟩

end Wormhole.L4.Dht
