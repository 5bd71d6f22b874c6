import Wormhole.L5Concurrency.RoutingTables

/-!
# The announce store of a DHT node

`announce_peer` stores what it is sent: the handler looks neither at the token
nor at what the port is, and a later `get_peers` for the same key has to encode
it. In runs whose announcements carry the token and a port, and whose responses
carry ids that are byte strings, the store holds announced peers only, and a
`get_peers` is answered with them exactly when the answer fits in a datagram and
its transaction id can be encoded (`announce_store_servable`); one port that does
not fit silences a key (`silenced_key`).
-/
namespace Wormhole.L5.DhtAnnounced
open Wormhole.L1 Wormhole.L1.Bencode Wormhole.L4.Dht Wormhole.L5.DhtQueries
  Wormhole.L5.RoutingTables

abbrev Lbl := RoutingTables.Lbl

/-! ## Messages -/

/-- A query of a kind, with its arguments. -/
structure IsQuery (d : List (Bencode.Key × Value)) (method : String)
    (args : List (Bencode.Key × Value)) :
    Prop where
  kind : get d "y" = some (.bytes (encode "q"))
  method : get d "q" = some (.bytes (encode method))
  args : (get d "a").getD (.dict []) = .dict args

def infoHash (args : List (Bencode.Key × Value)) : Value := (get args "info_hash").getD (.bytes [])

/-- The port that an announcement is stored with. -/
def announcedPort (args : List (Bencode.Key × Value)) (addr : Addr) : Value :=
  (get args "port").getD (.int addr.port)

/-- `_announced[infoHash]` got `(ip, port)` from an announcement with the token
and a port. -/
def Announcement (token : Bytes) (es : List Lbl) (key : Bencode.Key) (ip : Ip)
    (port : Bencode.Key) : Prop :=
  ∃ fuel depth levels data addr d args p, .node (.receive fuel depth levels data addr) ∈ es ∧
    bdecode fuel depth data = .done (.dict d) ∧ IsQuery d "announce_peer" args ∧
    (infoHash args).key = some key ∧ addr.ip = ip ∧
    get args "token" = some (.bytes token) ∧
    announcedPort args addr = .int p ∧ port = .int p ∧ 1 ≤ p ∧ p ≤ 65535

/-- The values of a response. -/
def responseValues (response : List (Bencode.Key × Value)) : Option (List Value) :=
  match get response "values" with
  | some (.list vs) => some vs
  | some _ => none
  | none => some []

/-- The bytes that the response to a `get_peers` for `hash` has besides the transaction id. -/
def answerSize (n : Node) (hash : Bytes) : Nat :=
  (lengthPrefixed n.nodeId).length + (lengthPrefixed n.token).length +
    match (n.announced.get? (.bytes hash)).getD [] with
    | [] => (lengthPrefixed ((closestNodes n.routingTable (.bytes hash)).getD [])).length + 34
    | peers => 8 * peers.length + 37

/-- The nesting of that response: a list of peers takes one more than a string of nodes. -/
def answerDepth (n : Node) (hash : Bytes) : Nat :=
  match (n.announced.get? (.bytes hash)).getD [] with
  | [] => 3
  | _ => 4

/-- `_bencode` takes the transaction id back, in the nesting it has left, and a datagram has room
for it beside the rest of the response. -/
structure Sendable (levels : Nat) (n : Node) (hash : Bytes) (tid : Value) : Prop where
  encodes : (bencode tid).isSome = true
  size : tid.size + answerSize n hash ≤ maxDatagram
  nesting : max (tid.depth + 1) (answerDepth n hash) ≤ levels

/-- A `get_peers` for `hash` is answered, and the values decode to what is announced. -/
def Answered (levels : Nat) (n : Node) (d : List (Bencode.Key × Value)) (addr : Addr)
    (hash : Bytes) : Prop :=
  ∃ (response : List (Bencode.Key × Value)) (data : Bytes) (values : List Bytes)
    (peers : List Addr),
    handleMessage levels n (.dict d) addr = { n with out := n.out ++ [(data, addr)] } ∧
    bencode (responseMsg (msgTid d) response) = some data ∧
    responseValues response = some (values.map .bytes) ∧
    values.mapM decodePeer = some peers ∧
    peers.map (fun p => (p.ip, Bencode.Key.int p.port)) = (n.announced.get? (.bytes hash)).getD []

/-- The claim about a state that a run reaches, of the queries that can be answered at all. -/
structure Servable (token : Bytes) (es : List Lbl) (n : Node) : Prop where
  stored : ∀ key peers ip port, n.announced.get? key = some peers → (ip, port) ∈ peers →
    Announcement token es key ip port
  served : n.running = true → ∀ levels d args addr hash, IsQuery d "get_peers" args →
    infoHash args = .bytes hash → Sendable levels n hash (msgTid d) → Answered levels n d addr hash

/-- An announcement that is stored carries the token and a port, and the id of
a response is a byte string. -/
def WellFormed (n : Node) : Lbl → Prop
  | .node (.receive fuel depth _ data addr) => ∀ d, bdecode fuel depth data = .done (.dict d) →
      (∀ args key port, IsQuery d "announce_peer" args → (infoHash args).key = some key →
        (announcedPort args addr).key = some port → get args "token" = some (.bytes n.token) ∧
          ∃ p, port = .int p ∧ 1 ≤ p ∧ p ≤ 65535) ∧
      (isResponse d = true → ∀ id, responseId d = some id → ∃ bs, id = .bytes bs)
  | _ => True

/-! ## What an announcement stores -/

theorem isBytes_iff {bs : Bytes} {v : Value} : v.isBytes bs = true ↔ v = .bytes bs := by
  cases v with
  | bytes cs => simp [Value.isBytes]
  | int n => simp [Value.isBytes]
  | list xs => simp [Value.isBytes]
  | dict es => simp [Value.isBytes]

theorem some_of_getD {o : Option Value} {bs : Bytes} (hb : bs ≠ [])
    (h : o.getD (.bytes []) = .bytes bs) : o = some (.bytes bs) := by
  cases o with
  | none =>
    rw [Option.getD_none, Value.bytes.injEq] at h
    exact absurd h.symm hb
  | some v => rw [Option.getD_some] at h; rw [h]

/-- What `_announced[infoHash]` is after an announcement. -/
def stored (n : Node) (args : List (Bencode.Key × Value)) (key : Bencode.Key)
    (addr : Addr) : List Announced :=
  let peers := (n.announced.get? key).getD []
  match (announcedPort args addr).key with
  | none => peers
  | some port => addPeer peers (addr.ip, port)

theorem handleAnnouncePeer_announced (levels : Nat) (n : Node) (tid : Value)
    (args : List (Bencode.Key × Value)) (addr : Addr) :
    (handleAnnouncePeer levels n tid args addr).announced = n.announced ∨
      ∃ key, (infoHash args).key = some key ∧
        (handleAnnouncePeer levels n tid args addr).announced =
          n.announced.set key (stored n args key addr) := by
  unfold handleAnnouncePeer
  split
  · exact .inl rfl
  · rename_i key hkey
    refine .inr ⟨key, hkey, ?_⟩
    unfold stored announcedPort
    cases hport : ((get args "port").getD (.int addr.port)).key with
    | none => rfl
    | some port => exact (send_responds levels _ _ addr).announced

/-- Only an announcement changes the store. -/
theorem handleMessage_announced (levels : Nat) (n : Node) (msg : Value) (addr : Addr) :
    (handleMessage levels n msg addr).announced = n.announced ∨
      ∃ d args key, msg = .dict d ∧ IsQuery d "announce_peer" args ∧
        (infoHash args).key = some key ∧
        (handleMessage levels n msg addr).announced =
          n.announced.set key (stored n args key addr) := by
  unfold handleMessage
  split
  · rename_i d
    split
    · rename_i y hy
      split
      · exact .inl (handleResponse_kept n d addr).announced
      · split
        · rename_i hq
          unfold handleQuery
          dsimp only
          split
          · exact .inl (send_responds levels n _ addr).announced
          · split
            · rename_i args hargs
              split
              · split
                · exact .inl rfl
                · exact .inl (send_responds levels n _ addr).announced
              · split
                · exact .inl (handleGetPeers_responds levels n _ args addr).announced
                · split
                  · rename_i hm
                    have hmethod := some_of_getD (by decide) (isBytes_iff.mp hm)
                    have hkind : get d "y" = some (.bytes (encode "q")) := by
                      rw [hy, isBytes_iff.mp hq]
                    rcases handleAnnouncePeer_announced levels n (msgTid d) args addr with
                      h | ⟨key, hk, h⟩
                    · exact .inl h
                    · exact .inr ⟨d, args, key, rfl, ⟨hkind, hmethod, hargs⟩, hk, h⟩
                  · exact .inl rfl
            · exact .inl rfl
        · exact .inl rfl
    · exact .inl rfl
  · exact .inl rfl

/-! ## Over one step -/

theorem startQuery_kept (n : Node) (i : QueryId) (addr : Addr) (method : Bytes)
    (args : List (Bencode.Key × Value)) (levels : Nat) :
    Kept n (startQuery n i addr method args levels) := by
  unfold startQuery
  dsimp only
  split
  · have hs := fun n msg => send_responds levels n msg addr
    exact ⟨(hs _ _).aside.token, (hs _ _).aside.nodeId, (hs _ _).announced⟩
  · exact ⟨rfl, rfl, rfl⟩

/-- Apart from datagrams, no step of the node touches the store. -/
theorem query_store {n n' : Node} {l : DhtQueries.Lbl} (hst : DhtQueries.step n l = some n') :
    Kept n n' ∨ ∃ fuel depth levels data addr msg, l = .receive fuel depth levels data addr ∧
      bdecode fuel depth data = .done msg ∧ n' = handleMessage levels n msg addr := by
  cases l with
  | query i addr method args levels =>
    simp only [DhtQueries.step] at hst
    split at hst
    · cases hst; exact .inl (startQuery_kept n i addr method args levels)
    · cases hst
  | sent i ok =>
    simp only [DhtQueries.step] at hst
    split at hst
    · split at hst <;> cases hst <;> exact .inl ⟨rfl, rfl, rfl⟩
    · cases hst
  | timeout i =>
    simp only [DhtQueries.step] at hst
    split at hst <;> cases hst <;> exact .inl ⟨rfl, rfl, rfl⟩
  | resume i =>
    simp only [DhtQueries.step] at hst
    split at hst <;> cases hst <;> exact .inl ⟨rfl, rfl, rfl⟩
  | cancel i =>
    simp only [DhtQueries.step] at hst
    split at hst <;> cases hst <;> exact .inl ⟨rfl, rfl, rfl⟩
  | receive fuel depth levels data addr =>
    simp only [DhtQueries.step] at hst
    split at hst
    · split at hst
      · cases hst
      · cases hst; exact .inl ⟨rfl, rfl, rfl⟩
      · rename_i msg hd
        cases hst
        exact .inr ⟨fuel, depth, levels, data, addr, msg, rfl, hd, rfl⟩
    · cases hst
  | stop => cases hst; exact .inl ⟨rfl, rfl, rfl⟩

theorem step_store {n n' : Node} {l : Lbl} (hst : RoutingTables.step n l = some n') :
    Kept n n' ∨ ∃ fuel depth levels data addr msg,
      l = .node (.receive fuel depth levels data addr) ∧ bdecode fuel depth data = .done msg ∧
      n' = handleMessage levels n msg addr := by
  rcases RoutingTables.step_cases hst with ⟨l', rfl, hst'⟩ | ⟨table, rfl⟩
  · rcases query_store hst' with hk | ⟨fuel, depth, levels, data, addr, msg, rfl, hd, he⟩
    · exact .inl hk
    · exact .inr ⟨fuel, depth, levels, data, addr, msg, rfl, hd, he⟩
  · exact .inl ⟨rfl, rfl, rfl⟩

/-- A node keeps its token and its id. -/
theorem step_own {n n' : Node} {l : Lbl} (hst : RoutingTables.step n l = some n') :
    n'.token = n.token ∧ n'.nodeId = n.nodeId := by
  rcases step_store hst with hk | ⟨_, _, levels, _, addr, msg, -, -, rfl⟩
  · exact ⟨hk.token, hk.nodeId⟩
  · exact handleMessage_own levels n msg addr

theorem mem_addPeer {peers : List Announced} {x y : Announced} (h : x ∈ addPeer peers y) :
    x ∈ peers ∨ x = y := by
  unfold addPeer at h
  split at h
  · exact .inl h
  · rcases List.mem_append.mp h with h | h
    · exact .inl h
    · exact .inr (List.mem_singleton.mp h)

theorem mem_getD {o : Option (List Announced)} {x : Announced} (h : x ∈ o.getD []) :
    ∃ peers, o = some peers ∧ x ∈ peers := by
  cases o with
  | none => cases h
  | some peers => exact ⟨peers, rfl, h⟩

theorem Announcement.extend {token : Bytes} {es : List Lbl} {key : Bencode.Key} {ip : Ip}
    {port : Bencode.Key}
    (h : Announcement token es key ip port) (l : Lbl) :
    Announcement token (es ++ [l]) key ip port := by
  obtain ⟨fuel, depth, levels, data, addr, d, args, p, hmem, hrest⟩ := h
  exact ⟨fuel, depth, levels, data, addr, d, args, p, List.mem_append_left _ hmem, hrest⟩

/-- A response with an id has a byte string there. -/
def IdBytes (v : Value) : Prop :=
  ∀ d id, v = .dict d → (get d "id").bind Value.key = some id → ∃ bs, id = .bytes bs

theorem idBytes_response {d : List (Bencode.Key × Value)}
    (h : ∀ id, responseId d = some id → ∃ bs, id = .bytes bs) : IdBytes (msgResponse d) := by
  intro fields id hv hid
  refine h id ?_
  rw [responseId, hv]
  exact hid

/-- What is stored, and what the routing table goes by. -/
structure Clean (token : Bytes) (es : List Lbl) (n : Node) : Prop where
  ours : n.token = token
  stored : ∀ key peers ip port, n.announced.get? key = some peers → (ip, port) ∈ peers →
    Announcement token es key ip port
  results : ∀ i q v, n.query i = some q → q.future = .result v ∨ q.stage = .returned (some v) →
    IdBytes v
  ids : ∀ id addr, n.routingTable.get? id = some addr → ∃ bs, id = .bytes bs

theorem clean_init (nodeId token : Bytes) : Clean token [] (Node.init nodeId token) :=
  ⟨rfl, fun _ _ _ _ h => (by cases h), fun _ _ _ h => (by cases h), fun _ _ h => (by cases h)⟩

theorem announced_step {token : Bytes} {es : List Lbl} {n n' : Node} {l : Lbl}
    (h : Clean token es n) (hw : WellFormed n l) (hst : RoutingTables.step n l = some n')
    {key : Bencode.Key} {peers : List Announced} {ip : Ip} {port : Bencode.Key}
    (hk : n'.announced.get? key = some peers) (hm : (ip, port) ∈ peers) :
    Announcement token (es ++ [l]) key ip port := by
  rcases step_store hst with hkept | ⟨fuel, depth, levels, data, addr, msg, rfl, hd, rfl⟩
  · rw [hkept.announced] at hk
    exact (h.stored key peers ip port hk hm).extend l
  rcases handleMessage_announced levels n msg addr with ha | ⟨d, args, key', rfl, hq, hkey, ha⟩
  · rw [ha] at hk
    exact (h.stored key peers ip port hk hm).extend _
  rw [ha, Dict.get?_set] at hk
  split at hk
  · rename_i heq
    subst heq
    cases hk
    have old : (ip, port) ∈ (n.announced.get? key').getD [] →
        Announcement token (es ++ [.node (.receive fuel depth levels data addr)]) key' ip port := by
      intro hold
      obtain ⟨ps, hps, hmem⟩ := mem_getD hold
      exact (h.stored key' ps ip port hps hmem).extend _
    unfold stored at hm
    dsimp only at hm
    split at hm
    · exact old hm
    · rename_i hport
      rcases mem_addPeer hm with hold | hnew
      · exact old hold
      · cases hnew
        obtain ⟨htok, p, hp, h1, h2⟩ := (hw d hd).1 args key' port hq hkey hport
        subst hp
        refine ⟨fuel, depth, levels, data, addr, d, args, p, List.mem_append_right es
          (List.mem_singleton.mpr rfl), hd, hq, hkey, rfl, by rw [htok, h.ours], ?_, rfl, h1, h2⟩
        cases hv : announcedPort args addr <;> rw [hv] at hport <;> cases hport
        rfl
  · exact (h.stored key peers ip port hk hm).extend _

theorem results_step {token : Bytes} {es : List Lbl} {n n' : Node} {l : Lbl}
    (h : Clean token es n) (hw : WellFormed n l) (hst : RoutingTables.step n l = some n')
    {i : QueryId} {q : Query} {v : Value} (hq : n'.query i = some q)
    (hv : q.future = .result v ∨ q.stage = .returned (some v)) : IdBytes v := by
  rcases RoutingTables.step_cases hst with ⟨l', rfl, hst'⟩ | ⟨table, rfl⟩
  · cases query_step hst' hq with
    | created _ hf hs =>
      rcases hv with hv | hv
      · rw [hf] at hv; cases hv
      · exact absurd hv (hs v)
    | went r hr _ _ hf hs =>
      rcases hv with hv | hv
      · exact h.results i r v hr (.inl (hf v hv))
      · rcases hs v hv with hres | ⟨hold, -⟩
        · exact h.results i r v hr (.inl (hf v hres))
        · exact h.results i r v hr (.inr hold)
    | answered r fuel depth levels data addr d hr _ _ hl hd hresp _ _ hf hs =>
      rcases hv with hv | hv
      · subst hl
        rw [hf] at hv
        cases hv
        exact idBytes_response ((hw d hd).2 hresp)
      · exact h.results i r v hr (.inr (by rw [← hs]; exact hv))
  · exact h.results i q v hq hv

theorem ids_step {token : Bytes} {es : List Lbl} {n n' : Node} {l : Lbl}
    (h : Clean token es n) (hw : WellFormed n l) (hst : RoutingTables.step n l = some n')
    {id : Bencode.Key} {addr : Addr} (hid : n'.routingTable.get? id = some addr) :
    ∃ bs, id = .bytes bs := by
  obtain hold | hnew := entry_step hst hid
  · exact h.ids id addr hold
  cases hnew with
  | heard l' hl hheard =>
    obtain ⟨fuel, depth, levels, data, d, rfl, hd, hr, hrid⟩ := heard_eq hheard
    subst hl
    exact (hw d hd).2 hr id hrid
  | answer i tid future d hq hkey => exact h.results i _ _ hq (.inr rfl) d id rfl hkey
  | named hn =>
    obtain ⟨bs, hbs⟩ := bytes_of_named hn
    exact ⟨bs, hbs⟩

theorem clean_step {token : Bytes} {es : List Lbl} {n n' : Node} {l : Lbl}
    (h : Clean token es n) (hw : WellFormed n l) (hst : RoutingTables.step n l = some n') :
    Clean token (es ++ [l]) n' :=
  ⟨(step_own hst).1.trans h.ours, fun _ _ _ _ hk hm => announced_step h hw hst hk hm,
    fun _ _ _ hq hv => results_step h hw hst hq hv, fun _ _ hid => ids_step h hw hst hid⟩

theorem clean_run {nodeId token : Bytes} {es : List Lbl} {n : Node}
    (h : ((RoutingTables.lts nodeId token).restrict WellFormed).Run (Node.init nodeId token) es n) :
    Clean token es n := by
  refine LTS.Run.history (I := Clean token) ?_ (clean_init nodeId token) h
  intro pre s l t _ hi hst
  exact clean_step hi hst.1 hst.2

/-! ## Serving -/

theorem bencodeItems_isSome {xs : List Value} (h : ∀ x ∈ xs, (bencode x).isSome = true) :
    (bencodeItems xs).isSome = true := by
  induction xs with
  | nil => rfl
  | cons x xs ih =>
    obtain ⟨bs, hbs⟩ := Option.isSome_iff_exists.mp (h x List.mem_cons_self)
    obtain ⟨cs, hcs⟩ := Option.isSome_iff_exists.mp
      (ih fun y hy => h y (List.mem_cons_of_mem x hy))
    simp [bencodeItems, hbs, hcs]

theorem bencodeEntries_isSome {es : List (Bencode.Key × Value)}
    (h : ∀ e ∈ es, (∃ k, e.1 = .bytes k) ∧ (bencode e.2).isSome = true) :
    (bencodeEntries es).isSome = true := by
  induction es with
  | nil => rfl
  | cons e es ih =>
    obtain ⟨⟨k, hk⟩, hv⟩ := h e List.mem_cons_self
    obtain ⟨key, v⟩ := e
    dsimp only at hk hv
    subst hk
    obtain ⟨bs, hbs⟩ := Option.isSome_iff_exists.mp hv
    obtain ⟨items, hitems⟩ := Option.isSome_iff_exists.mp
      (ih fun y hy => h y (List.mem_cons_of_mem _ hy))
    simp [bencodeEntries, hbs, hitems]

theorem bencode_dict_isSome {es : List (Bencode.Key × Value)}
    (h : ∀ e ∈ es, (∃ k, e.1 = .bytes k) ∧ (bencode e.2).isSome = true) :
    (bencode (.dict es)).isSome = true := by
  rw [bencode, Option.isSome_map]
  exact bencodeEntries_isSome h

theorem bencode_bytes_isSome (bs : Bytes) : (bencode (.bytes bs)).isSome = true := by
  rw [bencode]
  rfl

/-- A response can be encoded when the transaction id can, and its own parts. -/
theorem bencode_responseMsg {tid : Value} {response : List (Bencode.Key × Value)}
    (h : ∀ e ∈ response, (∃ k, e.1 = .bytes k) ∧ (bencode e.2).isSome = true) :
    (bencode (responseMsg tid response)).isSome = (bencode tid).isSome := by
  rw [Bool.eq_iff_iff]
  constructor
  · intro hm
    obtain ⟨data, hdata⟩ := Option.isSome_iff_exists.mp hm
    rw [responseMsg, bencode] at hdata
    obtain ⟨items, hitems, -⟩ := Option.map_eq_some_iff.mp hdata
    rw [field, bencodeEntries] at hitems
    obtain ⟨bs, hbs, -⟩ := Option.bind_eq_some_iff.mp hitems
    rw [hbs]
    rfl
  · intro ht
    refine bencode_dict_isSome fun e he => ?_
    simp only [List.mem_cons, List.not_mem_nil, or_false] at he
    rcases he with rfl | rfl | rfl
    · exact ⟨⟨_, rfl⟩, ht⟩
    · exact ⟨⟨_, rfl⟩, bencode_bytes_isSome _⟩
    · exact ⟨⟨_, rfl⟩, bencode_dict_isSome h⟩

/-- What goes out for a message, by its nesting and its length. -/
theorem datagram_isSome_iff {levels : Nat} {msg : Value} : (datagram levels msg).isSome = true ↔
    (bencode msg).isSome = true ∧ msg.size ≤ maxDatagram ∧ msg.depth ≤ levels := by
  unfold datagram
  cases hb : bencode msg with
  | none => simp
  | some data =>
    rw [← size_eq msg hb]
    split
    · rename_i hd
      simp [Option.filter, hd]
    · rename_i hd
      simp [hd]

theorem datagram_eq {levels : Nat} {msg : Value} {data : Bytes}
    (h : datagram levels msg = some data) : bencode msg = some data := by
  unfold datagram at h
  split at h
  · exact (Option.filter_eq_some_iff.mp h).1
  · cases h

/-- mirrors src/wh/wns/dht.py:648-654 -/
def nodesResponse (n : Node) (nodes : Bytes) : List (Bencode.Key × Value) :=
  [(field "id", .bytes n.nodeId), (field "token", .bytes n.token), (field "nodes", .bytes nodes)]

/-- mirrors src/wh/wns/dht.py:639-646 -/
def valuesResponse (n : Node) (values : List Bytes) : List (Bencode.Key × Value) :=
  [(field "id", .bytes n.nodeId), (field "token", .bytes n.token),
    (field "values", .list (values.map .bytes))]

/-- An answer to `get_peers`: what comes behind the token decides its size. -/
theorem size_answer (n : Node) (tid value : Value) (key : String) :
    (responseMsg tid [(field "id", .bytes n.nodeId), (field "token", .bytes n.token),
      (field key, value)]).size = tid.size + ((lengthPrefixed n.nodeId).length +
        (lengthPrefixed n.token).length +
          ((lengthPrefixed (encode key)).length + value.size + 27)) := by
  have ht : (lengthPrefixed (encode "t")).length = 3 := rfl
  have hy : (lengthPrefixed (encode "y")).length = 3 := rfl
  have hr : (lengthPrefixed (encode "r")).length = 3 := rfl
  have hid : (lengthPrefixed (encode "id")).length = 4 := rfl
  have htok : (lengthPrefixed (encode "token")).length = 7 := rfl
  simp only [responseMsg, field, Value.size, sizeEntries, ht, hy, hr, hid, htok]
  omega

theorem size_nodes (n : Node) (tid : Value) (nodes : Bytes) :
    (responseMsg tid (nodesResponse n nodes)).size = tid.size + ((lengthPrefixed n.nodeId).length +
      (lengthPrefixed n.token).length + ((lengthPrefixed nodes).length + 34)) := by
  have hkey : (lengthPrefixed (encode "nodes")).length = 7 := rfl
  rw [nodesResponse, size_answer, hkey, Value.size]
  omega

theorem sizeItems_peers {values : List Bytes} (h : ∀ v ∈ values, v.length = 6) :
    sizeItems (values.map .bytes) = 8 * values.length := by
  induction values with
  | nil => rfl
  | cons v values ih =>
    have hv : (lengthPrefixed v).length = 8 := by
      rw [lengthPrefixed, List.length_append, h v List.mem_cons_self]
      rfl
    rw [List.map_cons, sizeItems, Value.size, hv, ih fun u hu => h u (List.mem_cons_of_mem v hu),
      List.length_cons]
    omega

theorem size_values (n : Node) (tid : Value) {values : List Bytes}
    (h : ∀ v ∈ values, v.length = 6) : (responseMsg tid (valuesResponse n values)).size =
      tid.size + ((lengthPrefixed n.nodeId).length + (lengthPrefixed n.token).length +
        (8 * values.length + 37)) := by
  have hkey : (lengthPrefixed (encode "values")).length = 8 := rfl
  rw [valuesResponse, size_answer, hkey, Value.size, sizeItems_peers h]
  omega

theorem depth_nodes (n : Node) (tid : Value) (nodes : Bytes) :
    (responseMsg tid (nodesResponse n nodes)).depth = max (tid.depth + 1) 3 := by
  simp only [responseMsg, nodesResponse, Value.depth, depthEntries]
  omega

theorem depth_peers {values : List Bytes} (h : values ≠ []) :
    depthItems (values.map .bytes) = 1 := by
  induction values with
  | nil => exact absurd rfl h
  | cons v values ih =>
    rw [List.map_cons, depthItems, Value.depth]
    cases values with
    | nil => rfl
    | cons u values => rw [ih (List.cons_ne_nil u values), Nat.max_self]

theorem depth_values (n : Node) (tid : Value) {values : List Bytes} (h : values ≠ []) :
    (responseMsg tid (valuesResponse n values)).depth = max (tid.depth + 1) 4 := by
  simp only [responseMsg, valuesResponse, Value.depth, depthEntries, depth_peers h]
  omega

/-- A port goes to the wire and comes back. -/
theorem decode_encodePeer (ip : Ip) {p : Int} (h1 : 1 ≤ p) (h2 : p ≤ 65535) :
    ∃ v, encodePeer (ip, .int p) = some v ∧ v.length = 6 ∧ decodePeer v = some ⟨ip, p.toNat⟩ := by
  have hlt : p.toNat < 256 ^ 2 := by omega
  refine ⟨ip.aton ++ beBytes 2 p.toNat, ?_, rfl, ?_⟩
  · rw [encodePeer, if_pos (by omega), pack_of_lt hlt]
    rfl
  · have hu : unpack (beBytes 2 p.toNat) = p.toNat := by
      rw [unpack_beBytes]
      exact Nat.mod_eq_of_lt hlt
    have hl : (beBytes 2 p.toNat).length = 2 := rfl
    unfold decodePeer
    rw [if_neg (by simp [Ip.aton, hl])]
    simp [Ip.aton, Ip.ntoa, hu]

/-- The members of a set of announced peers, encoded and decoded. -/
theorem values_of_peers {peers : List Announced}
    (h : ∀ x ∈ peers, ∃ p : Int, x.2 = .int p ∧ 1 ≤ p ∧ p ≤ 65535) :
    ∃ values addrs, peers.mapM encodePeer = some values ∧ values.length = peers.length ∧
      (∀ v ∈ values, v.length = 6) ∧ values.mapM decodePeer = some addrs ∧
      addrs.map (fun a => (a.ip, Bencode.Key.int a.port)) = peers := by
  induction peers with
  | nil => exact ⟨[], [], rfl, rfl, fun v hv => (by cases hv), rfl, rfl⟩
  | cons x xs ih =>
    obtain ⟨values, addrs, he, hn, hlen, hd, ha⟩ := ih fun y hy => h y (List.mem_cons_of_mem x hy)
    obtain ⟨p, hp, h1, h2⟩ := h x List.mem_cons_self
    obtain ⟨ip, port⟩ := x
    dsimp only at hp
    subst hp
    obtain ⟨v, hv, hsix, hv'⟩ := decode_encodePeer ip h1 h2
    refine ⟨v :: values, ⟨ip, p.toNat⟩ :: addrs, by simp [List.mapM_cons, hv, he],
      congrArg (· + 1) hn, List.forall_mem_cons.mpr ⟨hsix, hlen⟩,
      by simp [List.mapM_cons, hv', hd], ?_⟩
    have hcast : ((p.toNat : Nat) : Int) = p := by omega
    rw [List.map_cons, ha]
    dsimp only
    rw [hcast]

theorem send_ok {levels : Nat} {n : Node} {msg : Value} {addr : Addr} {data : Bytes}
    (hr : n.running = true) (h : datagram levels msg = some data) :
    send levels n msg addr = { n with out := n.out ++ [(data, addr)] } := by
  rw [send, hr, h]

theorem handleMessage_isQuery {n : Node} {d args : List (Bencode.Key × Value)} {method : String}
    (levels : Nat) (addr : Addr) (h : IsQuery d method args) :
    handleMessage levels n (.dict d) addr = handleQuery levels n d addr := by
  have hr : Value.isBytes (encode "r") (.bytes (encode "q")) = false := rfl
  have hq : Value.isBytes (encode "q") (.bytes (encode "q")) = true := rfl
  simp only [handleMessage, h.kind, hr, hq, if_true, Bool.false_eq_true, if_false]

theorem handleMessage_getPeers {n : Node} {d args : List (Bencode.Key × Value)} (levels : Nat)
    (addr : Addr) (h : IsQuery d "get_peers" args) :
    handleMessage levels n (.dict d) addr = handleGetPeers levels n (msgTid d) args addr := by
  have hping : Value.isBytes (encode "ping") (.bytes (encode "get_peers")) = false := rfl
  have hfind : Value.isBytes (encode "find_node") (.bytes (encode "get_peers")) = false := rfl
  have hget : Value.isBytes (encode "get_peers") (.bytes (encode "get_peers")) = true := rfl
  rw [handleMessage_isQuery levels addr h]
  simp only [handleQuery, h.method, h.args, Option.getD_some, hping, hfind, hget, if_true,
    Bool.false_eq_true, if_false]

/-- The response that a node has for a `get_peers`, and what decides that it is sent. -/
structure Serves (levels : Nat) (n : Node) (tid : Value) (args : List (Bencode.Key × Value))
    (addr : Addr) (hash : Bytes) (response : List (Bencode.Key × Value)) (values : List Bytes)
    (peers : List Addr) : Prop where
  sends : handleGetPeers levels n tid args addr = send levels n (responseMsg tid response) addr
  sendable : (datagram levels (responseMsg tid response)).isSome = true ↔
    Sendable levels n hash tid
  held : responseValues response = some (values.map .bytes)
  decoded : values.mapM decodePeer = some peers
  peers : peers.map (fun p => (p.ip, Bencode.Key.int p.port)) =
    (n.announced.get? (.bytes hash)).getD []

theorem sendable_iff {levels : Nat} {n : Node} {hash : Bytes} {tid msg : Value}
    (he : (bencode msg).isSome = (bencode tid).isSome)
    (hs : msg.size = tid.size + answerSize n hash)
    (hd : msg.depth = max (tid.depth + 1) (answerDepth n hash)) :
    (datagram levels msg).isSome = true ↔ Sendable levels n hash tid := by
  rw [datagram_isSome_iff, he, hs, hd]
  exact ⟨fun h => ⟨h.1, h.2.1, h.2.2⟩, fun h => ⟨h.encodes, h.size, h.nesting⟩⟩

/-- In a clean store the peers of every info hash can be encoded. -/
theorem Clean.ports {token : Bytes} {es : List Lbl} {n : Node} (h : Clean token es n)
    (key : Bencode.Key) : ∀ x ∈ (n.announced.get? key).getD [],
      ∃ p : Int, x.2 = .int p ∧ 1 ≤ p ∧ p ≤ 65535 := by
  intro x hx
  obtain ⟨ps, hps, hmem⟩ := mem_getD hx
  obtain ⟨_, _, _, _, _, _, _, p, -, -, -, -, -, -, -, hp, h1, h2⟩ := h.stored _ ps x.1 x.2 hps hmem
  exact ⟨p, hp, h1, h2⟩

theorem bytes_entry (name : String) (bs : Bytes) :
    (∃ k, (field name, Value.bytes bs).1 = .bytes k) ∧
      (bencode (field name, Value.bytes bs).2).isSome = true :=
  ⟨⟨_, rfl⟩, bencode_bytes_isSome bs⟩

theorem clean_serves {token : Bytes} {es : List Lbl} {n : Node} (h : Clean token es n)
    (levels : Nat) (tid : Value) {args : List (Bencode.Key × Value)} (addr : Addr) {hash : Bytes}
    (hh : infoHash args = .bytes hash) :
    ∃ response values peers, Serves levels n tid args addr hash response values peers := by
  have hval : (get args "info_hash").getD (.bytes []) = .bytes hash := hh
  have hkey : (Value.bytes hash).key = some (.bytes hash) := rfl
  obtain ⟨values, addrs, he, hn, hlen, hd, ha⟩ := values_of_peers (h.ports (.bytes hash))
  cases hps : (n.announced.get? (.bytes hash)).getD [] with
  | nil =>
    obtain ⟨nodes, hnodes⟩ : ∃ nodes, closestNodes n.routingTable (.bytes hash) = some nodes :=
      ⟨_, closestNodes_bytes (fun e he => h.ids e.1 e.2 (Dict.mem_entries.mp he)) hash⟩
    refine ⟨nodesResponse n nodes, [], [], ?_, sendable_iff ?_ ?_ ?_, rfl, rfl, hps.symm⟩
    · simp only [handleGetPeers, hval, hkey, hps, hnodes]
      rfl
    · refine bencode_responseMsg fun e he => ?_
      simp only [nodesResponse, List.mem_cons, List.not_mem_nil, or_false] at he
      rcases he with rfl | rfl | rfl <;> exact bytes_entry _ _
    · rw [size_nodes, answerSize, hps, hnodes]
      rfl
    · rw [depth_nodes, answerDepth, hps]
  | cons x xs =>
    have hne : values ≠ [] := by
      intro hnil
      rw [hnil, hps] at hn
      cases hn
    rw [hps] at he
    refine ⟨valuesResponse n values, values, addrs, ?_, sendable_iff ?_ ?_ ?_, rfl, hd, ha⟩
    · simp only [handleGetPeers, hval, hkey, hps, he]
      rfl
    · refine bencode_responseMsg fun e he => ?_
      simp only [valuesResponse, List.mem_cons, List.not_mem_nil, or_false] at he
      rcases he with rfl | rfl | rfl
      · exact bytes_entry _ _
      · exact bytes_entry _ _
      · refine ⟨⟨_, rfl⟩, ?_⟩
        dsimp only
        rw [bencode, Option.isSome_map]
        refine bencodeItems_isSome fun v hv => ?_
        obtain ⟨bs, -, rfl⟩ := List.mem_map.mp hv
        exact bencode_bytes_isSome bs
    · rw [size_values n tid hlen, answerSize, hn, hps]
    · rw [depth_values n tid hne, answerDepth, hps]

/-- A `get_peers` is answered exactly when the response can be sent. -/
theorem answers_iff {token : Bytes} {es : List Lbl} {n : Node} (h : Clean token es n)
    (hr : n.running = true) (levels : Nat) {d args : List (Bencode.Key × Value)} (addr : Addr)
    {hash : Bytes} (hq : IsQuery d "get_peers" args) (hh : infoHash args = .bytes hash) :
    Answered levels n d addr hash ↔ Sendable levels n hash (msgTid d) := by
  obtain ⟨response, values, peers, hs⟩ := clean_serves h levels (msgTid d) addr hh
  rw [← hs.sendable]
  constructor
  · intro ha
    obtain ⟨_, data, _, _, hm, -⟩ := ha
    rw [handleMessage_getPeers levels addr hq, hs.sends] at hm
    by_contra hnone
    rw [Option.not_isSome_iff_eq_none] at hnone
    rw [send, hr, hnone] at hm
    have hlen := congrArg (fun n => n.out.length) hm
    simp at hlen
  · intro hsome
    obtain ⟨data, hdata⟩ := Option.isSome_iff_exists.mp hsome
    refine ⟨response, data, values, peers, ?_, datagram_eq hdata, hs.held, hs.decoded, hs.peers⟩
    rw [handleMessage_getPeers levels addr hq, hs.sends, send_ok hr hdata]

/-- **Headline.** In every run whose stored announcements carry the token and a port, and whose
responses have byte strings for ids, the store has announced peers only, and a `get_peers` is
answered with them exactly when the response can be sent. -/
theorem announce_store_servable (nodeId token : Bytes) (es : List Lbl) (n : Node)
    (h : ((lts nodeId token).restrict WellFormed).Run (Node.init nodeId token) es n) :
    Servable token es n ∧ (n.running = true → ∀ levels d args addr hash,
      IsQuery d "get_peers" args → infoHash args = .bytes hash → Answered levels n d addr hash →
      Sendable levels n hash (msgTid d)) := by
  have hc := clean_run h
  refine ⟨⟨hc.stored, fun hr levels d args addr hash hq hh => ?_⟩,
    fun hr levels d args addr hash hq hh => ?_⟩
  · exact (answers_iff hc hr levels addr hq hh).mpr
  · exact (answers_iff hc hr levels addr hq hh).mp

/-! ## One key -/

/-- An announcement of port 6881 under the key `h`, with the token. -/
def announcePort : Bytes :=
  encode "d1:ad9:info_hash1:h4:porti6881e5:token1:\u0002e1:q13:announce_peer1:t1:a1:y1:qe"

/-- An announcement of a port that is none, with no token. -/
def announceNone : Bytes :=
  encode "d1:ad9:info_hash1:h4:porti70000ee1:q13:announce_peer1:t1:a1:y1:qe"

def announceLbl : Lbl := .node (.receive 40 9 9 announcePort nodeAddr)

def announced : Node := LTS.after RoutingTables.step (Node.init [1] [2]) [announceLbl]

def silenced : Node :=
  LTS.after RoutingTables.step (Node.init [1] [2])
    [announceLbl, .node (.receive 40 9 9 announceNone otherAddr)]

theorem announce_wellFormed : WellFormed (Node.init [1] [2]) announceLbl := by
  intro d hd
  have hd' : bdecode 40 9 announcePort = .done (.dict [
      (field "a", .dict [(field "info_hash", .bytes (encode "h")), (field "port", .int 6881),
        (field "token", .bytes [2])]),
      (field "q", .bytes (encode "announce_peer")), (field "t", .bytes (encode "a")),
      (field "y", .bytes (encode "q"))]) := by rfl
  rw [hd'] at hd
  cases hd
  refine ⟨fun args key port hq hk hp => ?_, fun hr => absurd hr (by decide +kernel)⟩
  have hargs : (.dict args : Value) = .dict [(field "info_hash", .bytes (encode "h")),
      (field "port", .int 6881), (field "token", .bytes [2])] := hq.args.symm
  cases hargs
  refine ⟨rfl, 6881, ?_, by decide, by decide⟩
  cases hp
  rfl

theorem servable_announced :
    announced.announced.entries = [(.bytes (encode "h"), [(nodeAddr.ip, .int 6881)])] ∧
      Servable [2] [announceLbl] announced := by
  have h : RoutingTables.step (Node.init [1] [2]) announceLbl = some announced :=
    LTS.step_after (by decide +kernel)
  have hentries : announced.announced.entries =
      [(.bytes (encode "h"), [(nodeAddr.ip, .int 6881)])] := by
    decide +kernel
  exact ⟨hentries, (announce_store_servable [1] [2] _ _ (.single ⟨announce_wellFormed, h⟩)).1⟩

/-- The announcement of `otherAddr` stays in the store, and no `get_peers` for
the key is answered from then on. -/
theorem silenced_key :
    ¬ ∀ (nodeId token : Bytes) (es : List Lbl) (n : Node),
      (lts nodeId token).Run (Node.init nodeId token) es n → Servable token es n := by
  intro h
  have hrun : (lts [1] [2]).Run (Node.init [1] [2])
      [announceLbl, .node (.receive 40 9 9 announceNone otherAddr)] silenced :=
    LTS.run_of_exec (LTS.exec_after (by decide +kernel))
  have hq : IsQuery [(field "a", .dict [(field "info_hash", .bytes (encode "h"))]),
      (field "q", .bytes (encode "get_peers")), (field "t", .bytes (encode "a")),
      (field "y", .bytes (encode "q"))] "get_peers" [(field "info_hash", .bytes (encode "h"))] :=
    ⟨rfl, rfl, rfl⟩
  have hrunning : silenced.running = true := by decide +kernel
  have hstore : silenced.announced.get? (.bytes (encode "h")) =
      some [(nodeAddr.ip, .int 6881), (otherAddr.ip, .int 70000)] := by decide +kernel
  have hid : silenced.nodeId = [1] := by decide +kernel
  have htok : silenced.token = [2] := by decide +kernel
  have hsend : Sendable 9 silenced (encode "h") (.bytes (encode "a")) := by
    refine ⟨rfl, ?_, ?_⟩
    · rw [answerSize, hid, htok, hstore]
      decide
    · rw [answerDepth, hstore]
      decide
  obtain ⟨response, data, values, peers, hm, -⟩ :=
    (h [1] [2] _ _ hrun).served hrunning 9 _ _ nodeAddr (encode "h") hq rfl hsend
  have hkey : ((get [(field "info_hash", .bytes (encode "h"))] "info_hash").getD
      (.bytes [])).key = some (.bytes (encode "h")) := rfl
  have hport : [(nodeAddr.ip, Bencode.Key.int 6881), (otherAddr.ip, .int 70000)].mapM
      encodePeer = none := by
    decide
  rw [handleMessage_getPeers 9 nodeAddr hq, handleGetPeers] at hm
  simp only [hkey, hstore, Option.getD_some, hport] at hm
  have hlen := congrArg (fun n => n.out.length) hm
  simp at hlen

end Wormhole.L5.DhtAnnounced
