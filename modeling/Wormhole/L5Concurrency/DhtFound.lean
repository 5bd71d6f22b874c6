import Mathlib.Data.Nat.Digits.Defs
import Wormhole.L1Encoding.BencodeRoundTrip
import Wormhole.L5Concurrency.DhtAnnounced
import Wormhole.L5Concurrency.DhtLookup
import Wormhole.L5Concurrency.DhtPublish

/-!
# What is announced is found

Three nodes: one announces itself under an info hash, one stores the announcement, one looks for the
peers of the info hash. The messages go over the wire, as `_bencode` writes and `_bdecode` reads
them (`read_msg`), and between them the storing node may go through any run.

* `stored_of_announced`: the announcement is in the store as long as the node lives.
* `answered_with`: a later `get_peers` is answered with it, as long as all that is announced under
  the info hash fits in a datagram.
* `announced_found`: a search that gets to the storing node returns it, or as many peers as it was
  to find.
-/
namespace Wormhole.L5.DhtFound
open Wormhole.L1 Wormhole.L1.Bencode Wormhole.L4.Dht Wormhole.L5.DhtQueries Wormhole.L5.DhtAnnounced
  Wormhole.L5.RoutingTables

/-! ## Messages on the wire -/

theorem eqEntries_lookup {es fs : List (Bencode.Key × Value)} (h : eqEntries es fs = true)
    {k : Bencode.Key} {v : Value} (hk : (k, v) ∈ es) :
    ∃ u, Dict.lookup k fs = some u ∧ v.eq u = true := by
  induction es with
  | nil => cases hk
  | cons e es ih =>
    obtain ⟨key, value⟩ := e
    rw [eqEntries, Bool.and_eq_true] at h
    rcases List.mem_cons.mp hk with he | he
    · cases he
      cases hl : Dict.lookup k fs with
      | none => rw [hl] at h; cases h.1
      | some u => rw [hl] at h; exact ⟨u, rfl, h.1⟩
    · exact ih h.2 he

/-- Under a name, a dict has what an equal dict has. -/
theorem get_of_eq {es : List (Bencode.Key × Value)} {w : Value}
    (h : (Value.dict es).eq w = true) : ∃ fs, w = .dict fs ∧
      ∀ name v, get es name = some v → ∃ u, get fs name = some u ∧ v.eq u = true := by
  cases w with
  | int | bytes | list => simp [Value.eq] at h
  | dict fs =>
    rw [Value.eq, Bool.and_eq_true] at h
    exact ⟨fs, rfl, fun name v hv => eqEntries_lookup h.2 (Dict.mem_of_lookup hv)⟩

theorem eq_bytes {bs : Bytes} {u : Value} (h : (Value.bytes bs).eq u = true) : u = .bytes bs := by
  cases u with
  | bytes cs =>
    simp only [Value.eq, decide_eq_true_eq] at h
    rw [h]
  | int | list | dict => simp [Value.eq] at h

theorem eq_int {n : Int} {u : Value} (h : (Value.int n).eq u = true) : u = .int n := by
  cases u with
  | int m =>
    simp only [Value.eq, decide_eq_true_eq] at h
    rw [h]
  | bytes | list | dict => simp [Value.eq] at h

theorem eq_byteStrings {values : List Bytes} {u : Value}
    (h : (Value.list (values.map .bytes)).eq u = true) : u = .list (values.map .bytes) := by
  cases u with
  | list us =>
    rw [Value.eq] at h
    induction values generalizing us with
    | nil =>
      cases us with
      | nil => rfl
      | cons => simp [eqItems] at h
    | cons v values ih =>
      cases us with
      | nil => simp [eqItems] at h
      | cons u us =>
        rw [List.map_cons, eqItems, Bool.and_eq_true] at h
        have hrest := ih us h.2
        rw [Value.list.injEq] at hrest
        rw [eq_bytes h.1, hrest, List.map_cons]
  | int | bytes | dict => simp [Value.eq] at h

/-- What is handed to the socket for a message. -/
def wire (msg : Value) : Bytes := (bencode msg).getD []

/-- A message is read as an equal one, given the work and the depth it takes. -/
theorem read_msg {msg : Value} (h : msg.Codable) :
    bencode msg = some (wire msg) ∧ ∃ w enough, msg.eq w = true ∧
      ∀ fuel depth, enough ≤ fuel → msg.depth ≤ depth →
        bdecode fuel depth (wire msg) = .done w := by
  obtain ⟨bs, w, hbs, -, ⟨n, hn⟩, heq⟩ := read_value msg h
  have hwire : wire msg = bs := by rw [wire, hbs, Option.getD_some]
  refine ⟨by rw [hwire, hbs], w, n, heq, fun fuel depth hf hd => ?_⟩
  have hread : decodeItem bs fuel depth 0 = .done (w, bs.length) := by
    simpa using hn [] [] fuel depth hf hd
  rw [hwire, bdecode, hread]
  rfl

/-! ## What the messages say -/

theorem digits_le {n : Nat} (h : n < 10 ^ 5) : (toString n).length ≤ maxStrDigits :=
  Nat.le_trans (Nat.repr_length n 5 (by decide) h) (by decide)

/-- A byte string that is no longer than an info hash is. -/
theorem codable_short {bs : Bytes} (h : bs.length ≤ 20) : (Value.bytes bs).Codable :=
  digits_le (Nat.lt_of_le_of_lt h (by decide))

/-- The entry that a name makes is one of a dict that can be sent. -/
theorem codable_field {name : String} (h : (encode name).length ≤ 20) {v : Value} (hv : v.Codable)
    {es : List (Bencode.Key × Value)} (hes : CodableEntries es) :
    CodableEntries ((field name, v) :: es) :=
  ⟨⟨encode name, rfl, codable_short h⟩, hv, hes⟩

/-- The `announce_peer` that is sent to a node which answered `get_peers` with `response`. -/
def announceMsg (sender : Node) (tid infoHash : Bytes) (port : Int) (impliedPort : Bool)
    (response : List (Bencode.Key × Value)) : Value :=
  queryMsg sender tid (encode "announce_peer")
    (DhtPublish.announceArgs infoHash port impliedPort response)

def getPeersMsg (sender : Node) (tid infoHash : Bytes) : Value :=
  queryMsg sender tid (encode "get_peers") [(field "info_hash", .bytes infoHash)]

/-- A query comes over the wire as one of its kind, with its arguments. -/
theorem isQuery_of_eq {sender : Node} {tid : Bytes} {method : String}
    {args : List (Bencode.Key × Value)} {w : Value}
    (h : (queryMsg sender tid (encode method) args).eq w = true) :
    ∃ d args', w = .dict d ∧ IsQuery d method args' ∧ msgTid d = .bytes tid ∧
      ∀ name v, get (Dict.assign (field "id") (.bytes sender.nodeId) args) name = some v →
        ∃ u, get args' name = some u ∧ v.eq u = true := by
  obtain ⟨d, rfl, hget⟩ := get_of_eq h
  obtain ⟨t, ht, he⟩ := hget "t" (.bytes tid) rfl
  cases eq_bytes he
  obtain ⟨y, hy, he⟩ := hget "y" (.bytes (encode "q")) rfl
  cases eq_bytes he
  obtain ⟨q, hq, he⟩ := hget "q" (.bytes (encode method)) rfl
  cases eq_bytes he
  obtain ⟨a, ha, he⟩ := hget "a" _ rfl
  obtain ⟨args', rfl, hargs⟩ := get_of_eq he
  exact ⟨d, args', rfl, ⟨hy, hq, by rw [ha, Option.getD_some]⟩,
    by rw [msgTid, ht, Option.getD_some], hargs⟩

theorem codable_query {sender : Node} {tid method : Bytes} {args : List (Bencode.Key × Value)}
    (htid : tid.length ≤ 20) (hm : method.length ≤ 20)
    (hargs : (Value.dict (Dict.assign (field "id") (.bytes sender.nodeId) args)).Codable) :
    (queryMsg sender tid method args).Codable :=
  ⟨codable_field (by decide) (codable_short htid) (codable_field (by decide)
    (codable_short (by decide)) (codable_field (by decide) (codable_short hm)
      (codable_field (by decide) hargs trivial))),
    show [field "t", field "y", field "q", field "a"].Nodup by decide⟩

variable {sender : Node} {tid infoHash token : Bytes} {port : Int} {impliedPort : Bool}
  {response : List (Bencode.Key × Value)}

theorem codable_announce (impliedPort : Bool) (hid : sender.nodeId.length ≤ 20)
    (htid : tid.length ≤ 20) (hhash : infoHash.length = 20) (hport : 1 ≤ port ∧ port ≤ 65535)
    (ht : get response "token" = some (.bytes token)) (htok : token.length ≤ 20) :
    (announceMsg sender tid infoHash port impliedPort response).Codable := by
  have hp : (Value.int port).Codable := digits_le (by omega)
  have hone : (Value.int 1).Codable := digits_le (by decide)
  refine codable_query htid (by decide) ?_
  rw [DhtPublish.announceArgs, ht, Option.getD_some]
  cases impliedPort with
  | false =>
    exact ⟨codable_field (by decide) (codable_short (by omega)) (codable_field (by decide) hp
      (codable_field (by decide) (codable_short htok) (codable_field (by decide)
        (codable_short hid) trivial))),
      show [field "info_hash", field "port", field "token", field "id"].Nodup by decide⟩
  | true =>
    exact ⟨codable_field (by decide) (codable_short (by omega)) (codable_field (by decide) hp
      (codable_field (by decide) (codable_short htok) (codable_field (by decide) hone
        (codable_field (by decide) (codable_short hid) trivial)))),
      show [field "info_hash", field "port", field "token", field "implied_port",
        field "id"].Nodup by decide⟩

theorem codable_getPeers (hid : sender.nodeId.length ≤ 20) (htid : tid.length ≤ 20)
    (hhash : infoHash.length = 20) : (getPeersMsg sender tid infoHash).Codable :=
  codable_query htid (by decide) ⟨codable_field (by decide) (codable_short (by omega))
    (codable_field (by decide) (codable_short hid) trivial),
    show [field "info_hash", field "id"].Nodup by decide⟩

/-! ## The store -/

/-- `(ip, port)` is announced under the info hash. -/
def Stored (n : Node) (infoHash : Bytes) (ip : Ip) (port : Int) : Prop :=
  (ip, Bencode.Key.int port) ∈ (n.announced.get? (.bytes infoHash)).getD []

theorem mem_addPeer_iff {peers : List Announced} {x y : Announced} :
    x ∈ addPeer peers y ↔ x ∈ peers ∨ x = y := DhtLookup.mem_added

/-- No announcement is taken back. -/
theorem stored_step {n n' : Node} {l : RoutingTables.Lbl} {ip : Ip}
    (h : Stored n infoHash ip port) (hst : RoutingTables.step n l = some n') :
    Stored n' infoHash ip port := by
  unfold Stored at *
  obtain hk | ⟨fuel, depth, levels, data, addr, msg, -, -, rfl⟩ := step_store hst
  · rw [hk.announced]
    exact h
  · obtain ha | ⟨d, args, key, -, -, -, ha⟩ := handleMessage_announced levels n msg addr
    · rw [ha]
      exact h
    · rw [ha, Dict.get?_set]
      split
      · rename_i hkey
        rw [Option.getD_some, stored]
        rw [← hkey] at h
        split
        · exact h
        · exact mem_addPeer_iff.mpr (.inl h)
      · exact h

theorem handleMessage_announcePeer {n : Node} {d args : List (Bencode.Key × Value)} (levels : Nat)
    (addr : Addr) (h : IsQuery d "announce_peer" args) :
    handleMessage levels n (.dict d) addr = handleAnnouncePeer levels n (msgTid d) args addr := by
  have hping : Value.isBytes (encode "ping") (.bytes (encode "announce_peer")) = false := rfl
  have hfind : Value.isBytes (encode "find_node") (.bytes (encode "announce_peer")) = false := rfl
  have hget : Value.isBytes (encode "get_peers") (.bytes (encode "announce_peer")) = false := rfl
  have hown : Value.isBytes (encode "announce_peer") (.bytes (encode "announce_peer")) = true := rfl
  rw [handleMessage_isQuery levels addr h]
  simp only [handleQuery, h.method, h.args, Option.getD_some, hping, hfind, hget, hown, if_true,
    Bool.false_eq_true, if_false]

/-- The handler of an announcement stores it. -/
theorem stored_handle {n : Node} {d args : List (Bencode.Key × Value)} (levels : Nat) (addr : Addr)
    (h : IsQuery d "announce_peer" args) (hhash : get args "info_hash" = some (.bytes infoHash))
    (hport : get args "port" = some (.int port)) :
    Stored (handleMessage levels n (.dict d) addr) infoHash addr.ip port := by
  have hk : ((get args "info_hash").getD (.bytes [])).key = some (.bytes infoHash) := by
    rw [hhash]
    rfl
  have hp : ((get args "port").getD (.int addr.port)).key = some (.int port) := by
    rw [hport]
    rfl
  rw [handleMessage_announcePeer levels addr h, handleAnnouncePeer, Stored]
  simp only [hk, hp, (send_responds levels _ _ addr).announced, Dict.get?_set_self,
    Option.getD_some]
  exact mem_addPeer_iff.mpr (.inr rfl)

/-- What an announcement that came over the wire asks to be stored. -/
theorem announce_read {w : Value}
    (h : (announceMsg sender tid infoHash port impliedPort response).eq w = true) :
    ∃ d args, w = .dict d ∧ IsQuery d "announce_peer" args ∧
      get args "info_hash" = some (.bytes infoHash) ∧ get args "port" = some (.int port) := by
  obtain ⟨d, args, rfl, hq, -, hargs⟩ := isQuery_of_eq h
  refine ⟨d, args, rfl, hq, ?_, ?_⟩
  · obtain ⟨u, hu, he⟩ := hargs "info_hash" (.bytes infoHash) (by cases impliedPort <;> rfl)
    rw [hu, eq_bytes he]
  · obtain ⟨u, hu, he⟩ := hargs "port" (.int port) (by cases impliedPort <;> rfl)
    rw [hu, eq_int he]

/-- An announcement that came in stays in the store, whatever happens afterwards. -/
theorem stored_of_announced (impliedPort : Bool) (hid : sender.nodeId.length ≤ 20)
    (htid : tid.length ≤ 20) (hhash : infoHash.length = 20) (hport : 1 ≤ port ∧ port ≤ 65535)
    (ht : get response "token" = some (.bytes token)) (htok : token.length ≤ 20) :
    ∃ enough, ∀ fuel depth levels addr, enough ≤ fuel → 3 ≤ depth →
      ∀ (nodeId own : Bytes) (n n' : Node) (ls : List RoutingTables.Lbl),
        (lts nodeId own).Run n ls n' →
        .node (.receive fuel depth levels
          (wire (announceMsg sender tid infoHash port impliedPort response)) addr) ∈ ls →
        Stored n' infoHash addr.ip port := by
  obtain ⟨-, w, enough, heq, hread⟩ :=
    read_msg (codable_announce impliedPort hid htid hhash hport ht htok)
  have hdepth : (announceMsg sender tid infoHash port impliedPort response).depth = 3 := by
    rw [announceMsg, DhtPublish.announceArgs, ht]
    cases impliedPort <;> rfl
  refine ⟨enough, fun fuel depth levels addr hf hd nodeId own n n' ls hr hl => ?_⟩
  have hdone := hread fuel depth hf (by omega)
  obtain ⟨d, args, rfl, hq, hh, hp⟩ := announce_read heq
  induction hr with
  | nil => cases hl
  | @cons s t r l ls hst hrest ih =>
    have hst' : RoutingTables.step s l = some t := hst
    rcases List.mem_cons.mp hl with rfl | hl
    · -- from here on nothing takes it back
      refine hrest.invariant (I := fun n => Stored n infoHash addr.ip port)
        (fun s l t hs hst => stored_step hs hst) ?_
      simp only [RoutingTables.step, DhtQueries.step, hdone] at hst'
      split at hst'
      · split at hst'
        · cases hst'
          exact stored_handle levels addr hq hh hp
        · cases hst'
      · cases hst'
    · exact ih hl

/-! ## The answer -/

/-- The answer to a `get_peers` where there are peers. -/
def valuesMsg (n : Node) (tid : Bytes) (values : List Bytes) : Value :=
  responseMsg (.bytes tid) (valuesResponse n values)

theorem codable_byteStrings {values : List Bytes} (h : ∀ v ∈ values, v.length ≤ 20) :
    CodableItems (values.map .bytes) := by
  induction values with
  | nil => trivial
  | cons v values ih =>
    exact ⟨codable_short (h v List.mem_cons_self), ih fun u hu => h u (List.mem_cons_of_mem v hu)⟩

theorem codable_values {n : Node} {values : List Bytes} (hid : n.nodeId.length ≤ 20)
    (htok : n.token.length ≤ 20) (htid : tid.length ≤ 20) (hv : ∀ v ∈ values, v.length ≤ 20) :
    (valuesMsg n tid values).Codable := by
  have hlist : (Value.list (values.map .bytes)).Codable := codable_byteStrings hv
  have hr : (Value.dict [(field "id", .bytes n.nodeId), (field "token", .bytes n.token),
      (field "values", .list (values.map .bytes))]).Codable :=
    ⟨codable_field (by decide) (codable_short hid) (codable_field (by decide) (codable_short htok)
      (codable_field (by decide) hlist trivial)),
      show [field "id", field "token", field "values"].Nodup by decide⟩
  exact ⟨codable_field (by decide) (codable_short htid) (codable_field (by decide)
    (codable_short (by decide)) (codable_field (by decide) hr trivial)),
    show [field "t", field "y", field "r"].Nodup by decide⟩

/-- With ids and tokens of the usual length, 8179 peers fit in a datagram. -/
theorem sendable_values {n : Node} {values : List Bytes} {levels : Nat}
    (hid : n.nodeId.length = 20) (htok : n.token.length = 8) (htid : tid.length = 2)
    (hv : ∀ v ∈ values, v.length = 6) (hne : values ≠ []) (hmany : values.length ≤ 8179)
    (hlevels : 4 ≤ levels) (hsend : (bencode (valuesMsg n tid values)).isSome = true) :
    datagram levels (valuesMsg n tid values) = some (wire (valuesMsg n tid values)) := by
  have hp : ∀ (bs : Bytes) (k m : Nat), bs.length = k → (toString k).length + 1 + k = m →
      (lengthPrefixed bs).length = m := by
    intro bs k m hbs hm
    rw [lengthPrefixed_eq, List.length_append, List.length_cons, length_decimal, hbs]
    omega
  have hsize : (valuesMsg n tid values).size ≤ maxDatagram := by
    rw [valuesMsg, size_values n _ hv, Value.size, hp _ 20 23 hid rfl, hp _ 8 10 htok rfl,
      hp _ 2 4 htid rfl, maxDatagram]
    omega
  have hdepth : (valuesMsg n tid values).depth ≤ levels := by
    rw [valuesMsg, depth_values n _ hne, Value.depth]
    omega
  obtain ⟨data, hdata⟩ :=
    Option.isSome_iff_exists.mp (datagram_isSome_iff.mpr ⟨hsend, hsize, hdepth⟩)
  rw [hdata, wire, datagram_eq hdata, Option.getD_some]

/-- All of the values decode, so all of them are named. -/
theorem decodeElements_bytes {values : List Bytes} {addrs : List Addr}
    (h : values.mapM decodePeer = some addrs) :
    (DhtLookup.decodeElements (values.map .bytes)).1 = addrs := by
  induction values generalizing addrs with
  | nil => cases h; rfl
  | cons v values ih =>
    simp only [List.mapM_cons, Option.bind_eq_bind, Option.bind_eq_some_iff, Option.pure_def,
      Option.some.injEq] at h
    obtain ⟨addr, ha, rest, hrest, rfl⟩ := h
    rw [List.map_cons, DhtLookup.decodeElements, DhtLookup.decodeElement, ha]
    dsimp only
    rw [ih hrest]

/-- What the answer names, as the one who asked reads it. -/
theorem named_of_eq {n : Node} {values : List Bytes} {addrs : List Addr} {w : Value}
    (h : (valuesMsg n tid values).eq w = true) (hd : values.mapM decodePeer = some addrs) :
    ∃ d, w = .dict d ∧ isResponse d = true ∧ msgTid d = .bytes tid ∧
      DhtLookup.named (some (msgResponse d)) = addrs := by
  obtain ⟨d, rfl, hget⟩ := get_of_eq h
  obtain ⟨t, ht, he⟩ := hget "t" (.bytes tid) rfl
  cases eq_bytes he
  obtain ⟨y, hy, he⟩ := hget "y" (.bytes (encode "r")) rfl
  cases eq_bytes he
  obtain ⟨r, hr, he⟩ := hget "r" _ rfl
  obtain ⟨fields, rfl, hfields⟩ := get_of_eq he
  obtain ⟨vs, hvs, he⟩ := hfields "values" (.list (values.map .bytes)) rfl
  cases eq_byteStrings he
  refine ⟨d, rfl, by rw [isResponse, hy]; rfl, by rw [msgTid, ht, Option.getD_some], ?_⟩
  rw [msgResponse, hr, Option.getD_some, DhtLookup.named, DhtLookup.answerValues, hvs]
  exact decodeElements_bytes hd

/-! ## The node that stores -/

theorem getPeers_read {w : Value} (h : (getPeersMsg sender tid infoHash).eq w = true) :
    ∃ d args, w = .dict d ∧ IsQuery d "get_peers" args ∧ msgTid d = .bytes tid ∧
      get args "info_hash" = some (.bytes infoHash) := by
  obtain ⟨d, args, rfl, hq, ht, hargs⟩ := isQuery_of_eq h
  obtain ⟨u, hu, he⟩ := hargs "info_hash" (.bytes infoHash) rfl
  exact ⟨d, args, rfl, hq, ht, by rw [hu, eq_bytes he]⟩

/-- A `get_peers` for an info hash with peers is answered with them. -/
theorem handle_values {n : Node} {d args : List (Bencode.Key × Value)} {levels : Nat}
    {source : Addr} (hq : IsQuery d "get_peers" args) (ht : msgTid d = .bytes tid)
    (hh : get args "info_hash" = some (.bytes infoHash)) (hrun : n.running = true)
    (hne : (n.announced.get? (.bytes infoHash)).getD [] ≠ []) {values : List Bytes}
    (he : ((n.announced.get? (.bytes infoHash)).getD []).mapM encodePeer = some values)
    (hsend : datagram levels (valuesMsg n tid values) = some (wire (valuesMsg n tid values))) :
    handleMessage levels n (.dict d) source =
      { n with out := n.out ++ [(wire (valuesMsg n tid values), source)] } := by
  have hk : ((get args "info_hash").getD (.bytes [])).key = some (.bytes infoHash) := by
    rw [hh]
    rfl
  obtain ⟨peer, peers, hps⟩ := List.exists_cons_of_ne_nil hne
  rw [handleMessage_getPeers levels source hq, handleGetPeers, ht]
  simp only [hk]
  rw [hps] at he ⊢
  simp only [he]
  exact send_ok hrun hsend

/-- What the storing node sends to one who asks, and what is read there. -/
structure Answers (n : Node) (fuel depth levels : Nat) (asker : Node) (tid infoHash : Bytes)
    (source : Addr) (ip : Ip) (port : Int) (data : Bytes) (d : List (Bencode.Key × Value)) :
    Prop where
  sent : RoutingTables.step n
      (.node (.receive fuel depth levels (wire (getPeersMsg asker tid infoHash)) source)) =
    some { n with out := n.out ++ [(data, source)] }
  read : ∃ enough, ∀ fuel depth, enough ≤ fuel → 4 ≤ depth →
    bdecode fuel depth data = .done (.dict d)
  response : isResponse d = true
  tid : msgTid d = .bytes tid
  named : ⟨ip, port.toNat⟩ ∈ DhtLookup.named (some (msgResponse d))

theorem answered_with {n : Node} {ls : List RoutingTables.Lbl} (hc : Clean token ls n)
    (hrun : n.running = true) {ip : Ip} (hs : Stored n infoHash ip port)
    (hmany : ((n.announced.get? (.bytes infoHash)).getD []).length ≤ 8179)
    (hnode : n.nodeId.length = 20) (htok : n.token.length = 8) (hid : sender.nodeId.length ≤ 20)
    (htid : tid.length = 2) (hhash : infoHash.length = 20) :
    ∃ enough data d, ∀ fuel depth levels source, enough ≤ fuel → 3 ≤ depth → 4 ≤ levels →
      source.port < 65536 →
      Answers n fuel depth levels sender tid infoHash source ip port data d := by
  obtain ⟨values, addrs, he, hn, hlen, hd, ha⟩ := values_of_peers (hc.ports (.bytes infoHash))
  have hpeers := List.ne_nil_of_mem hs
  have hne : values ≠ [] := by
    intro hnil
    rw [hnil] at hn
    exact hpeers (List.eq_nil_of_length_eq_zero hn.symm)
  obtain ⟨hsend, w, enough, heq, hread⟩ := read_msg (codable_values (n := n) (by omega) (by omega)
    (show tid.length ≤ 20 by omega) fun v hv => by rw [hlen v hv]; decide)
  obtain ⟨d, rfl, hresp, hdtid, hnamed⟩ := named_of_eq heq hd
  obtain ⟨-, q, asked, hqeq, hqread⟩ :=
    read_msg (codable_getPeers hid (show tid.length ≤ 20 by omega) hhash)
  obtain ⟨dq, args, rfl, hq, hqtid, hh⟩ := getPeers_read hqeq
  refine ⟨asked, wire (valuesMsg n tid values), d,
    fun fuel depth levels source hf hdepth hlevels hsource => ?_⟩
  refine ⟨?_, ⟨enough, fun fuel depth hf hd => ?_⟩, hresp, hdtid, ?_⟩
  · have hdone := hqread fuel depth hf hdepth
    have hgram : datagram levels (valuesMsg n tid values) = some (wire (valuesMsg n tid values)) :=
      sendable_values hnode htok htid hlen hne (by omega) hlevels (by rw [hsend]; rfl)
    have hsock : fromSocket (.receive fuel depth levels (wire (getPeersMsg sender tid infoHash))
        source) = true := decide_eq_true hsource
    rw [RoutingTables.step, if_pos hsock, DhtQueries.step, if_pos hrun, hdone]
    exact congrArg some (handle_values hq hqtid hh hrun hpeers he hgram)
  · refine hread fuel depth hf (Nat.le_trans (Nat.le_of_eq ?_) hd)
    rw [valuesMsg, depth_values n _ hne]
    rfl
  · rw [hnamed]
    obtain ⟨a, hmem, heq⟩ := List.mem_map.mp (by rw [ha]; exact hs)
    have hport : (a.port : Int) = port := by
      have := (Prod.mk.inj heq).2
      rwa [Bencode.Key.int.injEq] at this
    have hip : a.ip = ip := (Prod.mk.inj heq).1
    have haddr : a = ⟨ip, port.toNat⟩ := by
      rw [← hip, ← hport]
      rfl
    rwa [← haddr]

/-! ## From the announcement to the search -/

/-- An announcement with the token that the node hands out is well formed. -/
theorem announce_wellFormed {n : Node} {fuel depth levels : Nat} {w : Value} {addr : Addr}
    (hd : bdecode fuel depth (wire (announceMsg sender tid infoHash port impliedPort response)) =
      .done w)
    (heq : (announceMsg sender tid infoHash port impliedPort response).eq w = true)
    (ht : get response "token" = some (.bytes n.token)) (hport : 1 ≤ port ∧ port ≤ 65535) :
    WellFormed n (.node (.receive fuel depth levels
      (wire (announceMsg sender tid infoHash port impliedPort response)) addr)) := by
  obtain ⟨d, args, rfl, hq, -, hargs⟩ := isQuery_of_eq heq
  obtain ⟨u, htok, he⟩ := hargs "token" (.bytes n.token) (by
    rw [DhtPublish.announceArgs, ht, Option.getD_some]
    cases impliedPort <;> rfl)
  cases eq_bytes he
  obtain ⟨u, hp, he⟩ := hargs "port" (.int port) (by cases impliedPort <;> rfl)
  cases eq_int he
  intro d' hd'
  rw [hd] at hd'
  cases hd'
  refine ⟨fun args' key p hq' _ hp' => ?_, fun hr => ?_⟩
  · have hsame : (.dict args' : Value) = .dict args := by rw [← hq.args, hq'.args]
    cases hsame
    rw [announcedPort, hp, Option.getD_some] at hp'
    exact ⟨htok, port, (Option.some.inj hp').symm, hport⟩
  · rw [isResponse, hq.kind] at hr
    cases hr

/-- **Headline.** A node that another one announced itself to, with the token that it hands out, is
in a run whose announcements are well formed. Whatever else happens in it, as long as no more peers
are announced under the info hash than fit in a datagram, a later `get_peers` for it is answered
with the announced address, and a search that gets to the node and that answer returns the address,
or as many peers as it was to find. -/
theorem announced_found (nodeId token : Bytes) (announcer asker : Node) (tid tid' infoHash : Bytes)
    (port : Int) (impliedPort : Bool) (response : List (Bencode.Key × Value))
    (hnode : nodeId.length = 20) (htoken : token.length = 8) (hid : announcer.nodeId.length = 20)
    (hid' : asker.nodeId.length = 20) (htid : tid.length = 2) (htid' : tid'.length = 2)
    (hhash : infoHash.length = 20) (hport : 1 ≤ port ∧ port ≤ 65535)
    (ht : get response "token" = some (.bytes token)) :
    ∃ enough, ∀ fuel depth levels addr ls n, enough ≤ fuel → 3 ≤ depth →
      ((lts nodeId token).restrict WellFormed).Run (Node.init nodeId token) ls n →
      .node (.receive fuel depth levels
        (wire (announceMsg announcer tid infoHash port impliedPort response)) addr) ∈ ls →
      n.running = true → ((n.announced.get? (.bytes infoHash)).getD []).length ≤ 8179 →
      ∃ more data d,
        (∀ fuel depth levels source, more ≤ fuel → 3 ≤ depth → 4 ≤ levels → source.port < 65536 →
          Answers n fuel depth levels asker tid' infoHash source addr.ip port data d) ∧
        ∀ table answer stored maxPeers fuel t, DhtLookup.Known table answer stored →
          answer stored = some (msgResponse d) →
          DhtLookup.getPeers fuel table answer infoHash maxPeers = .ok (some t) →
          ⟨addr.ip, port.toNat⟩ ∈ t.peers ∨ maxPeers ≤ t.peers.length := by
  have hida : announcer.nodeId.length ≤ 20 := Nat.le_of_eq hid
  have hidb : asker.nodeId.length ≤ 20 := Nat.le_of_eq hid'
  have htida : tid.length ≤ 20 := by omega
  obtain ⟨enough, hstored⟩ :=
    stored_of_announced impliedPort hida htida hhash hport ht (by omega)
  refine ⟨enough, fun fuel depth levels addr ls n hf hdepth hr hmem hrun hmany => ?_⟩
  have hs := hstored fuel depth levels addr hf hdepth nodeId token _ n ls hr.of_restrict hmem
  have hc := clean_run hr
  have hkeep : n.nodeId = nodeId := by
    refine hr.of_restrict.invariant (I := fun n => n.nodeId = nodeId)
      (fun s l t hs (hst : RoutingTables.step s l = some t) => ?_) rfl
    rw [(step_own hst).2, hs]
  obtain ⟨more, data, d, hans⟩ := answered_with hc hrun hs hmany (by rw [hkeep]; exact hnode)
    (by rw [hc.ours]; exact htoken) hidb htid' hhash
  refine ⟨more, data, d, hans, fun table answer stored maxPeers fuel t hk ha hret => ?_⟩
  rw [DhtLookup.getPeers_ok hhash] at hret
  have hfinds := DhtLookup.finds_of_loop (Except.ok.inj hret)
  have hnamed := (hans more 3 4 nodeAddr (Nat.le_refl more) (Nat.le_refl 3) (Nat.le_refl 4)
    (by decide)).named
  by_cases hlt : (t.peers.length : Int) < maxPeers
  · refine .inl (hfinds.complete hlt stored hk _ ?_)
    rwa [ha]
  · exact .inr (by omega)

/-! ## One announcement -/

def own : Bytes := List.replicate 8 7

def other : Node := .init (List.replicate 20 1) (List.replicate 8 1)

def handedOut : List (Bencode.Key × Value) := [(field "token", .bytes own)]

def hash : Bytes := List.replicate 20 3

def initial : Node := .init (List.replicate 20 2) own

/-- The first announcement under a key. -/
theorem stored_initial (args : List (Bencode.Key × Value)) (key : Bencode.Key) (addr : Addr) :
    (stored initial args key addr).length ≤ 8179 := by
  have hnone : (initial.announced.get? key).getD [] = [] := rfl
  unfold stored
  rw [hnone]
  dsimp only
  split
  · exact Nat.zero_le _
  · exact Nat.le_of_ble_eq_true rfl

/-- The announcement of port 8470 comes in, and a node that asks for it is answered. -/
theorem found_once : ∃ fuel more n data d,
    ((lts (List.replicate 20 2) own).restrict WellFormed).Run initial
      [.node (.receive fuel 3 3 (wire (announceMsg other [0, 1] hash 8470 false handedOut))
        nodeAddr)] n ∧
    Answers n more 3 4 other [0, 2] hash otherAddr nodeAddr.ip 8470 data d := by
  have hport : (1 : Int) ≤ 8470 ∧ (8470 : Int) ≤ 65535 := by decide
  have ht : get handedOut "token" = some (.bytes own) := rfl
  obtain ⟨enough, h⟩ := announced_found (List.replicate 20 2) own other other [0, 1] [0, 2] hash
    8470 false handedOut rfl rfl rfl rfl rfl rfl rfl hport ht
  have hcod : (announceMsg other [0, 1] hash 8470 false handedOut).Codable :=
    codable_announce false (by decide) (by decide) rfl hport ht (by decide)
  obtain ⟨-, w, work, heq, hread⟩ := read_msg hcod
  have hd := hread (max enough work) 3 (Nat.le_max_right ..) (Nat.le_refl 3)
  have hw : WellFormed initial (.node (.receive (max enough work) 3 3
      (wire (announceMsg other [0, 1] hash 8470 false handedOut)) nodeAddr)) :=
    announce_wellFormed hd heq ht hport
  obtain ⟨d, args, rfl, hq, -⟩ := announce_read heq
  have hst : RoutingTables.step initial (.node (.receive (max enough work) 3 3
      (wire (announceMsg other [0, 1] hash 8470 false handedOut)) nodeAddr)) =
        some (handleMessage 3 initial (.dict d) nodeAddr) := by
    rw [RoutingTables.step, if_pos (show fromSocket (.receive _ _ _ _ nodeAddr) = true from rfl),
      DhtQueries.step, if_pos (show initial.running = true from rfl), hd]
  have hmsg := handleMessage_announcePeer (n := initial) 3 nodeAddr hq
  have hrun : (handleMessage 3 initial (.dict d) nodeAddr).running = true := by
    rw [hmsg, (handleAnnouncePeer_aside 3 _ _ _ nodeAddr).running]
    rfl
  have hone : (((handleMessage 3 initial (.dict d) nodeAddr).announced.get?
      (.bytes hash)).getD []).length ≤ 8179 := by
    obtain ha | ⟨d', args', key, -, -, -, ha⟩ :=
      handleMessage_announced 3 initial (.dict d) nodeAddr
    · rw [ha]
      decide
    · rw [ha, Dict.get?_set]
      split
      · exact stored_initial args' key nodeAddr
      · decide
  obtain ⟨more, data, answer, hans, -⟩ := h (max enough work) 3 3 nodeAddr _ _ (Nat.le_max_left ..)
    (Nat.le_refl 3) (.single ⟨hw, hst⟩) List.mem_cons_self hrun hone
  exact ⟨_, more, _, data, answer, .single ⟨hw, hst⟩, hans more 3 4 otherAddr (Nat.le_refl more)
    (Nat.le_refl 3) (Nat.le_refl 4) (by decide)⟩

end Wormhole.L5.DhtFound
